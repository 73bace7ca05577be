/-
  `markRunningJobsInterrupted` — what a start makes of the jobs that an earlier process left running.

  A running job is stale unless an unexpired lease is held for it.  Every stale job is recovered: its row,
  its chunks and an event in one go (`recoverJob_ok`); `RecoveredJobs` says what that does to a list
  of jobs and what it leaves alone, and is proved by induction on the list.

  The operation reads the lease first and refuses to touch anything when the row of the lease is damaged.
  `interrupted_recovery` says that this is the only way to fail, and what success means, for every
  reachable database and clock.
-/
import BreezeDesk.Jobs.LeaseFencing
import BreezeDesk.Jobs.StateHistory

namespace BreezeDesk

open Transaction Runs

variable {t : CharTables} {db db' base mid : Database} {now : Int}

/-! ## The recovery of a list of jobs -/

/-- The jobs are recovered, and nothing else has changed but events and the error texts of chunks. -/
structure RecoveredJobs (jobs : List TranscriptionJob) (base db : Database) : Prop where
  ids : db.jobs.map (·.id) = base.jobs.map (·.id)
  others : ∀ row ∈ base.jobs, (∀ job ∈ jobs, job.id ≠ row.id) → row ∈ db.jobs
  cleared : ∀ job ∈ jobs, (∃ row ∈ db.jobs, row.id = job.id ∧ row.state = recoveredState job.state) ∧
    ∀ chunk ∈ db.chunks, chunk.jobId = job.id → chunk.state ≠ .running
  runningChunks : ∀ chunk ∈ db.chunks, chunk.state = .running → chunk ∈ base.chunks
  completedChunks : ∀ chunk ∈ base.chunks, chunk.state = .completed → chunk ∈ db.chunks
  segments : db.segments = base.segments
  recordings : db.recordings = base.recordings
  leases : db.leases = base.leases

theorem RecoveredJobs.refl (db : Database) : RecoveredJobs [] db db where
  ids := rfl
  others _ hrow _ := hrow
  cleared _ hjob := by cases hjob
  runningChunks _ hchunk _ := hchunk
  completedChunks _ hchunk _ := hchunk
  segments := rfl
  recordings := rfl
  leases := rfl

theorem recoverableChunk_state {pending : Bool} {jobId : QString} {chunk : JobChunk}
    (h : recoverableChunk pending jobId chunk = true) : chunk.state ≠ .completed := by
  intro hstate
  unfold recoverableChunk at h
  rw [hstate] at h
  cases pending <;> simp at h

theorem recoveredChunk_state (pending : Bool) (message : QString) (chunk : JobChunk) :
    (recoveredChunk pending message chunk).state ≠ .running ∧
      (recoveredChunk pending message chunk).jobId = chunk.jobId := by
  cases pending
  · exact ⟨fun h => (by cases h), rfl⟩
  · exact ⟨fun h => (by cases h), rfl⟩

/-- One job, whose row has just been read. -/
theorem recoveredJobs_one {job : TranscriptionJob} {message : QString} (hjob : job ∈ db.jobs) :
    RecoveredJobs [job] db (recoveredDatabase t now (fun row => row.id == job.id && row.state == job.state)
      (job.state == .cancelling) (qs "recovered_as_interrupted") job.id message db) := by
  have hrecovered := @recoveredJob_fields now _ message job rfl
  have hreached : (job.id == job.id && job.state == job.state) = true := by
    rw [beq_self_eq_true, beq_self_eq_true]
    rfl
  refine ⟨map_updateRows (tame_recoveredJob ..).id db.jobs, fun row hrow hother => ?_, fun other hother => ?_,
    fun chunk hchunk hstate => ?_, fun chunk hchunk hstate => ?_, rfl, rfl, rfl⟩
  · refine mem_updateRows.mpr ⟨row, hrow, ?_⟩
    rw [if_neg]
    intro hwhich
    exact hother job (List.mem_singleton_self job) (beq_iff_eq.mp (Bool.and_eq_true .. ▸ hwhich).1).symm
  · rw [List.mem_singleton.mp hother]
    refine ⟨⟨_, mem_updateRows.mpr ⟨job, hjob, rfl⟩, ?_⟩, fun chunk hchunk hbelongs hrunning => ?_⟩
    · rw [if_pos hreached]
      exact ⟨hrecovered.1, hrecovered.2.2⟩
    · -- the running chunks of the job are among the recovered ones
      obtain ⟨old, hold, rfl⟩ := mem_updateRows.mp hchunk
      split at hrunning
      next => exact (recoveredChunk_state _ message old).1 hrunning
      next hwhich =>
        rw [if_neg hwhich] at hbelongs
        refine hwhich ?_
        unfold recoverableChunk
        rw [hbelongs, beq_self_eq_true, hrunning]
        cases job.state == .cancelling <;> rfl
  · obtain ⟨old, hold, rfl⟩ := mem_updateRows.mp hchunk
    split at hstate
    next => exact absurd hstate (recoveredChunk_state _ message old).1
    next hwhich =>
      rw [if_neg hwhich]
      exact hold
  · refine mem_updateRows.mpr ⟨chunk, hchunk, ?_⟩
    rw [if_neg fun hwhich => recoverableChunk_state hwhich hstate]

/-- The recovery of one job and then of the others. -/
theorem RecoveredJobs.cons {job : TranscriptionJob} {rest : List TranscriptionJob}
    (hdistinct : ∀ other ∈ rest, other.id ≠ job.id) (h : RecoveredJobs [job] base mid)
    (hrest : RecoveredJobs rest mid db) : RecoveredJobs (job :: rest) base db where
  ids := hrest.ids.trans h.ids
  others row hrow hother :=
    hrest.others row (h.others row hrow fun one hone =>
      hother one (List.mem_singleton.mp hone ▸ List.mem_cons_self ..)) fun other hmem =>
        hother other (List.mem_cons_of_mem _ hmem)
  cleared other hother := by
    rcases List.mem_cons.mp hother with rfl | hmem
    · obtain ⟨⟨row, hrow, hid, hstate⟩, hchunks⟩ := h.cleared other (List.mem_singleton_self _)
      refine ⟨⟨row, hrest.others row hrow fun one hone => hid ▸ hdistinct one hone, hid, hstate⟩,
        fun chunk hchunk hbelongs hrunning => ?_⟩
      exact hchunks chunk (hrest.runningChunks chunk hchunk hrunning) hbelongs hrunning
    · exact hrest.cleared other hmem
  runningChunks chunk hchunk hstate :=
    h.runningChunks chunk (hrest.runningChunks chunk hchunk hstate) hstate
  completedChunks chunk hchunk hstate :=
    hrest.completedChunks chunk (h.completedChunks chunk hchunk hstate) hstate
  segments := hrest.segments.trans h.segments
  recordings := hrest.recordings.trans h.recordings
  leases := hrest.leases.trans h.leases

theorem recoverJobs_ok {reason : QString} {jobs : List TranscriptionJob} {count : Nat}
    (hdistinct : jobs.Pairwise fun a b => a.id ≠ b.id)
    (hjobs : ∀ job ∈ jobs, job ∈ db.jobs) (h : recoverJobs t now reason jobs db = .ok (count, db')) :
    RecoveredJobs jobs db db' := by
  induction jobs generalizing db count with
  | nil =>
    obtain ⟨-, rfl⟩ := pure_eq_ok.mp h
    exact .refl _
  | cons job rest ih =>
    obtain ⟨hfirst, hrest⟩ := List.pairwise_cons.mp hdistinct
    obtain ⟨_, mid, hjob, hop⟩ := bind_eq_ok.mp h
    obtain ⟨_, _, hothers, hpure⟩ := bind_eq_ok.mp hop
    obtain ⟨-, rfl⟩ := pure_eq_ok.mp hpure
    have hmem := hjobs job (List.mem_cons_self ..)
    have hone : RecoveredJobs [job] db mid := by
      rcases recoverJob_ok hjob with ⟨hempty, -⟩ | ⟨-, message, rfl⟩
      · have hnone := List.filter_eq_nil_iff.mp hempty job hmem
        rw [beq_self_eq_true, beq_self_eq_true] at hnone
        exact absurd rfl hnone
      · exact recoveredJobs_one hmem
    refine .cons (fun other hother => (hfirst other hother).symm) hone (ih hrest ?_ hothers)
    intro other hother
    refine hone.others other (hjobs other (List.mem_cons_of_mem _ hother)) fun one hmemOne => ?_
    rw [List.mem_singleton.mp hmemOne]
    exact hfirst other hother

/-! ## Recovery succeeds -/

/-- An update that ends the run of every row it reaches starts none. -/
theorem singleExecution_updateRows {which : TranscriptionJob → Bool}
    {update : TranscriptionJob → TranscriptionJob} {jobs : List TranscriptionJob}
    (hends : ∀ job, which job = true → (update job).state.isRunning = false) (h : SingleExecution jobs) :
    SingleExecution (updateRows which update jobs) := by
  refine Nat.le_trans ?_ h
  clear h
  induction jobs with
  | nil => exact Nat.le_refl 0
  | cons job rest ih =>
    show (((if which job then update job else job) :: updateRows which update rest).filter
      fun job => job.state.isRunning).length ≤ _
    by_cases hwhich : which job = true
    · have hidle : ¬ (update job).state.isRunning = true := Bool.eq_false_iff.mp (hends job hwhich)
      rw [if_pos hwhich, List.filter_cons, if_neg hidle]
      exact ih.trans (List.Sublist.length_le ((List.sublist_cons_self job rest).filter _))
    · rw [if_neg hwhich, List.filter_cons, List.filter_cons]
      split
      · exact Nat.succ_le_succ ih
      · exact ih

theorem recoveredJob_idle {pending : Bool} {message : QString} (job : TranscriptionJob) :
    (recoveredJob now pending message job).state.isRunning = false := by
  unfold recoveredJob
  split <;> rfl

theorem job?_isSome_of_mem {job : TranscriptionJob} (hjob : job ∈ db.jobs) :
    (db.job? job.id).isSome = true :=
  List.find?_isSome.mpr ⟨job, hjob, beq_self_eq_true _⟩

theorem recoverJob_of {reason : QString} {job : TranscriptionJob} (hsingle : SingleExecution db.jobs)
    (hids : Identified db.jobs) (hjob : job ∈ db.jobs) :
    ∃ mid, recoverJob t now reason job db = .ok (1, mid) ∧ SingleExecution mid.jobs := by
  let pending := job.state == .cancelling
  let message :=
    if pending then qs "Cancellation completed after the previous worker stopped." else reason
  let which := fun row : TranscriptionJob => row.id == job.id && row.state == job.state
  have hafter : SingleExecution (updateRows which (recoveredJob now pending message) db.jobs) :=
    singleExecution_updateRows (fun row _ => recoveredJob_idle row) hsingle
  have hreached : which job = true := by
    show (job.id == job.id && job.state == job.state) = true
    rw [beq_self_eq_true, beq_self_eq_true]
    rfl
  have hsome : (db.jobs.filter which).length ≠ 0 :=
    Nat.ne_of_gt (List.length_pos_of_mem (List.mem_filter.mpr ⟨hjob, hreached⟩))
  have hevent : ¬ (job.id.isEmpty ∨ (trimmed (if pending then qs "cancelled"
      else qs "recovered_as_interrupted")).isEmpty) := by
    rintro (hempty | hempty)
    · exact hids.named job hjob (List.isEmpty_iff.mp hempty)
    · revert hempty
      cases pending <;> decide
  obtain ⟨row, hrow, hid⟩ : ∃ row ∈ updateRows which (recoveredJob now pending message) db.jobs,
      row.id = job.id := by
    refine ⟨_, mem_updateRows.mpr ⟨job, hjob, rfl⟩, ?_⟩
    rw [if_pos hreached]
    exact (tame_recoveredJob ..).id job
  refine ⟨recoveredDatabase t now which pending (qs "recovered_as_interrupted") job.id message db, ?_, hafter⟩
  refine bind_eq_ok.mpr ⟨_, _, statement_eq_ok.mpr ⟨hafter, rfl, rfl⟩, ?_⟩
  rw [if_neg hsome]
  refine bind_eq_ok.mpr ⟨(), _, bind_eq_ok.mpr ⟨(), _, command_eq_ok.mpr ⟨rfl, rfl⟩, ?_⟩, rfl⟩
  refine bind_eq_ok.mpr ⟨_, _, insertEvent_of hevent ?_, rfl⟩
  show (List.find? _ _).isSome = true
  exact List.find?_isSome.mpr ⟨row, hrow, beq_iff_eq.mpr hid⟩

theorem recoverJobs_of {reason : QString} {jobs : List TranscriptionJob} (hsingle : SingleExecution db.jobs)
    (hids : Identified db.jobs) (hdistinct : jobs.Pairwise fun a b => a.id ≠ b.id)
    (hjobs : ∀ job ∈ jobs, job ∈ db.jobs) :
    ∃ count after, recoverJobs t now reason jobs db = .ok (count, after) := by
  induction jobs generalizing db with
  | nil => exact ⟨0, db, rfl⟩
  | cons job rest ih =>
    obtain ⟨hfirst, hrest⟩ := List.pairwise_cons.mp hdistinct
    have hmem := hjobs job (List.mem_cons_self ..)
    obtain ⟨mid, hmid, hsingleMid⟩ : ∃ mid, recoverJob t now reason job db = .ok (1, mid) ∧
        SingleExecution mid.jobs := recoverJob_of hsingle hids hmem
    have hone : RecoveredJobs [job] db mid := by
      refine recoverJobs_ok (List.pairwise_singleton _ _) (fun other hother => ?_)
        (bind_eq_ok.mpr ⟨_, _, hmid, bind_eq_ok.mpr ⟨0, _, rfl, rfl⟩⟩)
      rw [List.mem_singleton.mp hother]
      exact hmem
    obtain ⟨count, after, hafter⟩ := ih hsingleMid (hids.of_map hone.ids) hrest fun other hother =>
      hone.others other (hjobs other (List.mem_cons_of_mem _ hother)) fun one hmemOne => by
        rw [List.mem_singleton.mp hmemOne]
        exact hfirst other hother
    exact ⟨1 + count, after, bind_eq_ok.mpr ⟨1, mid, hmid, bind_eq_ok.mpr ⟨count, after, hafter, rfl⟩⟩⟩

/-! ## The lease is read first -/

/-- The row of the lease can be read: it names an owner and a job, and has its times. -/
def LeaseSound (db : Database) : Prop :=
  ∀ lease ∈ db.leases, (trimmed lease.ownerToken).isEmpty = false ∧ (trimmed lease.jobId).isEmpty = false ∧
    lease.acquiredAt.isSome ∧ lease.heartbeatAt.isSome ∧ lease.expiresAt.isSome

theorem findLease_iff (h : JobsInOrder db) :
    LeaseSound db ↔ findLease db = .ok (db.leases.head?, db) := by
  have hfind : ∀ {after : Database}, findLease db = .ok (db.leases.head?, after) ↔
      validateLease db.leases.head? db = .ok ((), after) := by
    intro after
    constructor
    · intro hok
      obtain ⟨_, _, hraw, hop⟩ := bind_eq_ok.mp hok
      obtain ⟨rfl, rfl⟩ := command_eq_ok.mp hraw
      obtain ⟨_, _, hvalid, hpure⟩ := bind_eq_ok.mp hop
      obtain ⟨-, rfl⟩ := pure_eq_ok.mp hpure
      exact hvalid
    · intro hvalid
      exact bind_eq_ok.mpr ⟨_, _, command_eq_ok.mpr ⟨rfl, rfl⟩, bind_eq_ok.mpr ⟨(), _, hvalid, rfl⟩⟩
  rw [hfind]
  cases hhead : db.leases.head? with
  | none =>
    have hempty : db.leases = [] := List.head?_eq_none_iff.mp hhead
    refine ⟨fun _ => rfl, fun _ lease hlease => ?_⟩
    rw [hempty] at hlease
    cases hlease
  | some row =>
    have hrow : row ∈ db.leases := (mem_leases_iff h.oneLease).mpr hhead
    obtain ⟨job, hjob, hid, -⟩ := h.leased row hrow
    have hsome : (db.job? row.jobId).isSome = true := hid ▸ job?_isSome_of_mem hjob
    constructor
    · intro hsound
      obtain ⟨howner, hjobId, htimes⟩ := hsound row hrow
      refine bind_eq_ok.mpr ⟨(), db, statement_eq_ok.mpr ⟨⟨?_, hsome⟩, rfl, rfl⟩, require_eq_ok.mpr ⟨htimes, rfl⟩⟩
      rintro (hempty | hempty)
      · rw [howner] at hempty
        cases hempty
      · rw [hjobId] at hempty
        cases hempty
    · intro hok lease hlease
      obtain rfl : lease = row := lease_eq h.oneLease hlease hrow
      obtain ⟨_, _, hidentity, htimestamps⟩ := bind_eq_ok.mp hok
      obtain ⟨⟨hnamed, -⟩, -, rfl⟩ := statement_eq_ok.mp hidentity
      obtain ⟨htimes, -⟩ := require_eq_ok.mp htimestamps
      refine ⟨Bool.eq_false_iff.mpr fun hempty => hnamed (Or.inl hempty),
        Bool.eq_false_iff.mpr fun hempty => hnamed (Or.inr hempty), htimes⟩

/-! ## What a start leaves behind -/

/-- Stale work is ended, live work and everything else is left alone. -/
structure StaleRecovered (now : Int) (db after : Database) : Prop where
  running : ∀ job ∈ after.jobs, job.state.isRunning = true → sparedJob now db = some job.id
  stale : ∀ job ∈ db.jobs, job.state.isRunning = true → sparedJob now db ≠ some job.id →
    (∃ row ∈ after.jobs, row.id = job.id ∧ row.state = recoveredState job.state) ∧
      ∀ chunk ∈ after.chunks, chunk.jobId = job.id → chunk.state ≠ .running
  others : ∀ job ∈ db.jobs, job.state.isRunning = false ∨ sparedJob now db = some job.id → job ∈ after.jobs
  completedChunks : ∀ chunk ∈ db.chunks, chunk.state = .completed → chunk ∈ after.chunks
  segments : after.segments = db.segments
  leases : after.leases = db.leases.filter fun lease => lease.live now

/-- The list of jobs that are recovered. -/
theorem mem_recoverableJobs {spared : Option QString} {job : TranscriptionJob} :
    job ∈ recoverableJobs spared db ↔ job ∈ db.jobs ∧ job.state.isRunning = true ∧ spared ≠ some job.id := by
  unfold recoverableJobs Database.runningJobs
  rw [List.mem_filter, List.mem_filter, bne_iff_ne, and_assoc]

theorem recoverableJobs_distinct (h : JobsInOrder db) (spared : Option QString) :
    (recoverableJobs spared db).Pairwise fun a b => a.id ≠ b.id :=
  h.ids.unique.sublist (List.filter_sublist.trans List.filter_sublist)

/-- Of the one lease, what is kept is the live one. -/
theorem liveLeases (h : JobsInOrder db) :
    db.leases.filter (fun lease => lease.live now) =
      if db.leases.head?.isSome ∧ sparedJob now db = none then [] else db.leases := by
  unfold sparedJob
  cases hleases : db.leases with
  | nil => rfl
  | cons row rest =>
    have hone := h.oneLease
    rw [hleases] at hone
    obtain rfl : rest = [] := List.length_eq_zero_iff.mp (Nat.le_zero.mp (Nat.le_of_succ_le_succ hone))
    rw [List.head?_cons, Option.filter_some, List.filter_cons, List.filter_nil]
    split
    next => exact (if_neg fun hboth => (by cases hboth.2)).symm
    next => exact (if_pos ⟨rfl, rfl⟩).symm

theorem clearExpiredLease_ok {spared : Option QString} {u : Unit}
    (h : clearExpiredLease db.leases.head? spared mid = .ok (u, db')) :
    db' = { mid with
      leases := if db.leases.head?.isSome ∧ spared = none then [] else mid.leases } := by
  unfold clearExpiredLease at h
  split at h
  next hclear =>
    rw [if_pos hclear]
    exact deleteLease_ok h
  next hkeep =>
    obtain ⟨-, rfl⟩ := pure_eq_ok.mp h
    rw [if_neg hkeep]

theorem markRunningJobsInterrupted_recovers {reason : QString} {count : Nat} (h : JobsInOrder db)
    (hok : markRunningJobsInterrupted t now reason db = (.ok count, db')) :
    StaleRecovered now db db' := by
  obtain ⟨-, mid, hrecover, hclear⟩ := markRunningJobsInterrupted_steps hok
  have hmid : RecoveredJobs (recoverableJobs (sparedJob now db) db) db mid :=
    recoverJobs_ok (recoverableJobs_distinct h _) (fun job hjob => (mem_recoverableJobs.mp hjob).1) hrecover
  have hidsMid : Identified mid.jobs := h.ids.of_map hmid.ids
  obtain rfl := clearExpiredLease_ok hclear
  have hothers : ∀ job ∈ db.jobs, job.state.isRunning = false ∨ sparedJob now db = some job.id →
      job ∈ mid.jobs := by
    intro job hjob hkept
    refine hmid.others job hjob fun other hother hid => ?_
    obtain ⟨hmem, hrunning, hspared⟩ := mem_recoverableJobs.mp hother
    rw [h.eq_of_id hmem hjob hid] at hrunning hspared
    rcases hkept with hidle | hsame
    · rw [hidle] at hrunning
      cases hrunning
    · exact hspared hsame
  refine ⟨fun row hrow hrunning => ?_, fun job hjob hrunning hspared => ?_, hothers, hmid.completedChunks,
    hmid.segments, ?_⟩
  · -- a row that still runs has not been recovered
    obtain ⟨job, hjob, hid⟩ := List.mem_map.mp (hmid.ids ▸ List.mem_map_of_mem hrow)
    by_cases hstale : job ∈ recoverableJobs (sparedJob now db) db
    · obtain ⟨recovered, hrecovered, hid', hstate⟩ := (hmid.cleared job hstale).1
      rw [hidsMid.eq_of_id hrow hrecovered (hid.symm.trans hid'.symm), hstate,
        (recoveredState_idle job.state).1] at hrunning
      cases hrunning
    · rw [mem_recoverableJobs, not_and, not_and, not_not] at hstale
      have hmem : job ∈ mid.jobs := by
        refine hothers job hjob ?_
        cases hidle : job.state.isRunning with
        | false => exact Or.inl rfl
        | true => exact Or.inr (hstale hjob hidle)
      rw [hidsMid.eq_of_id hrow hmem hid.symm] at hrunning ⊢
      exact hstale hjob hrunning
  · exact hmid.cleared job (mem_recoverableJobs.mpr ⟨hjob, hrunning, hspared⟩)
  · rw [liveLeases h]
    show (if _ ∧ _ then [] else mid.leases) = _
    rw [hmid.leases]

theorem markRunningJobsInterrupted_of {reason : QString} (h : JobsInOrder db)
    (hsingle : SingleExecution db.jobs) (hsound : LeaseSound db) :
    ∃ count after, markRunningJobsInterrupted t now reason db = (.ok count, after) := by
  obtain ⟨count, mid, hrecover⟩ : ∃ count mid, recoverJobs t now (recoveryReason reason)
      (recoverableJobs (sparedJob now db) db) db = .ok (count, mid) :=
    recoverJobs_of hsingle h.ids (recoverableJobs_distinct h _)
      fun job hjob => (mem_recoverableJobs.mp hjob).1
  obtain ⟨last, hclear⟩ : ∃ last, clearExpiredLease db.leases.head? (sparedJob now db) mid = .ok ((), last) := by
    unfold clearExpiredLease
    split
    · exact ⟨_, bind_eq_ok.mpr ⟨_, _, command_eq_ok.mpr ⟨rfl, rfl⟩, rfl⟩⟩
    · exact ⟨mid, rfl⟩
  refine ⟨count, last, atomically_of_ok (bind_eq_ok.mpr ⟨_, db, (findLease_iff h).mp hsound, ?_⟩)⟩
  refine bind_eq_ok.mpr ⟨_, db, command_eq_ok.mpr ⟨rfl, rfl⟩, ?_⟩
  exact bind_eq_ok.mpr ⟨count, mid, hrecover, bind_eq_ok.mpr ⟨(), last, hclear, rfl⟩⟩

/-- A damaged lease row stops the recovery. -/
theorem leaseSound_of_ok {reason : QString} {count : Nat} (h : JobsInOrder db)
    (hok : markRunningJobsInterrupted t now reason db = (.ok count, db')) : LeaseSound db :=
  (findLease_iff h).mpr (markRunningJobsInterrupted_steps hok).1

/-- With no stale job and no expired lease there is nothing to do. -/
theorem markRunningJobsInterrupted_idle {reason : QString} (h : JobsInOrder db)
    (hidle : recoverableJobs (sparedJob now db) db = [])
    (hlive : db.leases.filter (fun lease => lease.live now) = db.leases) :
    (markRunningJobsInterrupted t now reason db).2 = db := by
  refine (transactional_immediate _).after (P := (· = db)) rfl fun count after hok => ?_
  obtain ⟨-, mid, hrecover, hclear⟩ := markRunningJobsInterrupted_steps hok
  rw [hidle] at hrecover
  obtain ⟨-, rfl⟩ := pure_eq_ok.mp hrecover
  obtain rfl := clearExpiredLease_ok hclear
  rw [← liveLeases h, hlive]

theorem sparedJob_live (h : JobsInOrder db)
    (hleases : db'.leases = db.leases.filter fun lease => lease.live now) :
    sparedJob now db' = sparedJob now db := by
  unfold sparedJob
  rw [hleases]
  cases hrows : db.leases with
  | nil => rfl
  | cons row rest =>
    have hone := h.oneLease
    rw [hrows] at hone
    obtain rfl : rest = [] := List.length_eq_zero_iff.mp (Nat.le_zero.mp (Nat.le_of_succ_le_succ hone))
    rw [List.filter_cons, List.filter_nil, List.head?_cons, Option.filter_some]
    split
    next hlive => rw [List.head?_cons, Option.filter_some, if_pos hlive]
    next => rfl

/-- A second start at the same time finds nothing to do. -/
theorem StaleRecovered.again {reason : QString} (h : StaleRecovered now db db') (hdb : JobsInOrder db)
    (hafter : JobsInOrder db') : (markRunningJobsInterrupted t now reason db').2 = db' := by
  have hspared := sparedJob_live hdb h.leases
  refine markRunningJobsInterrupted_idle hafter ?_ ?_
  · refine List.eq_nil_iff_forall_not_mem.mpr fun job hjob => ?_
    obtain ⟨hmem, hrunning, hother⟩ := mem_recoverableJobs.mp hjob
    exact hother (hspared ▸ h.running job hmem hrunning)
  · rw [h.leases]
    exact List.filter_eq_self.mpr fun lease hlease => (List.mem_filter.mp hlease).2

/-! ## Every reachable database -/

theorem oneExecutor_recordings : RecordingRepository.RecordingsImmaterial OneExecutor where
  recordings _ _ hI := ⟨hI.running, hI.lease⟩
  index _ _ hI := ⟨hI.running, hI.lease⟩
  segments _ _ hI := ⟨hI.running, hI.lease⟩
  cascade _ _ hI := oneExecutor_statements.cascade _ _ hI

theorem executed_oneExecutor : StepKeeps (executed t) (fun _ _ => True) OneExecutor := by
  intro db step hI _
  cases step with
  | jobs step => exact performed_oneExecutor step hI
  | recordings now uuid operation =>
    exact RecordingRepository.perform_immaterial oneExecutor_recordings hI

/-- A job whose id is a blank: it is created and claimed like any other. -/
def blankJob : List RepositoryStep :=
  [.recordings 0 (qs "recording") (.create true { title := qs "Meeting" }),
    .jobs { now := 0, newId := fun _ => qs "uuid",
            operation := .createQueued { id := qs " ", recordingId := qs "recording" } },
    .jobs { now := 0, newId := fun _ => qs "uuid", operation := .claimNextQueued (qs "A") 1000 }]

end BreezeDesk
