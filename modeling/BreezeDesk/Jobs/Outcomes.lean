/-
  What the operations that move a job do when they succeed.

  Each has one inversion lemma, so that its callers never look inside: `createQueued_ok`,
  `markRunningJobsInterrupted_ok`, `claimInDatabase_ok` and `transition_ok`; `completeAndActivate_ok` is
  with the invariants.  A recovery is the same for a claim over an expired lease and for
  `markRunningJobsInterrupted`: `Recovering` is its invariant, from statement to statement.

  `JobsInOrder` is what these lemmas need of the database before.
-/
import BreezeDesk.Jobs.Invariants

namespace BreezeDesk

open Transaction

variable {t : CharTables} {db db' base : Database} {now : Int} {spared : Option QString}

/-! ## Jobs in order -/

/-- Every job has an id of its own. -/
structure Identified (jobs : List TranscriptionJob) : Prop where
  unique : jobs.Pairwise fun a b => a.id ≠ b.id
  named : ∀ job ∈ jobs, job.id ≠ []

/-- Jobs with ids, at most one lease, and the leased job runs. -/
structure JobsInOrder (db : Database) : Prop where
  ids : Identified db.jobs
  oneLease : db.leases.length ≤ 1
  leased : ∀ lease ∈ db.leases, ∃ job ∈ db.jobs, job.id = lease.jobId ∧ job.state.isRunning = true

theorem Identified.eq_of_id {jobs : List TranscriptionJob} (h : Identified jobs) {a b : TranscriptionJob}
    (ha : a ∈ jobs) (hb : b ∈ jobs) (hid : a.id = b.id) : a = b :=
  List.inj_on_of_nodup_map (List.pairwise_map.mpr h.unique) ha hb hid

theorem Identified.of_map {old new : List TranscriptionJob} (h : Identified old)
    (hmap : new.map (·.id) = old.map (·.id)) : Identified new where
  unique := List.pairwise_map.mp (hmap ▸ List.pairwise_map.mpr h.unique)
  named job hjob := by
    obtain ⟨before, hbefore, hid⟩ := List.mem_map.mp (hmap ▸ List.mem_map_of_mem hjob)
    exact hid ▸ h.named before hbefore

theorem Identified.filter {jobs : List TranscriptionJob} (h : Identified jobs)
    (keep : TranscriptionJob → Bool) : Identified (jobs.filter keep) where
  unique := h.unique.sublist List.filter_sublist
  named job hjob := h.named job (List.mem_filter.mp hjob).1

theorem Identified.append {jobs : List TranscriptionJob} (h : Identified jobs) {job : TranscriptionJob}
    (hfresh : ∀ other ∈ jobs, other.id ≠ job.id) (hnamed : job.id ≠ []) : Identified (jobs ++ [job]) where
  unique := by
    refine List.pairwise_append.mpr ⟨h.unique, List.pairwise_singleton _ _, fun a ha b hb => ?_⟩
    rw [List.mem_singleton.mp hb]
    exact hfresh a ha
  named other hother := by
    rcases List.mem_append.mp hother with hold | hnew
    · exact h.named other hold
    · exact List.mem_singleton.mp hnew ▸ hnamed

theorem identified_updateRows {which : TranscriptionJob → Bool}
    {update : TranscriptionJob → TranscriptionJob} (hid : ∀ job, (update job).id = job.id)
    {jobs : List TranscriptionJob} (h : Identified jobs) : Identified (updateRows which update jobs) :=
  h.of_map (map_updateRows hid jobs)

theorem JobsInOrder.eq_of_id (h : JobsInOrder db) {a b : TranscriptionJob} (ha : a ∈ db.jobs)
    (hb : b ∈ db.jobs) (hid : a.id = b.id) : a = b :=
  h.ids.eq_of_id ha hb hid

theorem JobsInOrder.job?_eq (h : JobsInOrder db) {job : TranscriptionJob} (hjob : job ∈ db.jobs) :
    db.job? job.id = some job := by
  cases hfound : db.job? job.id with
  | none =>
    have hnone := List.find?_eq_none.mp hfound job hjob
    rw [beq_self_eq_true] at hnone
    exact absurd rfl hnone
  | some found =>
    obtain ⟨hmem, hid⟩ := of_job? hfound
    rw [h.eq_of_id hmem hjob hid]

/-! ## Creating a job -/

/-- The row of the new job, behind the queue. -/
def queuedRow (now : Int) (uuid : QString) (job : TranscriptionJob) (db : Database) : TranscriptionJob :=
  { newJob now uuid job with
    queuePosition := nextQueuePosition db
    createdAt := storedTime (newJob now uuid job).createdAt }

theorem createQueued_ok {uuid : QString} {job created : TranscriptionJob}
    (h : createQueued t now uuid job db = (.ok created, db')) :
    let row := queuedRow now uuid job db
    JobInsertable db row ∧ row.id ≠ [] ∧
      db' = ({ db with jobs := db.jobs ++ [row] } : Database).withEvent
        (normalizedEvent t now (enqueuedEvent row)) := by
  unfold createQueued at h
  split at h
  · cases h
  obtain ⟨_, _, hposition, hop1⟩ := bind_eq_ok.mp (immediateTransaction_ok h)
  obtain ⟨rfl, rfl⟩ := command_eq_ok.mp hposition
  obtain ⟨_, _, hinsert, hop2⟩ := bind_eq_ok.mp hop1
  obtain ⟨hinsertable, -, rfl⟩ := statement_eq_ok.mp hinsert
  obtain ⟨_, _, hevent, hop3⟩ := bind_eq_ok.mp hop2
  obtain ⟨hnamed, rfl⟩ := insertEvent_ok hevent
  obtain ⟨-, rfl⟩ := pure_eq_ok.mp hop3
  exact ⟨hinsertable, hnamed, rfl⟩

theorem not_mem_of_insertable {job : TranscriptionJob} (h : JobInsertable db job) :
    ∀ before ∈ db.jobs, before.id ≠ job.id := by
  intro before hbefore hid
  have hnone := List.find?_eq_none.mp (Option.isNone_iff_eq_none.mp h.1) before hbefore
  rw [hid, beq_self_eq_true] at hnone
  exact hnone rfl

/-! ## Recovering jobs -/

/-- The state of a running job after its recovery. -/
def recoveredState (state : JobState) : JobState :=
  if state = .cancelling then .cancelled else .interrupted

theorem recoveredState_mem {state : JobState} (h : state.isRunning = true) :
    recoveredState state ∈ transitions state := by
  cases state <;> first | decide | cases h

theorem recoveredState_idle (state : JobState) :
    (recoveredState state).isRunning = false ∧ recoveredState state ≠ .queued := by
  unfold recoveredState
  split
  · exact ⟨rfl, fun h => (by cases h)⟩
  · exact ⟨rfl, fun h => (by cases h)⟩

theorem recoveredJob_fields {pending : Bool} {message : QString} (job : TranscriptionJob)
    (hpending : (job.state == .cancelling) = pending) :
    (recoveredJob now pending message job).id = job.id ∧
      (recoveredJob now pending message job).recordingId = job.recordingId ∧
      (recoveredJob now pending message job).state = recoveredState job.state := by
  subst hpending
  unfold recoveredJob recoveredState
  by_cases h : job.state = .cancelling
  · rw [if_pos (beq_iff_eq.mpr h), if_pos h]
    exact ⟨rfl, rfl, rfl⟩
  · rw [if_neg (fun heq => h (beq_iff_eq.mp heq)), if_neg h]
    exact ⟨rfl, rfl, rfl⟩

/-- A recovery in progress: running jobs that are not spared may have been recovered. -/
structure Recovering (spared : Option QString) (base db : Database) : Prop where
  ids : Identified db.jobs
  oneLease : db.leases.length ≤ 1
  leases : ∀ lease ∈ db.leases, ∃ old ∈ base.leases, old.jobId = lease.jobId
  recordings : db.recordings = base.recordings
  rows : ∀ job ∈ db.jobs, ∃ before ∈ base.jobs, before.id = job.id ∧ before.recordingId = job.recordingId ∧
    (before.state = job.state ∨ before.state.isRunning = true ∧ job.state = recoveredState before.state)
  kept : ∀ before ∈ base.jobs, before.state.isRunning = false ∨ spared = some before.id →
    ∃ job ∈ db.jobs, job.id = before.id ∧ job.recordingId = before.recordingId ∧ job.state = before.state

theorem recovering_refl (h : JobsInOrder db) (spared : Option QString) : Recovering spared db db where
  ids := h.ids
  oneLease := h.oneLease
  leases lease hlease := ⟨lease, hlease, rfl⟩
  recordings := rfl
  rows job hjob := ⟨job, hjob, rfl, rfl, Or.inl rfl⟩
  kept before hbefore _ := ⟨before, hbefore, rfl, rfl, rfl⟩

theorem recovering_calm : CalmKeep Calm (Recovering spared base) where
  jobs db which update hcalm hI _ := by
    refine ⟨identified_updateRows hcalm.id hI.ids, hI.oneLease, hI.leases, hI.recordings, fun job hjob => ?_,
      fun before hbefore hidle => ?_⟩
    · obtain ⟨old, hold, rfl⟩ := mem_updateRows.mp hjob
      obtain ⟨before, hbefore, hsame⟩ := hI.rows old hold
      refine ⟨before, hbefore, ?_⟩
      split
      · rw [hcalm.id, hcalm.recordingId, hcalm.state]
        exact hsame
      · exact hsame
    · obtain ⟨old, hold, hid, hrecording, hstate⟩ := hI.kept before hbefore hidle
      refine ⟨_, mem_updateRows.mpr ⟨old, hold, rfl⟩, ?_⟩
      split
      · rw [hcalm.id, hcalm.recordingId, hcalm.state]
        exact ⟨hid, hrecording, hstate⟩
      · exact ⟨hid, hrecording, hstate⟩
  chunks _ _ hI := ⟨hI.ids, hI.oneLease, hI.leases, hI.recordings, hI.rows, hI.kept⟩
  detach _ _ hI := ⟨hI.ids, hI.oneLease, hI.leases, hI.recordings, hI.rows, hI.kept⟩
  events _ _ _ hI := ⟨hI.ids, hI.oneLease, hI.leases, hI.recordings, hI.rows, hI.kept⟩
  leases db leases hI hlength hfrom := by
    refine ⟨hI.ids, hlength.trans hI.oneLease, fun lease hlease => ?_, hI.recordings, hI.rows, hI.kept⟩
    obtain ⟨mid, hmid, hid⟩ := hfrom lease hlease
    obtain ⟨old, hold, hid'⟩ := hI.leases mid hmid
    exact ⟨old, hold, hid'.trans hid⟩

/-- **The update of a recovery** reaches running jobs that are not spared. -/
theorem keeps_recoverRow {which : TranscriptionJob → Bool} {pending : Bool} {message : QString}
    {text : String}
    (hwhich : ∀ job, which job = true →
      job.state.isRunning = true ∧ (job.state == .cancelling) = pending ∧ spared ≠ some job.id) :
    Keeps (Recovering spared base) (updateJobs which (recoveredJob now pending message) text) := by
  refine keeps_statement fun db hI _ => ?_
  have hid : ∀ job, (recoveredJob now pending message job).id = job.id := (tame_recoveredJob ..).id
  refine ⟨identified_updateRows hid hI.ids, hI.oneLease, hI.leases, hI.recordings, fun job hjob => ?_,
    fun before hbefore hidle => ?_⟩
  · obtain ⟨old, hold, rfl⟩ := mem_updateRows.mp hjob
    obtain ⟨before, hbefore, hsame, hrecording, hstate⟩ := hI.rows old hold
    refine ⟨before, hbefore, ?_⟩
    split
    next hreached =>
      obtain ⟨hrunning, hpending, -⟩ := hwhich old hreached
      obtain ⟨hid', hrecording', hstate'⟩ := @recoveredJob_fields now pending message old hpending
      rw [hid', hrecording', hstate']
      rcases hstate with heq | ⟨-, heq⟩
      · exact ⟨hsame, hrecording, Or.inr ⟨heq ▸ hrunning, heq ▸ rfl⟩⟩
      · -- a recovered job does not run
        rw [heq, (recoveredState_idle before.state).1] at hrunning
        cases hrunning
    next => exact ⟨hsame, hrecording, hstate⟩
  · obtain ⟨old, hold, hsame, hrecording, hstate⟩ := hI.kept before hbefore hidle
    refine ⟨old, mem_updateRows.mpr ⟨old, hold, ?_⟩, hsame, hrecording, hstate⟩
    rw [if_neg]
    intro hreached
    obtain ⟨hrunning, -, hspared⟩ := hwhich old hreached
    rcases hidle with hstopped | hkept
    · rw [hstate, hstopped] at hrunning
      cases hrunning
    · exact hspared (hsame ▸ hkept)

/-- The database once a job has been recovered. -/
def recoveredDatabase (t : CharTables) (now : Int) (which : TranscriptionJob → Bool) (pending : Bool)
    (eventType jobId message : QString) (db : Database) : Database :=
  ({ db with
    jobs := updateRows which (recoveredJob now pending message) db.jobs
    chunks := updateRows (recoverableChunk pending jobId) (recoveredChunk pending message) db.chunks } :
      Database).withEvent (normalizedEvent t now (recoveryEvent pending eventType jobId message))

theorem recoverChunks_ok {pending : Bool} {eventType jobId message : QString} {u : Unit}
    (h : recoverChunks t now pending eventType jobId message db = .ok (u, db')) :
    db' = ({ db with
      chunks := updateRows (recoverableChunk pending jobId) (recoveredChunk pending message) db.chunks } :
        Database).withEvent (normalizedEvent t now (recoveryEvent pending eventType jobId message)) := by
  obtain ⟨_, _, hchunks, hop1⟩ := bind_eq_ok.mp h
  obtain ⟨-, rfl⟩ := command_eq_ok.mp hchunks
  obtain ⟨_, _, hevent, hpure⟩ := bind_eq_ok.mp hop1
  obtain ⟨-, rfl⟩ := insertEvent_ok hevent
  exact (pure_eq_ok.mp hpure).2

/-- **The recovery of one job**, unless it has changed its state since it was listed. -/
theorem recoverJob_ok {reason : QString} {job : TranscriptionJob} {count : Nat}
    (h : recoverJob t now reason job db = .ok (count, db')) :
    (db.jobs.filter (fun row => row.id == job.id && row.state == job.state) = [] ∧ db' = db) ∨
      db.jobs.filter (fun row => row.id == job.id && row.state == job.state) ≠ [] ∧
        ∃ message, db' = recoveredDatabase t now (fun row => row.id == job.id && row.state == job.state)
          (job.state == .cancelling) (qs "recovered_as_interrupted") job.id message db := by
  obtain ⟨affected, _, hupdate, hop1⟩ := bind_eq_ok.mp h
  obtain ⟨-, haffected, rfl⟩ := statement_eq_ok.mp hupdate
  split at hop1
  next hnone =>
    obtain ⟨-, rfl⟩ := pure_eq_ok.mp hop1
    have hempty := List.length_eq_zero_iff.mp (haffected.symm.trans hnone)
    exact Or.inl ⟨hempty, by rw [updateRows_of_none hempty]⟩
  next hsome =>
    obtain ⟨_, _, hchunks, hpure⟩ := bind_eq_ok.mp hop1
    obtain ⟨-, rfl⟩ := pure_eq_ok.mp hpure
    refine Or.inr ⟨fun hempty => hsome ?_, _, recoverChunks_ok hchunks⟩
    rw [haffected, hempty]
    rfl

/-! ## Recovering running jobs -/

theorem deleteLease_ok {u : Unit} (h : deleteLease db = .ok (u, db')) : db' = { db with leases := [] } := by
  obtain ⟨_, _, hdelete, hpure⟩ := bind_eq_ok.mp h
  obtain ⟨-, rfl⟩ := command_eq_ok.mp hdelete
  obtain ⟨-, rfl⟩ := pure_eq_ok.mp hpure
  have hnone : (db.leases.filter fun _ => !true) = [] := List.filter_eq_nil_iff.mpr fun _ _ h => (by cases h)
  rw [hnone]

/-- The rows that `recoverableJobs` finds, and no others, are recovered. -/
theorem keeps_recoverJobs_recovering {reason : QString} {jobs : List TranscriptionJob}
    (hjobs : ∀ job ∈ jobs, job.state.isRunning = true ∧ spared ≠ some job.id) :
    Keeps (Recovering spared base) (recoverJobs t now reason jobs) := by
  induction jobs with
  | nil => exact keeps_pure _
  | cons job rest ih =>
    obtain ⟨hrunning, hspared⟩ := hjobs job (List.mem_cons_self ..)
    refine keeps_bind (keeps_bind ?_ fun _ => keeps_ite (keeps_pure _) ?_) fun _ =>
      keeps_bind (ih fun other hother => hjobs other (List.mem_cons_of_mem _ hother)) fun _ => keeps_pure _
    · refine keeps_recoverRow fun row hrow => ?_
      rw [Bool.and_eq_true, beq_iff_eq, beq_iff_eq] at hrow
      obtain ⟨hid, hstate⟩ := hrow
      rw [hid, hstate]
      exact ⟨hrunning, rfl, hspared⟩
    · exact keeps_bind (keeps_recoverChunks recovering_calm) fun _ => keeps_pure _

/-- The job of an unexpired lease. -/
def sparedJob (now : Int) (db : Database) : Option QString :=
  (db.leases.head?.filter fun lease => lease.live now).map (·.jobId)

theorem markRunningJobsInterrupted_steps {reason : QString} {count : Nat}
    (h : markRunningJobsInterrupted t now reason db = (.ok count, db')) :
    findLease db = .ok (db.leases.head?, db) ∧
      ∃ mid, recoverJobs t now (recoveryReason reason) (recoverableJobs (sparedJob now db) db) db =
          .ok (count, mid) ∧
        clearExpiredLease db.leases.head? (sparedJob now db) mid = .ok ((), db') := by
  obtain ⟨_, db0, hfind, hop1⟩ := bind_eq_ok.mp (immediateTransaction_ok h)
  obtain ⟨rfl, hdb0⟩ := findLease_ok hfind
  subst db0
  obtain ⟨_, db1, hquery, hop2⟩ := bind_eq_ok.mp hop1
  obtain ⟨rfl, hdb1⟩ := command_eq_ok.mp hquery
  subst db1
  obtain ⟨_, mid, hrecover, hop3⟩ := bind_eq_ok.mp hop2
  obtain ⟨_, last, hclear, hpure⟩ := bind_eq_ok.mp hop3
  obtain ⟨rfl, rfl⟩ := pure_eq_ok.mp hpure
  exact ⟨hfind, mid, hrecover, hclear⟩

theorem markRunningJobsInterrupted_ok {reason : QString} {count : Nat} (hdb : JobsInOrder db)
    (h : markRunningJobsInterrupted t now reason db = (.ok count, db')) :
    Recovering (sparedJob now db) db db' ∧ ∀ lease ∈ db'.leases, sparedJob now db = some lease.jobId := by
  obtain ⟨-, mid, hrecover, hclear⟩ := markRunningJobsInterrupted_steps h
  have hmid : Recovering (sparedJob now db) db mid := by
    refine keeps_recoverJobs_recovering (fun job hjob => ?_) _ _ _ (recovering_refl hdb _) hrecover
    obtain ⟨hrunning, hother⟩ := List.mem_filter.mp hjob
    exact ⟨(List.mem_filter.mp hrunning).2, bne_iff_ne.mp hother⟩
  unfold clearExpiredLease at hclear
  split at hclear
  next =>
    obtain rfl := deleteLease_ok hclear
    exact ⟨⟨hmid.ids, Nat.zero_le 1, fun _ hlease => (by cases hlease), hmid.recordings, hmid.rows,
      hmid.kept⟩, fun _ hlease => (by cases hlease)⟩
  next hkept =>
    obtain ⟨-, rfl⟩ := pure_eq_ok.mp hclear
    refine ⟨hmid, fun lease hlease => ?_⟩
    obtain ⟨old, hold, hid⟩ := hmid.leases lease hlease
    have hhead : db.leases.head? = some old := (mem_leases_iff hdb.oneLease).mp hold
    unfold sparedJob at hkept ⊢
    rw [hhead, Option.filter_some] at hkept ⊢
    split at hkept
    next hlive =>
      rw [if_pos hlive]
      exact congrArg some hid
    next => exact absurd ⟨rfl, rfl⟩ hkept

/-! ## Claiming a job -/

/-- The recovery of the job of an expired lease, when it still runs. -/
theorem recoverExpiredJob_ok {expiredJobId : QString} {u : Unit}
    (h : recoverExpiredJob t now expiredJobId db = .ok (u, db')) :
    db' = db ∨ ∃ which pending message,
      (∀ job, which job = true →
        job.id = expiredJobId ∧ job.state.isRunning = true ∧ (job.state == .cancelling) = pending) ∧
      db.jobs.filter which ≠ [] ∧
      db' = recoveredDatabase t now which pending (qs "lease_expired") expiredJobId message db := by
  obtain ⟨found, _, hfind, hop1⟩ := bind_eq_ok.mp h
  obtain ⟨-, rfl⟩ := command_eq_ok.mp hfind
  obtain ⟨affected, _, hupdate, hop2⟩ := bind_eq_ok.mp hop1
  obtain ⟨-, haffected, rfl⟩ := statement_eq_ok.mp hupdate
  split at hop2
  next hsome =>
    refine Or.inr ⟨_, _, _, fun job hjob => ?_, fun hempty => ?_, recoverChunks_ok hop2⟩
    · rw [Bool.and_eq_true, beq_iff_eq] at hjob
      refine ⟨hjob.1, ?_⟩
      have hstate := hjob.2
      split at hstate
      next hpending =>
        rw [beq_iff_eq.mp hstate, hpending]
        exact ⟨rfl, rfl⟩
      next hpending =>
        rw [Bool.and_eq_true, bne_iff_ne] at hstate
        rw [Bool.eq_false_iff.mpr hpending]
        exact ⟨hstate.1, beq_eq_false_iff_ne.mpr hstate.2⟩
    · rw [haffected, hempty] at hsome
      cases hsome
  next hnone =>
    obtain ⟨-, rfl⟩ := pure_eq_ok.mp hop2
    have hempty := List.length_eq_zero_iff.mp (haffected.symm.trans (Nat.eq_zero_of_not_pos hnone))
    rw [updateRows_of_none hempty]
    exact Or.inl rfl

/-- A claim begins once no lease is left. -/
theorem recoverExpiredLease_ok {u : Unit} (hdb : JobsInOrder db)
    (h : recoverExpiredLease t now db.leases.head? db = .ok (u, db')) :
    Recovering none db db' ∧ db'.leases = [] := by
  cases hlease : db.leases.head? with
  | none =>
    rw [hlease] at h
    obtain ⟨-, rfl⟩ := pure_eq_ok.mp h
    exact ⟨recovering_refl hdb none, List.head?_eq_none_iff.mp hlease⟩
  | some expired =>
    rw [hlease] at h
    obtain ⟨_, mid, hrecover, hdelete⟩ := bind_eq_ok.mp h
    have hmid : Recovering none db mid := by
      refine keeps_bind (keeps_query _) (fun found => keeps_bind ?_ fun _ => ?_) _ _ _
        (recovering_refl hdb none) hrecover
      · refine keeps_recoverRow fun job hjob => ⟨?_, ?_, fun hnone => (by cases hnone)⟩
        · rw [Bool.and_eq_true] at hjob
          have hstate := hjob.2
          split at hstate
          · rw [beq_iff_eq.mp hstate]
            rfl
          · exact (Bool.and_eq_true .. ▸ hstate).1
        · rw [Bool.and_eq_true] at hjob
          have hstate := hjob.2
          split at hstate
          next hpending => rw [hstate, hpending]
          next hpending =>
            rw [Bool.and_eq_true, bne_iff_ne] at hstate
            rw [Bool.eq_false_iff.mpr hpending]
            exact beq_eq_false_iff_ne.mpr hstate.2
      · exact keeps_ite (keeps_recoverChunks recovering_calm) (keeps_pure _)
    obtain rfl := deleteLease_ok hdelete
    exact ⟨⟨hmid.ids, Nat.zero_le 1, fun _ hmem => (by cases hmem), hmid.recordings, hmid.rows, hmid.kept⟩,
      rfl⟩

/-- A queued job gets its executor. -/
structure Claimed (now : Int) (db db' : Database) (claim : JobClaimResult) (jobId : QString) : Prop where
  claimed : claim.claimed = true
  job : claim.job.map (·.id) = some jobId
  queued : ∃ job ∈ db.jobs, job.id = jobId ∧ job.state = .queued
  jobs : db'.jobs = claimedRows now jobId db.jobs
  lease : ∃ lease : AsrExecutionLease, lease.jobId = jobId ∧ db'.leases = [lease]
  recordings : db'.recordings = db.recordings

/-- The database once the job has been claimed. -/
def claimedDatabase (t : CharTables) (now : Int) (selected : TranscriptionJob) (ownerToken : QString)
    (leaseDurationMs : Int) (db : Database) : Database :=
  ({ db with
    jobs := claimedRows now selected.id db.jobs
    leases := [acquiredLease now leaseDurationMs ownerToken selected.id] } :
      Database).withEvent (normalizedEvent t now (claimedEvent selected))

theorem mem_of_candidate {requestedJobId : Option QString} {job : TranscriptionJob}
    (h : candidateJob requestedJobId db = some job) : job ∈ db.jobs := by
  cases requestedJobId with
  | some id => exact (of_job? h).1
  | none =>
    have hmem := (List.mem_insertionSort _).mp (List.mem_of_mem_head? h)
    exact (List.mem_filter.mp hmem).1

theorem claimSelected_exact {selected : TranscriptionJob} {ownerToken : QString} {leaseDurationMs : Int}
    {claim : JobClaimResult}
    (h : claimSelected t now selected ownerToken leaseDurationMs db = .ok (claim, db')) :
    (db.jobs.filter (fun job => job.id == selected.id && job.state == .queued) = [] ∧ claim = unclaimed ∧
        db' = db) ∨
      (∃ job ∈ db.jobs, job.id = selected.id ∧ job.state = .queued) ∧ claim.claimed = true ∧
        claim.job.map (·.id) = some selected.id ∧
        db' = claimedDatabase t now selected ownerToken leaseDurationMs db := by
  obtain ⟨_, _, hqueued, hop1⟩ := bind_eq_ok.mp h
  obtain ⟨-, rfl⟩ := require_eq_ok.mp hqueued
  obtain ⟨affected, _, hupdate, hop2⟩ := bind_eq_ok.mp hop1
  obtain ⟨-, haffected, rfl⟩ := statement_eq_ok.mp hupdate
  split at hop2
  next hnone =>
    obtain ⟨rfl, rfl⟩ := pure_eq_ok.mp hop2
    have hempty := List.length_eq_zero_iff.mp (haffected.symm.trans hnone)
    rw [updateRows_of_none hempty]
    exact Or.inl ⟨hempty, rfl, rfl⟩
  next hsome =>
    obtain ⟨job, hjob⟩ := List.exists_mem_of_length_pos
      (Nat.pos_of_ne_zero (haffected ▸ hsome : (_ : List TranscriptionJob).length ≠ 0))
    rw [List.mem_filter, Bool.and_eq_true, beq_iff_eq, beq_iff_eq] at hjob
    obtain ⟨_, _, hlease, hop3⟩ := bind_eq_ok.mp hop2
    obtain ⟨-, -, rfl⟩ := statement_eq_ok.mp hlease
    obtain ⟨_, _, hevent, hop4⟩ := bind_eq_ok.mp hop3
    obtain ⟨-, rfl⟩ := insertEvent_ok hevent
    obtain ⟨_, _, hfind, hop5⟩ := bind_eq_ok.mp hop4
    obtain ⟨rfl, rfl⟩ := command_eq_ok.mp hfind
    obtain ⟨claimed, _, hfound, hpure⟩ := bind_eq_ok.mp hop5
    obtain ⟨hclaimed, rfl⟩ := requireSome_eq_ok.mp hfound
    obtain ⟨rfl, rfl⟩ := pure_eq_ok.mp hpure
    exact Or.inr ⟨⟨job, hjob.1, hjob.2.1, hjob.2.2⟩, rfl, congrArg some (of_job? hclaimed).2, rfl⟩

/-- What is taken is the candidate; nothing is taken while a job runs, or when there is no candidate. -/
theorem claimIdle_exact {requestedJobId : Option QString} {ownerToken : QString} {leaseDurationMs : Int}
    {claim : JobClaimResult}
    (h : claimIdle t now requestedJobId ownerToken leaseDurationMs db = .ok (claim, db')) :
    (db' = db ∧ claim.claimed = false ∧ (db.runningJobs ≠ [] ∨ candidateJob requestedJobId db = none)) ∨
      ∃ selected ∈ db.jobs, candidateJob requestedJobId db = some selected ∧ selected.state = .queued ∧
        claim.claimed = true ∧ claim.job.map (·.id) = some selected.id ∧
        db' = claimedDatabase t now selected ownerToken leaseDurationMs db := by
  obtain ⟨active, _, hactive, hop1⟩ := bind_eq_ok.mp h
  obtain ⟨hhead, rfl⟩ := command_eq_ok.mp hactive
  cases active with
  | some job =>
    obtain ⟨rfl, rfl⟩ := pure_eq_ok.mp hop1
    refine Or.inl ⟨rfl, rfl, Or.inl fun hnone => ?_⟩
    rw [hnone] at hhead
    cases hhead
  | none =>
    obtain ⟨selected, _, hselected, hop2⟩ := bind_eq_ok.mp hop1
    obtain ⟨hcandidate, rfl⟩ := command_eq_ok.mp hselected
    cases selected with
    | some job =>
      obtain ⟨_, _, hqueued, -⟩ := bind_eq_ok.mp hop2
      obtain ⟨hstate, -⟩ := require_eq_ok.mp hqueued
      rcases claimSelected_exact hop2 with ⟨hempty, -, -⟩ | ⟨-, hclaimed, hjob, rfl⟩
      · have hnot := List.filter_eq_nil_iff.mp hempty job (mem_of_candidate hcandidate.symm)
        rw [hstate, beq_self_eq_true] at hnot
        exact absurd rfl hnot
      · exact Or.inr ⟨job, mem_of_candidate hcandidate.symm, hcandidate.symm, hstate, hclaimed, hjob, rfl⟩
    | none =>
      obtain ⟨_, _, hrequire, hpure⟩ := bind_eq_ok.mp hop2
      obtain ⟨-, rfl⟩ := require_eq_ok.mp hrequire
      obtain ⟨rfl, rfl⟩ := pure_eq_ok.mp hpure
      exact Or.inl ⟨rfl, rfl, Or.inr hcandidate.symm⟩

theorem claimIdle_ok {requestedJobId : Option QString} {ownerToken : QString} {leaseDurationMs : Int}
    {claim : JobClaimResult}
    (h : claimIdle t now requestedJobId ownerToken leaseDurationMs db = .ok (claim, db')) :
    db' = db ∨ ∃ jobId, Claimed now db db' claim jobId := by
  rcases claimIdle_exact h with ⟨rfl, -⟩ | ⟨selected, hselected, -, hqueued, hclaimed, hjob, rfl⟩
  · exact Or.inl rfl
  · exact Or.inr ⟨selected.id, hclaimed, hjob, ⟨selected, hselected, rfl, hqueued⟩, rfl, ⟨_, rfl, rfl⟩, rfl⟩

/-- A live lease is in the way of every claim; its owner gets its own job again. -/
theorem claimInDatabase_exact {requestedJobId : Option QString} {ownerToken : QString}
    {leaseDurationMs : Int} {claim : JobClaimResult}
    (h : claimInDatabase t now requestedJobId ownerToken leaseDurationMs db = .ok (claim, db')) :
    (∃ held, db.leases.head? = some held ∧ held.live now = true ∧ db' = db ∧ claim.activeJobId = held.jobId ∧
        (claim.claimed = true → claim.job = db.job? held.jobId)) ∨
      (db.leases.head?.filter fun lease => lease.live now) = none ∧
        ∃ mid, recoverExpiredLease t now db.leases.head? db = .ok ((), mid) ∧
          claimIdle t now requestedJobId ownerToken leaseDurationMs mid = .ok (claim, db') := by
  obtain ⟨_, db0, hfind, hop1⟩ := bind_eq_ok.mp h
  obtain ⟨rfl, hdb0⟩ := findLease_ok hfind
  subst db0
  cases hheld : db.leases.head?.filter fun lease => lease.live now with
  | some held =>
    rw [hheld] at hop1
    obtain ⟨hhead, hlive⟩ := Option.filter_eq_some_iff.mp hheld
    obtain ⟨current, db1, hcurrent, hop2⟩ := bind_eq_ok.mp hop1
    obtain ⟨rfl, hdb1⟩ := command_eq_ok.mp hcurrent
    subst db1
    refine Or.inl ⟨held, hhead, hlive, ?_⟩
    split at hop2
    · obtain ⟨rfl, rfl⟩ := pure_eq_ok.mp hop2
      exact ⟨rfl, rfl, fun _ => rfl⟩
    · obtain ⟨rfl, rfl⟩ := pure_eq_ok.mp hop2
      exact ⟨rfl, rfl, fun hno => (by cases hno)⟩
  | none =>
    rw [hheld] at hop1
    obtain ⟨_, mid, hrecover, hidle⟩ := bind_eq_ok.mp hop1
    exact Or.inr ⟨rfl, mid, hrecover, hidle⟩

/-- **A claim** recovers the job of an expired lease before it takes the next. -/
theorem claimInDatabase_ok {requestedJobId : Option QString} {ownerToken : QString}
    {leaseDurationMs : Int} {claim : JobClaimResult} (hdb : JobsInOrder db)
    (h : claimInDatabase t now requestedJobId ownerToken leaseDurationMs db = .ok (claim, db')) :
    db' = db ∨ ∃ mid, Recovering none db mid ∧ mid.leases = [] ∧
      (db' = mid ∨ ∃ jobId, Claimed now mid db' claim jobId) := by
  rcases claimInDatabase_exact h with ⟨_, -, -, hsame, -⟩ | ⟨-, mid, hrecover, hidle⟩
  · exact Or.inl hsame
  · obtain ⟨hmid, hleases⟩ := recoverExpiredLease_ok hdb hrecover
    exact Or.inr ⟨mid, hmid, hleases, claimIdle_ok hidle⟩

theorem claimNextQueued_ok {ownerToken : QString} {leaseDurationMs : Int} {claim : JobClaimResult}
    (h : claimNextQueued t now ownerToken leaseDurationMs db = (.ok claim, db')) :
    claimInDatabase t now none ownerToken leaseDurationMs db = .ok (claim, db') := by
  unfold claimNextQueued at h
  split at h
  · cases h
  · exact immediateTransaction_ok h

theorem claimQueued_ok {jobId ownerToken : QString} {leaseDurationMs : Int} {claim : JobClaimResult}
    (h : claimQueued t now jobId ownerToken leaseDurationMs db = (.ok claim, db')) :
    claimInDatabase t now (some jobId) ownerToken leaseDurationMs db = .ok (claim, db') := by
  unfold claimQueued at h
  split at h
  · cases h
  · exact immediateTransaction_ok h

/-! ## Moving a job -/

structure Moved (now : Int) (db db' : Database) (id : QString) (state : JobState)
    (errorCode errorMessage ownerToken : QString) (current : TranscriptionJob) : Prop where
  found : db.job? id = some current
  allowed : ownerToken = [] ∧ ownerlessTransition current.state state = true ∨
    db.holdsLease now id ownerToken = true
  legal : state ∈ transitions current.state
  jobs : ∃ position, db'.jobs = updateRows (fun job => job.id == id && job.state == current.state)
    (transitionedJob now position state errorCode errorMessage) db.jobs
  leases : db'.leases =
    if state.isTerminal || state == .interrupted then
      db.leases.filter fun lease =>
        !(lease.jobId == id && (ownerToken.isEmpty || lease.ownerToken == ownerToken))
    else db.leases
  recordings : db'.recordings = db.recordings

theorem releaseAfter_ok {state : JobState} {id ownerToken : QString} {u : Unit}
    (h : releaseAfter state id ownerToken db = .ok (u, db')) :
    db' = { db with leases :=
      if state.isTerminal || state == .interrupted then
        db.leases.filter fun lease =>
          !(lease.jobId == id && (ownerToken.isEmpty || lease.ownerToken == ownerToken))
      else db.leases } := by
  unfold releaseAfter at h
  split at h
  next hover =>
    obtain ⟨_, _, hdelete, hpure⟩ := bind_eq_ok.mp h
    obtain ⟨-, rfl⟩ := command_eq_ok.mp hdelete
    obtain ⟨-, rfl⟩ := pure_eq_ok.mp hpure
    rw [if_pos hover]
  next hrunning =>
    obtain ⟨-, rfl⟩ := pure_eq_ok.mp h
    rw [if_neg hrunning]

/-- The database once the job has moved. -/
def movedDatabase (t : CharTables) (now : Int) (current : TranscriptionJob) (state : JobState)
    (errorCode errorMessage ownerToken : QString) (db : Database) : Database :=
  let written := ({ db with
    jobs := updateRows (fun job => job.id == current.id && job.state == current.state)
      (transitionedJob now (nextQueuePosition db) state errorCode errorMessage) db.jobs } :
        Database).withEvent (normalizedEvent t now (transitionEvent current state errorCode errorMessage))
  { written with
    leases :=
      if state.isTerminal || state == .interrupted then
        db.leases.filter fun lease =>
          !(lease.jobId == current.id && (ownerToken.isEmpty || lease.ownerToken == ownerToken))
      else db.leases }

/-- **A move** is one of the table, made by the executor or one that needs none. -/
theorem transition_exact {id : QString} {state : JobState} {errorCode errorMessage ownerToken : QString}
    {u : Unit} (h : transition t now id state errorCode errorMessage ownerToken db = (.ok u, db')) :
    (db' = db ∧ ∃ current, db.job? id = some current ∧ current.state = state) ∨
      ∃ current, db.job? id = some current ∧ current.state ≠ state ∧
      (ownerToken = [] ∧ ownerlessTransition current.state state = true ∨
        db.holdsLease now id ownerToken = true) ∧
      state ∈ transitions current.state ∧
      db' = movedDatabase t now current state errorCode errorMessage ownerToken db := by
  unfold transition at h
  split at h
  · cases h
  obtain ⟨hholds, hop⟩ := executionWrite_ok h
  obtain ⟨current, _, hfind, hop1⟩ := bind_eq_ok.mp hop
  obtain ⟨_, _, hquery, hsome⟩ := bind_eq_ok.mp hfind
  obtain ⟨rfl, rfl⟩ := command_eq_ok.mp hquery
  obtain ⟨hfound, rfl⟩ := requireSome_eq_ok.mp hsome
  obtain ⟨_, _, hrequire, hop2⟩ := bind_eq_ok.mp hop1
  obtain ⟨howner, rfl⟩ := require_eq_ok.mp hrequire
  obtain ⟨_, _, hvalid, hop3⟩ := bind_eq_ok.mp hop2
  obtain ⟨hallowed, rfl⟩ := liftResult_eq_ok.mp hvalid
  have hcan := JobState.validateTransition_eq_ok.mp hallowed
  split at hop3
  next hsame =>
    obtain ⟨-, rfl⟩ := pure_eq_ok.mp hop3
    exact Or.inl ⟨rfl, current, hfound, hsame⟩
  next hother =>
    obtain ⟨position, _, hposition, hop4⟩ := bind_eq_ok.mp hop3
    obtain ⟨rfl, rfl⟩ := command_eq_ok.mp hposition
    obtain ⟨_, _, hupdate, hop5⟩ := bind_eq_ok.mp hop4
    obtain ⟨-, -, rfl⟩ := statement_eq_ok.mp hupdate
    obtain ⟨_, _, haffected, hop6⟩ := bind_eq_ok.mp hop5
    obtain ⟨-, rfl⟩ := require_eq_ok.mp haffected
    obtain ⟨_, _, hevent, hrelease⟩ := bind_eq_ok.mp hop6
    obtain ⟨-, rfl⟩ := insertEvent_ok hevent
    obtain rfl := releaseAfter_ok hrelease
    refine Or.inr ⟨current, hfound, hother, ?_, ?_, rfl⟩
    · exact hholds.imp_left fun hempty => ⟨hempty, howner (List.isEmpty_iff.mpr hempty)⟩
    · have hlegal := (Bool.or_eq_true .. ▸ hcan).resolve_left fun hbeq => hother (beq_iff_eq.mp hbeq)
      exact List.contains_iff_mem.mp hlegal

theorem transition_ok {id : QString} {state : JobState} {errorCode errorMessage ownerToken : QString}
    {u : Unit} (h : transition t now id state errorCode errorMessage ownerToken db = (.ok u, db')) :
    db' = db ∨ ∃ current, Moved now db db' id state errorCode errorMessage ownerToken current := by
  rcases transition_exact h with ⟨rfl, -⟩ | ⟨current, hfound, -, hallowed, hlegal, rfl⟩
  · exact Or.inl rfl
  · have hid := (of_job? hfound).2
    refine Or.inr ⟨current, hfound, hallowed, hlegal, ⟨nextQueuePosition db, ?_⟩, ?_, rfl⟩
    · rw [← hid]
      rfl
    · rw [← hid]
      rfl

/-- A job that runs is not queued again without an end. -/
theorem over_of_move {source target : JobState} (hrunning : source.isRunning = true)
    (hmove : target ∈ transitions source) :
    target.isRunning = true ∨ (target.isTerminal || target == .interrupted) = true := by
  cases source <;> first | (cases hrunning; done) | (revert target; decide)

theorem queued_of_preparing {source : JobState} (hmove : .preparing ∈ transitions source) :
    source = .queued := by
  cases source <;> first | rfl | (revert hmove; decide)

/-! ## Reporting progress -/

/-- **An update of the progress** is not of an earlier stage, and only a change of stage is an event. -/
theorem updateProgress_ok {id ownerToken : QString} {stage : JobStage} {progress : Rat} {last : Int} {u : Unit}
    (h : updateProgress t now id stage progress last ownerToken db = (.ok u, db')) :
    let bounded := max 0 (min progress 1)
    let progressed := { db with
      jobs := updateRows (fun job => job.id == id) (progressedJob stage bounded last) db.jobs }
    ∃ current, db.job? id = some current ∧ current.stage.toNat ≤ stage.toNat ∧
      (db' = progressed ∨
        db' = progressed.withEvent (normalizedEvent t now (stageEvent current stage bounded))) := by
  obtain ⟨-, hop⟩ := executionLeaseTransaction_ok h
  obtain ⟨current, _, hfind, hop1⟩ := bind_eq_ok.mp hop
  obtain ⟨_, _, hquery, hsome⟩ := bind_eq_ok.mp hfind
  obtain ⟨rfl, rfl⟩ := command_eq_ok.mp hquery
  obtain ⟨hfound, rfl⟩ := requireSome_eq_ok.mp hsome
  obtain ⟨_, _, hstage, hop2⟩ := bind_eq_ok.mp hop1
  obtain ⟨hforward, rfl⟩ := require_eq_ok.mp hstage
  obtain ⟨_, _, hupdate, hop3⟩ := bind_eq_ok.mp hop2
  obtain ⟨-, -, rfl⟩ := statement_eq_ok.mp hupdate
  refine ⟨current, hfound, hforward, ?_⟩
  split at hop3
  next =>
    obtain ⟨_, _, hevent, hpure⟩ := bind_eq_ok.mp hop3
    obtain ⟨-, rfl⟩ := pure_eq_ok.mp hpure
    obtain ⟨-, rfl⟩ := insertEvent_ok hevent
    exact Or.inr rfl
  next =>
    obtain ⟨-, rfl⟩ := pure_eq_ok.mp hop3
    exact Or.inl rfl

/-! ## Removing jobs -/

theorem rebuildRecordings_ok {ids : List QString} {u : Unit} (h : rebuildRecordings ids db = .ok (u, db')) :
    db' = ids.foldl (fun db id => rebuiltIndex id db) db := by
  induction ids generalizing db with
  | nil => exact (pure_eq_ok.mp h).2
  | cons id rest ih =>
    obtain ⟨_, mid, hfirst, hrest⟩ := bind_eq_ok.mp h
    obtain rfl := rebuildRecording_eq_ok.mp hfirst
    exact ih hrest

/-- **Removing a job** hides it where its transcript is shown, and deletes it otherwise. -/
theorem deleteTerminalJob_ok {id : QString} {u : Unit} (h : deleteTerminalJob id db = (.ok u, db')) :
    ∃ job recording, db.job? id = some job ∧ (job.state.isTerminal = true ∨ job.state = .interrupted) ∧
      db.recording? job.recordingId = some recording ∧
      db' = rebuiltIndex job.recordingId (if recording.activeJobId == some id then
          { db with
            jobs := updateRows (fun row => row.id == job.id) (fun row => { row with queueHidden := true })
              db.jobs }
        else cascadeJobs (fun row => row.id == job.id) db) := by
  obtain ⟨job, _, hjob, hop1⟩ := bind_eq_ok.mp (immediateTransaction_ok h)
  obtain ⟨_, _, hquery, hsome⟩ := bind_eq_ok.mp hjob
  obtain ⟨rfl, rfl⟩ := command_eq_ok.mp hquery
  obtain ⟨hfound, rfl⟩ := requireSome_eq_ok.mp hsome
  obtain ⟨_, _, hstate, hop2⟩ := bind_eq_ok.mp hop1
  obtain ⟨hover, rfl⟩ := require_eq_ok.mp hstate
  obtain ⟨_, _, hfind, hop3⟩ := bind_eq_ok.mp hop2
  obtain ⟨rfl, rfl⟩ := command_eq_ok.mp hfind
  obtain ⟨recording, _, hrecording, hop4⟩ := bind_eq_ok.mp hop3
  obtain ⟨hshown, rfl⟩ := requireSome_eq_ok.mp hrecording
  obtain ⟨_, _, hremove, hop5⟩ := bind_eq_ok.mp hop4
  obtain ⟨_, _, hremoved, hindex⟩ := bind_eq_ok.mp hop5
  obtain ⟨-, rfl⟩ := require_eq_ok.mp hremoved
  obtain rfl := rebuildRecording_eq_ok.mp hindex
  refine ⟨job, recording, hfound, hover, hshown, congrArg _ ?_⟩
  unfold removeJob at hremove
  split at hremove
  next hactive =>
    obtain ⟨-, -, rfl⟩ := statement_eq_ok.mp hremove
    rw [if_pos hactive]
  next hother =>
    obtain ⟨-, rfl⟩ := command_eq_ok.mp hremove
    rw [if_neg hother]

/-- The finished jobs whose transcript is shown leave the list without being deleted. -/
def hiddenActive (db : Database) : Database :=
  { db with
    jobs := updateRows (fun job => !job.queueHidden && job.state == .completed && isActiveJob db job.id)
      (fun job => { job with queueHidden := true }) db.jobs }

theorem clearCompleted_ok {count : Nat} (h : clearCompleted db = (.ok count, db')) :
    db' = (clearableRecordings db).foldl (fun db id => rebuiltIndex id db)
      (cascadeJobs (fun job => isClearable job && !isActiveJob db job.id) (hiddenActive db)) := by
  obtain ⟨_, db0, hget, hop1⟩ := bind_eq_ok.mp (immediateTransaction_ok h)
  obtain ⟨rfl, hdb0⟩ := get_eq_ok.mp hget
  subst db0
  obtain ⟨_, _, hhide, hop2⟩ := bind_eq_ok.mp hop1
  unfold hideActiveCompleted updateJobs at hhide
  obtain ⟨-, -, rfl⟩ := statement_eq_ok.mp hhide
  obtain ⟨_, _, hdelete, hop3⟩ := bind_eq_ok.mp hop2
  obtain ⟨-, rfl⟩ := command_eq_ok.mp hdelete
  obtain ⟨_, _, hindex, hpure⟩ := bind_eq_ok.mp hop3
  obtain ⟨-, rfl⟩ := pure_eq_ok.mp hpure
  exact rebuildRecordings_ok hindex

end BreezeDesk
