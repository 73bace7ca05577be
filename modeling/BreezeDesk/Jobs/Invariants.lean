/-
  Invariants of the job repository.

  Everything the job repository writes is one of a few statements.  `StatementsKeep` says of an
  invariant that each of them keeps it, and the lemmas `…_keeps` derive that every operation does.  The
  updates of job rows are of a class `allowed`: all of them are `Tame` (they keep the id and the
  recording of the job and complete no job), but for the ones that complete a job.

  Most operations neither add nor remove a job nor move one to another state; they only need the
  statements of `CalmKeep`, and their updates are `Calm`.

  `completeAndActivate` also writes recordings and deletes segments, which is no use to an invariant that
  ties these together; it has its inversion lemma `completeAndActivate_ok` instead.
-/
import BreezeDesk.Jobs.Repository

namespace BreezeDesk

open Transaction

/-! ## Statements -/

/-- An update of a job row that leaves the job where it belongs. -/
structure Rooted (update : TranscriptionJob → TranscriptionJob) : Prop where
  id : ∀ job, (update job).id = job.id
  recordingId : ∀ job, (update job).recordingId = job.recordingId

/-- And does not complete it. -/
structure Tame (update : TranscriptionJob → TranscriptionJob) : Prop where
  id : ∀ job, (update job).id = job.id
  recordingId : ∀ job, (update job).recordingId = job.recordingId
  completed : ∀ job, (update job).state = .completed → job.state = .completed

/-- The rows after a claim. -/
def claimedRows (now : Int) (jobId : QString) (jobs : List TranscriptionJob) : List TranscriptionJob :=
  updateRows (fun job => job.id == jobId && job.state == .queued) (claimedJob now) jobs

/-- Every statement of the job repository keeps the invariant. -/
structure StatementsKeep (allowed : (TranscriptionJob → TranscriptionJob) → Prop)
    (I : Database → Prop) : Prop where
  jobs : ∀ db which update, allowed update → I db → SingleExecution (updateRows which update db.jobs) →
    I { db with jobs := updateRows which update db.jobs }
  newJob : ∀ db job, I db → JobInsertable db job → job.state = .queued →
    I { db with jobs := db.jobs ++ [job] }
  claim : ∀ db now jobId lease, I db → db.leases = [] → lease.jobId = jobId →
    (∃ job ∈ db.jobs, job.id = jobId ∧ job.state = .queued) →
    SingleExecution (claimedRows now jobId db.jobs) →
    I { db with jobs := claimedRows now jobId db.jobs, leases := [lease] }
  chunks : ∀ db chunks, I db → I { db with chunks }
  detach : ∀ db which, I db → I (detachChunks which db)
  events : ∀ db events lastEventId, I db → I { db with events, lastEventId }
  index : ∀ db searchIndex, I db → I { db with searchIndex }
  leases : ∀ db leases, I db → leases.length ≤ db.leases.length →
    (∀ lease ∈ leases, ∃ old ∈ db.leases, old.jobId = lease.jobId) → I { db with leases }
  cascade : ∀ db which, I db → I (cascadeJobs which db)

/-- An update of a job row that leaves the job where it belongs, in its state. -/
structure Calm (update : TranscriptionJob → TranscriptionJob) : Prop where
  id : ∀ job, (update job).id = job.id
  recordingId : ∀ job, (update job).recordingId = job.recordingId
  state : ∀ job, (update job).state = job.state

/-- And where it is in its work. -/
structure Still (update : TranscriptionJob → TranscriptionJob) : Prop extends Calm update where
  stage : ∀ job, (update job).stage = job.stage
  progress : ∀ job, (update job).progress = job.progress
  lastCompletedChunk : ∀ job, (update job).lastCompletedChunk = job.lastCompletedChunk

theorem still_of {update : TranscriptionJob → TranscriptionJob}
    (hcalm : ∀ job, (update job).id = job.id ∧ (update job).recordingId = job.recordingId ∧
      (update job).state = job.state)
    (hwork : ∀ job, (update job).stage = job.stage ∧ (update job).progress = job.progress ∧
      (update job).lastCompletedChunk = job.lastCompletedChunk) : Still update where
  id job := (hcalm job).1
  recordingId job := (hcalm job).2.1
  state job := (hcalm job).2.2
  stage job := (hwork job).1
  progress job := (hwork job).2.1
  lastCompletedChunk job := (hwork job).2.2

theorem Tame.rooted {update : TranscriptionJob → TranscriptionJob} (h : Tame update) : Rooted update :=
  ⟨h.id, h.recordingId⟩

theorem Calm.tame {update : TranscriptionJob → TranscriptionJob} (h : Calm update) : Tame update :=
  ⟨h.id, h.recordingId, fun job hstate => (h.state job).symm.trans hstate⟩

/-- The statements that touch neither jobs nor events keep the invariant. -/
structure QuietKeep (I : Database → Prop) : Prop where
  chunks : ∀ db chunks, I db → I { db with chunks }
  detach : ∀ db which, I db → I (detachChunks which db)
  leases : ∀ db leases, I db → leases.length ≤ db.leases.length →
    (∀ lease ∈ leases, ∃ old ∈ db.leases, old.jobId = lease.jobId) → I { db with leases }

/-- The statements that neither add nor remove a job keep the invariant. -/
structure CalmKeep (allowed : (TranscriptionJob → TranscriptionJob) → Prop) (I : Database → Prop) : Prop where
  jobs : ∀ db which update, allowed update → I db → SingleExecution (updateRows which update db.jobs) →
    I { db with jobs := updateRows which update db.jobs }
  chunks : ∀ db chunks, I db → I { db with chunks }
  detach : ∀ db which, I db → I (detachChunks which db)
  events : ∀ db events lastEventId, I db → I { db with events, lastEventId }
  leases : ∀ db leases, I db → leases.length ≤ db.leases.length →
    (∀ lease ∈ leases, ∃ old ∈ db.leases, old.jobId = lease.jobId) → I { db with leases }

/-- A claim, which is two statements, keeps the invariant. -/
def ClaimKeep (I : Database → Prop) : Prop :=
  ∀ db now jobId lease, I db → db.leases = [] → lease.jobId = jobId →
    (∃ job ∈ db.jobs, job.id = jobId ∧ job.state = .queued) →
    SingleExecution (claimedRows now jobId db.jobs) →
    I { db with jobs := claimedRows now jobId db.jobs, leases := [lease] }

/-- The statements that neither remove a job nor write the search index keep the invariant. -/
structure ActiveKeep (allowed : (TranscriptionJob → TranscriptionJob) → Prop) (I : Database → Prop) : Prop
    extends CalmKeep allowed I where
  newJob : ∀ db job, I db → JobInsertable db job → job.state = .queued →
    I { db with jobs := db.jobs ++ [job] }
  claim : ∀ db now jobId lease, I db → db.leases = [] → lease.jobId = jobId →
    (∃ job ∈ db.jobs, job.id = jobId ∧ job.state = .queued) →
    SingleExecution (claimedRows now jobId db.jobs) →
    I { db with jobs := claimedRows now jobId db.jobs, leases := [lease] }

variable {t : CharTables} {allowed : (TranscriptionJob → TranscriptionJob) → Prop}
  {I : Database → Prop} {now : Int} {db : Database}

theorem StatementsKeep.active (h : StatementsKeep allowed I) : ActiveKeep allowed I :=
  ⟨⟨h.jobs, h.chunks, h.detach, h.events, h.leases⟩, h.newJob, h.claim⟩

theorem StatementsKeep.calm (h : StatementsKeep allowed I) : CalmKeep allowed I := h.active.toCalmKeep

theorem CalmKeep.quiet (h : CalmKeep allowed I) : QuietKeep I := ⟨h.chunks, h.detach, h.leases⟩

section QuietStatements

variable (h : QuietKeep I)

include h

theorem keeps_updateChunks {which : JobChunk → Bool} {update : JobChunk → JobChunk} :
    Keeps I (updateChunks which update) :=
  keeps_command fun db hI => h.chunks db _ hI

theorem keeps_deleteChunks {which : JobChunk → Bool} : Keeps I (deleteChunks which) :=
  keeps_command fun db hI => h.detach db which hI

theorem keeps_insertChunk {chunk : JobChunk} {message : String} : Keeps I (insertChunk chunk message) :=
  keeps_statement fun db hI _ => h.chunks db _ hI

theorem keeps_deleteLeases {which : AsrExecutionLease → Bool} : Keeps I (deleteLeases which) :=
  keeps_command fun db hI => h.leases db _ hI (List.length_filter_le _ _) fun lease hmem =>
    ⟨lease, (List.mem_filter.mp hmem).1, rfl⟩

theorem keeps_updateLeases {which : AsrExecutionLease → Bool}
    {update : AsrExecutionLease → AsrExecutionLease} (hjob : ∀ lease, (update lease).jobId = lease.jobId) :
    Keeps I (updateLeases which update) := by
  refine keeps_command fun db hI => h.leases db _ hI ?_ fun lease hmem => ?_
  · unfold updateRows
    rw [List.length_map]
  · obtain ⟨old, hold, rfl⟩ := mem_updateRows.mp hmem
    refine ⟨old, hold, ?_⟩
    split
    · exact (hjob old).symm
    · rfl

end QuietStatements

section Statements

variable (h : CalmKeep allowed I)

include h

theorem keeps_updateJobs {which : TranscriptionJob → Bool}
    {update : TranscriptionJob → TranscriptionJob} {message : String} (hupdate : allowed update) :
    Keeps I (updateJobs which update message) :=
  keeps_statement fun db hI hsingle => h.jobs db which update hupdate hI hsingle

theorem keeps_insertEvent {event : JobEvent} : Keeps I (insertEvent t now event) :=
  keeps_bind (keeps_require _ _) fun _ => keeps_statement fun db hI _ => h.events db _ _ hI

end Statements

theorem keeps_rebuildRecordings (hindex : ∀ db searchIndex, I db → I { db with searchIndex })
    {ids : List QString} : Keeps I (rebuildRecordings ids) := by
  induction ids with
  | nil => exact keeps_pure _
  | cons id rest ih => exact keeps_bind (keeps_rebuildRecording hindex) fun _ => ih

theorem keeps_deleteJobs (hcascade : ∀ db which, I db → I (cascadeJobs which db))
    {which : TranscriptionJob → Bool} : Keeps I (deleteJobs which) :=
  keeps_command fun db hI => hcascade db which hI

/-! ## Updates -/

theorem tame_recoveredJob (now : Int) (cancellationPending : Bool) (message : QString) :
    Tame (recoveredJob now cancellationPending message) := by
  refine ⟨fun job => ?_, fun job => ?_, fun job hstate => ?_⟩
  · unfold recoveredJob
    split <;> rfl
  · unfold recoveredJob
    split <;> rfl
  · unfold recoveredJob at hstate
    split at hstate <;> cases hstate

theorem transitionedJob_fields {position : Int} {state : JobState} {errorCode errorMessage : QString}
    (job : TranscriptionJob) :
    (transitionedJob now position state errorCode errorMessage job).id = job.id ∧
      (transitionedJob now position state errorCode errorMessage job).recordingId = job.recordingId ∧
      (transitionedJob now position state errorCode errorMessage job).state = state := by
  unfold transitionedJob
  cases state <;> exact ⟨rfl, rfl, rfl⟩

theorem rooted_transitionedJob {position : Int} {state : JobState} {errorCode errorMessage : QString} :
    Rooted (transitionedJob now position state errorCode errorMessage) :=
  ⟨fun job => (transitionedJob_fields job).1, fun job => (transitionedJob_fields job).2.1⟩

theorem tame_transitionedJob {position : Int} {state : JobState} {errorCode errorMessage : QString}
    (hstate : state ≠ .completed) : Tame (transitionedJob now position state errorCode errorMessage) :=
  ⟨fun job => (transitionedJob_fields job).1, fun job => (transitionedJob_fields job).2.1,
    fun job hcompleted => absurd ((transitionedJob_fields job).2.2.symm.trans hcompleted) hstate⟩

/-! ## Operations -/

theorem keeps_findLease : Keeps I findLease := by
  refine keeps_bind (keeps_query _) fun lease => keeps_bind ?_ fun _ => keeps_pure _
  cases lease with
  | none => exact keeps_pure _
  | some lease =>
    exact keeps_bind (keeps_statement fun _ hI _ => hI) fun _ => keeps_require _ _

theorem findLease_ok {lease : Option AsrExecutionLease} {db' : Database}
    (h : findLease db = .ok (lease, db')) :
    lease = db.leases.head? ∧ db' = db := by
  obtain ⟨_, db0, hraw, hrest⟩ := bind_eq_ok.mp h
  obtain ⟨rfl, hdb0⟩ := command_eq_ok.mp hraw
  subst db0
  obtain ⟨_, db1, hvalid, hpure⟩ := bind_eq_ok.mp hrest
  obtain ⟨rfl, rfl⟩ := pure_eq_ok.mp hpure
  refine ⟨rfl, ?_⟩
  have hsame : Keeps (fun s => s = db) (validateLease db.leases.head?) := by
    cases db.leases.head? with
    | none => exact keeps_pure _
    | some lease => exact keeps_bind (keeps_statement fun _ hI _ => hI) fun _ => keeps_require _ _
  exact hsame db _ _ rfl hvalid

section QuietOperations

variable (h : QuietKeep I)

include h

theorem keeps_deleteLease : Keeps I deleteLease :=
  keeps_bind (keeps_deleteLeases h) fun _ => keeps_pure _

theorem renewLease_keeps {jobId ownerToken : QString} {leaseDurationMs : Int} (hI : I db) :
    I (renewLease now jobId ownerToken leaseDurationMs db).2 := by
  unfold renewLease
  split
  · exact hI
  · refine Keeps.atomically (keeps_bind (keeps_query _) fun current => ?_) hI
    refine keeps_bind (keeps_requireSome _ _) fun lease => ?_
    refine keeps_bind (keeps_statement fun _ hI _ => hI) fun _ => ?_
    refine keeps_bind (keeps_require _ _) fun _ => ?_
    refine keeps_bind (keeps_updateLeases h fun _ => rfl) fun _ => ?_
    exact keeps_bind (keeps_require _ _) fun _ => keeps_pure _

theorem releaseLease_keeps {jobId ownerToken : QString} (hI : I db) :
    I (releaseLease jobId ownerToken db).2 := by
  unfold releaseLease
  split
  · exact hI
  · exact (keeps_bind (keeps_deleteLeases h) fun _ => keeps_require _ _).atomically hI

theorem keeps_insertChunks {newId : Nat → QString} {jobId : QString} {chunks : List JobChunk} :
    ∀ index, Keeps I (insertChunks newId jobId index chunks) := by
  induction chunks with
  | nil => exact fun index => keeps_pure _
  | cons chunk rest ih => exact fun index => keeps_bind (keeps_insertChunk h) fun _ => ih (index + 1)

theorem replaceChunks_keeps {newId : Nat → QString} {jobId : QString} {chunks : List JobChunk}
    {ownerToken : QString} (hI : I db) :
    I (replaceChunks now newId jobId chunks ownerToken db).2 := by
  have hplan : Keeps I (requireNoPlan jobId) :=
    keeps_bind (keeps_bind (keeps_query _) fun _ => keeps_requireSome _ _) fun _ =>
      keeps_statement fun _ hI _ => hI
  unfold replaceChunks
  split
  · exact hI
  · refine executionWrite_keeps (keeps_bind ?_ fun _ => ?_) hI
    · exact keeps_ite hplan (keeps_pure _)
    · exact keeps_bind (keeps_deleteChunks h) fun _ => keeps_insertChunks h 0

end QuietOperations

section CalmOperations

variable (h : CalmKeep allowed I) (hcalm : ∀ update, Calm update → allowed update)

include h

theorem keeps_recoverChunks {cancellationPending : Bool} {eventType jobId message : QString} :
    Keeps I (recoverChunks t now cancellationPending eventType jobId message) :=
  keeps_bind (keeps_updateChunks h.quiet) fun _ => keeps_bind (keeps_insertEvent h) fun _ => keeps_pure _

theorem appendEvent_keeps {event : JobEvent} {ownerToken : QString} (hI : I db) :
    I (appendEvent t now event ownerToken db).2 :=
  executionLeaseTransaction_keeps (keeps_insertEvent h) hI

theorem updateChunk_keeps {chunk : JobChunk} {ownerToken : QString} (hI : I db) :
    I (updateChunk t now chunk ownerToken db).2 := by
  unfold updateChunk
  split
  · exact hI
  · refine executionLeaseTransaction_keeps ?_ hI
    refine keeps_bind (keeps_query _) fun found => keeps_bind (keeps_requireSome _ _) fun previous => ?_
    refine keeps_bind (keeps_bind (keeps_query _) fun _ => keeps_requireSome _ _) fun job => ?_
    refine keeps_bind (keeps_query _) fun total => keeps_bind (keeps_updateChunks h.quiet) fun _ => ?_
    exact keeps_ite (keeps_pure _) (keeps_bind (keeps_insertEvent h) fun _ => keeps_pure _)

include hcalm

theorem updateProgress_keeps {id : QString} {stage : JobStage} {progress : Rat} {last : Int}
    {ownerToken : QString} (hI : I db) :
    I (updateProgress t now id stage progress last ownerToken db).2 := by
  refine executionLeaseTransaction_keeps ?_ hI
  refine keeps_bind (keeps_bind (keeps_query _) fun _ => keeps_requireSome _ _) fun current => ?_
  refine keeps_bind (keeps_require _ _) fun _ => ?_
  refine keeps_bind (keeps_updateJobs h (hcalm _ ⟨fun _ => rfl, fun _ => rfl, fun _ => rfl⟩)) fun _ => ?_
  exact keeps_ite (keeps_bind (keeps_insertEvent h) fun _ => keeps_pure _) (keeps_pure _)

omit hcalm

variable (hstill : ∀ update, Still update → allowed update)

include hstill

theorem updateRuntimeInfo_keeps {id backend engineVersion workerVersion : QString}
    {diagnostics : QJsonObject} {ownerToken : QString} (hI : I db) :
    I (updateRuntimeInfo now id backend engineVersion workerVersion diagnostics ownerToken db).2 := by
  refine executionLeaseTransaction_keeps ?_ hI
  refine keeps_bind (keeps_bind (keeps_query _) fun _ => keeps_requireSome _ _) fun current => ?_
  refine keeps_bind (keeps_updateJobs h (hstill _ (still_of (fun _ => ⟨rfl, rfl, rfl⟩) fun _ => ⟨rfl, rfl, rfl⟩))) fun _ => ?_
  exact keeps_require _ _

theorem updateParameters_keeps {id : QString} {parameters : QJsonObject} {ownerToken : QString}
    (hI : I db) : I (updateParameters now id parameters ownerToken db).2 := by
  refine executionLeaseTransaction_keeps (keeps_bind ?_ fun _ => keeps_require _ _) hI
  exact keeps_updateJobs h (hstill _ (still_of (fun _ => ⟨rfl, rfl, rfl⟩) fun _ => ⟨rfl, rfl, rfl⟩))

theorem keeps_reorderFrom {ids : List QString} : ∀ index, Keeps I (reorderFrom index ids) := by
  induction ids with
  | nil => exact fun index => keeps_pure _
  | cons id rest ih =>
    intro index
    refine keeps_bind ?_ fun _ => keeps_bind (keeps_require _ _) fun _ => ih (index + 1)
    exact keeps_updateJobs h (hstill _ (still_of (fun _ => ⟨rfl, rfl, rfl⟩) fun _ => ⟨rfl, rfl, rfl⟩))

theorem reorder_keeps {ids : List QString} (hI : I db) : I (reorder ids db).2 := by
  unfold reorder
  split
  · exact hI
  · exact (keeps_reorderFrom h hstill 0).atomically hI

theorem deleteTerminalJob_keeps (hindex : ∀ db searchIndex, I db → I { db with searchIndex })
    (hcascade : ∀ db which, I db → I (cascadeJobs which db)) {id : QString} (hI : I db) : I (deleteTerminalJob id db).2 := by
  refine Keeps.atomically ?_ hI
  refine keeps_bind (keeps_bind (keeps_query _) fun _ => keeps_requireSome _ _) fun job => ?_
  refine keeps_bind (keeps_require _ _) fun _ => keeps_bind (keeps_query _) fun found => ?_
  refine keeps_bind (keeps_requireSome _ _) fun recording => keeps_bind ?_ fun _ => ?_
  · refine keeps_ite ?_ (keeps_deleteJobs hcascade)
    exact keeps_updateJobs h (hstill _ (still_of (fun _ => ⟨rfl, rfl, rfl⟩) fun _ => ⟨rfl, rfl, rfl⟩))
  · exact keeps_bind (keeps_require _ _) fun _ => keeps_rebuildRecording hindex

theorem clearCompleted_keeps (hindex : ∀ db searchIndex, I db → I { db with searchIndex })
    (hcascade : ∀ db which, I db → I (cascadeJobs which db)) (hI : I db) : I (clearCompleted db).2 := by
  have hget : Keeps I (get : Db Database) := by
    intro s a s' hI hok
    obtain ⟨-, rfl⟩ := get_eq_ok.mp hok
    exact hI
  refine Keeps.atomically (keeps_bind hget fun before => keeps_bind ?_ fun _ => keeps_bind ?_ fun _ => ?_) hI
  · exact keeps_updateJobs h (hstill _ (still_of (fun _ => ⟨rfl, rfl, rfl⟩) fun _ => ⟨rfl, rfl, rfl⟩))
  · exact keeps_command fun db hI => hcascade db _ hI
  · exact keeps_bind (keeps_rebuildRecordings hindex) fun _ => keeps_pure _

end CalmOperations

section Operations

variable (h : CalmKeep allowed I) (hclaim : ClaimKeep I)
  (hrecovered : ∀ pending message, allowed (recoveredJob now pending message))

include h

section Recovery

include hrecovered

theorem keeps_recoverExpiredLease {lease : Option AsrExecutionLease} :
    Keeps I (recoverExpiredLease t now lease) := by
  cases lease with
  | none => exact keeps_pure _
  | some lease =>
    refine keeps_bind (keeps_bind (keeps_query _) fun _ => keeps_bind ?_ fun _ => ?_) fun _ =>
      keeps_deleteLease h.quiet
    · exact keeps_updateJobs h (hrecovered _ _)
    · exact keeps_ite (keeps_recoverChunks h) (keeps_pure _)

theorem keeps_recoverJobs {reason : QString} {jobs : List TranscriptionJob} :
    Keeps I (recoverJobs t now reason jobs) := by
  induction jobs with
  | nil => exact keeps_pure _
  | cons job rest ih =>
    refine keeps_bind (keeps_bind ?_ fun _ => keeps_ite (keeps_pure _) ?_) fun _ =>
      keeps_bind ih fun _ => keeps_pure _
    · exact keeps_updateJobs h (hrecovered _ _)
    · exact keeps_bind (keeps_recoverChunks h) fun _ => keeps_pure _

theorem markRunningJobsInterrupted_keeps {reason : QString} (hI : I db) :
    I (markRunningJobsInterrupted t now reason db).2 := by
  refine Keeps.atomically (keeps_bind keeps_findLease fun lease => ?_) hI
  refine keeps_bind (keeps_query _) fun jobs => keeps_bind (keeps_recoverJobs h hrecovered) fun _ => ?_
  refine keeps_bind ?_ fun _ => keeps_pure _
  exact keeps_ite (keeps_deleteLease h.quiet) (keeps_pure _)

end Recovery

include hclaim

/-- The two statements of a claim are one step of the invariant. -/
theorem keeps_claimSelected {selected : TranscriptionJob} {ownerToken : QString}
    {leaseDurationMs : Int} : Keeps I (claimSelected t now selected ownerToken leaseDurationMs) := by
  intro db claim db' hI hok
  obtain ⟨_, _, hqueued, hop⟩ := bind_eq_ok.mp hok
  obtain ⟨-, rfl⟩ := require_eq_ok.mp hqueued
  obtain ⟨affected, _, hupdate, hrest⟩ := bind_eq_ok.mp hop
  obtain ⟨hsingle, haffected, rfl⟩ := statement_eq_ok.mp hupdate
  by_cases hnone : affected = 0
  · -- no row changes when none is affected
    rw [if_pos hnone] at hrest
    obtain ⟨-, rfl⟩ := pure_eq_ok.mp hrest
    have hsame : claimedRows now selected.id _ = _ :=
      updateRows_of_none (List.length_eq_zero_iff.mp (haffected.symm.trans hnone))
    unfold claimedRows at hsame
    rw [hsame]
    exact hI
  · rw [if_neg hnone] at hrest
    obtain ⟨_, _, hinsert, hevent⟩ := bind_eq_ok.mp hrest
    obtain ⟨⟨hempty, -⟩, -, rfl⟩ := statement_eq_ok.mp hinsert
    obtain ⟨job, hjob⟩ := List.exists_mem_of_length_pos
      (Nat.pos_of_ne_zero (haffected ▸ hnone : (_ : List TranscriptionJob).length ≠ 0))
    rw [List.mem_filter, Bool.and_eq_true, beq_iff_eq, beq_iff_eq] at hjob
    have hclaimed := hclaim _ now selected.id (acquiredLease now leaseDurationMs ownerToken selected.id)
      hI hempty rfl ⟨job, hjob.1, hjob.2.1, hjob.2.2⟩ hsingle
    refine keeps_bind (keeps_insertEvent h) (fun _ => ?_) _ _ _ hclaimed hevent
    exact keeps_bind (keeps_query _) fun _ => keeps_bind (keeps_requireSome _ _) fun _ => keeps_pure _

include hrecovered

theorem keeps_claimInDatabase {requestedJobId : Option QString} {ownerToken : QString}
    {leaseDurationMs : Int} :
    Keeps I (claimInDatabase t now requestedJobId ownerToken leaseDurationMs) := by
  refine keeps_bind (keeps_findLease) fun lease => ?_
  cases lease.filter fun lease => lease.live now with
  | some held =>
    exact keeps_bind (keeps_query _) fun _ => keeps_ite (keeps_pure _) (keeps_pure _)
  | none =>
    refine keeps_bind (keeps_recoverExpiredLease h hrecovered) fun _ => keeps_bind (keeps_query _) fun active => ?_
    cases active with
    | some job => exact keeps_pure _
    | none =>
      refine keeps_bind (keeps_query _) fun selected => ?_
      cases selected with
      | some job => exact keeps_claimSelected h hclaim
      | none => exact keeps_bind (keeps_require _ _) fun _ => keeps_pure _

theorem claimNextQueued_keeps {ownerToken : QString} {leaseDurationMs : Int} (hI : I db) :
    I (claimNextQueued t now ownerToken leaseDurationMs db).2 := by
  unfold claimNextQueued
  split
  · exact hI
  · exact (keeps_claimInDatabase h hclaim hrecovered).atomically hI

theorem claimQueued_keeps {jobId ownerToken : QString} {leaseDurationMs : Int} (hI : I db) :
    I (claimQueued t now jobId ownerToken leaseDurationMs db).2 := by
  unfold claimQueued
  split
  · exact hI
  · exact (keeps_claimInDatabase h hclaim hrecovered).atomically hI

end Operations

section Operations

variable (h : ActiveKeep allowed I) (htame : ∀ update, Tame update → allowed update)

include h

theorem createQueued_keeps {uuid : QString} {job : TranscriptionJob} (hI : I db) :
    I (createQueued t now uuid job db).2 := by
  unfold createQueued
  split
  · exact hI
  · refine Keeps.atomically (keeps_bind (keeps_query _) fun position => ?_) hI
    refine keeps_bind (keeps_statement fun db hI hinsertable => h.newJob db _ hI hinsertable rfl) fun _ => ?_
    exact keeps_bind (keeps_insertEvent h.toCalmKeep) fun _ => keeps_pure _

include htame

theorem transition_keeps {id : QString} {state : JobState} {errorCode errorMessage ownerToken : QString}
    (hstate : state = .completed → ∀ update, Rooted update → allowed update) (hI : I db) :
    I (transition t now id state errorCode errorMessage ownerToken db).2 := by
  have hmove : ∀ position, allowed (transitionedJob now position state errorCode errorMessage) := by
    intro position
    by_cases hcompleted : state = .completed
    · exact hstate hcompleted _ rooted_transitionedJob
    · exact htame _ (tame_transitionedJob hcompleted)
  unfold transition
  split
  · exact hI
  · refine executionWrite_keeps ?_ hI
    refine keeps_bind (keeps_bind (keeps_query _) fun _ => keeps_requireSome _ _) fun current => ?_
    refine keeps_bind (keeps_require _ _) fun _ => keeps_bind (keeps_liftResult _) fun _ => ?_
    refine keeps_ite (keeps_pure _) (keeps_bind (keeps_query _) fun position => ?_)
    refine keeps_bind (keeps_updateJobs h.toCalmKeep (hmove position)) fun _ => ?_
    refine keeps_bind (keeps_require _ _) fun _ => keeps_bind (keeps_insertEvent h.toCalmKeep) fun _ => ?_
    exact keeps_ite (keeps_bind (keeps_deleteLeases h.toCalmKeep.quiet) fun _ => keeps_pure _) (keeps_pure _)

end Operations

/-! ## Completing a job -/

/-- The statements that only `completeAndActivate` runs keep the invariant, too. -/
structure CompletionKeeps (I : Database → Prop) : Prop where
  recordings : ∀ db which update, I db → I { db with recordings := updateRows which update db.recordings }
  segments : ∀ db keep, I db → I { db with segments := db.segments.filter keep }

theorem completeAndActivate_keeps (h : StatementsKeep allowed I)
    (hrooted : ∀ update, Rooted update → allowed update)
    (hcompletion : CompletionKeeps I) {recordingId jobId ownerToken : QString} (hI : I db) :
    I (completeAndActivate t now recordingId jobId ownerToken db).2 := by
  unfold completeAndActivate
  split
  · exact hI
  · refine executionLeaseTransaction_keeps (keeps_bind (keeps_query _) fun current => ?_) hI
    refine keeps_bind (keeps_requireSome _ _) fun job => keeps_bind (keeps_require _ _) fun _ => ?_
    refine keeps_bind (keeps_updateJobs h.calm (hrooted _ ⟨fun _ => rfl, fun _ => rfl⟩)) fun _ => keeps_bind (keeps_require _ _) fun _ => ?_
    refine keeps_bind (keeps_command fun db hI => hcompletion.recordings db _ _ hI) fun _ => ?_
    refine keeps_bind (keeps_require _ _) fun _ => ?_
    refine keeps_bind (keeps_command fun db hI => hcompletion.segments db _ hI) fun _ => ?_
    refine keeps_bind (keeps_updateJobs h.calm (hrooted _ ⟨fun _ => rfl, fun _ => rfl⟩)) fun _ => ?_
    refine keeps_bind (keeps_insertEvent h.calm) fun _ => keeps_bind (keeps_deleteLeases h.calm.quiet) fun _ => ?_
    exact keeps_rebuildRecording h.index

/-- The jobs once one of them is completed. -/
def completedRows (now : Int) (recordingId jobId : QString) (jobs : List TranscriptionJob) :
    List TranscriptionJob :=
  updateRows (fun job => job.id == jobId && job.recordingId == recordingId && job.state == .finalizing)
    (completedJob now) jobs

/-- The database once the job is completed. -/
def completedDatabase (t : CharTables) (now : Int) (recordingId jobId ownerToken : QString) (db : Database) :
    Database :=
  let written := ({ db with
    recordings := updateRows (fun recording => recording.id == recordingId)
      (fun recording => { recording with activeJobId := some jobId, updatedAt := storedTime (some now) })
      db.recordings
    jobs := updateRows (fun job => job.recordingId == recordingId && job.id != jobId && job.state == .completed)
      (fun job => { job with queueHidden := true }) (completedRows now recordingId jobId db.jobs)
    segments := db.segments.filter fun segment =>
      !isSuperseded { db with jobs := completedRows now recordingId jobId db.jobs } recordingId jobId segment } :
        Database).withEvent (normalizedEvent t now (completedEvent jobId))
  rebuiltIndex recordingId { written with
    leases := db.leases.filter fun lease =>
      !(lease.jobId == jobId && (ownerToken.isEmpty || lease.ownerToken == ownerToken)) }

theorem completeAndActivate_exact {recordingId jobId ownerToken : QString} {db' : Database}
    (hok : completeAndActivate t now recordingId jobId ownerToken db = (.ok (), db')) :
    db.holdsLease now jobId ownerToken = true ∧
      (∃ job, db.job? jobId = some job ∧ job.recordingId = recordingId ∧ job.state = .finalizing) ∧
      db' = completedDatabase t now recordingId jobId ownerToken db := by
  unfold completeAndActivate at hok
  split at hok
  · cases hok
  obtain ⟨hlease, hop⟩ := executionLeaseTransaction_ok hok
  obtain ⟨_, _, hfind, hop1⟩ := bind_eq_ok.mp hop
  obtain ⟨rfl, rfl⟩ := command_eq_ok.mp hfind
  obtain ⟨job, _, hsome, hop2⟩ := bind_eq_ok.mp hop1
  obtain ⟨hjob, rfl⟩ := requireSome_eq_ok.mp hsome
  obtain ⟨_, _, hstate, hop3⟩ := bind_eq_ok.mp hop2
  obtain ⟨hfinalizing, rfl⟩ := require_eq_ok.mp hstate
  obtain ⟨_, _, hcomplete, hop4⟩ := bind_eq_ok.mp hop3
  obtain ⟨-, -, rfl⟩ := statement_eq_ok.mp hcomplete
  obtain ⟨_, _, hcompleted, hop5⟩ := bind_eq_ok.mp hop4
  obtain ⟨-, rfl⟩ := require_eq_ok.mp hcompleted
  obtain ⟨_, _, hactivate, hop6⟩ := bind_eq_ok.mp hop5
  obtain ⟨-, rfl⟩ := command_eq_ok.mp hactivate
  obtain ⟨_, _, hactivated, hop7⟩ := bind_eq_ok.mp hop6
  obtain ⟨-, rfl⟩ := require_eq_ok.mp hactivated
  obtain ⟨_, _, hdiscard, hop8⟩ := bind_eq_ok.mp hop7
  obtain ⟨-, rfl⟩ := command_eq_ok.mp hdiscard
  obtain ⟨_, _, hhide, hop9⟩ := bind_eq_ok.mp hop8
  obtain ⟨-, -, rfl⟩ := statement_eq_ok.mp hhide
  obtain ⟨_, _, hevent, hop10⟩ := bind_eq_ok.mp hop9
  obtain ⟨-, rfl⟩ := insertEvent_ok hevent
  obtain ⟨_, _, hrelease, hindex⟩ := bind_eq_ok.mp hop10
  obtain ⟨-, rfl⟩ := command_eq_ok.mp hrelease
  obtain rfl := rebuildRecording_eq_ok.mp hindex
  obtain ⟨hfound, hrecording⟩ := Option.filter_eq_some_iff.mp hjob
  exact ⟨hlease, ⟨job, hfound, by simpa using hrecording, hfinalizing⟩, rfl⟩

/-- **Completing a job**: it was finalizing under the lease, becomes the active one of its recording, and
    the segments of the other completed jobs of the recording go. -/
theorem completeAndActivate_ok {recordingId jobId ownerToken : QString} {db' : Database}
    (hok : completeAndActivate t now recordingId jobId ownerToken db = (.ok (), db')) :
    db.holdsLease now jobId ownerToken = true ∧
      (∃ job, db.job? jobId = some job ∧ job.recordingId = recordingId ∧ job.state = .finalizing) ∧
      db'.recordings = updateRows (fun recording => recording.id == recordingId)
        (fun recording => { recording with
          activeJobId := some jobId, updatedAt := storedTime (some now) }) db.recordings ∧
      db'.jobs = updateRows
        (fun job => job.recordingId == recordingId && job.id != jobId && job.state == .completed)
        (fun job => { job with queueHidden := true }) (completedRows now recordingId jobId db.jobs) ∧
      db'.segments = db.segments.filter (fun segment =>
        !isSuperseded { db with jobs := completedRows now recordingId jobId db.jobs } recordingId jobId
          segment) ∧
      db'.leases = db.leases.filter fun lease =>
        !(lease.jobId == jobId && (ownerToken.isEmpty || lease.ownerToken == ownerToken)) := by
  obtain ⟨hlease, hjob, rfl⟩ := completeAndActivate_exact hok
  refine ⟨hlease, hjob, ?_⟩
  unfold completedDatabase
  dsimp only
  rw [rebuiltIndex_eq]
  exact ⟨rfl, rfl, rfl, rfl⟩

end BreezeDesk
