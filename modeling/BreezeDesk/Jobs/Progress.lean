/-
  The progress of a job: its stage, its overall progress and the last chunk it completed.

  Progress updates, moves, claims, recoveries and the completion write these columns separately.
  `Advances` is the order that they keep: every operation leads each row to one that has got as far, but
  for a move to `Queued`, which begins the job again and keeps only its last completed chunk.

  A completed job has done everything (`Measured`), so that its completion is an advance too.
-/
import BreezeDesk.Jobs.StateHistory
import Mathlib.Algebra.Order.Ring.Unbundled.Rat

namespace BreezeDesk

open Transaction Runs

/-! ## Advancing -/

structure Advances (before job : TranscriptionJob) : Prop where
  stage : before.stage.toNat ≤ job.stage.toNat
  progress : before.progress ≤ job.progress
  lastCompletedChunk : before.lastCompletedChunk ≤ job.lastCompletedChunk

theorem Advances.refl (job : TranscriptionJob) : Advances job job :=
  ⟨Nat.le_refl _, le_refl _, Int.le_refl _⟩

theorem Advances.trans {first second third : TranscriptionJob} (h : Advances first second)
    (h' : Advances second third) : Advances first third :=
  ⟨h.stage.trans h'.stage, h.progress.trans h'.progress, h.lastCompletedChunk.trans h'.lastCompletedChunk⟩

theorem advances_of_eq {before job : TranscriptionJob} (hstage : job.stage = before.stage)
    (hprogress : job.progress = before.progress) (hlast : job.lastCompletedChunk = before.lastCompletedChunk) :
    Advances before job :=
  ⟨hstage ▸ Nat.le_refl _, hprogress ▸ le_refl _, hlast ▸ Int.le_refl _⟩

/-- No job has done more than everything, and a completed job has done it. -/
structure Measured (job : TranscriptionJob) : Prop where
  bounded : job.progress ≤ 1
  completed : job.state = .completed → job.stage = .completed ∧ job.progress = 1

/-- A measured row may become the other. -/
structure Forward (before job : TranscriptionJob) : Prop extends Advances before job where
  id : job.id = before.id
  measured : Measured job

theorem stage_le_completed (stage : JobStage) : stage.toNat ≤ JobStage.completed.toNat := by
  cases stage <;> decide

theorem eq_completed_of_le {stage : JobStage} (h : JobStage.completed.toNat ≤ stage.toNat) :
    stage = .completed := by
  cases stage <;> first | rfl | (revert h; decide)

/-- The rows have come from the ones of `base`, forward. -/
def JobsForward (base db : Database) : Prop :=
  ∀ job ∈ db.jobs, ∃ before ∈ base.jobs, Forward before job

variable {t : CharTables} {db db' base : Database} {now : Int} {job : TranscriptionJob}

theorem jobsForward_refl (h : ∀ job ∈ db.jobs, Measured job) : JobsForward db db :=
  fun job hjob => ⟨job, hjob, .refl job, rfl, h job hjob⟩

/-- An update that leads every measured row forward. -/
def Advancing (update : TranscriptionJob → TranscriptionJob) : Prop :=
  ∀ job, Measured job → Forward job (update job)

theorem jobsForward_updateRows {which : TranscriptionJob → Bool} {update : TranscriptionJob → TranscriptionJob}
    (h : JobsForward base db)
    (hupdate : ∀ job ∈ db.jobs, which job = true → Measured job → Forward job (update job)) :
    JobsForward base { db with jobs := updateRows which update db.jobs } := by
  intro job hjob
  obtain ⟨mid, hmid, rfl⟩ := mem_updateRows.mp hjob
  obtain ⟨before, hbefore, hforward⟩ := h mid hmid
  refine ⟨before, hbefore, ?_⟩
  split
  next hwhich =>
    have hnext := hupdate mid hmid hwhich hforward.measured
    exact ⟨hforward.toAdvances.trans hnext.toAdvances, hnext.id.trans hforward.id, hnext.measured⟩
  next => exact hforward

/-! ## Updates that lead forward -/

theorem advancing_still {update : TranscriptionJob → TranscriptionJob} (h : Still update) : Advancing update := by
  intro job hjob
  refine ⟨advances_of_eq (h.stage job) (h.progress job) (h.lastCompletedChunk job), h.id job,
    (h.progress job).symm ▸ hjob.bounded, fun hstate => ?_⟩
  rw [h.stage, h.progress]
  exact hjob.completed ((h.state job).symm.trans hstate)

theorem advancing_recoveredJob (pending : Bool) (message : QString) :
    Advancing (recoveredJob now pending message) := by
  intro job hjob
  unfold recoveredJob
  split <;> exact ⟨advances_of_eq rfl rfl rfl, rfl, hjob.bounded, fun hstate => (by cases hstate)⟩

theorem advancing_claimedJob : Advancing (claimedJob now) :=
  fun _ hjob => ⟨advances_of_eq rfl rfl rfl, rfl, hjob.bounded, fun hstate => (by cases hstate)⟩

theorem advancing_completedJob : Advancing (completedJob now) :=
  fun _ hjob => ⟨⟨stage_le_completed _, hjob.bounded, Int.le_refl _⟩, rfl, le_refl _, fun _ => ⟨rfl, rfl⟩⟩

/-- Every move but the one that begins the job again. -/
theorem advancing_transitionedJob {position : Int} {state : JobState} {errorCode errorMessage : QString}
    (hstate : state ≠ .queued) : Advancing (transitionedJob now position state errorCode errorMessage) := by
  intro job hjob
  cases state with
  | queued => exact absurd rfl hstate
  | completed => exact ⟨⟨stage_le_completed _, hjob.bounded, Int.le_refl _⟩, rfl, le_refl _, fun _ => ⟨rfl, rfl⟩⟩
  | _ => exact ⟨advances_of_eq rfl rfl rfl, rfl, hjob.bounded, fun hcompleted => (by cases hcompleted)⟩

/-- A report of a stage that is not earlier. -/
theorem forward_progressedJob {stage : JobStage} {progress : Rat} {last : Int} (hstage : job.stage.toNat ≤ stage.toNat)
    (hprogress : progress ≤ 1) (hjob : Measured job) : Forward job (progressedJob stage progress last job) := by
  refine ⟨⟨hstage, le_max_left _ _, le_max_left _ _⟩, rfl, max_le hjob.bounded hprogress, fun hstate => ?_⟩
  obtain ⟨hdone, hall⟩ := hjob.completed hstate
  refine ⟨eq_completed_of_le (hdone ▸ hstage), ?_⟩
  show max job.progress progress = 1
  rw [hall, max_eq_left hprogress]

/-! ## Operations that lead forward -/

theorem jobsForward_calm : CalmKeep Advancing (JobsForward base) where
  jobs _ _ _ hupdate hI _ := jobsForward_updateRows hI fun job _ _ hjob => hupdate job hjob
  chunks _ _ hI := hI
  detach _ _ hI := hI
  events _ _ _ hI := hI
  leases _ _ hI _ _ := hI

theorem jobsForward_claim : ClaimKeep (JobsForward base) :=
  fun _ _ _ _ hI _ _ _ _ => jobsForward_updateRows hI fun job _ _ hjob => advancing_claimedJob job hjob

theorem jobsForward_cascade (db : Database) (which : TranscriptionJob → Bool) (hI : JobsForward base db) :
    JobsForward base (cascadeJobs which db) :=
  fun job hjob => hI job (List.mem_filter.mp hjob).1

theorem jobsForward_immaterial : SegmentsImmaterial (JobsForward base) where
  segments _ _ hI := hI
  index _ _ hI := hI

theorem jobsForward_recordings : RecordingRepository.RecordingsImmaterial (JobsForward base) where
  recordings _ _ hI := hI
  index _ _ hI := hI
  segments _ _ hI := hI
  cascade := jobsForward_cascade

theorem updateProgress_forward {id ownerToken : QString} {stage : JobStage} {progress : Rat} {last : Int}
    (hdb : JobsInOrder db) (hmeasured : ∀ job ∈ db.jobs, Measured job) :
    JobsForward db (updateProgress t now id stage progress last ownerToken db).2 := by
  refine (transactional_lease _ _ _ _).after (jobsForward_refl hmeasured) fun _ after hok => ?_
  obtain ⟨current, hfound, hstage, hafter⟩ := updateProgress_ok hok
  obtain ⟨hcurrent, rfl⟩ := of_job? hfound
  have hrows : JobsForward db { db with
      jobs := updateRows (fun job => job.id == current.id) (progressedJob stage (max 0 (min progress 1)) last) db.jobs } :=
    jobsForward_updateRows (jobsForward_refl hmeasured) fun job hjob hwhich hbefore => ?_
  · rcases hafter with rfl | rfl <;> exact hrows
  · have hsame : job = current := hdb.eq_of_id hjob hcurrent (beq_iff_eq.mp hwhich)
    exact forward_progressedJob (hsame ▸ hstage) (max_le zero_le_one (min_le_right _ _)) hbefore

theorem transition_forward {id : QString} {state : JobState} {errorCode errorMessage ownerToken : QString}
    (hmeasured : ∀ job ∈ db.jobs, Measured job) (hstate : state ≠ .queued) :
    JobsForward db (transition t now id state errorCode errorMessage ownerToken db).2 := by
  refine (transactional_ite (transactional_refusal _) (transactional_write _ _ _ _)).after
    (jobsForward_refl hmeasured) fun _ after hok => ?_
  rcases transition_exact hok with ⟨rfl, -⟩ | ⟨current, -, -, -, -, rfl⟩
  · exact jobsForward_refl hmeasured
  · exact jobsForward_updateRows (jobsForward_refl hmeasured) fun job _ _ hjob =>
      advancing_transitionedJob hstate job hjob

theorem still_hidden : Still fun job => { job with queueHidden := true } :=
  still_of (fun _ => ⟨rfl, rfl, rfl⟩) fun _ => ⟨rfl, rfl, rfl⟩

theorem completeAndActivate_forward {recordingId jobId ownerToken : QString}
    (hmeasured : ∀ job ∈ db.jobs, Measured job) :
    JobsForward db (completeAndActivate t now recordingId jobId ownerToken db).2 := by
  refine (transactional_ite (transactional_refusal _) (transactional_lease _ _ _ _)).after
    (jobsForward_refl hmeasured) fun _ after hok => ?_
  obtain ⟨-, -, -, hjobs, -, -⟩ := completeAndActivate_ok hok
  have hcompleted : JobsForward db { db with jobs := completedRows now recordingId jobId db.jobs } :=
    jobsForward_updateRows (jobsForward_refl hmeasured) fun job _ _ hjob => advancing_completedJob job hjob
  unfold JobsForward
  rw [hjobs]
  exact jobsForward_updateRows hcompleted fun job _ _ hjob => advancing_still still_hidden job hjob

/-! ## Every step -/

/-- The step moves the job back to the queue. -/
def Requeues (t : CharTables) (db : Database) (step : RepositoryStep) (id : QString) : Prop :=
  ∃ job errorCode errorMessage ownerToken, step = .jobs job ∧
    job.operation = .transition id .queued errorCode errorMessage ownerToken ∧ Accepted t db job ∧
    db.stateOf id ≠ some .queued

/-- The step creates the job. -/
def Creates (t : CharTables) (db : Database) (step : RepositoryStep) (id : QString) : Prop :=
  ∃ job row, step = .jobs job ∧ job.operation = .createQueued row ∧ Accepted t db job ∧
    (newJob job.now (job.newId 0) row).id = id

/-- The job begins again: all that is left of its last run is the last chunk. -/
structure Restarted (before job : TranscriptionJob) : Prop where
  stage : job.stage = .preparing
  progress : job.progress = 0
  lastCompletedChunk : job.lastCompletedChunk = before.lastCompletedChunk

/-- Where the progress of a row comes from. -/
inductive Progressed (t : CharTables) (db : Database) (step : RepositoryStep) (job : TranscriptionJob) : Prop where
  | forward (before : TranscriptionJob) (hbefore : before ∈ db.jobs) (hid : before.id = job.id)
      (hadvances : Advances before job)
  | requeued (before : TranscriptionJob) (hbefore : before ∈ db.jobs) (hid : before.id = job.id)
      (hstep : Requeues t db step job.id) (hrestarted : Restarted before job)
  | created (hfresh : ∀ before ∈ db.jobs, before.id ≠ job.id) (hstep : Creates t db step job.id)

theorem JobsForward.progressed {step : RepositoryStep} (h : JobsForward db db') :
    ∀ job ∈ db'.jobs, Measured job ∧ Progressed t db step job := by
  intro job hjob
  obtain ⟨before, hbefore, hforward⟩ := h job hjob
  exact ⟨hforward.measured, .forward before hbefore hforward.id.symm hforward.toAdvances⟩

/-- A job begins with nothing done. -/
theorem createQueued_progressed {step : Step} {row : TranscriptionJob} (hoperation : step.operation = .createQueued row)
    (hmeasured : ∀ job ∈ db.jobs, Measured job) :
    ∀ job ∈ (performed t db step).jobs, Measured job ∧ Progressed t db (.jobs step) job := by
  rcases accepted_or_unchanged t db step with haccepted | hsame
  · have hok := accepted_eq haccepted
    unfold perform at hok
    rw [hoperation] at hok
    obtain ⟨created, hcreated⟩ := answered_ok hok
    obtain ⟨hinsertable, -, hafter⟩ := createQueued_ok hcreated
    rw [hafter]
    intro job hjob
    rcases List.mem_append.mp hjob with hold | hnew
    · exact ⟨hmeasured job hold, .forward job hold rfl (.refl job)⟩
    · rw [List.mem_singleton.mp hnew]
      refine ⟨⟨zero_le_one, fun hstate => (by cases hstate)⟩, .created (not_mem_of_insertable hinsertable) ?_⟩
      exact ⟨step, row, rfl, hoperation, haccepted, rfl⟩
  · rw [hsame]
    exact (jobsForward_refl hmeasured).progressed

/-- **A requeue** restarts its job and touches no other. -/
theorem transition_progressed {step : Step} {id : QString} {errorCode errorMessage ownerToken : QString}
    (hoperation : step.operation = .transition id .queued errorCode errorMessage ownerToken)
    (hmeasured : ∀ job ∈ db.jobs, Measured job) :
    ∀ job ∈ (performed t db step).jobs, Measured job ∧ Progressed t db (.jobs step) job := by
  rcases accepted_or_unchanged t db step with haccepted | hsame
  · have hok := accepted_eq haccepted
    unfold perform at hok
    rw [hoperation] at hok
    rcases transition_exact hok with ⟨hsame, -⟩ | ⟨current, hfound, hother, -, -, hafter⟩
    · rw [hsame]
      exact (jobsForward_refl hmeasured).progressed
    · rw [hafter]
      intro job hjob
      obtain ⟨before, hbefore, rfl⟩ := mem_updateRows.mp hjob
      split
      next hwhich =>
        rw [Bool.and_eq_true, beq_iff_eq, beq_iff_eq] at hwhich
        have hid : before.id = id := hwhich.1.trans (of_job? hfound).2
        refine ⟨⟨zero_le_one, fun hstate => (by cases hstate)⟩, .requeued before hbefore rfl ?_ ⟨rfl, rfl, rfl⟩⟩
        show Requeues t db (.jobs step) before.id
        rw [hid]
        refine ⟨step, errorCode, errorMessage, ownerToken, rfl, hoperation, haccepted, fun hqueued => ?_⟩
        unfold Database.stateOf at hqueued
        rw [hfound] at hqueued
        exact hother (Option.some.inj hqueued)
      next => exact ⟨hmeasured before hbefore, .forward before hbefore rfl (.refl before)⟩
  · rw [hsame]
    exact (jobsForward_refl hmeasured).progressed

/-- **One step** of the repositories, one case for each kind of operation. -/
theorem executed_progressed (step : RepositoryStep) (hdb : JobsInOrder db)
    (hmeasured : ∀ job ∈ db.jobs, Measured job) :
    ∀ job ∈ (executed t db step).jobs, Measured job ∧ Progressed t db step job := by
  have hstart : JobsForward db db := jobsForward_refl hmeasured
  have hstill : ∀ update, Still update → Advancing update := fun _ hupdate => advancing_still hupdate
  cases step with
  | recordings now uuid operation =>
    exact (RecordingRepository.perform_immaterial jobsForward_recordings hstart).progressed
  | jobs step =>
    cases htranscript : step.operation.isTranscript with
    | true => exact (performed_transcript jobsForward_immaterial htranscript hstart).progressed
    | false =>
      have hquiet : QuietKeep (JobsForward db) := jobsForward_calm.quiet
      obtain ⟨now, newId, operation⟩ := step
      cases operation with
      | createQueued job => exact createQueued_progressed rfl hmeasured
      | claimNextQueued =>
        exact (claimNextQueued_keeps jobsForward_calm jobsForward_claim advancing_recoveredJob hstart).progressed
      | claimQueued =>
        exact (claimQueued_keeps jobsForward_calm jobsForward_claim advancing_recoveredJob hstart).progressed
      | renewLease => exact (renewLease_keeps hquiet hstart).progressed
      | releaseLease => exact (releaseLease_keeps hquiet hstart).progressed
      | transition id state errorCode errorMessage ownerToken =>
        by_cases hqueued : state = .queued
        · subst hqueued
          exact transition_progressed rfl hmeasured
        · exact (transition_forward hmeasured hqueued).progressed
      | completeAndActivate => exact (completeAndActivate_forward hmeasured).progressed
      | updateProgress => exact (updateProgress_forward hdb hmeasured).progressed
      | updateRuntimeInfo => exact (updateRuntimeInfo_keeps jobsForward_calm hstill hstart).progressed
      | updateParameters => exact (updateParameters_keeps jobsForward_calm hstill hstart).progressed
      | appendEvent => exact (appendEvent_keeps jobsForward_calm hstart).progressed
      | replaceChunks => exact (replaceChunks_keeps hquiet hstart).progressed
      | updateChunk => exact (updateChunk_keeps jobsForward_calm hstart).progressed
      | reorder => exact (reorder_keeps jobsForward_calm hstill hstart).progressed
      | markRunningJobsInterrupted =>
        exact (markRunningJobsInterrupted_keeps jobsForward_calm advancing_recoveredJob hstart).progressed
      | deleteTerminalJob =>
        exact (deleteTerminalJob_keeps jobsForward_calm hstill jobsForward_immaterial.index
          jobsForward_cascade hstart).progressed
      | clearCompleted =>
        exact (clearCompleted_keeps jobsForward_calm hstill jobsForward_immaterial.index
          jobsForward_cascade hstart).progressed
      | _ => cases htranscript

/-! ## Every run -/

/-- What holds of every database that the repositories reach. -/
def JobsMeasured (db : Database) : Prop := JobsInOrder db ∧ ∀ job ∈ db.jobs, Measured job

theorem executed_jobsMeasured : StepKeeps (executed t) (fun _ _ => True) JobsMeasured :=
  fun db step h _ => ⟨executed_jobsInOrder db step h.1 trivial,
    fun job hjob => (executed_progressed step h.1 h.2 job hjob).1⟩

theorem jobsMeasured_reached (t : CharTables) (steps : List RepositoryStep) :
    JobsMeasured (run (executed t) {} steps) :=
  run_invariant executed_jobsMeasured ⟨jobsInOrder_empty, fun _ hjob => (by cases hjob)⟩ (guarded_true _ steps)

/-- One step, seen by the job of an id: unless it creates the job, the job was there and advances, or
    begins again. -/
theorem executed_job {step : RepositoryStep} {id : QString} {after : TranscriptionJob} (h : JobsMeasured db)
    (hafter : (executed t db step).job? id = some after) (hcreates : ¬ Creates t db step id) :
    ∃ before, db.job? id = some before ∧
      (Advances before after ∨ Requeues t db step id ∧ Restarted before after) := by
  obtain ⟨hmem, rfl⟩ := of_job? hafter
  cases (executed_progressed step h.1 h.2 after hmem).2 with
  | forward before hbefore hid hadvances =>
    exact ⟨before, hid ▸ h.1.job?_eq hbefore, Or.inl hadvances⟩
  | requeued before hbefore hid hstep hrestarted =>
    exact ⟨before, hid ▸ h.1.job?_eq hbefore, Or.inr ⟨hstep, hrestarted⟩⟩
  | created _ hstep => exact absurd hstep hcreates

/-- **The run rule.**  Where no step creates the job, an order that every step keeps holds between the job
    at the start and at the end, by induction on the steps. -/
theorem run_job {ok : Database → RepositoryStep → Prop} {R : TranscriptionJob → TranscriptionJob → Prop}
    {id : QString} (hrefl : ∀ job, R job job) (htrans : ∀ a b c, R a b → R b c → R a c)
    (hstep : ∀ db step after, JobsMeasured db → ok db step → (executed t db step).job? id = some after →
      ∃ before, db.job? id = some before ∧ R before after)
    (steps : List RepositoryStep) (h : JobsMeasured db) (hok : Guarded (executed t) ok db steps)
    {after : TranscriptionJob} (hafter : (run (executed t) db steps).job? id = some after) :
    ∃ before, db.job? id = some before ∧ R before after := by
  induction steps generalizing db with
  | nil => exact ⟨after, hafter, hrefl after⟩
  | cons step rest ih =>
    obtain ⟨mid, hmid, hrest⟩ := ih (executed_jobsMeasured db step h trivial) hok.2 hafter
    obtain ⟨before, hbefore, hfirst⟩ := hstep db step mid h hok.1 hmid
    exact ⟨before, hbefore, htrans _ _ _ hfirst hrest⟩

/-- **Between two queue events** a job advances. -/
theorem run_advances {id : QString} (steps : List RepositoryStep) (h : JobsMeasured db)
    (hok : Guarded (executed t) (fun db step => ¬ Requeues t db step id ∧ ¬ Creates t db step id) db steps)
    {after : TranscriptionJob} (hafter : (run (executed t) db steps).job? id = some after) :
    ∃ before, db.job? id = some before ∧ Advances before after := by
  refine run_job .refl (fun _ _ _ => .trans) (fun db step after h hok hafter => ?_) steps h hok hafter
  obtain ⟨before, hbefore, hadvances | ⟨hrequeues, -⟩⟩ := executed_job h hafter hok.2
  · exact ⟨before, hbefore, hadvances⟩
  · exact absurd hrequeues hok.1

/-- The last completed chunk survives a requeue, too. -/
theorem run_lastCompletedChunk {id : QString} (steps : List RepositoryStep) (h : JobsMeasured db)
    (hok : Guarded (executed t) (fun db step => ¬ Creates t db step id) db steps)
    {after : TranscriptionJob} (hafter : (run (executed t) db steps).job? id = some after) :
    ∃ before, db.job? id = some before ∧ before.lastCompletedChunk ≤ after.lastCompletedChunk := by
  refine run_job (R := fun before after => before.lastCompletedChunk ≤ after.lastCompletedChunk)
    (fun _ => Int.le_refl _) (fun _ _ _ => Int.le_trans) (fun db step after h hok hafter => ?_) steps h hok hafter
  obtain ⟨before, hbefore, hadvances | ⟨-, hrestarted⟩⟩ := executed_job h hafter hok
  · exact ⟨before, hbefore, hadvances.lastCompletedChunk⟩
  · exact ⟨before, hbefore, hrestarted.lastCompletedChunk.ge⟩

/-! ## Progress updates and completion -/

section

variable {step : Step} {id : QString} {before : TranscriptionJob}

theorem performed_jobsMeasured (h : JobsMeasured db) : JobsMeasured (performed t db step) :=
  executed_jobsMeasured db (.jobs step) h trivial

/-- A late report of an earlier stage fails, and leaves what is stored. -/
theorem updateProgress_earlier {stage : JobStage} {progress : Rat} {last : Int} {ownerToken : QString}
    (hoperation : step.operation = .updateProgress id stage progress last ownerToken)
    (hbefore : db.job? id = some before) (hstage : stage.toNat < before.stage.toNat) :
    ¬ Accepted t db step ∧ performed t db step = db := by
  have hrefused : ¬ Accepted t db step := by
    intro haccepted
    have hok := accepted_eq haccepted
    unfold perform at hok
    rw [hoperation] at hok
    obtain ⟨current, hfound, hforward, -⟩ := updateProgress_ok hok
    rw [hbefore] at hfound
    cases hfound
    omega
  exact ⟨hrefused, (accepted_or_unchanged t db step).resolve_left hrefused⟩

theorem updateProgress_later {stage : JobStage} {progress : Rat} {last : Int} {ownerToken : QString}
    (h : JobsMeasured db) (hoperation : step.operation = .updateProgress id stage progress last ownerToken)
    (hbefore : db.job? id = some before) (haccepted : Accepted t db step) :
    (performed t db step).job? id = some (progressedJob stage (max 0 (min progress 1)) last before) := by
  have hok := accepted_eq haccepted
  unfold perform at hok
  rw [hoperation] at hok
  obtain ⟨hmem, rfl⟩ := of_job? hbefore
  obtain ⟨_, -, -, hafter⟩ := updateProgress_ok hok
  refine JobsInOrder.job?_eq (performed_jobsMeasured h).1 (?_ : progressedJob stage (max 0 (min progress 1)) last before ∈ _)
  have hrow : progressedJob stage (max 0 (min progress 1)) last before ∈
      updateRows (fun job => job.id == before.id) (progressedJob stage (max 0 (min progress 1)) last) db.jobs :=
    mem_updateRows.mpr ⟨before, hmem, (if_pos (beq_self_eq_true before.id)).symm⟩
  rcases hafter with heq | heq
  · rw [heq]
    exact hrow
  · rw [heq]
    exact hrow

/-- **A move** of the job, unless it is in the state already. -/
theorem transition_job {state : JobState} {errorCode errorMessage ownerToken : QString} (h : JobsMeasured db)
    (hoperation : step.operation = .transition id state errorCode errorMessage ownerToken)
    (haccepted : Accepted t db step) :
    (performed t db step = db ∧ ∃ current, db.job? id = some current ∧ current.state = state) ∨
      ∃ current, db.job? id = some current ∧ current.state ≠ state ∧ (performed t db step).job? id =
        some (transitionedJob step.now (nextQueuePosition db) state errorCode errorMessage current) := by
  have hafter : JobsMeasured (performed t db step) := performed_jobsMeasured h
  have hok := accepted_eq haccepted
  unfold perform at hok
  rw [hoperation] at hok
  rcases transition_exact hok with hsame | ⟨current, hfound, hother, -, -, hmoved⟩
  · exact Or.inl hsame
  · obtain ⟨hmem, rfl⟩ := of_job? hfound
    refine Or.inr ⟨current, hfound, hother, ?_⟩
    have hfields := @transitionedJob_fields step.now (nextQueuePosition db) state errorCode errorMessage current
    refine Eq.trans (congrArg _ hfields.1.symm) (hafter.1.job?_eq ?_)
    rw [hmoved]
    refine mem_updateRows.mpr ⟨current, hmem, (if_pos ?_).symm⟩
    rw [beq_self_eq_true, beq_self_eq_true]
    rfl

/-- The step completes the job. -/
def Completes (step : Step) (id : QString) : Prop :=
  (∃ recordingId ownerToken, step.operation = .completeAndActivate recordingId id ownerToken) ∨
    ∃ errorCode errorMessage ownerToken,
      step.operation = .transition id .completed errorCode errorMessage ownerToken

theorem completes_job (h : JobsMeasured db) (hcompletes : Completes step id) (haccepted : Accepted t db step) :
    ∃ after, (performed t db step).job? id = some after ∧ after.state = .completed := by
  have hafter : JobsMeasured (performed t db step) := performed_jobsMeasured h
  have hok := accepted_eq haccepted
  unfold perform at hok
  rcases hcompletes with ⟨recordingId, owner, hoperation⟩ | ⟨errorCode, errorMessage, owner, hoperation⟩
  · rw [hoperation] at hok
    obtain ⟨-, ⟨job, hfound, hrecording, hstate⟩, -, hjobs, -, -⟩ := completeAndActivate_ok hok
    obtain ⟨hmem, rfl⟩ := of_job? hfound
    refine ⟨completedJob step.now job, hafter.1.job?_eq (?_ : completedJob step.now job ∈ _), rfl⟩
    rw [hjobs]
    refine mem_updateRows.mpr ⟨_, mem_updateRows.mpr ⟨job, hmem, rfl⟩, ?_⟩
    rw [if_pos (c := (job.id == job.id && job.recordingId == recordingId && job.state == .finalizing) = true) (by
      rw [hrecording, hstate, beq_self_eq_true, beq_self_eq_true]
      rfl)]
    refine (if_neg fun hwhich => ?_).symm
    rw [Bool.and_eq_true, Bool.and_eq_true, bne_iff_ne] at hwhich
    exact hwhich.1.2 rfl
  · rcases transition_job h hoperation haccepted with ⟨hsame, current, hfound, hstate⟩ | ⟨current, -, -, hmoved⟩
    · rw [hsame]
      exact ⟨current, hfound, hstate⟩
    · exact ⟨_, hmoved, rfl⟩

/-- **A requeue** keeps the last completed chunk alone. -/
theorem requeues_job {step : RepositoryStep} {after : TranscriptionJob} (h : JobsMeasured db)
    (hrequeues : Requeues t db step id) (hbefore : db.job? id = some before)
    (hafter : (executed t db step).job? id = some after) : Restarted before after := by
  obtain ⟨job, errorCode, errorMessage, owner, rfl, hoperation, haccepted, hother⟩ := hrequeues
  unfold Database.stateOf at hother
  rw [hbefore] at hother
  rcases transition_job h hoperation haccepted with ⟨-, current, hfound, hstate⟩ | ⟨current, hfound, -, hmoved⟩
  · rw [hbefore] at hfound
    cases hfound
    exact absurd (congrArg some hstate) hother
  · rw [hbefore] at hfound
    cases hfound
    have hrow : some _ = some after := hmoved.symm.trans hafter
    cases hrow
    exact ⟨rfl, rfl, rfl⟩

/-- A job that is there is not created. -/
theorem not_creates {step : RepositoryStep} (hbefore : db.job? id = some before) : ¬ Creates t db step id := by
  rintro ⟨job, row, rfl, hoperation, haccepted, hid⟩
  have hok := accepted_eq haccepted
  unfold perform at hok
  rw [hoperation] at hok
  obtain ⟨_, hcreated⟩ := answered_ok hok
  obtain ⟨hmem, hsame⟩ := of_job? hbefore
  exact not_mem_of_insertable (createQueued_ok hcreated).1 before hmem (hsame.trans hid.symm)

end

/-- **Progress is monotone within a run.**  In every database that the repositories reach, whoever calls
    them: between two queue events of a job it advances, and its last completed chunk survives requeues;
    a step that does not requeue it makes it advance, and a requeue restarts it; an update of an earlier
    stage fails and changes nothing, and any other leaves the larger numbers; completing the job sets its
    stage and all of its progress. -/
theorem progress_monotone (t : CharTables) (earlier : List RepositoryStep) (id : QString) :
    let db := run (executed t) {} earlier
    (∀ steps before after, db.job? id = some before → (run (executed t) db steps).job? id = some after →
      (Guarded (executed t) (fun db step => ¬ Requeues t db step id ∧ ¬ Creates t db step id) db steps →
        Advances before after) ∧
      (Guarded (executed t) (fun db step => ¬ Creates t db step id) db steps →
        before.lastCompletedChunk ≤ after.lastCompletedChunk)) ∧
      (∀ step before after, db.job? id = some before → (executed t db step).job? id = some after →
        ¬ Creates t db step id ∧ (Requeues t db step id → Restarted before after) ∧
          (¬ Requeues t db step id → Advances before after)) ∧
      (∀ step stage progress last ownerToken before,
        step.operation = .updateProgress id stage progress last ownerToken → db.job? id = some before →
        (stage.toNat < before.stage.toNat → ¬ Accepted t db step ∧ performed t db step = db) ∧
          (Accepted t db step → (performed t db step).job? id =
            some { before with
              stage, progress := max before.progress (max 0 (min progress 1))
              lastCompletedChunk := max before.lastCompletedChunk last })) ∧
      ∀ step, Completes step id → Accepted t db step →
        ∃ after, (performed t db step).job? id = some after ∧ after.stage = .completed ∧ after.progress = 1 := by
  intro db
  have hdb : JobsMeasured db := jobsMeasured_reached t earlier
  refine ⟨fun steps before after hbefore hafter => ⟨fun hok => ?_, fun hok => ?_⟩,
    fun step before after hbefore hafter => ?_, fun step stage progress last owner before hoperation hbefore => ?_,
    fun step hcompletes haccepted => ?_⟩
  · obtain ⟨first, hfirst, hadvances⟩ := run_advances steps hdb hok hafter
    rw [hbefore] at hfirst
    cases hfirst
    exact hadvances
  · obtain ⟨first, hfirst, hlast⟩ := run_lastCompletedChunk steps hdb hok hafter
    rw [hbefore] at hfirst
    cases hfirst
    exact hlast
  · have hcreates : ¬ Creates t db step id := not_creates hbefore
    refine ⟨hcreates, fun hrequeues => requeues_job hdb hrequeues hbefore hafter, fun hnot => ?_⟩
    obtain ⟨first, hfirst, hadvances | ⟨hrequeues, -⟩⟩ := executed_job hdb hafter hcreates
    · rw [hbefore] at hfirst
      cases hfirst
      exact hadvances
    · exact absurd hrequeues hnot
  · exact ⟨updateProgress_earlier hoperation hbefore, updateProgress_later hdb hoperation hbefore⟩
  · obtain ⟨after, hafter, hstate⟩ := completes_job hdb hcompletes haccepted
    obtain ⟨hdone, hall⟩ := ((performed_jobsMeasured hdb).2 after (of_job? hafter).1).completed hstate
    exact ⟨after, hafter, hdone, hall⟩

end BreezeDesk
