/-
  Who writes the parameters of a job.

  They are given with the job when it is created, and `updateParameters` replaces them as a whole; no other
  operation of any repository changes them (`inherits_executed`).
-/
import BreezeDesk.Jobs.Steps

namespace BreezeDesk

open Transaction

/-- Every job was there before, with the same parameters. -/
def Inherits (db db' : Database) : Prop :=
  ∀ job ∈ db'.jobs, ∃ old ∈ db.jobs, old.id = job.id ∧ old.parameters = job.parameters

/-- An update of a row that leaves the parameters to the job. -/
def Unaware (update : TranscriptionJob → TranscriptionJob) : Prop :=
  ∀ job, (update job).id = job.id ∧ (update job).parameters = job.parameters

variable {t : CharTables} {db mid db' : Database} {now : Int}

theorem Inherits.refl (db : Database) : Inherits db db := fun job hjob => ⟨job, hjob, rfl, rfl⟩

theorem Inherits.trans (h : Inherits db mid) (h' : Inherits mid db') : Inherits db db' := by
  intro job hjob
  obtain ⟨between, hbetween, hid, hparameters⟩ := h' job hjob
  obtain ⟨old, hold, hid', hparameters'⟩ := h between hbetween
  exact ⟨old, hold, hid'.trans hid, hparameters'.trans hparameters⟩

theorem Inherits.of_jobs (h : Inherits db mid) (hjobs : db'.jobs = mid.jobs) : Inherits db db' := by
  intro job hjob
  exact h job (hjobs ▸ hjob)

theorem inherits_same (hjobs : db'.jobs = db.jobs) : Inherits db db' := (Inherits.refl db).of_jobs hjobs

theorem Inherits.update {which : TranscriptionJob → Bool} {update : TranscriptionJob → TranscriptionJob}
    (h : Inherits db mid) (hjobs : db'.jobs = updateRows which update mid.jobs) (hunaware : Unaware update) :
    Inherits db db' := by
  intro job hjob
  rw [hjobs] at hjob
  obtain ⟨between, hbetween, rfl⟩ := mem_updateRows.mp hjob
  obtain ⟨old, hold, hid, hparameters⟩ := h between hbetween
  refine ⟨old, hold, ?_, ?_⟩
  · rw [hid]
    split
    · exact (hunaware between).1.symm
    · rfl
  · rw [hparameters]
    split
    · exact (hunaware between).2.symm
    · rfl

theorem Inherits.cascade (h : Inherits db mid) (which : TranscriptionJob → Bool) :
    Inherits db (cascadeJobs which mid) :=
  fun job hjob => h job (List.mem_of_mem_filter hjob)

theorem Inherits.rebuilt (h : Inherits db mid) (id : QString) : Inherits db (rebuiltIndex id mid) :=
  h.of_jobs (sameJobs_rebuilt id mid).jobs

/-! ## The updates of job rows -/

theorem unaware_transitionedJob {position : Int} {state : JobState} {errorCode errorMessage : QString} :
    Unaware (transitionedJob now position state errorCode errorMessage) := by
  intro job
  cases state <;> exact ⟨rfl, rfl⟩

theorem unaware_recoveredJob {pending : Bool} {message : QString} : Unaware (recoveredJob now pending message) := by
  intro job
  cases pending <;> exact ⟨rfl, rfl⟩

/-! ## The operations -/

theorem inherits_transition {id : QString} {state : JobState} {errorCode errorMessage ownerToken : QString}
    {u : Unit} (h : transition t now id state errorCode errorMessage ownerToken db = (.ok u, db')) :
    Inherits db db' := by
  rcases transition_exact h with ⟨rfl, -⟩ | ⟨current, -, -, -, -, rfl⟩
  · exact Inherits.refl _
  · exact (Inherits.refl db).update rfl unaware_transitionedJob

theorem inherits_recovered {which : TranscriptionJob → Bool} {pending : Bool} {eventType jobId message : QString} :
    Inherits db (recoveredDatabase t now which pending eventType jobId message db) :=
  (Inherits.refl db).update rfl unaware_recoveredJob

theorem inherits_recoverJobs {reason : QString} (jobs : List TranscriptionJob) : ∀ {db db' : Database} {count : Nat},
    recoverJobs t now reason jobs db = .ok (count, db') → Inherits db db' := by
  induction jobs with
  | nil =>
    intro db db' count h
    obtain ⟨-, rfl⟩ := pure_eq_ok.mp h
    exact Inherits.refl _
  | cons job rest ih =>
    intro db db' count h
    obtain ⟨_, mid, hone, hop⟩ := bind_eq_ok.mp h
    obtain ⟨_, last, hrest, hpure⟩ := bind_eq_ok.mp hop
    obtain ⟨-, rfl⟩ := pure_eq_ok.mp hpure
    refine Inherits.trans ?_ (ih hrest)
    rcases recoverJob_ok hone with ⟨-, rfl⟩ | ⟨-, message, rfl⟩
    · exact Inherits.refl _
    · exact inherits_recovered

theorem inherits_markRunningJobsInterrupted {reason : QString} {count : Nat}
    (h : markRunningJobsInterrupted t now reason db = (.ok count, db')) : Inherits db db' := by
  obtain ⟨-, mid, hrecover, hclear⟩ := markRunningJobsInterrupted_steps h
  refine (inherits_recoverJobs _ hrecover).of_jobs ?_
  unfold clearExpiredLease at hclear
  split at hclear
  · obtain rfl := deleteLease_ok hclear
    rfl
  · obtain ⟨-, rfl⟩ := pure_eq_ok.mp hclear
    rfl

theorem inherits_recoverExpiredLease {lease : Option AsrExecutionLease} {u : Unit}
    (h : recoverExpiredLease t now lease db = .ok (u, db')) : Inherits db db' := by
  cases lease with
  | none =>
    obtain ⟨-, rfl⟩ := pure_eq_ok.mp h
    exact Inherits.refl _
  | some expired =>
    obtain ⟨_, mid, hrecover, hdelete⟩ := bind_eq_ok.mp h
    have hmid : Inherits db mid := by
      rcases recoverExpiredJob_ok hrecover with rfl | ⟨which, pending, message, -, -, rfl⟩
      · exact Inherits.refl _
      · exact inherits_recovered
    obtain rfl := deleteLease_ok hdelete
    exact hmid.of_jobs rfl

theorem inherits_claimInDatabase {requestedJobId : Option QString} {ownerToken : QString} {leaseDurationMs : Int}
    {claim : JobClaimResult}
    (h : claimInDatabase t now requestedJobId ownerToken leaseDurationMs db = .ok (claim, db')) :
    Inherits db db' := by
  rcases claimInDatabase_exact h with ⟨_, -, -, rfl, -⟩ | ⟨-, mid, hrecover, hidle⟩
  · exact Inherits.refl db'
  · refine (inherits_recoverExpiredLease hrecover).trans ?_
    rcases claimIdle_exact hidle with ⟨rfl, -⟩ | ⟨selected, -, -, -, -, -, rfl⟩
    · exact Inherits.refl db'
    · exact (Inherits.refl mid).update rfl fun job => ⟨rfl, rfl⟩

theorem inherits_completeAndActivate {recordingId jobId ownerToken : QString}
    (h : completeAndActivate t now recordingId jobId ownerToken db = (.ok (), db')) : Inherits db db' := by
  obtain ⟨-, -, -, hjobs, -⟩ := completeAndActivate_ok h
  have hcompleted : Inherits db { db with jobs := completedRows now recordingId jobId db.jobs } :=
    (Inherits.refl db).update rfl fun job => ⟨rfl, rfl⟩
  exact hcompleted.update hjobs fun job => ⟨rfl, rfl⟩

theorem inherits_updateProgress {id ownerToken : QString} {stage : JobStage} {progress : Rat} {last : Int} {u : Unit}
    (h : updateProgress t now id stage progress last ownerToken db = (.ok u, db')) : Inherits db db' := by
  obtain ⟨current, -, -, rfl | rfl⟩ := updateProgress_ok h
  · exact (Inherits.refl db).update rfl fun job => ⟨rfl, rfl⟩
  · exact (Inherits.refl db).update rfl fun job => ⟨rfl, rfl⟩

theorem updateRuntimeInfo_ok {id backend engineVersion workerVersion ownerToken : QString}
    {diagnostics : QJsonObject} {u : Unit}
    (h : updateRuntimeInfo now id backend engineVersion workerVersion diagnostics ownerToken db = (.ok u, db')) :
    ∃ merged, db'.jobs = updateRows (fun job => job.id == id)
      (fun job => { job with backend, engineVersion, workerVersion, diagnostics := merged }) db.jobs := by
  obtain ⟨-, hop⟩ := executionLeaseTransaction_ok h
  obtain ⟨current, _, hfind, hop1⟩ := bind_eq_ok.mp hop
  obtain ⟨_, _, hquery, hsome⟩ := bind_eq_ok.mp hfind
  obtain ⟨rfl, rfl⟩ := command_eq_ok.mp hquery
  obtain ⟨-, rfl⟩ := requireSome_eq_ok.mp hsome
  obtain ⟨_, _, hupdate, hrequire⟩ := bind_eq_ok.mp hop1
  obtain ⟨-, -, rfl⟩ := statement_eq_ok.mp hupdate
  obtain ⟨-, rfl⟩ := require_eq_ok.mp hrequire
  exact ⟨_, rfl⟩

/-- **The parameters are replaced as a whole.** -/
theorem updateParameters_ok {id ownerToken : QString} {parameters : QJsonObject} {u : Unit}
    (h : updateParameters now id parameters ownerToken db = (.ok u, db')) :
    db'.jobs = updateRows (fun job => job.id == id) (fun job => { job with parameters }) db.jobs := by
  obtain ⟨-, hop⟩ := executionLeaseTransaction_ok h
  obtain ⟨_, _, hupdate, hrequire⟩ := bind_eq_ok.mp hop
  obtain ⟨-, -, rfl⟩ := statement_eq_ok.mp hupdate
  obtain ⟨-, rfl⟩ := require_eq_ok.mp hrequire
  rfl

theorem inherits_reorder {ids : List QString} {u : Unit} (h : reorder ids db = (.ok u, db')) : Inherits db db' := by
  obtain ⟨-, rfl, -⟩ := reorder_ok h
  intro job hjob
  obtain ⟨before, hbefore, heq⟩ := mem_reorderedRows hjob
  exact ⟨before, hbefore, by rw [heq], by rw [heq]⟩

theorem inherits_deleteTerminalJob {id : QString} {u : Unit} (h : deleteTerminalJob id db = (.ok u, db')) :
    Inherits db db' := by
  obtain ⟨job, recording, -, -, -, rfl⟩ := deleteTerminalJob_ok h
  refine Inherits.rebuilt ?_ _
  split
  · exact (Inherits.refl db).update rfl fun job => ⟨rfl, rfl⟩
  · exact (Inherits.refl db).cascade _

theorem inherits_clearCompleted {count : Nat} (h : clearCompleted db = (.ok count, db')) : Inherits db db' := by
  obtain rfl := clearCompleted_ok h
  have hhidden : Inherits db (hiddenActive db) := (Inherits.refl db).update rfl fun job => ⟨rfl, rfl⟩
  have hkept := hhidden.cascade fun job => isClearable job && !isActiveJob db job.id
  exact hkept.of_jobs (sameJobs_rebuiltAll (clearableRecordings db) (SameJobs.refl _)).jobs

/-! ## All of them -/

/-- The jobs are those. -/
theorem jobsAre_calm (jobs : List TranscriptionJob) : CalmKeep (fun _ => False) fun db => db.jobs = jobs where
  jobs _ _ _ hnot := absurd hnot not_false
  chunks _ _ h := h
  detach _ _ h := h
  events _ _ _ h := h
  leases _ _ h _ _ := h

theorem jobsAre_segments (jobs : List TranscriptionJob) : SegmentsImmaterial fun db => db.jobs = jobs where
  segments _ _ h := h
  index _ _ h := h

theorem inherits_recordings (db : Database) : RecordingRepository.RecordingsImmaterial (Inherits db) where
  recordings _ _ h := h
  index _ _ h := h
  segments _ _ h := h
  cascade _ which h := h.cascade which

/-- The operation gives parameters to a job. -/
def Operation.givesParameters : Operation → Bool
  | .createQueued .. | .updateParameters .. => true
  | _ => false

theorem inherits_performed {step : Step} (hgives : step.operation.givesParameters = false) :
    Inherits db (performed t db step) := by
  rcases accepted_or_unchanged t db step with haccepted | hsame
  swap
  · rw [hsame]
    exact Inherits.refl _
  have hok : perform t db step = (.ok (), performed t db step) := accepted_eq haccepted
  cases htranscript : step.operation.isTranscript with
  | true => exact inherits_same (performed_transcript (jobsAre_segments db.jobs) htranscript rfl)
  | false =>
    cases hop : step.operation <;> rw [hop] at hgives htranscript <;> unfold perform at hok <;>
      rw [hop] at hok <;> dsimp only at hok
    case createQueued => cases hgives
    case updateParameters => cases hgives
    case claimNextQueued owner duration =>
      obtain ⟨claim, h⟩ := answered_ok hok
      exact inherits_claimInDatabase (claimNextQueued_ok h)
    case claimQueued jobId owner duration =>
      obtain ⟨claim, h⟩ := answered_ok hok
      exact inherits_claimInDatabase (claimQueued_ok h)
    case transition => exact inherits_transition hok
    case completeAndActivate => exact inherits_completeAndActivate hok
    case updateProgress => exact inherits_updateProgress hok
    case updateRuntimeInfo =>
      obtain ⟨merged, hjobs⟩ := updateRuntimeInfo_ok hok
      exact (Inherits.refl db).update hjobs fun job => ⟨rfl, rfl⟩
    case reorder => exact inherits_reorder hok
    case markRunningJobsInterrupted =>
      obtain ⟨count, h⟩ := answered_ok hok
      exact inherits_markRunningJobsInterrupted h
    case deleteTerminalJob => exact inherits_deleteTerminalJob hok
    case clearCompleted =>
      obtain ⟨count, h⟩ := answered_ok hok
      exact inherits_clearCompleted h
    case renewLease jobId owner duration =>
      have h : (renewLease step.now jobId owner duration db).2.jobs = db.jobs :=
        renewLease_keeps (jobsAre_calm db.jobs).quiet rfl
      rw [show performed t db step = (perform t db step).2 from rfl]
      unfold perform
      rw [hop]
      exact inherits_same h
    case releaseLease jobId owner =>
      have h : (releaseLease jobId owner db).2.jobs = db.jobs :=
        releaseLease_keeps (jobsAre_calm db.jobs).quiet rfl
      rw [hok] at h
      exact inherits_same h
    case appendEvent event owner =>
      have h : (appendEvent t step.now event owner db).2.jobs = db.jobs :=
        appendEvent_keeps (jobsAre_calm db.jobs) rfl
      rw [show performed t db step = (perform t db step).2 from rfl]
      unfold perform
      rw [hop]
      exact inherits_same h
    case replaceChunks jobId chunks owner =>
      have h : (replaceChunks step.now step.newId jobId chunks owner db).2.jobs = db.jobs :=
        replaceChunks_keeps (jobsAre_calm db.jobs).quiet rfl
      rw [hok] at h
      exact inherits_same h
    case updateChunk chunk owner =>
      have h : (updateChunk t step.now chunk owner db).2.jobs = db.jobs :=
        updateChunk_keeps (jobsAre_calm db.jobs) rfl
      rw [hok] at h
      exact inherits_same h
    all_goals cases htranscript

/-- **No other operation of any repository** gives parameters to a job. -/
theorem inherits_executed {step : RepositoryStep}
    (hgives : ∀ jobStep, step = .jobs jobStep → jobStep.operation.givesParameters = false) :
    Inherits db (executed t db step) := by
  cases step with
  | jobs jobStep => exact inherits_performed (hgives jobStep rfl)
  | recordings now uuid operation =>
    exact RecordingRepository.perform_immaterial (inherits_recordings db) (Inherits.refl db)

end BreezeDesk
