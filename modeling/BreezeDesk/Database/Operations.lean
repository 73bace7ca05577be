/-
  The system that the processes share: the database and every operation of its two repositories.

  Each operation is one SQLite transaction, so that any interleaving of processes is a list of steps,
  and a run of the system is a fold over it (`Library.Runs`).  A step carries its operation, the time on
  the clock and the UUIDs drawn; nothing is assumed about any of the three.

  A failed step changes nothing (`performed_of_error`); `performed_transcript` and `performed_job` say
  which invariants a step keeps, by kind of operation.
-/
import BreezeDesk.Jobs.Invariants
import BreezeDesk.Library.Runs
import BreezeDesk.Transcript.Rewriting

namespace BreezeDesk

open Transaction

/-! ## Operations -/

inductive Operation where
  | createQueued (job : TranscriptionJob)
  | claimNextQueued (ownerToken : QString) (leaseDurationMs : Int)
  | claimQueued (jobId ownerToken : QString) (leaseDurationMs : Int)
  | renewLease (jobId ownerToken : QString) (leaseDurationMs : Int)
  | releaseLease (jobId ownerToken : QString)
  | transition (id : QString) (state : JobState) (errorCode errorMessage ownerToken : QString)
  | completeAndActivate (recordingId jobId ownerToken : QString)
  | updateProgress (id : QString) (stage : JobStage) (progress : Rat) (lastCompletedChunk : Int)
      (ownerToken : QString)
  | updateRuntimeInfo (id actualBackend engineVersion workerVersion : QString)
      (diagnostics : QJsonObject) (ownerToken : QString)
  | updateParameters (id : QString) (parameters : QJsonObject) (ownerToken : QString)
  | appendEvent (event : JobEvent) (ownerToken : QString)
  | replaceChunks (jobId : QString) (chunks : List JobChunk) (ownerToken : QString)
  | updateChunk (chunk : JobChunk) (ownerToken : QString)
  | reorder (orderedJobIds : List QString)
  | markRunningJobsInterrupted (reason : QString)
  | deleteTerminalJob (id : QString)
  | clearCompleted
  | replaceTranscript (recordingId jobId : QString) (segments : List TranscriptSegment)
  | saveEditedTranscript (recordingId jobId : QString) (segments : List TranscriptSegment)
  | replaceChunk (recordingId jobId chunkId : QString) (segments : List TranscriptSegment)
      (provisional : Bool) (attempt : Int) (ownerToken : QString)
  | saveEditedSegment (segment : TranscriptSegment)
  | deleteSegment (segmentId : QString)

structure Step where
  now : Int
  newId : Nat → QString
  operation : Operation

/-- Whether it succeeded, and the database afterwards. -/
def answered {α : Type} (outcome : Result α × Database) : Result Unit × Database :=
  (outcome.1.map fun _ => (), outcome.2)

theorem answered_ok {α : Type} {outcome : Result α × Database} {db' : Database}
    (h : answered outcome = (.ok (), db')) : ∃ a, outcome = (.ok a, db') := by
  obtain ⟨result, after⟩ := outcome
  cases result with
  | ok a =>
    obtain rfl : after = db' := congrArg Prod.snd h
    exact ⟨a, rfl⟩
  | error error => cases h

def perform (t : CharTables) (db : Database) (step : Step) : Result Unit × Database :=
  match step.operation with
  | .createQueued job => answered (createQueued t step.now (step.newId 0) job db)
  | .claimNextQueued owner duration => answered (claimNextQueued t step.now owner duration db)
  | .claimQueued jobId owner duration => answered (claimQueued t step.now jobId owner duration db)
  | .renewLease jobId owner duration => answered (renewLease step.now jobId owner duration db)
  | .releaseLease jobId owner => releaseLease jobId owner db
  | .transition id state code message owner => transition t step.now id state code message owner db
  | .completeAndActivate recordingId jobId owner =>
    completeAndActivate t step.now recordingId jobId owner db
  | .updateProgress id stage progress last owner =>
    updateProgress t step.now id stage progress last owner db
  | .updateRuntimeInfo id backend engine worker diagnostics owner =>
    updateRuntimeInfo step.now id backend engine worker diagnostics owner db
  | .updateParameters id parameters owner => updateParameters step.now id parameters owner db
  | .appendEvent event owner => answered (appendEvent t step.now event owner db)
  | .replaceChunks jobId chunks owner => replaceChunks step.now step.newId jobId chunks owner db
  | .updateChunk chunk owner => updateChunk t step.now chunk owner db
  | .reorder ids => reorder ids db
  | .markRunningJobsInterrupted reason => answered (markRunningJobsInterrupted t step.now reason db)
  | .deleteTerminalJob id => deleteTerminalJob id db
  | .clearCompleted => answered (clearCompleted db)
  | .replaceTranscript recordingId jobId segments =>
    replaceTranscript step.now step.newId recordingId jobId segments db
  | .saveEditedTranscript recordingId jobId segments =>
    saveEditedTranscript step.now step.newId recordingId jobId segments db
  | .replaceChunk recordingId jobId chunkId segments provisional attempt owner =>
    replaceChunk t step.now step.newId recordingId jobId chunkId segments provisional attempt owner db
  | .saveEditedSegment segment => saveEditedSegment step.now segment db
  | .deleteSegment segmentId => deleteSegment step.now segmentId db

/-- The step of the system. -/
def performed (t : CharTables) (db : Database) (step : Step) : Database := (perform t db step).2

/-- The operation reported success. -/
def Accepted (t : CharTables) (db : Database) (step : Step) : Prop := (perform t db step).1 = .ok ()

theorem accepted_iff_isOk {t : CharTables} {db : Database} {step : Step} :
    (perform t db step).1.isOk = true ↔ Accepted t db step := by
  unfold Accepted
  cases (perform t db step).1 with
  | ok u => exact ⟨fun _ => rfl, fun _ => rfl⟩
  | error error => exact ⟨fun h => (by cases h), fun h => (by cases h)⟩

instance (t : CharTables) (db : Database) (step : Step) : Decidable (Accepted t db step) :=
  decidable_of_iff _ accepted_iff_isOk

/-! ## What an operation can do -/

variable {t : CharTables} {db : Database} {step : Step}

def Operation.isTranscript : Operation → Bool
  | .replaceTranscript .. | .saveEditedTranscript .. | .replaceChunk .. | .saveEditedSegment ..
  | .deleteSegment .. => true
  | _ => false

/-- **A failed operation changes nothing.** -/
theorem performed_of_error {error : UserFacingError} (h : (perform t db step).1 = .error error) :
    performed t db step = db := by
  have hplain : ∀ {operation : Transacted Unit}, Transactional operation →
      (operation db).1 = .error error → (operation db).2 = db :=
    fun htransactional hresult => htransactional db error _ (Prod.ext hresult rfl)
  have hanswered : ∀ {α : Type} {operation : Transacted α}, Transactional operation →
      (answered (operation db)).1 = .error error → (answered (operation db)).2 = db := by
    intro α operation htransactional hresult
    unfold answered at hresult
    cases hrun : (operation db).1 with
    | ok a => rw [hrun] at hresult; cases hresult
    | error error' => exact htransactional db error' _ (Prod.ext hrun rfl)
  unfold performed
  unfold perform at h ⊢
  cases hop : step.operation <;> rw [hop] at h <;> dsimp only at h ⊢
  case createQueued =>
    exact hanswered (transactional_ite (transactional_refusal _) (transactional_immediate _)) h
  case claimNextQueued =>
    exact hanswered (transactional_ite (transactional_refusal _) (transactional_immediate _)) h
  case claimQueued =>
    exact hanswered (transactional_ite (transactional_refusal _) (transactional_immediate _)) h
  case renewLease =>
    exact hanswered (transactional_ite (transactional_refusal _) (transactional_immediate _)) h
  case releaseLease =>
    exact hplain (transactional_ite (transactional_refusal _) (transactional_immediate _)) h
  case transition =>
    exact hplain (transactional_ite (transactional_refusal _) (transactional_write _ _ _ _)) h
  case completeAndActivate =>
    exact hplain (transactional_ite (transactional_refusal _) (transactional_lease _ _ _ _)) h
  case updateProgress => exact hplain (transactional_lease _ _ _ _) h
  case updateRuntimeInfo => exact hplain (transactional_lease _ _ _ _) h
  case updateParameters => exact hplain (transactional_lease _ _ _ _) h
  case appendEvent => exact hanswered (transactional_lease _ _ _ _) h
  case replaceChunks =>
    exact hplain (transactional_ite (transactional_refusal _) (transactional_write _ _ _ _)) h
  case updateChunk =>
    exact hplain (transactional_ite (transactional_refusal _) (transactional_lease _ _ _ _)) h
  case reorder =>
    exact hplain (transactional_ite (transactional_refusal _) (transactional_immediate _)) h
  case markRunningJobsInterrupted => exact hanswered (transactional_immediate _) h
  case deleteTerminalJob => exact hplain (transactional_immediate _) h
  case clearCompleted => exact hanswered (transactional_immediate _) h
  case replaceTranscript => exact hplain replaceTranscript_transactional h
  case saveEditedTranscript => exact hplain saveEditedTranscript_transactional h
  case replaceChunk => exact hplain replaceChunk_transactional h
  case saveEditedSegment => exact hplain saveEditedSegment_transactional h
  case deleteSegment => exact hplain deleteSegment_transactional h

theorem accepted_eq (h : Accepted t db step) : perform t db step = (.ok (), performed t db step) :=
  Prod.ext h rfl

theorem accepted_or_unchanged (t : CharTables) (db : Database) (step : Step) :
    Accepted t db step ∨ performed t db step = db := by
  cases h : (perform t db step).1 with
  | ok => exact Or.inl h
  | error error => exact Or.inr (performed_of_error h)

/-- **Transcript operations** keep what segments and index do not matter to. -/
theorem performed_transcript {I : Database → Prop} (h : SegmentsImmaterial I)
    (htranscript : step.operation.isTranscript = true) (hI : I db) : I (performed t db step) := by
  unfold performed perform
  cases hop : step.operation <;> rw [hop] at htranscript
  case replaceTranscript => exact replaceTranscript_keeps h hI
  case saveEditedTranscript => exact saveEditedTranscript_keeps h hI
  case replaceChunk => exact replaceChunk_keeps h hI
  case saveEditedSegment => exact saveEditedSegment_keeps h hI
  case deleteSegment => exact deleteSegment_keeps h hI
  all_goals cases htranscript

/-- The operation neither adds nor removes a job nor moves one to another state. -/
def Operation.isCalm : Operation → Bool
  | .renewLease .. | .releaseLease .. | .updateProgress .. | .updateRuntimeInfo .. | .updateParameters ..
  | .appendEvent .. | .replaceChunks .. | .updateChunk .. | .reorder .. => true
  | _ => false

/-- **Calm operations** keep what their statements keep. -/
theorem performed_calm {allowed : (TranscriptionJob → TranscriptionJob) → Prop} {I : Database → Prop}
    (h : CalmKeep allowed I) (hcalm : ∀ update, Calm update → allowed update)
    (hop : step.operation.isCalm = true) (hI : I db) : I (performed t db step) := by
  have hstill : ∀ update, Still update → allowed update := fun update hupdate => hcalm update hupdate.toCalm
  unfold performed perform
  cases hoperation : step.operation <;> rw [hoperation] at hop
  case renewLease => exact renewLease_keeps h.quiet hI
  case releaseLease => exact releaseLease_keeps h.quiet hI
  case updateProgress => exact updateProgress_keeps h hcalm hI
  case updateRuntimeInfo => exact updateRuntimeInfo_keeps h hstill hI
  case updateParameters => exact updateParameters_keeps h hstill hI
  case appendEvent => exact appendEvent_keeps h hI
  case replaceChunks => exact replaceChunks_keeps h.quiet hI
  case updateChunk => exact updateChunk_keeps h hI
  case reorder => exact reorder_keeps h hstill hI
  all_goals cases hop

/-- The operation completes a job. -/
def Operation.completes : Operation → Bool
  | .completeAndActivate .. => true
  | .transition _ state _ _ _ => state == .completed
  | _ => false

/-- The operation removes jobs, or makes one the active transcript: it writes the search index. -/
def Operation.concludes : Operation → Bool
  | .completeAndActivate .. | .deleteTerminalJob .. | .clearCompleted => true
  | _ => false

/-- **Operations on the queue** keep what their statements keep. -/
theorem performed_active_keeps {allowed : (TranscriptionJob → TranscriptionJob) → Prop} {I : Database → Prop}
    (h : ActiveKeep allowed I) (htame : ∀ update, Tame update → allowed update)
    (hcompletion : step.operation.completes = true → ∀ update, Rooted update → allowed update)
    (htranscript : step.operation.isTranscript = false) (hconcludes : step.operation.concludes = false)
    (hI : I db) : I (performed t db step) := by
  have hcalm : ∀ update, Calm update → allowed update := fun update hupdate => htame update hupdate.tame
  have hrecovered : ∀ pending message, allowed (recoveredJob step.now pending message) :=
    fun _ _ => htame _ (tame_recoveredJob ..)
  cases hop : step.operation.isCalm with
  | true => exact performed_calm h.toCalmKeep hcalm hop hI
  | false =>
    unfold performed perform
    cases hoperation : step.operation <;> rw [hoperation] at htranscript hconcludes hcompletion hop
    case createQueued => exact createQueued_keeps h hI
    case claimNextQueued => exact claimNextQueued_keeps h.toCalmKeep h.claim hrecovered hI
    case claimQueued => exact claimQueued_keeps h.toCalmKeep h.claim hrecovered hI
    case transition id state code message owner =>
      exact transition_keeps h htame (fun hstate => hcompletion (by
        subst hstate
        rfl)) hI
    case markRunningJobsInterrupted => exact markRunningJobsInterrupted_keeps h.toCalmKeep hrecovered hI
    all_goals first | (cases hop; done) | (cases htranscript; done) | (cases hconcludes; done)

/-- **Job operations** that complete no job keep what their statements keep. -/
theorem performed_job {allowed : (TranscriptionJob → TranscriptionJob) → Prop} {I : Database → Prop}
    (h : StatementsKeep allowed I) (htame : ∀ update, Tame update → allowed update)
    (htranscript : step.operation.isTranscript = false) (hcompletes : step.operation.completes = false)
    (hI : I db) : I (performed t db step) := by
  have hstill : ∀ update, Still update → allowed update :=
    fun update hupdate => htame update hupdate.toCalm.tame
  cases hconcludes : step.operation.concludes with
  | false =>
    refine performed_active_keeps h.active htame (fun hcompletion => ?_) htranscript hconcludes hI
    rw [hcompletes] at hcompletion
    cases hcompletion
  | true =>
    unfold performed perform
    cases hoperation : step.operation <;> rw [hoperation] at hcompletes hconcludes
    case completeAndActivate => cases hcompletes
    case deleteTerminalJob => exact deleteTerminalJob_keeps h.calm hstill h.index h.cascade hI
    case clearCompleted => exact clearCompleted_keeps h.calm hstill h.index h.cascade hI
    all_goals (cases hconcludes; done)

/-- Every job operation, for an invariant that any update of a job keeps. -/
theorem performed_anyJob {allowed : (TranscriptionJob → TranscriptionJob) → Prop} {I : Database → Prop}
    (h : StatementsKeep allowed I) (hrooted : ∀ update, Rooted update → allowed update)
    (hcompletion : CompletionKeeps I) (htranscript : step.operation.isTranscript = false) (hI : I db) :
    I (performed t db step) := by
  have htame : ∀ update, Tame update → allowed update := fun update hupdate => hrooted update hupdate.rooted
  cases hcompletes : step.operation.completes with
  | false => exact performed_job h htame htranscript hcompletes hI
  | true =>
    unfold performed perform
    cases hop : step.operation <;> rw [hop] at hcompletes
    case completeAndActivate => exact completeAndActivate_keeps h hrooted hcompletion hI
    case transition => exact transition_keeps h.active htame (fun _ => hrooted) hI
    all_goals cases hcompletes

end BreezeDesk
