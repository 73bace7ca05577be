/-
  `SqliteJobRepository` — the jobs, their chunks and events.

  Every operation is one transaction, a program in the order of the source.  Operations of the executor
  of a job run inside `executionLeaseTransaction`, the ones that are also allowed without an executor
  inside `executionWrite`; the others belong to the user's queue.
-/
import BreezeDesk.Jobs.Execution
import Mathlib.Data.List.Dedup

namespace BreezeDesk

open Transaction

variable (t : CharTables)

/-! ## Creating a job -/

/-- `SELECT COALESCE(MAX(queue_position),-1)+1 … WHERE state='Queued'`. -/
def nextQueuePosition (db : Database) : Int :=
  ((db.jobs.filter fun job => job.state == .queued).map (·.queuePosition)).foldr max (-1) + 1

/-- The row of a new job, before its place in the queue is known. -/
def newJob (now : Int) (uuid : QString) (job : TranscriptionJob) : TranscriptionJob :=
  { job with
    id := if job.id.isEmpty then uuid else job.id
    createdAt := if job.createdAt.isSome then job.createdAt else some now
    state := .queued
    stage := .preparing
    progress := 0
    startedAt := none
    completedAt := none
    interruptedAt := none
    errorCode := []
    errorMessage := [] }

def enqueuedEvent (job : TranscriptionJob) : JobEvent :=
  { jobId := job.id, eventType := qs "enqueued", state := some job.state, stage := some job.stage,
    progress := some job.progress }

def createQueued (now : Int) (uuid : QString) (job : TranscriptionJob) : Transacted TranscriptionJob :=
  if job.recordingId.isEmpty then fun db =>
    (.error (.validation .invalidArgument (qs "A recording is required for a transcription job.")), db)
  else immediateTransaction do
    let position ← command (fun db => db) nextQueuePosition
    let job := { newJob now uuid job with queuePosition := position }
    insertJob { job with createdAt := storedTime job.createdAt }
      "The transcription job could not be created."
    let _ ← insertEvent t now (enqueuedEvent job)
    return job

/-! ## Moving a job -/

def noExecutorError : UserFacingError :=
  .validation .invalidStateTransition
    (qs "An active execution lease is required for this job transition.")

/-- The moves that are allowed without an executor. -/
def ownerlessTransition (source target : JobState) : Bool :=
  (target == .cancelling && source.isRunning) ||
    (target == .cancelled && (source == .queued || source == .interrupted)) ||
    (target == .queued && (source == .interrupted || source == .failed || source == .cancelled))

/-- The row after the move. -/
def transitionedJob (now position : Int) (state : JobState) (errorCode errorMessage : QString)
    (job : TranscriptionJob) : TranscriptionJob :=
  let job' := { job with state, errorCode, errorMessage }
  match state with
  | .queued => { job' with
      stage := .preparing, progress := 0, startedAt := none, completedAt := none,
      interruptedAt := none, retryCount := job.retryCount + 1, queuePosition := position }
  | .preparing =>
    { job' with startedAt := if job.startedAt.isSome then job.startedAt else storedTime (some now) }
  | .completed => { job' with completedAt := storedTime (some now), progress := 1, stage := .completed }
  | .interrupted => { job' with interruptedAt := storedTime (some now) }
  | _ => job'

def transitionEventType (source target : JobState) : QString :=
  match target with
  | .completed => qs "completed"
  | .cancelled => qs "cancelled"
  | .failed => qs "failed"
  | .interrupted => qs "interrupted"
  | .queued => if source == .interrupted then qs "resume" else qs "retry"
  | _ => qs "state_changed"

def transitionEvent (current : TranscriptionJob) (state : JobState) (errorCode errorMessage : QString) :
    JobEvent :=
  { jobId := current.id
    eventType := transitionEventType current.state state
    severity := match state with
      | .failed => qs "error"
      | .cancelled | .interrupted => qs "warning"
      | _ => qs "info"
    state := some state
    stage := some (match state with
      | .completed => .completed
      | .queued => .preparing
      | _ => current.stage)
    progress := some (match state with
      | .completed => 1
      | .queued => 0
      | _ => current.progress)
    code := errorCode
    message := errorMessage }

/-- A run that is over gives up its lease. -/
def releaseAfter (state : JobState) (id ownerToken : QString) : Db Unit := do
  if state.isTerminal || state == .interrupted then
    let _ ← deleteLeases fun lease =>
      lease.jobId == id && (ownerToken.isEmpty || lease.ownerToken == ownerToken)
  else pure ()

/-- The part of `transition` that writes. -/
def moveJob (now : Int) (current : TranscriptionJob) (state : JobState)
    (errorCode errorMessage ownerToken : QString) : Db Unit := do
  let position ← command (fun db => db) nextQueuePosition
  let affected ← updateJobs (fun job => job.id == current.id && job.state == current.state)
    (transitionedJob now position state errorCode errorMessage)
    "The job state could not be changed."
  require (affected ≠ 0) (.validation .invalidStateTransition
    (qs "The job state changed before this transition could be saved."))
  let _ ← insertEvent t now (transitionEvent current state errorCode errorMessage)
  releaseAfter state current.id ownerToken

def transition (now : Int) (id : QString) (state : JobState) (errorCode errorMessage ownerToken : QString) :
    Transacted Unit :=
  if id.isEmpty then fun db =>
    (.error (.validation .invalidArgument (qs "A transcription job is required.")), db)
  else executionWrite now id ownerToken do
    let current ← requireJob id
      (.ofDatabase .notFound (qs "The transcription job no longer exists."))
    require (ownerToken.isEmpty → ownerlessTransition current.state state = true) noExecutorError
    liftResult (JobState.validateTransition current.state state)
    if current.state = state then pure ()
    else moveJob t now current state errorCode errorMessage ownerToken

/-! ## Completing a job -/

def completedJob (now : Int) (job : TranscriptionJob) : TranscriptionJob :=
  { job with state := .completed, stage := .completed, progress := 1,
             completedAt := storedTime (some now), errorCode := [], errorMessage := [] }

/-- The segments of the other completed jobs of the recording. -/
def isSuperseded (db : Database) (recordingId jobId : QString) (segment : TranscriptSegment) : Bool :=
  segment.recordingId == recordingId && segment.jobId != jobId &&
    db.jobs.any fun job => job.recordingId == recordingId && job.state == .completed &&
      job.id == segment.jobId

def discardOldTranscript (recordingId jobId : QString) : Db Unit :=
  command (fun db => { db with
    segments := db.segments.filter fun segment => !isSuperseded db recordingId jobId segment })
    (fun _ => ())

def completedEvent (jobId : QString) : JobEvent :=
  { jobId, eventType := qs "completed", state := some .completed, stage := some .completed,
    progress := some 1 }

def completeAndActivateOperation (now : Int) (recordingId jobId ownerToken : QString) : Db Unit := do
  let current ← findJob jobId
  let job ← requireSome (current.filter fun job => job.recordingId == recordingId)
    (.validation .notFound (qs "The transcription job does not exist."))
  require (job.state = .finalizing) (.validation .invalidStateTransition
    (qs "Only a finalizing transcription job can be completed."))
  let completed ← updateJobs (fun job =>
      job.id == jobId && job.recordingId == recordingId && job.state == .finalizing)
    (completedJob now) "The transcription job could not be completed."
  require (completed ≠ 0) (.validation .invalidStateTransition
    (qs "The transcription completion was lost."))
  let activated ← updateRecordings (fun recording => recording.id == recordingId)
    (fun recording => { recording with activeJobId := some jobId, updatedAt := storedTime (some now) })
  require (activated ≠ 0) (.validation .notFound (qs "The recording no longer exists."))
  discardOldTranscript recordingId jobId
  let _ ← updateJobs (fun job => job.recordingId == recordingId && job.id != jobId &&
      job.state == .completed)
    (fun job => { job with queueHidden := true })
    "The previous transcription record could not be archived."
  let _ ← insertEvent t now (completedEvent jobId)
  let _ ← deleteLeases fun lease =>
    lease.jobId == jobId && (ownerToken.isEmpty || lease.ownerToken == ownerToken)
  rebuildRecording recordingId

def completeAndActivate (now : Int) (recordingId jobId ownerToken : QString) : Transacted Unit :=
  if recordingId.isEmpty ∨ jobId.isEmpty then fun db =>
    (.error (.validation .invalidArgument
      (qs "A recording and transcription job are required.")), db)
  else executionLeaseTransaction now jobId ownerToken
    (completeAndActivateOperation t now recordingId jobId ownerToken)

/-! ## What the executor reports -/

def jobGoneError : UserFacingError :=
  .validation .notFound (qs "The transcription job no longer exists.")

def progressedJob (stage : JobStage) (progress : Rat) (lastCompletedChunk : Int)
    (job : TranscriptionJob) : TranscriptionJob :=
  { job with stage, progress := max job.progress progress
             lastCompletedChunk := max job.lastCompletedChunk lastCompletedChunk }

def stageEvent (current : TranscriptionJob) (stage : JobStage) (progress : Rat) : JobEvent :=
  { jobId := current.id, eventType := qs "stage_changed", state := some current.state,
    stage := some stage, progress := some (max current.progress progress) }

def updateProgress (now : Int) (id : QString) (stage : JobStage) (progress : Rat)
    (lastCompletedChunk : Int) (ownerToken : QString) : Transacted Unit :=
  executionLeaseTransaction now id ownerToken do
    let current ← requireJob id jobGoneError
    require (current.stage.toNat ≤ stage.toNat) (.validation .invalidStateTransition
      (qs "Job progress stages cannot move backwards."))
    let boundedProgress := max 0 (min progress 1)
    let _ ← updateJobs (fun job => job.id == id)
      (progressedJob stage boundedProgress lastCompletedChunk) "Job progress could not be saved."
    if stage ≠ current.stage then
      let _ ← insertEvent t now (stageEvent current stage boundedProgress)
    else pure ()

/-- `QJsonObject::insert` for every entry of the second object. -/
def mergedDiagnostics (old new : QJsonObject) : QJsonObject :=
  (old.filter fun entry => !new.any fun other => other.1 == entry.1) ++ new

def updateRuntimeInfo (now : Int) (id actualBackend engineVersion workerVersion : QString)
    (diagnostics : QJsonObject) (ownerToken : QString) : Transacted Unit :=
  executionLeaseTransaction now id ownerToken do
    let current ← requireJob id jobGoneError
    let affected ← updateJobs (fun job => job.id == id)
      (fun job => { job with backend := actualBackend, engineVersion, workerVersion,
                             diagnostics := mergedDiagnostics current.diagnostics diagnostics })
      "The ASR runtime diagnostics could not be saved."
    require (affected ≠ 0) jobGoneError

def updateParameters (now : Int) (id : QString) (parameters : QJsonObject) (ownerToken : QString) :
    Transacted Unit :=
  executionLeaseTransaction now id ownerToken do
    let affected ← updateJobs (fun job => job.id == id) (fun job => { job with parameters })
      "The transcription job parameters could not be saved."
    require (affected ≠ 0) jobGoneError

def appendEvent (now : Int) (event : JobEvent) (ownerToken : QString) : Transacted Int :=
  executionLeaseTransaction now event.jobId ownerToken (insertEvent t now event)

/-! ## Chunks -/

/-- The check of `replaceChunks` before its transaction. -/
def validChunkList (chunks : List JobChunk) : Bool :=
  chunks.zipIdx.all fun entry =>
    entry.1.ordinal == entry.2 && 0 ≤ entry.1.startMs && entry.1.startMs < entry.1.endMs

def storedChunk (jobId uuid : QString) (chunk : JobChunk) : JobChunk :=
  { chunk with
    id := if chunk.id.isEmpty then uuid else chunk.id
    jobId
    startedAt := storedTime chunk.startedAt
    completedAt := storedTime chunk.completedAt }

def insertChunks (newId : Nat → QString) (jobId : QString) : Nat → List JobChunk → Db Unit
  | _, [] => pure ()
  | index, chunk :: rest => do
    insertChunk (storedChunk jobId (newId index) chunk) "A job chunk could not be saved."
    insertChunks newId jobId (index + 1) rest

/-- Without an executor a plan can be made once, while the job is queued. -/
def requireNoPlan (jobId : QString) : Db Unit := do
  let current ← requireJob jobId jobGoneError
  statement (fun db => current.state = .queued ∧ ∀ chunk ∈ db.chunks, chunk.jobId ≠ jobId)
    (.validation .invalidStateTransition
      (qs "An initial chunk plan can only be created once while queued."))
    (fun db => db) (fun _ => ())

def requirePlanAllowed (jobId ownerToken : QString) : Db Unit :=
  if ownerToken.isEmpty then requireNoPlan jobId else pure ()

def replaceChunks (now : Int) (newId : Nat → QString) (jobId : QString) (chunks : List JobChunk)
    (ownerToken : QString) : Transacted Unit :=
  if validChunkList chunks = false then fun db =>
    (.error (.validation .invalidArgument
      (qs "Job chunks must be ordered and have valid time ranges.")), db)
  else executionWrite now jobId ownerToken do
    requirePlanAllowed jobId ownerToken
    deleteChunks fun chunk => chunk.jobId == jobId
    insertChunks newId jobId 0 chunks

def updatedChunk (chunk row : JobChunk) : JobChunk :=
  { row with state := chunk.state, attempts := chunk.attempts, startedAt := storedTime chunk.startedAt,
             completedAt := storedTime chunk.completedAt, error := chunk.error,
             resultHash := chunk.resultHash, diagnostics := chunk.diagnostics }

def chunkEventType : ChunkState → QString
  | .running => qs "chunk_started"
  | .completed => qs "chunk_completed"
  | .cancelled => qs "chunk_cancelled"
  | .failed => qs "chunk_failed"
  | .interrupted => qs "chunk_interrupted"
  | .pending => qs "chunk_reset"

def chunkEventSeverity : ChunkState → QString
  | .cancelled | .interrupted => qs "warning"
  | .failed => qs "error"
  | _ => qs "info"

def chunkEvent (chunk previous : JobChunk) (job : TranscriptionJob) (total : Nat) : JobEvent :=
  { jobId := chunk.jobId
    eventType := chunkEventType chunk.state
    severity := chunkEventSeverity chunk.state
    state := some job.state
    stage := some job.stage
    progress := some job.progress
    message := chunk.error
    payload := [(qs "ordinal", .number previous.ordinal), (qs "total", .number total)] }

def chunkGoneError : UserFacingError :=
  .validation .notFound (qs "The transcription job chunk no longer exists.")

def updateChunk (now : Int) (chunk : JobChunk) (ownerToken : QString) : Transacted Unit :=
  if chunk.id.isEmpty ∨ chunk.jobId.isEmpty then fun db =>
    (.error (.validation .invalidArgument (qs "A transcription job chunk is required.")), db)
  else executionLeaseTransaction now chunk.jobId ownerToken do
    let found ← command (fun db => db) (Database.chunk? · chunk.id)
    let previous ← requireSome (found.filter fun row => row.jobId == chunk.jobId) chunkGoneError
    let job ← requireJob chunk.jobId chunkGoneError
    let total ← command (fun db => db) fun db => (db.chunks.filter (·.jobId == chunk.jobId)).length
    updateChunks (fun row => row.id == chunk.id && row.jobId == chunk.jobId) (updatedChunk chunk)
    if previous.state = chunk.state then pure ()
    else
      let _ ← insertEvent t now (chunkEvent chunk previous job total)

/-! ## The queue -/

def reorderFrom : Nat → List QString → Db Unit
  | _, [] => pure ()
  | index, id :: rest => do
    let affected ← updateJobs (fun job => job.id == id && job.state == .queued)
      (fun job => { job with queuePosition := index }) "The job queue could not be reordered."
    require (affected ≠ 0) (.validation .invalidStateTransition
      (qs "Only queued jobs can be reordered."))
    reorderFrom (index + 1) rest

def reorder (orderedJobIds : List QString) : Transacted Unit :=
  if orderedJobIds.dedup.length ≠ orderedJobIds.length then fun db =>
    (.error (.validation .invalidArgument
      (qs "The reordered queue contains duplicate job IDs.")), db)
  else immediateTransaction (reorderFrom 0 orderedJobIds)

/-- A job that `markRunningJobsInterrupted` recovers; the number counts the recovered ones. -/
def recoverJob (now : Int) (reason : QString) (job : TranscriptionJob) : Db Nat := do
  let cancellationPending := job.state == .cancelling
  let message :=
    if cancellationPending then qs "Cancellation completed after the previous worker stopped."
    else reason
  let affected ← updateJobs (fun row => row.id == job.id && row.state == job.state)
    (recoveredJob now cancellationPending message) "A running job could not be recovered."
  if affected = 0 then return 0
  else
    recoverChunks t now cancellationPending (qs "recovered_as_interrupted") job.id message
    return 1

def recoverJobs (now : Int) (reason : QString) : List TranscriptionJob → Db Nat
  | [] => pure 0
  | job :: rest => do
    let first ← recoverJob t now reason job
    let others ← recoverJobs now reason rest
    return first + others

/-- The jobs that run without an unexpired lease.  (The index admits one running job, so their order by
    id is no matter.) -/
def recoverableJobs (protectedJobId : Option QString) (db : Database) : List TranscriptionJob :=
  db.runningJobs.filter fun job => protectedJobId != some job.id

def recoveryReason (reason : QString) : QString :=
  if (trimmed reason).isEmpty then
    qs "The previous transcription worker stopped unexpectedly."
  else reason

/-- A lease that protects no job is cleared. -/
def clearExpiredLease (lease : Option AsrExecutionLease) (protectedJobId : Option QString) : Db Unit :=
  if lease.isSome ∧ protectedJobId = none then deleteLease else pure ()

def markRunningJobsInterrupted (now : Int) (reason : QString) : Transacted Nat :=
  immediateTransaction do
    let lease ← findLease
    let protectedJobId := (lease.filter fun lease => lease.live now).map (·.jobId)
    let jobs ← command (fun db => db) (recoverableJobs protectedJobId)
    let affected ← recoverJobs t now (recoveryReason reason) jobs
    clearExpiredLease lease protectedJobId
    return affected

def isActiveJob (db : Database) (id : QString) : Bool :=
  db.recordings.any fun recording => recording.activeJobId == some id

/-- The active job of its recording keeps its transcript and is only hidden. -/
def removeJob (job : TranscriptionJob) (active : Bool) : Db Nat :=
  if active then
    updateJobs (fun row => row.id == job.id) (fun row => { row with queueHidden := true })
      "The transcription job could not be removed."
  else deleteJobs fun row => row.id == job.id

def deleteTerminalJob (id : QString) : Transacted Unit :=
  immediateTransaction do
    let job ← requireJob id jobGoneError
    require (job.state.isTerminal = true ∨ job.state = .interrupted)
      (.validation .invalidStateTransition
        (qs "Only completed, cancelled, failed, or interrupted jobs can be removed."))
    let found ← command (fun db => db) (Database.recording? · job.recordingId)
    let recording ← requireSome found
      (queryError "The recording transcript could not be checked.")
    let removed ← removeJob job (recording.activeJobId == some id)
    require (removed ≠ 0) (queryError "The transcription job could not be removed.")
    rebuildRecording job.recordingId

/-- The jobs that leave the list: finished, and not hidden yet. -/
def isClearable (job : TranscriptionJob) : Bool :=
  !job.queueHidden && (job.state == .completed || job.state == .cancelled)

def clearableRecordings (db : Database) : List QString :=
  ((db.jobs.filter isClearable).map (·.recordingId)).dedup

def rebuildRecordings : List QString → Db Unit
  | [] => pure ()
  | id :: rest => do
    rebuildRecording id
    rebuildRecordings rest

/-- Jobs that clearing deletes: finished ones that no recording shows. -/
def deleteCleared : Db Nat :=
  command (fun db => cascadeJobs (fun job => isClearable job && !isActiveJob db job.id) db)
    (fun db => (db.jobs.filter fun job => isClearable job && !isActiveJob db job.id).length)

def hideActiveCompleted (db : Database) : Db Nat :=
  updateJobs (fun job => !job.queueHidden && job.state == .completed && isActiveJob db job.id)
    (fun job => { job with queueHidden := true }) "Completed jobs could not be cleared."

def clearCompleted : Transacted Nat :=
  immediateTransaction do
    let db ← get
    let hidden ← hideActiveCompleted db
    let deleted ← deleteCleared
    rebuildRecordings (clearableRecordings db)
    return hidden + deleted

end BreezeDesk
