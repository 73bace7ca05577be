/-
  `CliTranscriptionPersistence`: the durable side of one transcription on the command line.

  The object keeps a copy of the job's chunks in memory and writes every change to the database first or
  second, depending on the operation.  All that it does to the database goes through the repositories, one
  transaction a call (`call`).  Before a call other processes may have worked on the database; the call itself
  is answered, or fails and changes nothing, or the process is killed there.  Who works, what the clock says,
  which UUIDs are drawn and how the call goes is the `Turn` of the call.

  An operation that fails keeps what it has done before (`Library.Effects`), in memory and in the database.
-/
import BreezeDesk.Asr.ChunkPlanDecoding
import BreezeDesk.Database.Repositories
import BreezeDesk.Database.SchemaMigrations
import BreezeDesk.Library.Effects
import BreezeDesk.Resume.JobStore

namespace BreezeDesk.Cli

open Effect Resume

/-! ## The host -/

inductive Fate where
  | answered
  | failed (error : UserFacingError)
  | killed

structure Turn where
  others : List RepositoryStep
  fate : Fate
  now : Int
  newId : Nat → QString
  /-- The managed files that a recording names exist. -/
  filesExist : Bool

/-- A step of the process itself at its turn. -/
def Turn.step (turn : Turn) (operation : Operation) : RepositoryStep := .jobs ⟨turn.now, turn.newId, operation⟩

/-- What the process runs on.  `turns` counts the calls of repositories, `interrupted` is what the callback
    `cancellationRequested` answers before the call of that number, and `polls` is how often the queue is asked
    until the process is killed, should it wait that long. -/
structure Host where
  turns : Nat → Turn
  interrupted : Nat → Bool
  polls : Nat
  absoluteFilePath : QString → QString
  normalizedPath : QString → QString
  segmentHash : List TranscriptSegment → QString

structure DurableTranscriptionDescriptor where
  recording : Recording
  job : TranscriptionJob
  chunks : List JobChunk

structure DurableTranscriptionIdentity where
  recordingId : QString := []
  jobId : QString := []
  chunks : List JobChunk := []
  resumed : Bool := false

/-- The object, and the database it shares with others. -/
structure Persistence where
  db : Database
  calls : Nat := 0
  ownerToken : QString
  identity : DurableTranscriptionIdentity := {}
  sourceBindingStage : JobStage := .preparing
  active : Bool := false

abbrev Session := Effect Persistence UserFacingError

/-! ## `diagnosticString` -/

def errorDomainName : ErrorDomain → String
  | .none => "None" | .application => "Application" | .database => "Database" | .audio => "Audio"
  | .asr => "ASR" | .worker => "Worker" | .model => "Model" | .network => "Network" | .storage => "Storage"
  | .export => "Export" | .permission => "Permission" | .validation => "Validation" | .settings => "Settings"

def errorCodeName : ErrorCode → String
  | .none => "None" | .unknown => "Unknown" | .invalidArgument => "InvalidArgument"
  | .invalidStateTransition => "InvalidStateTransition" | .executionLeaseLost => "ExecutionLeaseLost"
  | .notFound => "NotFound" | .alreadyExists => "AlreadyExists" | .operationCancelled => "OperationCancelled"
  | .modelNotInstalled => "ModelNotInstalled" | .modelChecksumMismatch => "ModelChecksumMismatch"
  | .modelLoadFailed => "ModelLoadFailed" | .unsupportedModel => "UnsupportedModel"
  | .backendUnavailable => "BackendUnavailable" | .gpuInitializationFailed => "GpuInitializationFailed"
  | .outOfMemory => "OutOfMemory" | .audioDecodeFailed => "AudioDecodeFailed"
  | .unsupportedMedia => "UnsupportedMedia" | .sourceFileMissing => "SourceFileMissing"
  | .insufficientDiskSpace => "InsufficientDiskSpace" | .databaseOpenFailed => "DatabaseOpenFailed"
  | .databaseQueryFailed => "DatabaseQueryFailed" | .databaseMigrationFailed => "DatabaseMigrationFailed"
  | .databaseCorrupt => "DatabaseCorrupt" | .workerCrashed => "WorkerCrashed"
  | .workerProtocolMismatch => "WorkerProtocolMismatch" | .workerTimeout => "WorkerTimeout"
  | .jobCancelled => "JobCancelled" | .permissionDenied => "PermissionDenied" | .exportFailed => "ExportFailed"
  | .networkUnavailable => "NetworkUnavailable" | .downloadFailed => "DownloadFailed"
  | .checksumMismatch => "ChecksumMismatch" | .serializationFailed => "SerializationFailed"
  | .settingsReadFailed => "SettingsReadFailed" | .settingsWriteFailed => "SettingsWriteFailed"

def diagnosticString (error : UserFacingError) : QString :=
  qs (errorDomainName error.domain ++ "/" ++ errorCodeName error.code) ++
    (if error.message.isEmpty then [] else qs ": " ++ error.message)

/-! ## Calls of the repositories -/

/-- What the others have done until the call. -/
def Persistence.awaited (host : Host) (t : CharTables) (s : Persistence) : Persistence :=
  { s with db := (host.turns s.calls).others.foldl (executed t) s.db, calls := s.calls + 1 }

variable (t : CharTables) (host : Host)

def call {α : Type} (operation : Turn → Transacted α) : Session α := fun s =>
  let turn := host.turns s.calls
  let s := s.awaited host t
  match turn.fate with
  | .answered =>
    match operation turn s.db with
    | (.ok a, db) => (.done a, { s with db })
    | (.error error, db) => (.failed error, { s with db })
  | .failed error => (.failed error, s)
  | .killed => (.stopped, s)

/-- A call that only reads. -/
def query {α : Type} (read : Database → α) : Session α := call t host fun _ db => (.ok (read db), db)

/-- The clock, as the next call reads it. -/
def currentDateTimeUtc : Session Int := view fun s => (host.turns s.calls).now

def createUuid : Session QString := view fun s => (host.turns s.calls).newId 0

def invalid (code : ErrorCode) (message : String) : UserFacingError := .validation code (qs message)

def findJobById (jobId : QString) : Session (Option TranscriptionJob) := query t host (·.job? jobId)

def findRecordingById (recordingId : QString) : Session (Option Recording) :=
  query t host (·.recording? recordingId)

/-- `findBySourcePath`: of the recordings that are not in the trash the one changed last. -/
def findBySourcePath (path : QString) : Session (Option Recording) :=
  query t host fun db =>
    ((db.recordings.filter fun row => row.sourcePath == path && row.deletedAt.isNone).insertionSort
      fun left right => ¬ timeBefore left.updatedAt right.updatedAt = true).head?

def savedChunks (jobId : QString) : Session (List JobChunk) := query t host (chunksForJob · jobId)

def transition (jobId : QString) (state : JobState) (errorCode errorMessage ownerToken : QString) : Session Unit :=
  call t host fun turn => BreezeDesk.transition t turn.now jobId state errorCode errorMessage ownerToken

def updateChunk (chunk : JobChunk) (ownerToken : QString) : Session Unit :=
  call t host fun turn => BreezeDesk.updateChunk t turn.now chunk ownerToken

def updateProgress (jobId : QString) (stage : JobStage) (progress : Rat) (last : Int) (ownerToken : QString) :
    Session Unit :=
  call t host fun turn => BreezeDesk.updateProgress t turn.now jobId stage progress last ownerToken

def leaseDurationMs : Int := 15000

/-! ## `JobQueue` and `JobRecoveryService` -/

def recoverAfterAbnormalShutdown : Session Unit := do
  let _ ← call t host fun turn => markRunningJobsInterrupted t turn.now
    (qs (Migrations.productName ++
      " stopped before the transcription job finished. Completed chunks were preserved."))

namespace JobQueue

def enqueue (job : TranscriptionJob) : Session QString := do
  let uuid ← createUuid host
  let job := { job with
    id := if job.id.isEmpty then uuid else job.id
    state := .queued
    stage := .preparing
    progress := 0 }
  let created ← call t host fun turn => createQueued t turn.now (turn.newId 0) job
  return created.id

def cancel (jobId : QString) : Session Unit := do
  let found ← findJobById t host jobId
  let job ← requireSome found (invalid .notFound "The job does not exist.")
  if job.state = .queued ∨ job.state = .interrupted then
    transition t host jobId .cancelled (qs "JobCancelled") (qs "Cancelled by the user.") []
  else if job.state.isRunning then transition t host jobId .cancelling [] [] []
  else fail (invalid .invalidStateTransition "This job can no longer be cancelled.")

def resume (jobId : QString) : Session Unit := do
  let found ← findJobById t host jobId
  require (found.map (·.state) = some .interrupted)
    (invalid .invalidStateTransition "Only interrupted jobs can be resumed.")
  transition t host jobId .queued [] [] []

end JobQueue

/-! ## Helpers of the object -/

def jobCancelledError : UserFacingError := invalid .jobCancelled "The transcription was cancelled."

def notActiveError : UserFacingError :=
  invalid .invalidStateTransition "No durable transcription session is active."

def alreadyActiveError : UserFacingError :=
  invalid .invalidStateTransition "A durable transcription session is already active."

def isHexDigit (c : QChar) : Bool := (0x30 ≤ c && c ≤ 0x39) || (0x61 ≤ c && c ≤ 0x66)

/-- `normalizeSha256`. -/
def normalizeSha256 (sourceHash : QString) : Option QString :=
  let normalized := t.toLower (trimmed sourceHash)
  if normalized.length = 64 ∧ normalized.all isHexDigit = true then some normalized else none

def requireHash (hash : Option QString) (message : String) : Session QString :=
  requireSome hash (invalid .invalidArgument message)

def cancelledByUser : QString := qs "Cancelled by the user."

def setActive (active : Bool) : Session Unit := update fun s => { s with active }

def setChunks (chunks : List JobChunk) : Session Unit :=
  update fun s => { s with identity := { s.identity with chunks } }

def currentJob : Session TranscriptionJob := do
  let jobId ← view (·.identity.jobId)
  let found ← findJobById t host jobId
  requireSome found (invalid .notFound "The durable transcription job no longer exists.")

/-- The first chunk of that ordinal gives way to the changed one. -/
def refreshed (changed : JobChunk) : List JobChunk → List JobChunk
  | [] => []
  | saved :: rest => if saved.ordinal = changed.ordinal then changed :: rest else saved :: refreshed changed rest

def refreshChunk (changed : JobChunk) : Session Unit :=
  update fun s => { s with identity := { s.identity with chunks := refreshed changed s.identity.chunks } }

/-- `chunk(ordinal)`. -/
def chunkOf (ordinal : Int) : Session JobChunk := do
  let chunks ← view (·.identity.chunks)
  requireSome (chunks.find? (·.ordinal == ordinal))
    (invalid .notFound "The requested transcription chunk does not exist.")

def isCancelled (state : JobState) : Bool := state == .cancelling || state == .cancelled

def cancellationRequested : Session Bool := do
  let jobId ← view (·.identity.jobId)
  if jobId.isEmpty then
    fail (invalid .invalidStateTransition "The durable transcription session has not been initialized.")
  else
    let job ← currentJob t host
    return isCancelled job.state

def requireActive : Session Unit := do
  let active ← view (·.active)
  if active = false then fail notActiveError
  else
    let cancelled ← cancellationRequested t host
    if cancelled then fail jobCancelledError else pure ()

def renewExecutionLease : Session Unit := do
  let active ← view (·.active)
  if active = false then fail notActiveError
  else
    let jobId ← view (·.identity.jobId)
    let owner ← view (·.ownerToken)
    let _ ← call t host fun turn => renewLease turn.now jobId owner leaseDurationMs

def transitionTo (state : JobState) (errorCode message : QString) : Session Unit := do
  let current ← currentJob t host
  if isCancelled current.state = true ∧ state ≠ .cancelled then fail jobCancelledError
  else if current.state = state then renewExecutionLease t host
  else
    let jobId ← view (·.identity.jobId)
    let owner ← view (·.ownerToken)
    transition t host jobId state errorCode message owner

def updateProgressMonotonically (stage : JobStage) (progress : Rat) : Session Unit := do
  let current ← currentJob t host
  if isCancelled current.state = true then fail jobCancelledError
  else if stage.toNat < current.stage.toNat then renewExecutionLease t host
  else
    let jobId ← view (·.identity.jobId)
    let owner ← view (·.ownerToken)
    updateProgress t host jobId stage progress (-1) owner

/-! ## Waiting for the queue -/

def claimQueued (jobId ownerToken : QString) : Session JobClaimResult :=
  call t host fun turn => BreezeDesk.claimQueued t turn.now jobId ownerToken leaseDurationMs

def wasCancelled : Result (Option TranscriptionJob) → Bool
  | .ok (some job) => isCancelled job.state
  | _ => false

def waitForExecutionClaim (jobId : QString) : Nat → Session Unit
  | 0 => stop
  | polls + 1 => do
    let calls ← view (·.calls)
    if host.interrupted calls then
      JobQueue.cancel t host jobId
      fail (invalid .operationCancelled "Transcription was cancelled while waiting for another job.")
    else
      let current ← findJobById t host jobId
      let job ← requireSome current (invalid .notFound "The queued transcription job no longer exists.")
      if isCancelled job.state then fail jobCancelledError
      else
        let owner ← view (·.ownerToken)
        let claim ← attempt (claimQueued t host jobId owner)
        match claim with
        | .error error =>
          let raced ← attempt (findJobById t host jobId)
          if wasCancelled raced then fail jobCancelledError else fail error
        | .ok claim => if claim.claimed then pure () else waitForExecutionClaim jobId polls

/-! ## `beginNew` -/

/-- The checkpoint of a session that could not begin: the error of the checkpoint, or the one before it. -/
def checkpointFailedStart (error : UserFacingError) : Session Unit := do
  transitionTo t host .interrupted (qs "DatabaseQueryFailed") (diagnosticString error)
  setActive false
  fail error

/-- The recording of the descriptor's source. -/
def ensureRecording (recording : Recording) : Session Recording := do
  let existing ← findBySourcePath t host recording.sourcePath
  match existing with
  | some row => return row
  | none =>
    let uuid ← createUuid host
    let recording := { recording with id := if recording.id.isEmpty then uuid else recording.id }
    call t host fun turn => RecordingRepository.create t turn.now (turn.newId 0) turn.filesExist recording
    return recording

def plannedChunk (jobId : QString) (index : Nat) (chunk : JobChunk) : JobChunk :=
  { chunk with id := [], jobId, ordinal := index, state := .pending, attempts := 0 }

/-- A call before the session; when it fails the job is taken back from the queue. -/
def orCancelJob {α : Type} (jobId : QString) (p : Session α) : Session α := do
  let result ← attempt p
  match result with
  | .ok a => return a
  | .error error =>
    let _ ← attempt (JobQueue.cancel t host jobId)
    fail error

/-- Both ways to begin give up the session when the queue does not give them the job. -/
def claimExecution (jobId : QString) : Session Unit := do
  let claimed ← attempt (waitForExecutionClaim t host jobId host.polls)
  match claimed with
  | .ok () => pure ()
  | .error error =>
    setActive false
    fail error

def beginNew (descriptor : DurableTranscriptionDescriptor) : Session Unit := do
  let active ← view (·.active)
  require (active = false) alreadyActiveError
  require (¬ ((trimmed descriptor.recording.title).isEmpty ∨ (trimmed descriptor.recording.sourcePath).isEmpty ∨
      descriptor.chunks.isEmpty))
    (invalid .invalidArgument "A source recording and at least one transcription chunk are required.")
  liftResult (Asr.validateDurableChunkGeometry descriptor.chunks)
  recoverAfterAbnormalShutdown t host
  let recording ← ensureRecording t host
    { descriptor.recording with sourcePath := host.absoluteFilePath descriptor.recording.sourcePath }
  let uuid ← createUuid host
  let jobId := if descriptor.job.id.isEmpty then uuid else descriptor.job.id
  let _ ← JobQueue.enqueue t host
    { descriptor.job with id := jobId, recordingId := recording.id, queueHidden := true }
  let chunks := descriptor.chunks.mapIdx (plannedChunk jobId)
  orCancelJob t host jobId (call t host fun turn => replaceChunks turn.now turn.newId jobId chunks [])
  let saved ← orCancelJob t host jobId (savedChunks t host jobId)
  update fun s => { s with
    identity := { recordingId := recording.id, jobId, chunks := saved, resumed := false }
    sourceBindingStage := .preparing
    active := true }
  claimExecution t host jobId
  let owner ← view (·.ownerToken)
  let progress ← attempt (updateProgress t host jobId .preparing (mapProgress .preparing 1) (-1) owner)
  match progress with
  | .ok () => pure ()
  | .error error => checkpointFailedStart t host error

/-! ## `resume` -/

/-- `loadSnapshot`. -/
def loadSnapshot (jobId sourcePath : QString) : Session (TranscriptionJob × Recording × List JobChunk) := do
  let found ← findJobById t host jobId
  let job ← requireSome found (invalid .notFound "The interrupted transcription job does not exist.")
  let row ← findRecordingById t host job.recordingId
  let recording ← requireSome row
    (invalid .notFound "The source recording for this job no longer exists.")
  require (host.normalizedPath recording.sourcePath = host.normalizedPath sourcePath)
    (invalid .invalidArgument "The resume source does not match the interrupted job.")
  let chunks ← savedChunks t host jobId
  require (chunks ≠ []) (invalid .invalidStateTransition "The interrupted job has no durable chunk plan.")
  return (job, recording, chunks)

def notResumableError : UserFacingError :=
  invalid .invalidStateTransition "Only interrupted or failed transcription jobs can be resumed."

def resetChunk (chunk : JobChunk) : JobChunk :=
  { chunk with state := .pending, startedAt := none, completedAt := none, error := [] }

/-- A loop over the chunks in memory, which changes some of them in place and then writes each to the database.
    `before` are the chunks that it has been through. -/
def rewriteChunks (which : JobChunk → Bool) (change : JobChunk → JobChunk)
    (onError : UserFacingError → Session Unit) (before : List JobChunk) : List JobChunk → Session Unit
  | [] => pure ()
  | saved :: rest =>
    if which saved = false then rewriteChunks which change onError (before ++ [saved]) rest
    else do
      setChunks (before ++ change saved :: rest)
      let owner ← view (·.ownerToken)
      let updated ← attempt (updateChunk t host (change saved) owner)
      match updated with
      | .ok () => rewriteChunks which change onError (before ++ [change saved]) rest
      | .error error => onError error

def resume (jobId sourcePath : QString) : Session Unit := do
  let active ← view (·.active)
  require (active = false) alreadyActiveError
  let preflight ← loadSnapshot t host jobId sourcePath
  require (isCancelled preflight.1.state = false) jobCancelledError
  require (preflight.1.state = .interrupted ∨ preflight.1.state = .failed ∨ preflight.1.state.isRunning = true)
    notResumableError
  liftResult (Asr.validateDurableChunkGeometry preflight.2.2)
  recoverAfterAbnormalShutdown t host
  let snapshot ← loadSnapshot t host jobId sourcePath
  require (isCancelled snapshot.1.state = false) jobCancelledError
  require (snapshot.1.state = .interrupted ∨ snapshot.1.state = .failed) notResumableError
  liftResult (Asr.validateDurableChunkGeometry snapshot.2.2)
  update fun s => { s with
    identity := { recordingId := snapshot.1.recordingId, jobId, chunks := snapshot.2.2, resumed := true }
    sourceBindingStage := snapshot.1.stage
    active := true }
  let resumed ← attempt
    (if snapshot.1.state = .failed then transition t host jobId .queued [] [] [] else JobQueue.resume t host jobId)
  match resumed with
  | .error error =>
    setActive false
    fail error
  | .ok () =>
    claimExecution t host jobId
    rewriteChunks t host (·.state != .completed) resetChunk (checkpointFailedStart t host) [] snapshot.2.2

/-! ## Preparing the audio -/

def sourceHashOf (job : TranscriptionJob) : QString := (job.parameters.value (qs "sourceHash")).toText

def hasStarted (chunk : JobChunk) : Bool := chunk.state != .pending || 0 < chunk.attempts

def bindSourceMedia (sourceHash : QString) : Session Unit := do
  requireActive t host
  let normalizedSourceHash ← requireHash (normalizeSha256 t sourceHash) "A valid source-media SHA-256 is required."
  let job ← currentJob t host
  if (sourceHashOf job).isEmpty = false then
    if t.equalIgnoringCase (sourceHashOf job) normalizedSourceHash = false then
      fail (invalid .invalidStateTransition ("The source media changed after this transcription started. " ++
        "Start a new transcription so existing chunks are not mixed with different audio."))
    else renewExecutionLease t host
  else
    let identity ← view (·.identity)
    let stage ← view (·.sourceBindingStage)
    require (¬ (identity.resumed = true ∧ (stage ≠ .preparing ∨ identity.chunks.any hasStarted = true)))
      (invalid .invalidStateTransition ("The interrupted job has no verified source-media identity. " ++
        "Start a new transcription so existing chunks are not mixed with different audio."))
    let owner ← view (·.ownerToken)
    let parameters := insertValue job.parameters (qs "sourceHash") (.string normalizedSourceHash)
    call t host fun turn => updateParameters turn.now identity.jobId parameters owner

def updateNormalizationProgress (fraction : Rat) : Session Unit := do
  requireActive t host
  updateProgressMonotonically t host .normalizingAudio (mapProgress .normalizingAudio fraction)

def beginNormalization : Session Unit := do
  requireActive t host
  transitionTo t host .normalizing [] []
  updateNormalizationProgress t host 0

def updateNormalizedAudio (path : QString) (durationMs : Int) (sourceHash : QString) (regenerated : Bool) :
    Session Unit := do
  requireActive t host
  require (¬ ((trimmed path).isEmpty ∨ durationMs ≤ 0))
    (invalid .invalidArgument "Normalized audio requires a path, positive duration, and source SHA-256.")
  let normalizedSourceHash ← requireHash (normalizeSha256 t sourceHash)
    "Normalized audio requires a path, positive duration, and source SHA-256."
  let identity ← view (·.identity)
  let found ← findRecordingById t host identity.recordingId
  let recording ← requireSome found (invalid .notFound "The durable source recording no longer exists.")
  let stale := regenerated || !t.equalIgnoringCase recording.sourceHash normalizedSourceHash
  let changed := { recording with
    waveformPath := if stale then [] else recording.waveformPath
    normalizedPcmPath := host.normalizedPath path
    durationMs
    sourceHash := normalizedSourceHash }
  let owner ← view (·.ownerToken)
  call t host fun turn => RecordingRepository.update t turn.now turn.filesExist changed identity.jobId owner

def beginModelLoad : Session Unit := do
  requireActive t host
  transitionTo t host .loadingModel [] []
  updateProgressMonotonically t host .loadingModel (mapProgress .loadingModel 0)

def updateSpeechAnalysisProgress (fraction : Rat) : Session Unit := do
  requireActive t host
  updateProgressMonotonically t host .analyzingSpeech (mapProgress .analyzingSpeech fraction)

def beginSpeechAnalysis : Session Unit := do
  requireActive t host
  transitionTo t host .analyzingSpeech [] []
  updateSpeechAnalysisProgress t host 0

/-- A chunk of a new plan. -/
def freshChunk (jobId : QString) (index : Nat) (chunk : JobChunk) : JobChunk :=
  { chunk with
    id := []
    jobId
    ordinal := index
    state := .pending
    attempts := 0
    startedAt := none
    completedAt := none
    error := []
    resultHash := [] }

def replaceChunkPlan (chunks : List JobChunk) : Session Unit := do
  requireActive t host
  require (chunks ≠ []) (invalid .invalidArgument "Speech analysis must produce at least one transcription chunk.")
  let identity ← view (·.identity)
  let found ← findRecordingById t host identity.recordingId
  let recording ← requireSome found (invalid .notFound "The durable source recording no longer exists.")
  liftResult (Asr.validateDurableChunkGeometry chunks)
  require (¬ (recording.durationMs > 0 ∧ chunks.getLast?.map (·.endMs) ≠ some recording.durationMs))
    (invalid .invalidArgument "The new transcription chunk plan does not cover the audio exactly.")
  require (identity.chunks.any hasStarted = false)
    (invalid .invalidStateTransition "A chunk plan cannot change after transcription has started.")
  let owner ← view (·.ownerToken)
  let fresh := chunks.mapIdx (freshChunk identity.jobId)
  call t host fun turn => replaceChunks turn.now turn.newId identity.jobId fresh owner
  let saved ← savedChunks t host identity.jobId
  setChunks saved

/-! ## Transcribing -/

def updateTranscriptionProgress (fraction : Rat) : Session Unit := do
  requireActive t host
  updateProgressMonotonically t host .transcribing (mapProgress .transcribing fraction)

def beginTranscription : Session Unit := do
  requireActive t host
  transitionTo t host .transcribing [] []
  updateTranscriptionProgress t host 0

def beginChunk (ordinal : Int) : Session JobChunk := do
  requireActive t host
  let chunk ← chunkOf ordinal
  require (chunk.state ≠ .completed)
    (invalid .invalidStateTransition "A completed transcription chunk cannot be run again.")
  let now ← currentDateTimeUtc host
  let value := { chunk with
    state := .running
    attempts := chunk.attempts + 1
    startedAt := some now
    completedAt := none
    error := [] }
  let owner ← view (·.ownerToken)
  updateChunk t host value owner
  refreshChunk value
  return value

def outsideChunk (allowedStartMs allowedEndMs : Int) (segment : TranscriptSegment) : Bool :=
  allowedEndMs ≤ allowedStartMs || segment.startMs < allowedStartMs || segment.endMs > allowedEndMs ||
    segment.endMs ≤ segment.startMs

def saveChunkSegments (ordinal : Int) (segments : List TranscriptSegment) (provisional : Bool) : Session Unit := do
  requireActive t host
  let chunk ← chunkOf ordinal
  let identity ← view (·.identity)
  let found ← findRecordingById t host identity.recordingId
  let recording ← requireSome found (invalid .notFound "The transcription recording no longer exists.")
  let allowedStartMs := max 0 chunk.startMs
  let allowedEndMs := if recording.durationMs > 0 then min chunk.endMs recording.durationMs else chunk.endMs
  require (segments.any (outsideChunk allowedStartMs allowedEndMs) = false)
    (invalid .workerProtocolMismatch "The ASR worker returned a segment outside the active chunk.")
  let owned := segments.map fun segment => { segment with
    recordingId := identity.recordingId
    jobId := identity.jobId
    chunkId := chunk.id
    provisional
    attempt := chunk.attempts }
  let owner ← view (·.ownerToken)
  call t host fun turn => replaceChunk t turn.now turn.newId identity.recordingId identity.jobId chunk.id owned
    provisional chunk.attempts owner

def byOrdinal (chunks : List JobChunk) : List JobChunk :=
  chunks.insertionSort fun left right => left.ordinal ≤ right.ordinal

/-- The last chunk up to which all are completed. -/
def lastContiguous (chunks : List JobChunk) : Int :=
  (byOrdinal chunks).foldl (fun last chunk =>
    if chunk.state = .completed ∧ chunk.ordinal = last + 1 then chunk.ordinal else last) (-1)

def completedFraction (chunks : List JobChunk) : Rat :=
  ((chunks.filter (·.state == .completed)).length : Rat) / (max 1 chunks.length : Nat)

def completeChunk (ordinal : Int) (segments : List TranscriptSegment) : Session Unit := do
  let chunk ← chunkOf ordinal
  saveChunkSegments t host ordinal segments false
  let now ← currentDateTimeUtc host
  let value := { chunk with
    state := .completed
    completedAt := some now
    error := []
    resultHash := host.segmentHash segments }
  let owner ← view (·.ownerToken)
  updateChunk t host value owner
  refreshChunk value
  let identity ← view (·.identity)
  updateProgress t host identity.jobId .transcribing
    (mapProgress .transcribing (completedFraction identity.chunks)) (lastContiguous identity.chunks) owner

/-! ## Ending the session -/

def cancelChunk (reason : QString) (chunk : JobChunk) : JobChunk :=
  { chunk with state := .cancelled, error := reason }

/-- The loop of `cancel` over the chunks in the database. -/
def cancelChunks (reason : QString) : List JobChunk → Session Unit
  | [] => pure ()
  | saved :: rest =>
    if saved.state = .running ∨ saved.state = .interrupted ∨ saved.state = .failed then do
      let owner ← view (·.ownerToken)
      updateChunk t host (cancelChunk reason saved) owner
      refreshChunk (cancelChunk reason saved)
      cancelChunks reason rest
    else cancelChunks reason rest

/-- The job's state, once a cancellation has been asked for. -/
def askForCancellation : Session JobState := do
  let current ← currentJob t host
  if current.state = .cancelled ∨ current.state = .cancelling then return current.state
  else
    let jobId ← view (·.identity.jobId)
    JobQueue.cancel t host jobId
    let current ← currentJob t host
    return current.state

def cancel (reason : QString) : Session Unit := do
  let active ← view (·.active)
  if active = false then
    let current ← attempt (currentJob t host)
    require (current.toOption.map (·.state) = some .cancelled) notActiveError
  else
    let state ← askForCancellation t host
    if state = .cancelled then setActive false
    else
      let jobId ← view (·.identity.jobId)
      let chunks ← savedChunks t host jobId
      cancelChunks t host reason chunks
      transitionTo t host .cancelled (qs "JobCancelled") reason
      setActive false

def finishCancellationIfRequested (reason : QString) : Session Bool := do
  let requested ← cancellationRequested t host
  if requested then
    cancel t host (if reason.isEmpty then cancelledByUser else reason)
    return true
  else return false

def stopChunk (state : ChunkState) (message : QString) (chunk : JobChunk) : JobChunk :=
  { chunk with state, error := message }

/-- `interrupt` and `fail`, which differ in the states they write. -/
def stopSession (chunkState : ChunkState) (jobState : JobState) (errorCode message : QString) : Session Unit := do
  let cancelled ← finishCancellationIfRequested t host cancelledByUser
  require (cancelled = false) jobCancelledError
  requireActive t host
  let chunks ← view (·.identity.chunks)
  rewriteChunks t host (·.state == .running) (stopChunk chunkState message) fail [] chunks
  let result ← attempt (transitionTo t host jobState errorCode message)
  match result with
  | .ok () => setActive false
  | .error error =>
    let raced ← finishCancellationIfRequested t host cancelledByUser
    if raced then fail jobCancelledError else fail error

def interrupt (reason errorCode : QString) : Session Unit :=
  stopSession t host .interrupted .interrupted errorCode reason

/-- `fail`. -/
def failSession (errorCode message : QString) : Session Unit :=
  stopSession t host .failed .failed errorCode message

def complete : Session Unit := do
  let cancelled ← finishCancellationIfRequested t host cancelledByUser
  require (cancelled = false) jobCancelledError
  requireActive t host
  let identity ← view (·.identity)
  let chunks ← savedChunks t host identity.jobId
  require (chunks.all (·.state == .completed) = true)
    (invalid .invalidStateTransition "A transcription cannot finish until every chunk is complete.")
  transitionTo t host .finalizing [] []
  let owner ← view (·.ownerToken)
  -- a plan is never empty
  let last := (chunks.getLast?.map (·.ordinal)).getD (-1)
  updateProgress t host identity.jobId .finalizing (mapProgress .finalizing 1) last owner
  let completed ← attempt
    (call t host fun turn => completeAndActivate t turn.now identity.recordingId identity.jobId owner)
  match completed with
  | .ok () => setActive false
  | .error error =>
    let raced ← finishCancellationIfRequested t host cancelledByUser
    if raced then fail jobCancelledError else fail error

/-! ## One operation after the other -/

inductive SessionOperation where
  | beginNew (descriptor : DurableTranscriptionDescriptor)
  | resume (jobId sourcePath : QString)
  | bindSourceMedia (sourceHash : QString)
  | beginNormalization
  | updateNormalizationProgress (fraction : Rat)
  | updateNormalizedAudio (path : QString) (durationMs : Int) (sourceHash : QString) (regenerated : Bool)
  | beginModelLoad
  | beginSpeechAnalysis
  | updateSpeechAnalysisProgress (fraction : Rat)
  | replaceChunkPlan (chunks : List JobChunk)
  | beginTranscription
  | updateTranscriptionProgress (fraction : Rat)
  | beginChunk (ordinal : Int)
  | saveChunkSegments (ordinal : Int) (segments : List TranscriptSegment) (provisional : Bool)
  | completeChunk (ordinal : Int) (segments : List TranscriptSegment)
  | renewExecutionLease
  | finishCancellationIfRequested (reason : QString)
  | cancel (reason : QString)
  | interrupt (reason errorCode : QString)
  | fail (errorCode message : QString)
  | complete

/-- An operation that begins no chunk. -/
def beginsNone {α : Type} (p : Session α) : Session (Option JobChunk) := do
  let _ ← p
  return none

/-- The operation, and the chunk that it has begun. -/
def SessionOperation.perform : SessionOperation → Session (Option JobChunk)
  | .beginNew descriptor => beginsNone (Cli.beginNew t host descriptor)
  | .resume jobId sourcePath => beginsNone (Cli.resume t host jobId sourcePath)
  | .bindSourceMedia sourceHash => beginsNone (Cli.bindSourceMedia t host sourceHash)
  | .beginNormalization => beginsNone (Cli.beginNormalization t host)
  | .updateNormalizationProgress fraction => beginsNone (Cli.updateNormalizationProgress t host fraction)
  | .updateNormalizedAudio path durationMs sourceHash regenerated =>
    beginsNone (Cli.updateNormalizedAudio t host path durationMs sourceHash regenerated)
  | .beginModelLoad => beginsNone (Cli.beginModelLoad t host)
  | .beginSpeechAnalysis => beginsNone (Cli.beginSpeechAnalysis t host)
  | .updateSpeechAnalysisProgress fraction => beginsNone (Cli.updateSpeechAnalysisProgress t host fraction)
  | .replaceChunkPlan chunks => beginsNone (Cli.replaceChunkPlan t host chunks)
  | .beginTranscription => beginsNone (Cli.beginTranscription t host)
  | .updateTranscriptionProgress fraction => beginsNone (Cli.updateTranscriptionProgress t host fraction)
  | .beginChunk ordinal => do
    let chunk ← Cli.beginChunk t host ordinal
    return some chunk
  | .saveChunkSegments ordinal segments provisional =>
    beginsNone (Cli.saveChunkSegments t host ordinal segments provisional)
  | .completeChunk ordinal segments => beginsNone (Cli.completeChunk t host ordinal segments)
  | .renewExecutionLease => beginsNone (Cli.renewExecutionLease t host)
  | .finishCancellationIfRequested reason => beginsNone (Cli.finishCancellationIfRequested t host reason)
  | .cancel reason => beginsNone (Cli.cancel t host reason)
  | .interrupt reason errorCode => beginsNone (Cli.interrupt t host reason errorCode)
  | .fail errorCode message => beginsNone (Cli.failSession t host errorCode message)
  | .complete => beginsNone (Cli.complete t host)

/-- A host on which nobody else works. -/
def quietHost : Host where
  turns n :=
    { others := []
      fate := .answered
      now := n
      newId := fun k => [n.toUInt16, k.toUInt16]
      filesExist := true }
  interrupted _ := false
  polls := 1
  absoluteFilePath := id
  normalizedPath := id
  segmentHash _ := []

/-! ## What the operations keep -/

variable {t : CharTables} {host : Host} {α : Type} {I : Persistence → Prop}

/-- The steps that write neither chunks nor parameters, and claim no job. -/
def isQuiet : RepositoryStep → Bool
  | .jobs step =>
    match step.operation with
    | .transition .. | .updateProgress .. | .renewLease .. | .completeAndActivate .. | .replaceChunk .. => true
    | _ => false
  | .recordings _ _ (.create ..) | .recordings _ _ (.update ..) => true
  | _ => false

/-- An invariant that the others keep, and quiet steps, and ending the session. -/
structure Endures (t : CharTables) (host : Host) (I : Persistence → Prop) : Prop where
  others : ∀ s, I s → I (s.awaited host t)
  quiet : ∀ s step, isQuiet step = true → I s → I { s with db := executed t s.db step }
  active : ∀ s active, I s → I { s with active }

theorem call_done {operation : Turn → Transacted α} {s s' : Persistence} {a : α}
    (h : call t host operation s = (.done a, s')) :
    ∃ db, operation (host.turns s.calls) (s.awaited host t).db = (.ok a, db) ∧ s' = { s.awaited host t with db } := by
  unfold call at h
  dsimp only at h
  split at h
  · split at h <;> cases h
    exact ⟨_, ‹_›, rfl⟩
  · cases h
  · cases h

theorem ensures_call {operation : Turn → Transacted α} {P : Persistence → Prop} {Q : α → Persistence → Prop}
    {E S : Persistence → Prop}
    (hdone : ∀ s, P s → ∀ a db, operation (host.turns s.calls) (s.awaited host t).db = (.ok a, db) →
      Q a { s.awaited host t with db })
    (herror : ∀ s, P s → ∀ e db, operation (host.turns s.calls) (s.awaited host t).db = (.error e, db) →
      E { s.awaited host t with db })
    (hkept : ∀ s, P s → E (s.awaited host t) ∧ S (s.awaited host t)) :
    Ensures P (call t host operation) Q E S := by
  refine ⟨fun s hs a s' hrun => ?_, fun s hs e s' hrun => ?_, fun s hs s' hrun => ?_⟩ <;>
    unfold call at hrun <;> dsimp only at hrun <;> split at hrun
  · split at hrun <;> cases hrun
    exact hdone s hs a _ ‹_›
  · cases hrun
  · cases hrun
  · split at hrun <;> cases hrun
    exact herror s hs e _ ‹_›
  · cases hrun
    exact (hkept s hs).1
  · cases hrun
  · split at hrun <;> cases hrun
  · cases hrun
  · cases hrun
    exact (hkept s hs).2

theorem keeps_call {operation : Turn → Transacted α} (hothers : ∀ s, I s → I (s.awaited host t))
    (hstep : ∀ n s, I s → I { s with db := (operation (host.turns n) s.db).2 }) :
    Keeps I (call t host operation) := by
  refine ensures_call (fun s hs a db hok => ?_) (fun s hs e db herror => ?_)
    fun s hs => ⟨hothers s hs, hothers s hs⟩
  · have hnext := hstep s.calls _ (hothers s hs)
    rwa [hok] at hnext
  · have hnext := hstep s.calls _ (hothers s hs)
    rwa [herror] at hnext

/-- What a call reads is in the database when it ends. -/
theorem ensures_query {read : Database → α} (hothers : ∀ s, I s → I (s.awaited host t)) :
    Ensures I (query t host read) (fun a s => I s ∧ a = read s.db) I I := by
  refine ensures_call (fun s hs a db hok => ?_) (fun s hs e db herror => ?_)
    fun s hs => ⟨hothers s hs, hothers s hs⟩
  · cases hok
    exact ⟨hothers s hs, rfl⟩
  · cases herror

theorem keeps_query {read : Database → α} (hothers : ∀ s, I s → I (s.awaited host t)) :
    Keeps I (query t host read) :=
  keeps_call hothers fun _ _ hs => hs

theorem keeps_beginsNone {p : Session α} (h : Keeps I p) : Keeps I (beginsNone p) :=
  keeps_bind h fun _ => keeps_pure none

section Reading

variable (hothers : ∀ s, I s → I (s.awaited host t))

include hothers

theorem keeps_currentJob : Keeps I (currentJob t host) :=
  keeps_bind (keeps_view _) fun _ => keeps_bind (keeps_query hothers) fun _ => keeps_requireSome _ _

theorem keeps_cancellationRequested : Keeps I (cancellationRequested t host) :=
  keeps_bind (keeps_view _) fun _ =>
    keeps_ite (keeps_fail _) (keeps_bind (keeps_currentJob hothers) fun _ => keeps_pure _)

theorem keeps_requireActive : Keeps I (requireActive t host) := by
  refine keeps_bind (keeps_view _) fun _ => keeps_ite (keeps_fail _) ?_
  exact keeps_bind (keeps_cancellationRequested hothers) fun _ => keeps_ite (keeps_fail _) (keeps_pure _)

end Reading

section Endures

variable (h : Endures t host I)

include h

theorem keeps_transition (jobId : QString) (state : JobState) (errorCode errorMessage ownerToken : QString) :
    Keeps I (transition t host jobId state errorCode errorMessage ownerToken) :=
  keeps_call h.others fun n s hs =>
    h.quiet s ((host.turns n).step (.transition jobId state errorCode errorMessage ownerToken)) rfl hs

theorem keeps_updateProgress (jobId : QString) (stage : JobStage) (progress : Rat) (last : Int)
    (ownerToken : QString) : Keeps I (updateProgress t host jobId stage progress last ownerToken) :=
  keeps_call h.others fun n s hs =>
    h.quiet s ((host.turns n).step (.updateProgress jobId stage progress last ownerToken)) rfl hs

theorem keeps_cancelJob (jobId : QString) : Keeps I (JobQueue.cancel t host jobId) := by
  refine keeps_bind (keeps_query h.others) fun found => keeps_bind (keeps_requireSome _ _) fun job => ?_
  exact keeps_ite (keeps_transition h ..) (keeps_ite (keeps_transition h ..) (keeps_fail _))

theorem keeps_resumeJob (jobId : QString) : Keeps I (JobQueue.resume t host jobId) :=
  keeps_bind (keeps_query h.others) fun _ => keeps_bind (keeps_require _ _) fun _ => keeps_transition h ..

theorem keeps_renewExecutionLease : Keeps I (renewExecutionLease t host) := by
  refine keeps_bind (keeps_view _) fun _ => keeps_ite (keeps_fail _) ?_
  refine keeps_bind (keeps_view _) fun jobId => keeps_bind (keeps_view _) fun owner => ?_
  refine keeps_bind (keeps_call h.others fun n s hs => ?_) fun _ => keeps_pure _
  exact h.quiet s ((host.turns n).step (.renewLease jobId owner leaseDurationMs)) rfl hs

theorem keeps_transitionTo (state : JobState) (errorCode message : QString) :
    Keeps I (transitionTo t host state errorCode message) := by
  refine keeps_bind (keeps_currentJob h.others) fun _ => keeps_ite (keeps_fail _) ?_
  refine keeps_ite (keeps_renewExecutionLease h) ?_
  exact keeps_bind (keeps_view _) fun _ => keeps_bind (keeps_view _) fun _ => keeps_transition h ..

theorem keeps_updateProgressMonotonically (stage : JobStage) (progress : Rat) :
    Keeps I (updateProgressMonotonically t host stage progress) := by
  refine keeps_bind (keeps_currentJob h.others) fun _ => keeps_ite (keeps_fail _) ?_
  refine keeps_ite (keeps_renewExecutionLease h) ?_
  exact keeps_bind (keeps_view _) fun _ => keeps_bind (keeps_view _) fun _ => keeps_updateProgress h ..

theorem keeps_setActive (active : Bool) : Keeps I (setActive active) := keeps_update fun s hs => h.active s active hs

theorem keeps_checkpointFailedStart (error : UserFacingError) : Keeps I (checkpointFailedStart t host error) :=
  keeps_bind (keeps_transitionTo h ..) fun _ => keeps_bind (keeps_setActive h _) fun _ => keeps_fail _

/-! ### Preparing the audio -/

/-- What every stage does first: it is entered, and some progress is reported. -/
theorem keeps_reported (stage : JobStage) (progress : Rat) :
    Keeps I (requireActive t host >>= fun _ => updateProgressMonotonically t host stage progress) :=
  keeps_bind (keeps_requireActive h.others) fun _ => keeps_updateProgressMonotonically h ..

theorem keeps_entered (state : JobState) {rest : Session Unit} (hrest : Keeps I rest) :
    Keeps I (requireActive t host >>= fun _ => transitionTo t host state [] [] >>= fun _ => rest) :=
  keeps_bind (keeps_requireActive h.others) fun _ => keeps_bind (keeps_transitionTo h ..) fun _ => hrest

theorem keeps_updateNormalizedAudio (path : QString) (durationMs : Int) (sourceHash : QString) (regenerated : Bool) :
    Keeps I (updateNormalizedAudio t host path durationMs sourceHash regenerated) := by
  refine keeps_bind (keeps_requireActive h.others) fun _ => keeps_bind (keeps_require _ _) fun _ => ?_
  refine keeps_bind (keeps_requireSome _ _) fun hash => keeps_bind (keeps_view _) fun identity => ?_
  refine keeps_bind (keeps_query h.others) fun found => keeps_bind (keeps_requireSome _ _) fun recording => ?_
  refine keeps_bind (keeps_view _) fun owner => keeps_call h.others fun n s hs => ?_
  let turn := host.turns n
  exact h.quiet s (.recordings turn.now (turn.newId 0) (.update turn.filesExist _ identity.jobId owner)) rfl hs

theorem keeps_saveChunkSegments (ordinal : Int) (segments : List TranscriptSegment) (provisional : Bool) :
    Keeps I (saveChunkSegments t host ordinal segments provisional) := by
  refine keeps_bind (keeps_requireActive h.others) fun _ => ?_
  refine keeps_bind (keeps_bind (keeps_view _) fun _ => keeps_requireSome _ _) fun chunk => ?_
  refine keeps_bind (keeps_view _) fun identity => keeps_bind (keeps_query h.others) fun found => ?_
  refine keeps_bind (keeps_requireSome _ _) fun recording => keeps_bind (keeps_require _ _) fun _ => ?_
  refine keeps_bind (keeps_view _) fun owner => keeps_call h.others fun n s hs => ?_
  exact h.quiet s ((host.turns n).step (.replaceChunk identity.recordingId identity.jobId chunk.id _ provisional
    chunk.attempts owner)) rfl hs

theorem keeps_askForCancellation : Keeps I (askForCancellation t host) := by
  refine keeps_bind (keeps_currentJob h.others) fun _ => keeps_ite (keeps_pure _) ?_
  refine keeps_bind (keeps_view _) fun _ => keeps_bind (keeps_cancelJob h _) fun _ => ?_
  exact keeps_bind (keeps_currentJob h.others) fun _ => keeps_pure _

end Endures

end BreezeDesk.Cli
