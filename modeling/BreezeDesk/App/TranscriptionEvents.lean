/-
  What happens to the coordinator: the messages of the worker, the callbacks it has left behind, the calls of the
  user interface, and what becomes of the worker process.

  `handle` is the reaction to one event, with the slots of `WorkerProcessManager` that come before the
  coordinator's; `step` is the state after it.  Which callback fires next, and with which report, is the event's.
-/
import BreezeDesk.App.TranscriptionStages

namespace BreezeDesk.TranscriptionCoordinator

open App Effect Ipc Worker

variable (w : World)

/-! ## Messages of the worker -/

def asrErrorCode (payload : QCborMap) (missing : Int) : Option AsrErrorCode :=
  let code := ((payload.value (qs "code")).integer?).getD missing
  if code < 0 then none
  else
    ([.None, .RuntimeUnavailable, .ModelFileMissing, .ModelChecksumMismatch, .ModelLoadFailed, .VadModelLoadFailed,
      .InvalidAudio, .Busy, .Cancelled, .InferenceFailed, .InvalidRequest, .IoError])[code.toNat]?

def workerErrorCode (payload : QCborMap) (kind : RequestKind) : String :=
  match asrErrorCode payload (Worker.AsrErrorCode.InferenceFailed.ctorIdx : Nat) with
  | some .ModelFileMissing => "ModelNotInstalled"
  | some .ModelChecksumMismatch => "ModelChecksumMismatch"
  | some .ModelLoadFailed | some .VadModelLoadFailed => "ModelLoadFailed"
  | some .InvalidAudio => "AudioDecodeFailed"
  | some .Busy => "WorkerTimeout"
  | some .Cancelled => "JobCancelled"
  | some .RuntimeUnavailable => "BackendUnavailable"
  | some .InvalidRequest => "WorkerProtocolMismatch"
  | some .IoError => "SourceFileMissing"
  | some .InferenceFailed =>
    if kind = .AnalyzeSpeech then "AudioDecodeFailed"
    else if kind = .LoadModel then "ModelLoadFailed" else "TranscriptionFailed"
  | some .None | none => "ModelLoadFailed"

def forgetRequest (s : Coordinator) : Coordinator := { s with requestId := [], requestKind := .None }

/-- The model of the speech detection was missing or damaged, and has not been fetched again for this job. -/
def recoversVadModel (kind : RequestKind) (payload : QCborMap) : Bool :=
  (kind = .AnalyzeSpeech || kind = .TranscribeChunk) &&
    (asrErrorCode payload 0 = some .ModelChecksumMismatch || asrErrorCode payload 0 = some .ModelFileMissing)

def workerMessage (payload : QCborMap) : QString :=
  let message := (payload.value (qs "message")).toText
  if message = [] then qs "The ASR worker rejected the request." else message

def rejected (kind : RequestKind) (payload : QCborMap) : Task Unit := do
  onlyIf (kind = .LoadModel) (update fun s => { s with loadedModel := none })
  failActiveJob w (qs (workerErrorCode payload kind)) (workerMessage payload)

def handleError (payload : QCborMap) : Task Unit := do
  let s ← view id
  if s.activeJob.state = .cancelling then finishCancellation w
  else if recoversVadModel s.requestKind payload then do
    update fun s => { s with vadModelVerified := false }
    if s.vadRecoveryAttempted then rejected w s.requestKind payload
    else do
      update fun s => forgetRequest { s with vadRecoveryAttempted := true }
      ensureVadModelAvailable w
        (if s.requestKind = .AnalyzeSpeech then .AnalyzeSpeech else .TranscribeCurrentChunk) true
  else rejected w s.requestKind payload

def handleCapabilities (envelope : Envelope) : Task Unit := do
  if envelope.type ≠ .Capabilities then
    failActiveJob w (qs "WorkerProtocolMismatch") (qs "The ASR worker returned an invalid capability response.")
  else
    match envelope.payload.value (qs "runtimeAvailable") with
    | .bool available => do
      update fun s => forgetRequest { s with
        runtimeAvailability := if available then .Available else .Unavailable }
      continueAfterWorkerPreflight w
    | _ =>
      failActiveJob w (qs "WorkerProtocolMismatch")
        (qs "The ASR worker capability response is missing runtime availability.")

def clampedProgress (payload : QCborMap) : Int :=
  max 0 (min (((payload.value (qs "progress")).integer?).getD 0) 100)

def durationMismatch (reported normalized : Int) : QString :=
  qs ("Speech analysis reported " ++ toString reported ++ " ms for normalized audio whose duration is " ++
    toString normalized ++ " ms.")

def handleAnalysis (envelope : Envelope) : Task Unit := do
  let s ← view id
  if envelope.type = .Progress then do
    advanceOrReturn w .analyzingSpeech ((clampedProgress envelope.payload : Rat) / 100) (-1)
  else if envelope.type ≠ .SpeechAnalysisCompleted then pure ()
  else if s.activeJob.state = .cancelling then finishCancellation w
  else
    let newId : Nat → QString := fun index => w.uuid (s.drawn + index)
    match Asr.decodeWorkerChunkPlan newId envelope.payload s.activeJob.id with
    | .error error => failActiveJob w (qs "WorkerProtocolMismatch") error
    | .ok (durationMs, chunks) => do
      update fun s => { s with drawn := s.drawn + chunks.length }
      if durationMs ≠ jobDuration s then
        failAndReturn w "WorkerProtocolMismatch" (durationMismatch durationMs (jobDuration s))
      else do
        let recording ← requireRecording w "DatabaseQueryFailed" recordingGone (·.message)
        writeOrFail w (.updateRecording { recording with durationMs })
        update (setDuration durationMs)
        saveChunkPlan w chunks
        update forgetRequest
        beginWaitingForModel w

def textOr (payload : QCborMap) (key : String) (fallback : QString) : QString :=
  match payload.value (qs key) with
  | .string text => text
  | _ => fallback

def loadedModelOf (payload : QCborMap) (job : TranscriptionJob) : LoadedModel where
  path := w.modelPath job.modelId
  sha256 := w.tables.toLower (modelChecksum w job)
  backend := job.backend
  flashAttention := requestedFlashAttention job
  actualBackend := textOr payload "actualBackend" (textOr payload "selectedBackend" job.backend)
  runtimeVersion := textOr payload "runtimeVersion" job.engineVersion

def handleModelLoaded (payload : QCborMap) : Task Unit := do
  let s ← view id
  let model := loadedModelOf w payload s.activeJob
  update fun s => { s with loadedModel := some model }
  match ← persistLoadedRuntimeInfo w model with
  | some error => failAndReturn w "DatabaseQueryFailed" error
  | none => do
    update forgetRequest
    advanceOrReturn w .loadingModel 1 (-1)
    let s ← view id
    if s.activeJob.state = .cancelling then finishCancellation w
    else do
      enterState w .transcribing
      startNextChunk w

/-- The active chunk, as `App.ChunkCommit` has it. -/
def activeChunk (s : Coordinator) (chunk : JobChunk) : ActiveChunk where
  activeJob := s.activeJob
  chunk := chunk
  recordingDurationMs := jobDuration s
  ownerToken := s.ownerToken
  nextOrdinal := s.nextOrdinal
  currentSegments := s.currentSegments

def handlePartialSegment (chunk : JobChunk) (payload : QCborMap) : Task Unit := do
  let s ← view id
  let active := activeChunk s chunk
  let message : PartialSegment := { now := w.now s.calls, id := w.uuid s.drawn, payload }
  match (validatedRange active message).error with
  | .none => do
    let received := active.receive w.tables message
    update fun s => { s with
      drawn := s.drawn + 1, nextOrdinal := received.nextOrdinal, currentSegments := received.currentSegments }
    writeOrFail w (.replaceSegments chunk.id received.currentSegments true)
  | .emptyRange => failActiveJob w (qs "WorkerProtocolMismatch") emptyRangeMessage
  | _ =>
    failActiveJob w (qs "WorkerProtocolMismatch")
      (qs "The ASR worker returned a segment outside the active chunk.")

/-- The last part of `finalizeCurrentChunk`: the chunk is completed. -/
def completeChunk (index : Nat) (completedChunk : JobChunk) : Task (Option QString) := do
  match ← write w (.updateChunk completedChunk) with
  | some error => pure (some error.message)
  | none => do
    update fun s => { s with
      chunks := s.chunks.set index completedChunk
      activeJob := { s.activeJob with
        lastCompletedChunk := max s.activeJob.lastCompletedChunk completedChunk.ordinal } }
    let s ← view id
    let fraction := ((index + 1 : Nat) : Rat) / (max 1 s.chunks.length : Nat)
    let saved ← advanceProgress w .transcribing fraction s.activeJob.lastCompletedChunk
    if saved then pure none
    else pure (some (qs "The transcription progress could not be saved."))

/-- `finalizeCurrentChunk`; what it answers is the text of an error. -/
def finalizeCurrentChunk (index : Nat) (chunk : JobChunk) : Task (Option QString) := do
  match ← ask w.segments with
  | .error error => pure (some error.message)
  | .ok allSegments => do
    let s ← view id
    let previous := allSegments.filter fun segment => segment.chunkId ≠ chunk.id && !segment.provisional
    let segments := guiChunkSegments w.tables (w.uuid s.drawn)
      (glossaryTermsFromParameters s.activeJob.parameters) chunk previous s.currentSegments
    update fun s => { s with drawn := s.drawn + 1, currentSegments := segments }
    match ← write w (.replaceSegments chunk.id segments false) with
    | some error => pure (some error.message)
    | none => do
      let now ← ask w.now
      completeChunk w index { chunk with
        state := .completed, completedAt := some now, resultHash := w.segmentDigest segments }

/-- The numbers that go into the diagnostics of a chunk. -/
def chunkDiagnostics (payload : QCborMap) (chunk : JobChunk) : JobChunk :=
  let number (key : String) : QJsonValue := .number (((payload.value (qs key)).integer?).getD 0 : Int)
  let counted := insertValue chunk.diagnostics (qs "promptTokenCount") (number "promptTokenCount")
  { chunk with diagnostics := insertValue counted (qs "omittedPromptParts") (number "omittedPromptParts") }

def handleChunkCompleted (index : Nat) (chunk : JobChunk) (payload : QCborMap) : Task Unit := do
  let chunk := chunkDiagnostics payload chunk
  update fun s => { s with chunks := s.chunks.set index chunk }
  match ← finalizeCurrentChunk w index chunk with
  | some error => failActiveJob w (qs "DatabaseQueryFailed") error
  | none => do
    update forgetRequest
    let s ← view id
    post (.startNextChunk s.activeJob.id s.ownerToken)

def handleTranscription (envelope : Envelope) : Task Unit := do
  let s ← view id
  match s.currentChunkIndex with
  | none => pure ()
  | some index =>
    match s.chunks[index]? with
    | none => pure ()
    | some chunk =>
      match envelope.type with
      | .Progress =>
        advanceOrReturn w .transcribing
          (((index : Rat) + (clampedProgress envelope.payload : Rat) / 100) / (max 1 s.chunks.length : Nat))
          s.activeJob.lastCompletedChunk
      | .PartialSegment => handlePartialSegment w chunk envelope.payload
      | .ChunkCompleted | .TranscriptionCompleted => handleChunkCompleted w index chunk envelope.payload
      | _ => pure ()

/-- The job of a request is checked, where the request has one. -/
def belongsToRequest (s : Coordinator) (envelope : Envelope) : Bool :=
  s.activeJob.id ≠ [] && envelope.requestId = s.requestId &&
    ((s.requestKind ≠ .AnalyzeSpeech && s.requestKind ≠ .TranscribeChunk) || envelope.jobId = s.activeJob.id)

def handleWorkerEnvelope (envelope : Envelope) : Task Unit := do
  let s ← view id
  if belongsToRequest s envelope = false ∨ s.pendingTerminalAction ≠ .None then pure ()
  else if envelope.type = .Error then handleError w envelope.payload
  else if s.requestKind = .GetCapabilities then handleCapabilities w envelope
  else if envelope.type = .JobCancelled then
    if s.activeJob.state = .cancelling then finishCancellation w
    else failActiveJob w (qs "JobCancelled") (qs "The ASR worker cancelled the active operation.")
  else
    match s.requestKind with
    | .AnalyzeSpeech => handleAnalysis w envelope
    | .LoadModel => if envelope.type = .ModelLoaded then handleModelLoaded w envelope.payload else pure ()
    | .TranscribeChunk => handleTranscription w envelope
    | _ => pure ()

/-! ## Callbacks -/

/-- What background work has come to. -/
structure Report where
  success : Bool := false
  text : QString := []
  error : QString := []
  metadata : MediaMetadata := {}

def sourceChanged (recorded : QString) : QString :=
  if recorded = [] then
    qs ("This transcription has no verified source-media identity. Start a new transcription so existing chunks " ++
      "are not mixed with different audio.")
  else
    qs ("The source media changed after this transcription started. Start a new transcription so existing chunks " ++
      "are not mixed with different audio.")

/-- The job is bound to the source it was begun with. -/
def bindSource : Task Unit := do
  match ← ask w.chunks with
  | .error error => failAndReturn w "DatabaseQueryFailed" error.message
  | .ok chunks => do
    let s ← view id
    let recorded := (s.activeJob.parameters.value (qs "sourceHash")).toText
    if (recorded ≠ [] ∧ w.tables.equalIgnoringCase recorded s.activeSourceHash = false) ∨
        (recorded = [] ∧ chunks ≠ []) then
      failAndReturn w "SourceMediaChanged" (sourceChanged recorded)
    else if recorded = [] then do
      let parameters := insertValue s.activeJob.parameters (qs "sourceHash") (.string s.activeSourceHash)
      writeOrFail w (.updateParameters parameters)
      update (setParameters parameters)

/-- The normalized audio of an earlier run, if it is still that of this source. -/
def cachedDuration (recording : Recording) : Task (Option Int) := do
  let s ← view id
  if recording.sourceHash ≠ [] ∧ w.tables.equalIgnoringCase recording.sourceHash s.activeSourceHash ∧
      0 < recording.durationMs then
    if ← ask w.reusablePath then
      match ← ask w.validatedAudio with
      | .ok durationMs => pure (some durationMs)
      | .error _ => pure none
    else pure none
  else pure none

def forgetCache (recording : Recording) : Recording :=
  { recording with
    sourceHash := [], normalizedPcmPath := [], waveformPath := [], durationMs := 0, sampleRate := 0, channelCount := 0 }

/-- The watcher of `verifySourceMedia`. -/
def sourceHashed (report : Report) : Task Unit := do
  let s ← view id
  if s.activeJob.state = .cancelling then finishCancellation w
  else if report.text = [] then
    failActiveJob w (qs "SourceFileMissing") (qs "The source media file could not be read: " ++ report.error)
  else do
    update fun s => { s with activeSourceHash := report.text }
    let recording ← requireRecording w "SourceFileMissing" recordingGone (·.message)
    bindSource w
    match ← cachedDuration w recording with
    | some durationMs => do
      persistNormalizedDuration w durationMs
      let waveform ← ask fun n => w.isFile n recording.waveformPath
      if recording.waveformPath ≠ [] ∧ waveform then prepareChunks w else beginWaveformGeneration w
    | none => do
      writeOrFail w (.updateRecording (forgetCache recording))
      update fun s => { s with activeNormalizedPath := w.normalizedAudioPath recording.id s.ownerToken }
      inspectMedia w

/-- The watcher of `inspectMedia`. -/
def inspected (report : Report) : Task Unit := do
  let s ← view id
  let metadata := report.metadata
  if s.activeJob.state = .cancelling then pure ()
  else if metadata.hasAudio = false ∨ metadata.audioStreamIndex < 0 ∨ metadata.durationMs ≤ 0 then
    failActiveJob w (qs "UnsupportedMedia")
      (if report.error = [] then qs "The media does not contain supported audio." else report.error)
  else do
    let recording ← requireRecording w "SourceFileMissing" recordingGone fun _ => recordingGone
    writeOrFail w (.updateRecording { recording with
      durationMs := metadata.durationMs.toInt, sampleRate := metadata.sampleRate
      channelCount := metadata.channelCount
      mediaType := if metadata.hasVideo then qs "video" else qs "audio" })
    update (setDuration metadata.durationMs.toInt)
    advanceOrReturn w .inspectingMedia 1 (-1)
    beginNormalization w

/-- `NormalizationOperation::finished`. -/
def normalizationFinished (report : Report) : Task Unit := do
  let s ← view id
  if s.activeJob.state = .cancelling then finishCancellation w
  else if report.success = false then
    failActiveJob w (qs "AudioDecodeFailed")
      (if report.error = [] then qs "Audio normalization failed." else report.error)
  else do
    update fun s => { s with activeNormalizedPath := report.text }
    match ← ask w.validatedAudio with
    | .error error =>
      failActiveJob w (qs "AudioDecodeFailed") (qs "The decoded audio could not be validated: " ++ error)
    | .ok durationMs => post (.normalizedSourceHashed s.activeJob.id s.ownerToken durationMs)

/-- The watcher of `verifyNormalizedSource`. -/
def normalizedSourceHashed (durationMs : Int) (report : Report) : Task Unit := do
  let s ← view id
  if report.text = [] ∨ w.tables.equalIgnoringCase report.text s.activeSourceHash = false then
    failActiveJob w (qs "SourceMediaChanged")
      (if report.text = [] then qs "The source media could not be verified after audio decoding: " ++ report.error
      else qs "The source media changed while its audio was being decoded. Start the transcription again.")
  else do
    persistNormalizedDuration w durationMs
    beginWaveformGeneration w

/-- The watcher of `beginWaveformGeneration`. -/
def waveformGenerated (normalizedPath : QString) (cancellation : Nat) (report : Report) : Task Unit := do
  update fun s => { s with waveformCancellation := none }
  let s ← view id
  if s.activeJob.state = .cancelling ∨ cancellation ∈ s.cancelledWaveforms then finishCancellation w
  else if report.success = false then
    failActiveJob w (qs "AudioDecodeFailed")
      (if report.error = [] then qs "The audio waveform could not be generated." else report.error)
  else do
    let notSaved := qs "The normalized recording could not be saved."
    let recording ← requireRecording w "DatabaseQueryFailed" notSaved fun _ => notSaved
    writeOrFail w (.updateRecording { recording with
      normalizedPcmPath := normalizedPath, waveformPath := report.text, sourceHash := s.activeSourceHash })
    advanceOrReturn w .normalizingAudio 1 (-1)
    prepareChunks w

def continueWith : VadModelContinuation → Task Unit
  | .PrepareChunks => prepareChunks w
  | .AnalyzeSpeech => analyzeSpeech w
  | .StartNextChunk => startNextChunk w
  | .TranscribeCurrentChunk => transcribeCurrentChunk w

/-- `ModelDownloadOperation::finished`. -/
def vadDownloadFinished (continuation : VadModelContinuation) (report : Report) : Task Unit := do
  update fun s => { s with vadDownload := none }
  let s ← view id
  if s.activeJob.state = .cancelling then finishCancellation w
  else if report.success = false then
    failActiveJob w (qs "VadModelDownloadFailed")
      (if trimmed report.error = [] then qs "The Silero VAD model could not be downloaded and verified."
      else qs "The Silero VAD model could not be downloaded and verified: " ++ trimmed report.error)
  else if (← ask w.modelVerified) = false then
    failActiveJob w (qs "ModelChecksumMismatch") (qs "The downloaded Silero VAD model failed verification.")
  else do
    update fun s => { s with vadModelVerified := true }
    if ← appendVadModelEvent w "vad_model_download_completed"
        "The Silero VAD model was downloaded and verified." then continueWith w continuation

/-- A callback is for the job that runs, and for the operation that it waits for. -/
def stillWanted (s : Coordinator) : Callback → Bool
  | .ensureWorkerReady jobId _ ownerToken => activeJobMatches jobId ownerToken s
  | .capabilitiesTimeout jobId ownerToken requestId =>
    activeJobMatches jobId ownerToken s && s.requestKind = .GetCapabilities && s.requestId = requestId
  | .sourceHashed jobId ownerToken => activeJobMatches jobId ownerToken s
  | .inspected jobId ownerToken => activeJobMatches jobId ownerToken s
  | .normalizationFinished operation jobId ownerToken =>
    s.normalization = some operation && activeJobMatches jobId ownerToken s
  | .normalizedSourceHashed jobId ownerToken _ => activeJobMatches jobId ownerToken s
  | .waveformGenerated jobId ownerToken _ _ _ => activeJobMatches jobId ownerToken s
  | .vadDownloadFinished operation jobId ownerToken _ =>
    s.vadDownload = some operation && activeJobMatches jobId ownerToken s
  | .startNextChunk jobId ownerToken => activeJobMatches jobId ownerToken s
  | .failAgain jobId ownerToken _ _ => activeJobMatches jobId ownerToken s
  | .cancelAgain jobId ownerToken => activeJobMatches jobId ownerToken s
  | .interruptAgain jobId ownerToken _ => activeJobMatches jobId ownerToken s
  | .scheduleNext => true

def runCallback (report : Report) : Callback → Task Unit
  | .ensureWorkerReady jobId attempt ownerToken => ensureWorkerReady w jobId attempt ownerToken
  | .capabilitiesTimeout .. =>
    failActiveJob w (qs "WorkerTimeout") (qs "The ASR worker did not report its runtime capabilities.")
  | .sourceHashed .. => sourceHashed w report
  | .inspected .. => inspected w report
  | .normalizationFinished .. => normalizationFinished w report
  | .normalizedSourceHashed _ _ durationMs => normalizedSourceHashed w durationMs report
  | .waveformGenerated _ _ _ normalizedPath cancellation => waveformGenerated w normalizedPath cancellation report
  | .vadDownloadFinished _ _ _ continuation => vadDownloadFinished w continuation report
  | .startNextChunk .. => startNextChunk w
  | .failAgain _ _ code message => failActiveJob w code message
  | .cancelAgain .. => finishCancellation w
  | .interruptAgain _ _ reason => interruptActiveJob w reason
  | .scheduleNext => scheduleNext w

/-- The callback at a place fires. -/
def fire (index : Nat) (report : Report) : Task Unit := do
  let s ← view id
  match s.callbacks[index]? with
  | none => pure ()
  | some callback => do
    update fun s => { s with callbacks := s.callbacks.eraseIdx index }
    if stillWanted s callback then runCallback w report callback

/-- `NormalizationOperation::progressChanged`, while the operation runs. -/
def normalizationProgress (index : Nat) (percent : Int) (progress : Rat) : Task Unit := do
  let s ← view id
  match s.callbacks[index]? with
  | some (.normalizationFinished operation jobId ownerToken) =>
    if s.normalization = some operation ∧ activeJobMatches jobId ownerToken s ∧
        percent ≠ s.lastNormalizationPercent then do
      update fun s => { s with lastNormalizationPercent := percent }
      advanceOrReturn w .normalizingAudio progress (-1)
  | _ => pure ()

/-! ## Calls of the application -/

/-- `initialize`. -/
def setUp : Task Unit := do
  let s ← view id
  if s.initialized then pure ()
  else
    match ← ask w.recovered with
    | .error _ => pure ()
    | .ok () => do
      update fun s => { s with initialized := true }
      post .scheduleNext

def cancel (jobId : QString) : Task Unit := do
  match ← ask w.findJob with
  | .error _ | .ok none => pure ()
  | .ok (some _) =>
    -- the wish to cancel is written by `JobQueue`, not for the run
    if (← ask w.refused).isSome then pure ()
    else
      let s ← view id
      if activeJobMatches jobId [] s then do
        update (setJobState .cancelling)
        if s.activeJob.state ≠ .cancelling then abortActiveOperationForCancellation w

/-- A cancellation that another process has asked for. -/
def observeCancellation : Task Unit := do
  match ← ask w.findJob with
  | .ok (some job) =>
    if isCancelled job.state then do
      let s ← view id
      update (setJobState .cancelling)
      if s.activeJob.state ≠ .cancelling then abortActiveOperationForCancellation w
  | _ => pure ()

def renewActiveLease : Task Unit := do
  let s ← view id
  if s.activeJob.id = [] then update fun s => { s with leaseHeartbeat := false }
  else do
    observeCancellation w
    let s ← view id
    if s.activeJob.id = [] then pure ()
    else if (← ask w.refused).isSome then abandonActiveJobAfterLeaseLoss w leaseLossMessage
    else pure ()

def closedMessage : QString := qs "BreezeDesk closed while this job was running."

def shutdown : Task Unit := do
  let s ← view id
  if s.shuttingDown then pure ()
  else do
    update fun s => { s with shuttingDown := true, pauseAfterCurrent := true }
    if s.activeJob.id = [] then update fun s => { s with loadedModel := none }
    else if normalizationRunning s then checkpointInterruption w closedMessage
    else if s.waveformCancellation.isSome then do
      update cancelWaveform
      checkpointInterruption w closedMessage
    else if activeWorkerRequestMayStillRun s then
      if (← ask w.refused).isSome then abandonActiveJobAfterLeaseLoss w leaseLossMessage
      else if ← awaitWorkerQuiescence .Interrupt (qs "WorkerCrashed") closedMessage then pure ()
      else finishPendingTerminalCheckpoint w
    else checkpointInterruption w closedMessage

/-! ## The worker process -/

/-- `settleForcedCancellation`. -/
def settleForcedCancellation : Task Unit := do
  let s ← view id
  if s.worker.forcedCancellation.isSome then do
    update fun s => { s with worker := s.worker.settle }
    finishPendingTerminalCheckpoint w

/-- A message that ends a request, for `WorkerProcessManager`. -/
def endsRequest (type : MessageType) : Bool :=
  type = .ChunkCompleted || type = .TranscriptionCompleted || type = .SpeechAnalysisCompleted ||
    type = .ModelLoaded || type = .JobCancelled || type = .Error

/-- The slot of `WorkerProcessManager`, which comes first. -/
def observeEnvelope (envelope : Envelope) : Task Unit := do
  if endsRequest envelope.type ∧ envelope.requestId ≠ [] then do
    update fun s => { s with
      worker := { s.worker with serving := s.worker.serving.filter (· ≠ envelope.requestId) }.remember
        (envelope.jobId, envelope.requestId) }
    let s ← view id
    if s.worker.forcedCancellation = some (envelope.jobId, envelope.requestId) then settleForcedCancellation w

def receiveEnvelope (envelope : Envelope) : Task Unit := do
  let s ← view id
  if s.worker.ready then do
    observeEnvelope w envelope
    handleWorkerEnvelope w envelope

/-- The client is connected and authenticated. -/
def workerReady : Task Unit := do
  let s ← view id
  if s.worker.running ∧ s.worker.connecting ∧ s.worker.ready = false then do
    update fun s => { s with worker := { s.worker with ready := true } }
    if s.worker.forcedCancellationAwaitingRestart then settleForcedCancellation w

/-- An authenticated channel fails: the process is given up and killed. -/
def channelFailed : Task Unit := update fun s =>
  if s.worker.ready then
    { s with runtimeAvailability := .Unknown, worker := { s.worker with ready := false, connecting := false } }
  else s

def exitWorker (s : Coordinator) : Coordinator :=
  { s with
    runtimeAvailability := .Unknown
    worker := { s.worker with
      running := false, connecting := false, ready := false, serving := []
      forcedCancellationAwaitingRestart :=
        s.worker.forcedCancellationAwaitingRestart || s.worker.forcedCancellation.isSome } }

/-- `handleUnexpectedExit`. -/
def workerExited (reason : QString) : Task Unit := do
  let s ← view id
  if s.worker.running then do
    update exitWorker
    if s.worker.stopping then settleForcedCancellation w else interruptActiveJob w reason

/-- `WorkerProcessManager::stop`; `exits` when the process ends in time, by itself or killed. -/
def stopWorker (exits : Bool) (reason : QString) : Task Unit := do
  update fun s => { s with worker := { s.worker with stopping := true, connecting := false } }
  onlyIf exits (workerExited w reason)
  update fun s => { s with runtimeAvailability := .Unknown, worker := { s.worker with ready := false } }
  let s ← view id
  if s.worker.running = false then settleForcedCancellation w

/-! ## Events -/

inductive Event where
  | setUp
  | shutdown
  /-- A job was enqueued, retried or resumed. -/
  | jobQueued
  | cancel (jobId : QString)
  | setPauseAfterCurrent (enabled : Bool)
  | setExternalWorkerReserved (reserved : Bool)
  | invalidateLoadedModel
  | leaseHeartbeat
  | leaseRetry
  | fire (index : Nat) (report : Report)
  | normalizationProgress (index : Nat) (percent : Int) (progress : Rat)
  | envelope (envelope : Envelope)
  | workerStarted
  /-- A variant was tried, and did not start. -/
  | workerNotStarted
  | workerReady
  | channelFailed
  | workerExited (reason : QString)
  | stopWorker (exits : Bool) (reason : QString)
  /-- Other parts of the application draw a UUID, for their own requests to the worker. -/
  | uuidDrawn

def handle : Event → Task Unit
  | .setUp => setUp w
  | .shutdown => shutdown w
  | .jobQueued => scheduleNext w
  | .cancel jobId => cancel w jobId
  | .setPauseAfterCurrent enabled => do
    update fun s => { s with pauseAfterCurrent := enabled }
    if enabled then pure () else scheduleNext w
  | .setExternalWorkerReserved reserved => do
    let s ← view id
    update fun s => { s with externalWorkerReserved := reserved }
    if s.externalWorkerReserved = reserved ∨ reserved then pure () else scheduleNext w
  | .invalidateLoadedModel => update fun s => if s.activeJob.id = [] then { s with loadedModel := none } else s
  | .leaseHeartbeat => do
    let s ← view id
    if s.leaseHeartbeat then renewActiveLease w
  | .leaseRetry => do
    let s ← view id
    if s.leaseRetry then do
      update fun s => { s with leaseRetry := false }
      scheduleNext w
  | .fire index report => fire w index report
  | .normalizationProgress index percent progress => normalizationProgress w index percent progress
  | .envelope envelope => receiveEnvelope w envelope
  | .workerStarted => update fun s => if s.worker.running then s else { s with worker := s.worker.started }
  | .workerNotStarted => update fun s => if s.worker.running then s else { s with worker := s.worker.tried }
  | .workerReady => workerReady w
  | .channelFailed => channelFailed
  | .workerExited reason => workerExited w reason
  | .stopWorker exits reason => stopWorker w exits reason
  | .uuidDrawn => update fun s => { s with drawn := s.drawn + 1 }

def step (s : Coordinator) (event : Event) : Coordinator := (handle w event s).2

end BreezeDesk.TranscriptionCoordinator
