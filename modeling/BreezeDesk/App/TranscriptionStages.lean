/-
  The stages of a transcription in the desktop application, and all that can happen to it.

  A stage does its work at once or leaves a callback behind that goes on with it.  A handler of the source that
  returns early stops here (`failAndReturn`, `advanceOrReturn`).  `handle` is the reaction to one event; the
  events come in any order.
-/
import BreezeDesk.App.ChunkCommit
import BreezeDesk.App.TranscriptionCoordinator
import BreezeDesk.Audio.MediaMetadata
import BreezeDesk.Library.Runs

namespace BreezeDesk.TranscriptionCoordinator

open App Effect Ipc Worker

def workerReadyAttempts : Nat := 100

def shortAudioThresholdMs : Int := 12 * 60 * 1000

def vadModelId : QString := qs "silero-vad-v6.2.0"

variable (w : World)

/-- The job fails, and the handler returns. -/
def failAndReturn {α : Type} (code : String) (message : QString) : Task α := do
  failActiveJob w (qs code) message
  stop

def advanceProgress (stage : JobStage) (fraction : Rat) (lastCompletedChunk : Int) : Task Bool := do
  let s ← view id
  if s.activeJob.id = [] then pure false
  else
    let progress := max s.activeJob.progress (mapProgress stage fraction)
    match ← write w (.updateProgress stage progress lastCompletedChunk) with
    | some error => do
      if isLeaseLost error then abandonActiveJobAfterLeaseLoss w leaseLossMessage
      else failActiveJob w (qs "DatabaseQueryFailed") error.message
      pure false
    | none => do
      update fun s => { s with activeJob := { s.activeJob with
        stage, progress, lastCompletedChunk := max s.activeJob.lastCompletedChunk lastCompletedChunk } }
      pure true

def advanceOrReturn (stage : JobStage) (fraction : Rat) (lastCompletedChunk : Int) : Task Unit := do
  if ← advanceProgress w stage fraction lastCompletedChunk then pure () else stop

/-- A transition on the way, after which the state in memory follows. -/
def enterState (state : JobState) : Task Unit := do
  match ← write w (.transition state [] []) with
  | some error => failAndReturn w "InvalidStateTransition" error.message
  | none => update (setJobState state)

def recordingGone : QString := qs "The recording no longer exists."

def requireRecording (code : String) (gone : QString) (broken : UserFacingError → QString) : Task Recording := do
  match ← ask w.findRecording with
  | .ok (some recording) => pure recording
  | .ok none => failAndReturn w code gone
  | .error error => failAndReturn w code (broken error)

/-- A write after which the job goes on, or fails. -/
def writeOrFail (change : Write) : Task Unit := do
  match ← write w change with
  | some error => failAndReturn w "DatabaseQueryFailed" error.message
  | none => pure ()

def jobDuration (s : Coordinator) : Int := (s.activeJob.parameters.value (qs "durationMs")).toInteger

def setDuration (durationMs : Int) (s : Coordinator) : Coordinator :=
  { s with activeJob := { s.activeJob with
    parameters := insertValue s.activeJob.parameters (qs "durationMs") (.number durationMs) } }

def setParameters (parameters : QJsonObject) (s : Coordinator) : Coordinator :=
  { s with activeJob := { s.activeJob with parameters } }

/-! ## The model of the speech detection -/

def appendVadModelEvent (eventType : String) (message : String) : Task Bool := do
  let s ← view id
  if s.activeJob.id = [] then pure false
  else
    match ← write w (.appendEvent (qs eventType) (qs message)) with
    | some error => do
      if isLeaseLost error then abandonActiveJobAfterLeaseLoss w leaseLossMessage
      else failActiveJob w (qs "DatabaseQueryFailed") error.message
      pure false
    | none => pure true

def noVadModel : QString := qs "The required Silero VAD model is not present in the trusted model manifest."

/-- `ensureVadModelAvailable`; the handler returns when it answers `false`. -/
def ensureVadModelAvailable (continuation : VadModelContinuation) (forceDownload : Bool) : Task Unit := do
  let s ← view id
  if s.activeJob.id = [] ∨ s.activeJob.state = .cancelling ∨ s.shuttingDown then stop
  else
    let present ← ask fun n => w.isFile n (w.modelPath vadModelId)
    if forceDownload = false ∧ s.vadModelVerified ∧ present then pure ()
    else
      let verified ← ask w.modelVerified
      if forceDownload = false ∧ verified then update fun s => { s with vadModelVerified := true }
      else if s.vadDownload.isSome then stop
      else
        match ← ask w.download with
        | none => failAndReturn w "VadModelDownloadFailed" noVadModel
        | some operation => do
          update fun s => { s with vadDownload := some operation }
          let appended ← appendVadModelEvent w "vad_model_download_started"
            "The required Silero VAD model is missing or invalid. Downloading and verifying it now."
          if appended then do
            update disconnectVadDownload
            post (.vadDownloadFinished operation s.activeJob.id s.ownerToken continuation)
            stop
          else stop

/-! ## Transcribing -/

def completeActiveJob : Task Unit := do
  if ← durableCancellationWins w then finishCancellation w
  else
    match ← write w (.transition .finalizing [] []) with
    | some error =>
      if ← durableCancellationWins w then finishCancellation w
      else failActiveJob w (qs "InvalidStateTransition") error.message
    | none => do
      update (setJobState .finalizing)
      let s ← view id
      advanceOrReturn w .finalizing 1 s.activeJob.lastCompletedChunk
      match ← write w .completeAndActivate with
      | some error =>
        if ← durableCancellationWins w then finishCancellation w
        else failActiveJob w (qs "DatabaseQueryFailed") error.message
      | none => leaveJob (post .scheduleNext)

/-- What a request that could not be sent means. -/
def requestSent (requestId : QString) (message : String) : Task Unit :=
  if requestId = [] then failAndReturn w "WorkerCrashed" (qs message) else pure ()

/-- Send a request and wait for its answer. -/
def request (kind : RequestKind) (message : String) : Task Unit := do
  update fun s => { s with requestKind := kind }
  let requestId ← sendRequest w kind
  update fun s => { s with requestId }
  requestSent w requestId message

def unitGone : QString := qs "The active transcription unit is no longer available."

def transcribeCurrentChunk : Task Unit := do
  let s ← view id
  if s.activeJob.state = .cancelling then finishCancellation w
  else
    match s.currentChunkIndex with
    | none => failAndReturn w "InvalidStateTransition" unitGone
    | some index =>
      if s.activeJob.state ≠ .transcribing ∨ index ≥ s.chunks.length then
        failAndReturn w "InvalidStateTransition" unitGone
      else do
        onlyIf s.activeJob.vadEnabled (ensureVadModelAvailable w .TranscribeCurrentChunk false)
        let existing ← ask w.segments
        update fun s => { s with
          currentSegments := []
          nextOrdinal := match existing with | .ok segments => segments.length | .error _ => 0 }
        request w .TranscribeChunk "The transcription request could not be sent to the ASR worker."
        let s ← view id
        advanceOrReturn w .transcribing ((index : Rat) / (max 1 s.chunks.length : Nat))
          s.activeJob.lastCompletedChunk

/-- `m_currentChunkIndex + 1`. -/
def following : Option Nat → Nat
  | none => 0
  | some index => index + 1

/-- The first chunk from `index` on that is not completed. -/
def nextOpen (chunks : List JobChunk) (index : Nat) : Nat :=
  index + ((chunks.drop index).takeWhile fun chunk => chunk.state = .completed).length

def startNextChunk : Task Unit := do
  let s ← view id
  if s.activeJob.state = .cancelling then finishCancellation w
  else do
    onlyIf s.activeJob.vadEnabled (ensureVadModelAvailable w .StartNextChunk false)
    let s ← view id
    let next := nextOpen s.chunks (following s.currentChunkIndex)
    match s.chunks[next]? with
    | none => completeActiveJob w
    | some chunk => do
      let now ← ask w.now
      let started := { chunk with
        state := .running, attempts := chunk.attempts + 1, startedAt := some now, error := [] }
      update fun s => { s with currentChunkIndex := some next, chunks := s.chunks.set next started }
      writeOrFail w (.updateChunk started)
      transcribeCurrentChunk w

/-! ## Loading the model -/

/-- `persistLoadedRuntimeInfo`; what it answers is the text of an error. -/
def persistLoadedRuntimeInfo (model : LoadedModel) : Task (Option QString) := do
  if model.actualBackend = [] ∨ model.runtimeVersion = [] then
    pure (some (qs "The loaded ASR runtime did not report its backend and version."))
  else
    match ← write w (.updateRuntimeInfo model.actualBackend model.runtimeVersion) with
    | some error => pure (some error.message)
    | none => do
      update fun s => { s with activeJob := { s.activeJob with
        backend := model.actualBackend, engineVersion := model.runtimeVersion } }
      pure none

def modelChecksum (job : TranscriptionJob) : QString :=
  if job.modelChecksum = [] then w.expectedSha256 job.modelId else job.modelChecksum

def requestedFlashAttention (job : TranscriptionJob) : Bool :=
  (job.parameters.value (qs "flashAttention")).toBoolOr true

/-- The loaded model is the one that the job asks for. -/
def modelIsLoaded (s : Coordinator) : Option LoadedModel :=
  s.loadedModel.filter fun model =>
    model.path = w.modelPath s.activeJob.modelId &&
    model.sha256 = w.tables.toLower (modelChecksum w s.activeJob) &&
    model.backend = s.activeJob.backend && model.flashAttention = requestedFlashAttention s.activeJob

def loadModel : Task Unit := do
  let s ← view id
  let present ← ask fun n => w.isFile n (w.modelPath s.activeJob.modelId)
  if present = false then
    failAndReturn w "ModelNotInstalled" (qs "Install the selected ASR model before starting transcription.")
  else if (modelChecksum w s.activeJob).length ≠ 64 then
    failAndReturn w "ModelChecksumMismatch" (qs "The selected ASR model does not have a trusted checksum.")
  else do
    enterState w .loadingModel
    advanceOrReturn w .loadingModel 0 (-1)
    let s ← view id
    match modelIsLoaded w s with
    | some model =>
      match ← persistLoadedRuntimeInfo w model with
      | some error => failAndReturn w "DatabaseQueryFailed" error
      | none => do
        enterState w .transcribing
        startNextChunk w
    | none => request w .LoadModel "The model-load request could not be sent to the ASR worker."

/-! ## Preparing -/

def analyzeSpeech : Task Unit := do
  let s ← view id
  if s.activeJob.state ≠ .analyzingSpeech then pure ()
  else do
    ensureVadModelAvailable w .AnalyzeSpeech false
    request w .AnalyzeSpeech "The speech-analysis request could not be sent to the ASR worker."

def verifySourceMedia : Task Unit := do
  let s ← view id
  post (.sourceHashed s.activeJob.id s.ownerToken)

def continuePreparingJob : Task Unit := do
  let s ← view id
  if s.activeJob.state ≠ .preparing then pure ()
  else do
    advanceOrReturn w .preparing 1 (-1)
    let recording ← requireRecording w "SourceFileMissing" recordingGone (·.message)
    let managed ← ask fun n => w.fileExists n recording.managedMediaPath
    let sourcePath := if managed then recording.managedMediaPath else recording.sourcePath
    update fun s => { s with
      activeSourcePath := sourcePath
      activeNormalizedPath := if recording.normalizedPcmPath = [] then
        w.normalizedAudioPath recording.id s.ownerToken else recording.normalizedPcmPath }
    let present ← ask fun n => w.isFile n sourcePath
    if present = false then failAndReturn w "SourceFileMissing" (qs "The source media file is missing.")
    else verifySourceMedia

def continueAfterWorkerPreflight : Task Unit := do
  let s ← view id
  if s.activeJob.id = [] then pure ()
  else if s.activeJob.state = .cancelling then finishCancellation w
  else if s.runtimeAvailability = .Unavailable then
    failActiveJob w (qs "BackendUnavailable") (qs (
      "Speech recognition is unavailable because this ASR worker does not include whisper.cpp. " ++
      "Reinstall the application or use a build configured with whisper.cpp."))
  else if s.runtimeAvailability ≠ .Available then pure ()
  else
    match s.activeJob.state with
    | .preparing => continuePreparingJob w
    | .analyzingSpeech => analyzeSpeech w
    | .waitingForModel => loadModel w
    | _ => pure ()

def requestWorkerCapabilities : Task Unit := do
  let s ← view id
  if s.activeJob.id = [] ∨ s.worker.ready = false ∨ s.requestKind = .GetCapabilities then pure ()
  else do
    request w .GetCapabilities "The ASR worker capability request could not be sent."
    let s ← view id
    post (.capabilitiesTimeout s.activeJob.id s.ownerToken s.requestId)

/-- Before a variant is tried, the terminal requests of the old process are forgotten. -/
def WorkerProcess.tried (m : WorkerProcess) : WorkerProcess := { m with stopping := false, terminalRequests := [] }

/-- A new process knows no request. -/
def WorkerProcess.started (m : WorkerProcess) : WorkerProcess :=
  { m.tried with running := true, connecting := true, serving := [] }

/-- `WorkerProcessManager::start`, as far as the coordinator sees it: nothing, or `lastError`. -/
def startWorker : Task (Option QString) := do
  let s ← view id
  if s.worker.running then pure none
  else
    match ← ask w.workerStarts with
    | .ok () => do
      update fun s => { s with worker := s.worker.started }
      pure none
    | .error (lastError, tried) => do
      onlyIf tried (update fun s => { s with worker := s.worker.tried })
      pure (some lastError)

def ensureWorkerReady (jobId : QString) (attempt : Nat) (ownerToken : QString) : Task Unit := do
  let s ← view id
  if activeJobMatches jobId ownerToken s = false then pure ()
  else if s.activeJob.state = .cancelling then finishCancellation w
  else if s.worker.ready then
    if s.runtimeAvailability = .Unknown then requestWorkerCapabilities w else continueAfterWorkerPreflight w
  else if attempt ≥ workerReadyAttempts then
    failActiveJob w (qs "WorkerTimeout") (qs "The ASR worker did not become ready.")
  else
    -- only the first attempt starts the process
    match ← (if attempt = 0 then startWorker w else pure none) with
    | some lastError => failActiveJob w (qs "WorkerCrashed") lastError
    | none => post (.ensureWorkerReady jobId (attempt + 1) ownerToken)

/-- The first call for the active job. -/
def awaitWorkerReady : Task Unit := do
  let s ← view id
  ensureWorkerReady w s.activeJob.id 0 s.ownerToken

def beginWaitingForModel : Task Unit := do
  enterState w .waitingForModel
  advanceOrReturn w .analyzingSpeech 1 (-1)
  awaitWorkerReady w

/-- The chunks of the job are these. -/
def adoptPlan (chunks : List JobChunk) : Task Unit := update fun s => noted (.planned chunks) { s with chunks }

/-- `saveChunkPlan`; the job fails when there is no plan, or it cannot be saved. -/
def saveChunkPlan (chunks : List JobChunk) : Task Unit := do
  if chunks = [] then
    failAndReturn w "DatabaseQueryFailed" (qs "Speech analysis did not produce a transcription chunk plan.")
  else do
    writeOrFail w (.replaceChunks chunks)
    adoptPlan chunks

/-- The plan for audio without a speech analysis. -/
def planWithoutSpeech (durationMs : Int) : Task Unit := do
  let s ← view id
  let newId : Nat → QString := fun index => w.uuid (s.drawn + index)
  let chunks := Asr.makeJobChunks newId s.activeJob.id (w.plan durationMs)
  update fun s => { s with drawn := s.drawn + chunks.length }
  saveChunkPlan w chunks

def hasStarted (chunk : JobChunk) : Bool := chunk.state ≠ .pending || decide (0 < chunk.attempts)

def lastEndMs (chunks : List JobChunk) : Int := (chunks.getLast?.map (·.endMs)).getD 0

def planMismatch (duration planEnd : Int) : QString :=
  qs ("The normalized audio is " ++ toString duration ++ " ms, but the resumed chunk plan ends at " ++
    toString planEnd ++ " ms. Start a new transcription so the audio tail is not omitted.")

def prepareChunks : Task Unit := do
  let duration ← view jobDuration
  if duration ≤ 0 then failAndReturn w "UnsupportedMedia" (qs "The recording duration is invalid.")
  else
    match ← ask w.chunks with
    | .error error => failAndReturn w "DatabaseQueryFailed" error.message
    | .ok existing => do
      adoptPlan existing
      let s ← view id
      if existing ≠ [] then do
        let started := existing.any hasStarted
        if started ∧ lastEndMs existing < duration then
          failAndReturn w "ChunkPlanMismatch" (planMismatch duration (lastEndMs existing))
        else do
          onlyIf (started = false ∧ lastEndMs existing ≠ duration) (planWithoutSpeech w duration)
          beginWaitingForModel w
      else if s.activeJob.vadEnabled = false ∨ duration ≤ shortAudioThresholdMs then do
        planWithoutSpeech w duration
        beginWaitingForModel w
      else do
        ensureVadModelAvailable w .PrepareChunks false
        enterState w .analyzingSpeech
        advanceOrReturn w .analyzingSpeech 0 (-1)
        awaitWorkerReady w

def beginWaveformGeneration : Task Unit := do
  let s ← view id
  onlyIf (s.activeJob.state ≠ .normalizing) (enterState w .normalizing)
  advanceOrReturn w .normalizingAudio (98 / 100) (-1)
  let cancellation ← ask id
  update fun s => { s with waveformCancellation := some cancellation }
  post (.waveformGenerated s.activeJob.id s.ownerToken s.activeJob.recordingId s.activeNormalizedPath cancellation)

/-- `persistNormalizedDuration`; the job fails when it answers `false`. -/
def persistNormalizedDuration (durationMs : Int) : Task Unit := do
  if durationMs ≤ 0 then
    failAndReturn w "DatabaseQueryFailed" (qs "The normalized recording duration is invalid.")
  else do
    let recording ← requireRecording w "DatabaseQueryFailed" recordingGone (·.message)
    writeOrFail w (.updateRecording { recording with durationMs })
    update (setDuration durationMs)

def inspectMedia : Task Unit := do
  match ← ask w.ffmpegAvailable with
  | .error error => failAndReturn w "AudioDecodeFailed" error
  | .ok () => do
    advanceOrReturn w .inspectingMedia 0 (-1)
    let s ← view id
    post (.inspected s.activeJob.id s.ownerToken)

def beginNormalization : Task Unit := do
  match ← ask w.ffmpegAvailable with
  | .error _ => failAndReturn w "AudioDecodeFailed" (qs "ffmpeg is not available.")
  | .ok () => do
    enterState w .normalizing
    let operation ← ask id
    update fun s => { s with lastNormalizationPercent := -1, normalization := some operation }
    let s ← view id
    post (.normalizationFinished operation s.activeJob.id s.ownerToken)

def beginJob (job : TranscriptionJob) : Task Unit := do
  update fun s => { s with
    activeJob := { job with state := .preparing }, activeSourceHash := [], vadModelVerified := false
    vadRecoveryAttempted := false }
  advanceOrReturn w .preparing 0 (-1)
  awaitWorkerReady w

def leaseHolder (now : Int) (lease : Option AsrExecutionLease) : QString :=
  match lease with
  | some lease => if lease.expiresAt.any fun expires => decide (now < expires) then lease.jobId else []
  | none => []

/-- The job that has the lease, or nothing. -/
def observeLease : Task QString := do
  match ← ask w.activeLease with
  | .error _ => do
    scheduleLeaseRetry
    stop
  | .ok lease => do
    let now ← ask w.now
    pure (leaseHolder now lease)

/-- An expired lease is released, and another process may have taken it since. -/
def recoverAndObserve : Task QString := do
  match ← ask w.recovered with
  | .error _ => do
    scheduleLeaseRetry
    stop
  | .ok () => observeLease w

def claimNext : Task Unit := do
  let candidateOwnerToken ← createUuid w
  match ← ask w.claimNextQueued with
  | .error _ => scheduleLeaseRetry
  | .ok claim =>
    match claim.job with
    | none => scheduleLeaseRetry
    | some job =>
      if claim.claimed then do
        update fun s => { s with ownerToken := candidateOwnerToken, leaseHeartbeat := true }
        beginJob w job
      else scheduleLeaseRetry

def scheduleNext : Task Unit := do
  let s ← view id
  if s.initialized = false ∨ s.shuttingDown ∨ s.activeJob.id ≠ [] then pure ()
  else do
    let observed ← observeLease w
    let holder ← if observed = [] then recoverAndObserve w else pure observed
    let s ← view id
    if holder ≠ [] ∨ s.pauseAfterCurrent ∨ s.externalWorkerReserved ∨ s.worker.forcedCancellation.isSome then
      scheduleLeaseRetry
    else claimNext w

end BreezeDesk.TranscriptionCoordinator
