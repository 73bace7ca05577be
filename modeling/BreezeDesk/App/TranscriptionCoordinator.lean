/-
  `TranscriptionCoordinator`: one transcription at a time in the desktop application, and how it ends.

  The coordinator runs on the event loop.  It asks the repositories, the models and the file system, sends
  requests to the worker, and leaves callbacks behind: timers, watchers of background work, the signals of an
  operation.  All answers come from a `World`, numbered by the questions; nothing is assumed about them.

  Five things can end a transcription: a failure, the user, the exit of the worker, the loss of the lease, and
  closing the application.  While a request may still run in the worker, the end waits (`awaitWorkerQuiescence`)
  and a later cause may take its place.

  The source's functions are programs on the state (`Task`).  What they do to the job store is put down in
  `log`, along with each decision; the program itself keeps no such record.
-/
import BreezeDesk.App.OverlapBoundary
import BreezeDesk.Asr.ChunkPlanDecoding
import BreezeDesk.Database.Schema
import BreezeDesk.Library.Effects
import BreezeDesk.Worker.Controller

namespace BreezeDesk.TranscriptionCoordinator

open Effect Ipc

/-! ## State -/

inductive RequestKind where
  | None | GetCapabilities | AnalyzeSpeech | LoadModel | TranscribeChunk
  deriving DecidableEq, Repr

inductive PendingTerminalAction where
  | None | Fail | Cancel | Interrupt | AbandonAfterLeaseLoss
  deriving DecidableEq, Repr

inductive RuntimeAvailability where
  | Unknown | Available | Unavailable
  deriving DecidableEq, Repr

inductive VadModelContinuation where
  | PrepareChunks | AnalyzeSpeech | StartNextChunk | TranscribeCurrentChunk
  deriving DecidableEq, Repr

/-- A request for the runtime: `AnalyzeSpeech`, `LoadModel` or `StartTranscription`. -/
def RequestKind.usesRuntime (kind : RequestKind) : Bool :=
  kind = .AnalyzeSpeech || kind = .LoadModel || kind = .TranscribeChunk

/-- What is waited for, with what the source's lambda has captured. -/
inductive Callback where
  | ensureWorkerReady (jobId : QString) (attempt : Nat) (ownerToken : QString)
  | capabilitiesTimeout (jobId ownerToken requestId : QString)
  | sourceHashed (jobId ownerToken : QString)
  | inspected (jobId ownerToken : QString)
  | normalizationFinished (operation : Nat) (jobId ownerToken : QString)
  | normalizedSourceHashed (jobId ownerToken : QString) (durationMs : Int)
  | waveformGenerated (jobId ownerToken recordingId normalizedPath : QString) (cancellation : Nat)
  | vadDownloadFinished (operation : Nat) (jobId ownerToken : QString) (continuation : VadModelContinuation)
  | startNextChunk (jobId ownerToken : QString)
  | failAgain (jobId ownerToken code message : QString)
  | cancelAgain (jobId ownerToken : QString)
  | interruptAgain (jobId ownerToken reason : QString)
  | scheduleNext
  deriving DecidableEq, Repr

/-- What a call of a repository asks to be written for the job that runs. -/
inductive Write where
  | updateProgress (stage : JobStage) (progress : Rat) (lastCompletedChunk : Int)
  | transition (state : JobState) (code message : QString)
  | updateParameters (parameters : QJsonObject)
  | updateRecording (recording : Recording)
  | replaceChunks (chunks : List JobChunk)
  | updateChunk (chunk : JobChunk)
  | replaceSegments (chunkId : QString) (segments : List TranscriptSegment) (provisional : Bool)
  | updateRuntimeInfo (backend engineVersion : QString)
  | appendEvent (eventType message : QString)
  | completeAndActivate

inductive Act where
  | write (change : Write) (accepted : Bool)
  /-- The chunks of the job are known: those it had, or those it was given. -/
  | planned (chunks : List JobChunk)
  | decided (action : PendingTerminalAction)

/-- What was done: for whom, under which pending action, and whether the worker had a request then. -/
structure Entry where
  ownerToken : QString
  act : Act
  pending : PendingTerminalAction
  workerBusy : Bool

/-- The fields of `WorkerProcessManager` that decide about a forced cancellation.  `connecting` is whether the
    connection attempts belong to the current process generation; `serving` are the requests for
    the runtime that the process has received and not answered, which the application cannot see. -/
structure WorkerProcess where
  running : Bool := false
  connecting : Bool := false
  ready : Bool := false
  stopping : Bool := false
  forcedCancellation : Option (QString × QString) := none
  forcedCancellationAwaitingRestart : Bool := false
  terminalRequests : List (QString × QString) := []
  serving : List QString := []
  deriving DecidableEq

structure LoadedModel where
  path : QString
  sha256 : QString
  backend : QString
  flashAttention : Bool
  actualBackend : QString
  runtimeVersion : QString

structure Coordinator where
  calls : Nat := 0
  drawn : Nat := 0
  initialized : Bool := false
  shuttingDown : Bool := false
  pauseAfterCurrent : Bool := false
  externalWorkerReserved : Bool := false
  /-- `m_leaseHeartbeatTimer` and `m_leaseRetryTimer` are active. -/
  leaseHeartbeat : Bool := false
  leaseRetry : Bool := false
  activeJob : TranscriptionJob := {}
  ownerToken : QString := []
  chunks : List JobChunk := []
  currentSegments : List TranscriptSegment := []
  /-- `none` for `-1`. -/
  currentChunkIndex : Option Nat := none
  nextOrdinal : Int := 0
  lastNormalizationPercent : Int := -1
  activeSourcePath : QString := []
  activeNormalizedPath : QString := []
  activeSourceHash : QString := []
  loadedModel : Option LoadedModel := none
  runtimeAvailability : RuntimeAvailability := .Unknown
  requestId : QString := []
  requestKind : RequestKind := .None
  pendingTerminalAction : PendingTerminalAction := .None
  pendingTerminalCode : QString := []
  pendingTerminalMessage : QString := []
  workerQuiescenceConfirmed : Bool := false
  normalization : Option Nat := none
  waveformCancellation : Option Nat := none
  cancelledWaveforms : List Nat := []
  vadDownload : Option Nat := none
  vadModelVerified : Bool := false
  vadRecoveryAttempted : Bool := false
  callbacks : List Callback := []
  worker : WorkerProcess := {}
  log : List Entry := []

/-- All that the coordinator asks, by the number of the question, and the UUIDs by the number of the draw. -/
structure World where
  tables : CharTables
  uuid : Nat → QString
  now : Nat → Int
  /-- How the call of a repository that writes ends. -/
  refused : Nat → Option UserFacingError
  activeLease : Nat → Result (Option AsrExecutionLease)
  findJob : Nat → Result (Option TranscriptionJob)
  findRecording : Nat → Result (Option Recording)
  chunks : Nat → Result (List JobChunk)
  segments : Nat → Result (List TranscriptSegment)
  recovered : Nat → Result Unit
  claimNextQueued : Nat → Result JobClaimResult
  fileExists : Nat → QString → Bool
  isFile : Nat → QString → Bool
  modelPath : QString → QString
  expectedSha256 : QString → QString
  modelVerified : Nat → Bool
  download : Nat → Option Nat
  /-- Whether the path is one that the cache may reuse, and what `NormalizedAudioValidator` finds. -/
  reusablePath : Nat → Bool
  validatedAudio : Nat → Except QString Int
  ffmpegAvailable : Nat → Except QString Unit
  normalizedAudioPath : QString → QString → QString
  /-- How `WorkerProcessManager::start` ends: `lastError`, and whether a variant of the worker was tried. -/
  workerStarts : Nat → Except (QString × Bool) Unit
  plan : Int → List Asr.TranscriptionChunk
  segmentDigest : List TranscriptSegment → QString

/-- No UUID is empty, and none is drawn twice. -/
structure World.Fresh (w : World) : Prop where
  ne_nil : ∀ n, w.uuid n ≠ []
  injective : Function.Injective w.uuid

abbrev Task := Effect Coordinator Empty

variable (w : World)

def ask {α : Type} (question : Nat → α) : Task α := fun s =>
  (.done (question s.calls), { s with calls := s.calls + 1 })

def createUuid : Task QString := fun s => (.done (w.uuid s.drawn), { s with drawn := s.drawn + 1 })

def noted (act : Act) (s : Coordinator) : Coordinator :=
  { s with log := s.log ++ [⟨s.ownerToken, act, s.pendingTerminalAction, !s.worker.serving.isEmpty⟩] }

def note (act : Act) : Task Unit := update (noted act)

/-- A call of a repository that writes; an error changes nothing there. -/
def write (change : Write) : Task (Option UserFacingError) := do
  let refused ← ask w.refused
  note (.write change refused.isNone)
  pure refused

def post (callback : Callback) : Task Unit := update fun s => { s with callbacks := s.callbacks ++ [callback] }

/-- `QTimer::start` of the retry timer. -/
def scheduleLeaseRetry : Task Unit := update fun s => if s.shuttingDown then s else { s with leaseRetry := true }

/-! ## The worker -/

/-- `WorkerProcessManager::forceCancelAfterGrace`.  The process is told, or killed when it is not connected;
    what becomes of it are events of its own. -/
def WorkerProcess.forceCancelAfterGrace (jobId requestId : QString) (m : WorkerProcess) : WorkerProcess :=
  if requestId = [] then m
  else if (jobId, requestId) ∈ m.terminalRequests ∨ m.forcedCancellation = some (jobId, requestId) then m
  else { m with forcedCancellation := some (jobId, requestId), forcedCancellationAwaitingRestart := !m.ready }

def WorkerProcess.settle (m : WorkerProcess) : WorkerProcess :=
  { m with forcedCancellation := none, forcedCancellationAwaitingRestart := false }

/-- `MaximumRememberedTerminalRequests`. -/
def maximumRememberedTerminalRequests : Nat := 128

/-- A request that has ended; the process forgets the oldest of them. -/
def WorkerProcess.remember (key : QString × QString) (m : WorkerProcess) : WorkerProcess :=
  if key ∈ m.terminalRequests then m
  else
    let remembered := m.terminalRequests ++ [key]
    { m with terminalRequests := remembered.drop (remembered.length - maximumRememberedTerminalRequests) }

/-- `AsrWorkerClient::sendRequest`: the id of the request, or nothing when the worker is not connected. -/
def sendRequest (kind : RequestKind) : Task QString := fun s =>
  if s.worker.ready = false then (.done [], s)
  else
    let requestId := w.uuid s.drawn
    let serving := if kind.usesRuntime then s.worker.serving ++ [requestId] else s.worker.serving
    (.done requestId, { s with drawn := s.drawn + 1, worker := { s.worker with serving } })

/-! ## The active job -/

def activeJobMatches (jobId ownerToken : QString) (s : Coordinator) : Bool :=
  jobId ≠ [] && s.activeJob.id = jobId && (ownerToken = [] || s.ownerToken = ownerToken)

def activeWorkerRequestMayStillRun (s : Coordinator) : Bool := s.requestId ≠ [] && s.requestKind.usesRuntime

def isVadDownloadFinished : Callback → Bool
  | .vadDownloadFinished .. => true
  | _ => false

/-- `QObject::disconnect(m_vadDownloadFinishedConnection)`. -/
def disconnectVadDownload (s : Coordinator) : Coordinator :=
  { s with callbacks := s.callbacks.filter fun callback => !isVadDownloadFinished callback }

def clearActive (s : Coordinator) : Coordinator :=
  { disconnectVadDownload s with
    cancelledWaveforms := s.cancelledWaveforms ++ s.waveformCancellation.toList
    waveformCancellation := none
    activeJob := {}
    chunks := []
    currentSegments := []
    currentChunkIndex := none
    nextOrdinal := 0
    requestId := []
    requestKind := .None
    pendingTerminalAction := .None
    pendingTerminalCode := []
    pendingTerminalMessage := []
    workerQuiescenceConfirmed := false
    activeSourcePath := []
    activeNormalizedPath := []
    activeSourceHash := []
    ownerToken := []
    normalization := none
    vadDownload := none
    vadModelVerified := false
    vadRecoveryAttempted := false }

def isNormalizationOf (operation : Nat) : Callback → Bool
  | .normalizationFinished other _ _ => other = operation
  | _ => false

/-- `m_normalization != nullptr && m_normalization->isRunning()`: it runs until it has finished. -/
def normalizationRunning (s : Coordinator) : Bool :=
  match s.normalization with
  | some operation => s.callbacks.any (isNormalizationOf operation)
  | none => false

/-- `m_waveformCancellation->store(true)`. -/
def cancelWaveform (s : Coordinator) : Coordinator :=
  { s with cancelledWaveforms := s.cancelledWaveforms ++ s.waveformCancellation.toList }

def activeExecutionLeaseLost : Task Bool := do
  let s ← view id
  if s.activeJob.id = [] then pure false
  else
    match ← ask w.activeLease with
    | .error _ => pure false
    | .ok none => pure true
    | .ok (some lease) =>
      let now ← ask w.now
      pure (lease.jobId ≠ s.activeJob.id || lease.ownerToken ≠ s.ownerToken ||
        lease.expiresAt.all fun expires => decide (expires ≤ now))

def terminalTransitionNeedsRetry : Task Bool := do
  match ← ask w.findJob with
  | .error _ => pure true
  | .ok none => pure false
  | .ok (some job) => pure job.state.isRunning

def isCancelled (state : JobState) : Bool := state = .cancelling || state = .cancelled

def setJobState (state : JobState) (s : Coordinator) : Coordinator :=
  { s with activeJob := { s.activeJob with state } }

def durableCancellationWins : Task Bool := do
  let s ← view id
  if s.activeJob.id = [] then pure false
  else if s.activeJob.state = .cancelling then pure true
  else
    match ← ask w.findJob with
    | .ok (some job) =>
      if isCancelled job.state then do
        update (setJobState .cancelling)
        pure true
      else pure false
    | _ => pure false

/-! ## Ending -/

def leaseLossMessage : QString := qs "This transcription lost the global execution lease and was stopped."

def cancelledMessage : QString := qs "Transcription was cancelled."

def isLeaseLost (error : UserFacingError) : Bool := error.code = .executionLeaseLost

/-- The worker does not know the job of a `LoadModel`. -/
def workerJobId (s : Coordinator) : QString := if s.requestKind = .LoadModel then [] else s.activeJob.id

def setPending (action : PendingTerminalAction) (code message : QString) (s : Coordinator) : Coordinator :=
  noted (.decided action) { s with
    pendingTerminalAction := action, pendingTerminalCode := code, pendingTerminalMessage := message }

/-- The pending action after another cause: the loss of the lease goes before all others, as this process may not
    write any more, and a cancellation goes before a failure. -/
def chosen (action : PendingTerminalAction) (code message : QString) (s : Coordinator) : Coordinator :=
  if s.pendingTerminalAction = .None then
    setPending action code message { s with workerQuiescenceConfirmed := false }
  else if action = .AbandonAfterLeaseLoss then setPending action [] message s
  else if action = .Cancel ∧ s.pendingTerminalAction ≠ .AbandonAfterLeaseLoss then setPending action code message s
  else s

/-- The worker is told to stop, unless it is known to have. -/
def told (s : Coordinator) : Coordinator :=
  { s with worker := s.worker.forceCancelAfterGrace (workerJobId s) s.requestId }

/-- `awaitWorkerQuiescence`: whether the end has to wait. -/
def awaitWorkerQuiescence (action : PendingTerminalAction) (code message : QString) : Task Bool := do
  let s ← view id
  if activeWorkerRequestMayStillRun s = false then pure false
  else do
    update (chosen action code message)
    let s ← view id
    if s.workerQuiescenceConfirmed then pure false
    else do
      update told
      let s ← view id
      if s.worker.forcedCancellation.isNone then do
        -- the terminal envelope of this request has been seen
        update fun s => { s with workerQuiescenceConfirmed := true }
        pure false
      else pure true

def finishLeaseLossHandoff : Task Unit := do
  update fun s => clearActive { s with loadedModel := none }
  scheduleLeaseRetry

/-- `finishPendingTerminalCheckpoint`.  The source's functions for the end of a job call each other; here those
    that it calls are arguments, and `finishPending_cancel` and `finishPending_abandon` say which ones are not
    called where they do not exist yet. -/
def finishPendingWith (abandon : QString → Task Unit) (fails : QString → QString → Task Unit) (cancels : Task Unit)
    (interrupts : QString → Task Unit) : Task Unit := do
  let s ← view id
  if s.pendingTerminalAction = .None then scheduleLeaseRetry
  else if s.activeJob.id = [] then do
    update fun s => { s with
      pendingTerminalAction := .None, pendingTerminalCode := [], pendingTerminalMessage := []
      workerQuiescenceConfirmed := false }
    scheduleLeaseRetry
  else do
    update fun s => { s with workerQuiescenceConfirmed := true }
    if s.pendingTerminalAction = .AbandonAfterLeaseLoss then finishLeaseLossHandoff
    else if ← activeExecutionLeaseLost w then abandon leaseLossMessage
    else if s.pendingTerminalAction = .Cancel then cancels
    else if ← durableCancellationWins w then do
      update (setPending .Cancel (qs "JobCancelled") cancelledMessage)
      cancels
    else if s.pendingTerminalAction = .Fail then fails s.pendingTerminalCode s.pendingTerminalMessage
    else interrupts s.pendingTerminalMessage

/-- When the lease is lost, nothing but the hand-over is pending. -/
def finishAbandoned : Task Unit :=
  finishPendingWith w (fun _ => pure ()) (fun _ _ => pure ()) (pure ()) fun _ => pure ()

/-- `WorkerProcessManager::abortImmediately`.  A process that runs is killed, and its exit is an event of its own;
    without one a pending cancellation is settled at once. -/
def abortImmediately : Task Unit := do
  update fun s => { s with
    runtimeAvailability := .Unknown
    worker := { s.worker with stopping := false, connecting := false, ready := false } }
  let s ← view id
  if s.worker.running = false ∧ s.worker.forcedCancellation.isSome then do
    update fun s => { s with worker := s.worker.settle }
    finishAbandoned w

def abandonActiveJobAfterLeaseLoss (reason : QString) : Task Unit := do
  let s ← view id
  if s.activeJob.id = [] then pure ()
  else
    update fun s => { s with leaseHeartbeat := false }
    onlyIf (normalizationRunning s = false) (update cancelWaveform)
    if activeWorkerRequestMayStillRun s then
      if ← awaitWorkerQuiescence .AbandonAfterLeaseLoss [] reason then abortImmediately w
      else finishAbandoned w
    else finishLeaseLossHandoff

/-- The end of a checkpoint that was written. -/
def leaveJob (next : Task Unit) : Task Unit := do
  update fun s => clearActive { s with leaseHeartbeat := false }
  next

/-- The current chunk, if its state is one of those that a checkpoint changes. -/
def chunkToStop (which : ChunkState → Bool) (s : Coordinator) : Option (Nat × JobChunk) := do
  let index ← s.currentChunkIndex
  let chunk ← s.chunks[index]?
  if which chunk.state then some (index, chunk) else none

/-- The first half of a checkpoint: the current chunk is written, and only then changed in memory.  Whether the
    checkpoint goes on. -/
def stopChunk (which : ChunkState → Bool) (change : JobChunk → JobChunk) (again : Callback) : Task Bool := do
  let s ← view id
  match chunkToStop which s with
  | none => pure true
  | some (index, chunk) =>
    match ← write w (.updateChunk (change chunk)) with
    | none => do
      update fun s => { s with chunks := s.chunks.set index (change chunk) }
      pure true
    | some error =>
      if isLeaseLost error then do
        abandonActiveJobAfterLeaseLoss w leaseLossMessage
        pure false
      else do
        post again
        pure false

def checkpointCancellation : Task Unit := do
  let s ← view id
  let again := Callback.cancelAgain s.activeJob.id s.ownerToken
  if ← stopChunk w (fun state => state = .running || state = .failed || state = .interrupted)
      (fun chunk => { chunk with state := .cancelled, error := cancelledMessage }) again then
    match ← write w (.transition .cancelled (qs "JobCancelled") cancelledMessage) with
    | none => leaveJob (post .scheduleNext)
    | some error =>
      if isLeaseLost error then abandonActiveJobAfterLeaseLoss w leaseLossMessage
      else if ← terminalTransitionNeedsRetry w then post again
      else leaveJob (post .scheduleNext)

/-- A cancellation that waited for the worker. -/
def finishCancelled : Task Unit :=
  finishPendingWith w (abandonActiveJobAfterLeaseLoss w) (fun _ _ => pure ()) (checkpointCancellation w)
    fun _ => pure ()

def finishCancellation : Task Unit := do
  let s ← view id
  if s.activeJob.id = [] then pure ()
  else if ← activeExecutionLeaseLost w then abandonActiveJobAfterLeaseLoss w leaseLossMessage
  else if activeWorkerRequestMayStillRun s then
    if ← awaitWorkerQuiescence .Cancel (qs "JobCancelled") cancelledMessage then pure () else finishCancelled w
  else checkpointCancellation w

/-- A checkpoint other than a cancellation, which a cancellation overtakes. -/
def checkpoint (chunkState : ChunkState) (jobState : JobState) (code message : QString) (again : Callback)
    (next : Task Unit) : Task Unit := do
  if ← stopChunk w (fun state => state = .running)
      (fun chunk => { chunk with state := chunkState, error := message }) again then
    match ← write w (.transition jobState code message) with
    | none => leaveJob next
    | some error =>
      if isLeaseLost error then abandonActiveJobAfterLeaseLoss w leaseLossMessage
      else if ← durableCancellationWins w then finishCancellation w
      else if ← terminalTransitionNeedsRetry w then post again
      else leaveJob next

def checkpointFailedJob (code message : QString) : Task Unit := do
  let s ← view id
  checkpoint w .failed .failed code message (.failAgain s.activeJob.id s.ownerToken code message)
    (post .scheduleNext)

def checkpointInterruption (reason : QString) : Task Unit := do
  let s ← view id
  checkpoint w .interrupted .interrupted (qs "WorkerCrashed") reason
    (.interruptAgain s.activeJob.id s.ownerToken reason) scheduleLeaseRetry

def finishPendingTerminalCheckpoint : Task Unit :=
  finishPendingWith w (abandonActiveJobAfterLeaseLoss w) (checkpointFailedJob w) (checkpointCancellation w)
    (checkpointInterruption w)

def failActiveJob (code message : QString) : Task Unit := do
  let s ← view id
  if s.activeJob.id = [] then pure ()
  else if ← activeExecutionLeaseLost w then abandonActiveJobAfterLeaseLoss w leaseLossMessage
  else if ← durableCancellationWins w then finishCancellation w
  else if activeWorkerRequestMayStillRun s then
    if ← awaitWorkerQuiescence .Fail code message then pure () else finishPendingTerminalCheckpoint w
  else checkpointFailedJob w code message

def interruptActiveJob (reason : QString) : Task Unit := do
  update fun s => { s with loadedModel := none }
  let s ← view id
  if s.activeJob.id = [] then pure ()
  else if s.pendingTerminalAction ≠ .None then do
    update fun s => { s with workerQuiescenceConfirmed := true }
    finishPendingTerminalCheckpoint w
  else if ← activeExecutionLeaseLost w then abandonActiveJobAfterLeaseLoss w leaseLossMessage
  else if ← durableCancellationWins w then checkpointCancellation w
  else checkpointInterruption w reason

def abortActiveOperationForCancellation : Task Unit := do
  let s ← view id
  if normalizationRunning s then pure ()
  else if s.waveformCancellation.isSome then update cancelWaveform
  else finishCancellation w

end BreezeDesk.TranscriptionCoordinator
