/-
  The test of one installed model (`ModelTestController`), as a state machine.

  A test has the worker load the model, transcribe three seconds of generated audio and unload the model again.
  Between two callbacks (a command of the user, a signal of the worker's client, the timeout, a deferred call) the
  controller does nothing, so that a run is a list of callbacks.  `WorkerAnswers` is what the worker's client
  answers during one callback; where it fails, its signals come before the call returns (`sending`, `aborting`).

  The next part of a test is not begun at once but by a single-shot timer, which stays when the test ends.
  `deferred` holds these calls, each with the number of the test it was scheduled in; the number is not in the
  source, and nothing but the log looks at it.

  The log has what the controller says and asks for, in order and with the number of the test.  What it
  says about a request that it refuses belongs to no test.
-/
import BreezeDesk.Ipc.Protocol

namespace BreezeDesk

/-- `QCborValue::toString(defaultValue)`. -/
def QCborValue.toTextOr (defaultValue : QString) : QCborValue → QString
  | .string value => value
  | _ => defaultValue

/-- `QCborValue::toInteger`: a double loses its fraction. -/
def QCborValue.toInteger : QCborValue → Int
  | .integer value => value
  | .double value => value.num.tdiv value.den
  | _ => 0

namespace ModelTest

open Ipc

/-! ## States -/

inductive Phase where
  | Idle | WaitingForWorker | LoadingModel | Transcribing | UnloadingModel
  deriving DecidableEq

/-- What a single-shot timer calls. -/
inductive Deferred where
  | beginTranscription | beginUnload
  deriving DecidableEq

/-- A signal of the worker's client that ends what it was asked for. -/
inductive WorkerSignal where
  | disconnected
  | protocolError (detail : QString)
  deriving DecidableEq

inductive ModelTestAction where
  | runningChanged
  | testStarted (modelId : QString)
  | progressChanged (modelId : QString) (progress : Rat)
  | modelLoaded (modelId selectedBackend actualBackend runtimeVersion : QString) (loadTimeMs : Int)
  | modelUnloaded (modelId : QString)
  | testSucceeded (modelId selectedBackend actualBackend runtimeVersion : QString) (loadTimeMs : Int)
  | testFailed (modelId message technicalDetails : QString)
  | testCancelled (modelId : QString)
  | request (type : MessageType) (jobId : QString) (payload : QCborMap)
  | setModelInUse (modelId : QString) (inUse : Bool)
  | invalidateWorkerModelCache
  | abortWorker
  /-- `cancel` has noted that the running test is to be cancelled. -/
  | cancelAccepted

structure ModelTestTimeouts where
  workerStartupMs : Int := 10000
  modelLoadMs : Int := 120000
  transcriptionMs : Int := 180000
  modelUnloadMs : Int := 10000

/-- The functions are those of the model manager; the truth values say which of the optional calls there are. -/
structure ModelTestDependencies where
  modelPath : QString → QString
  expectedSha256 : QString → QByteArray
  ensureWorkerStarted : Bool := true
  workerReserved : Bool := true
  setExternalWorkerReserved : Bool := true
  invalidateWorkerModelCache : Bool := true
  abortWorker : Bool := true
  temporaryDirectory : QString
  timeouts : ModelTestTimeouts := {}

structure ModelTestController where
  phase : Phase := .Idle
  modelId : QString := []
  modelPath : QString := []
  modelSha256 : QByteArray := []
  fixturePath : QString := []
  requestId : QString := []
  jobId : QString := []
  backend : QString := qs "Auto"
  selectedBackend : QString := []
  actualBackend : QString := []
  runtimeVersion : QString := []
  pendingFailure : QString := []
  pendingTechnicalDetails : QString := []
  loadTimeMs : Int := 0
  flashAttention : Bool := true
  cancelRequested : Bool := false
  modelLoaded : Bool := false
  inferenceSucceeded : Bool := false
  reservationHeld : Bool := false
  unloadAttempts : Nat := 0
  /-- `m_timeout`, while it is active. -/
  timeout : Option Int := none
  /-- The single-shot timers that have not fired. -/
  deferred : List (Nat × Deferred) := []
  /-- How many tests have begun. -/
  test : Nat := 0
  /-- The coordinator's flag. -/
  externalWorkerReserved : Bool := false
  /-- The audio files that are there. -/
  fixtures : List QString := []
  log : List (Option Nat × ModelTestAction) := []

/-- What the worker's client answers during a callback. -/
structure WorkerAnswers where
  /-- There is a client, and it is ready. -/
  ready : Bool := true
  /-- What `sendRequest` returns: empty when nothing was sent. -/
  requestId : QString := []
  /-- The client's signals while it sends. -/
  sending : List WorkerSignal := []
  /-- The client's signals while the worker is aborted. -/
  aborting : List WorkerSignal := []

/-- What `createFixture` finds: whether the directory can be made, a fresh name, and how the write ends. -/
structure FixtureAnswers where
  mkpath : Bool := true
  uuid : QString := []
  written : Except QString Unit := .ok ()

structure TestAnswers where
  /-- Neither the model manager nor the client is gone. -/
  services : Bool := true
  isFile : Bool := true
  workerReserved : Bool := false
  uuid : QString := []
  fixture : FixtureAnswers := {}
  ensureWorkerStarted : Bool := true
  /-- The client's signals while the worker is started. -/
  starting : List WorkerSignal := []

namespace ModelTestController

variable (d : ModelTestDependencies) (s : ModelTestController)

def isRunning : Bool := s.phase != .Idle

/-- What is said and done in the current test. -/
def emit (action : ModelTestAction) : ModelTestController :=
  { s with log := s.log ++ [(some s.test, action)] }

/-- A failure that is reported for a request and not for a test. -/
def refuse (modelId message : QString) : ModelTestController :=
  { s with log := s.log ++ [(none, .testFailed modelId message [])] }

def armTimeout (milliseconds : Int) : ModelTestController :=
  { s with timeout := some (max 1 milliseconds) }

def singleShot (call : Deferred) : ModelTestController :=
  { s with deferred := s.deferred ++ [(s.test, call)] }

/-! ## Ends -/

/-- The model is not in use any more, unless the worker still has it. -/
def releaseModel : ModelTestController :=
  if !s.modelId.isEmpty && !s.modelLoaded then s.emit (.setModelInUse s.modelId false) else s

def removeFixture : ModelTestController :=
  if !s.fixturePath.isEmpty then { s with fixtures := s.fixtures.filter (· != s.fixturePath) } else s

def releaseReservation : ModelTestController :=
  if s.reservationHeld && d.setExternalWorkerReserved then { s with externalWorkerReserved := false } else s

def clear : ModelTestController :=
  { s with
    reservationHeld := false, fixturePath := [], requestId := [], jobId := [], modelPath := [], modelSha256 := []
    modelId := [], pendingFailure := [], pendingTechnicalDetails := [], phase := .Idle }

def cleanup : ModelTestController :=
  let wasRunning := s.isRunning
  let s := ({ s with timeout := none }.releaseModel.removeFixture.releaseReservation d).clear
  if wasRunning then s.emit .runningChanged else s

def finish (success : Bool) : ModelTestController :=
  if !s.isRunning then s
  else
    let cleaned := s.cleanup d
    if success then
      cleaned.emit (.testSucceeded s.modelId s.selectedBackend s.actualBackend s.runtimeVersion s.loadTimeMs)
    else if s.cancelRequested && s.pendingFailure.isEmpty then cleaned.emit (.testCancelled s.modelId)
    else if !s.pendingFailure.isEmpty then
      cleaned.emit (.testFailed s.modelId s.pendingFailure s.pendingTechnicalDetails)
    else cleaned

def fail (message : QString) (technicalDetails : QString := []) : ModelTestController :=
  if !s.isRunning then s
  else { s with pendingFailure := message, pendingTechnicalDetails := technicalDetails }.finish d false

/-- The model is not loaded any more. -/
def forgetModel : ModelTestController :=
  let forgotten := { s with modelLoaded := false }
  if s.modelLoaded then forgotten.emit (.modelUnloaded s.modelId) else forgotten

def handleDisconnected : ModelTestController :=
  if s.isRunning then
    let s := s.forgetModel
    if !s.pendingFailure.isEmpty then s.finish d false
    else s.fail d (qs "The ASR worker stopped during the model test.")
  else s

def handleProtocolError (detail : QString) : ModelTestController :=
  if s.isRunning then
    s.forgetModel.fail d (qs "The model test lost its authenticated worker connection.") detail
  else s

def signalled : WorkerSignal → ModelTestController
  | .disconnected => s.handleDisconnected d
  | .protocolError detail => s.handleProtocolError d detail

def interrupted (signals : List WorkerSignal) : ModelTestController :=
  signals.foldl (fun s signal => s.signalled d signal) s

/-- `sendRequest`, of a client that is ready. -/
def sendRequest (type : MessageType) (jobId : QString) (payload : QCborMap) (answers : WorkerAnswers) :
    ModelTestController :=
  (s.emit (.request type jobId payload)).interrupted d answers.sending

def abortLoadedWorker (message technicalDetails : QString) (answers : WorkerAnswers) : ModelTestController :=
  if !s.isRunning then s
  else
    let s := { s with pendingFailure := message, pendingTechnicalDetails := technicalDetails }
    let s := if d.abortWorker then (s.emit .abortWorker).interrupted d answers.aborting else s
    if s.isRunning then s.forgetModel.finish d false else s

/-! ## The parts of a test -/

def beginLoadingModel (answers : WorkerAnswers) : ModelTestController :=
  if s.phase ≠ .WaitingForWorker ∨ answers.ready = false then s
  else
    let s := { s with phase := .LoadingModel }
    let s := s.sendRequest d .LoadModel [] [
      (qs "modelPath", .string s.modelPath),
      (qs "modelSha256", .string (s.modelSha256.map UInt8.toUInt16)),
      (qs "backend", .string s.backend),
      (qs "flashAttention", .bool s.flashAttention)] answers
    let s := { s with requestId := answers.requestId }
    if s.requestId.isEmpty then s.fail d (qs "The model-load request could not be sent to the ASR worker.")
    else (s.emit (.progressChanged s.modelId (1 / 20))).armTimeout d.timeouts.modelLoadMs

def transcriptionPayload (fixturePath : QString) : QCborMap :=
  [(qs "pcmPath", .string fixturePath),
    (qs "startMs", .integer 0),
    (qs "endMs", .integer 3000),
    (qs "finalChunk", .bool true),
    (qs "language", .string (qs "zh")),
    (qs "preset", .string (qs "fast")),
    (qs "tokenTimestamps", .bool false),
    (qs "vadEnabled", .bool false)]

def beginTranscription (answers : WorkerAnswers) : ModelTestController :=
  if !answers.ready then s.fail d (qs "The ASR worker disconnected before the audio test.")
  else
    let s := { s with phase := .Transcribing }
    let s := s.sendRequest d .StartTranscription s.jobId (transcriptionPayload s.fixturePath) answers
    let s := { s with requestId := answers.requestId }
    if s.requestId.isEmpty then s.fail d (qs "The audio-test request could not be sent to the ASR worker.")
    else (s.emit (.progressChanged s.modelId (1 / 5))).armTimeout d.timeouts.transcriptionMs

def beginUnload (answers : WorkerAnswers) : ModelTestController :=
  if !s.modelLoaded || !answers.ready then
    s.finish d (s.inferenceSucceeded && s.pendingFailure.isEmpty && !s.cancelRequested)
  else
    let s := { s with phase := .UnloadingModel, unloadAttempts := s.unloadAttempts + 1 }
    let s := s.sendRequest d .UnloadModel [] [] answers
    let s := { s with requestId := answers.requestId }
    if s.requestId.isEmpty then
      s.abortLoadedWorker d (qs "The tested model could not be unloaded safely.") [] answers
    else s.armTimeout d.timeouts.modelUnloadMs

def createFixture (answers : FixtureAnswers) : Except QString QString :=
  let directory := trimmed d.temporaryDirectory
  if directory.isEmpty || !answers.mkpath then .error (qs "The temporary directory is unavailable.")
  else
    match answers.written with
    | .error message => .error message
    | .ok _ => .ok (directory ++ qs "/model-test-" ++ answers.uuid ++ qs ".pcm")

/-! ## Commands -/

def normalizedBackend (backend : QString) : QString :=
  let value := trimmed backend
  if value.isEmpty then qs "Auto" else value

def setBackendPreference (backend : QString) (flashAttention : Bool) : ModelTestController :=
  if s.isRunning then s else { s with backend := normalizedBackend backend, flashAttention }

/-- What `testModel` sets once it accepts the request. -/
def accepted (modelId path : QString) (sha256 : QByteArray) (uuid : QString) : ModelTestController :=
  { s with
    test := s.test + 1
    modelId, modelPath := path, modelSha256 := sha256
    jobId := qs "model-test-" ++ uuid
    cancelRequested := false, modelLoaded := false, inferenceSucceeded := false
    pendingFailure := [], pendingTechnicalDetails := []
    selectedBackend := [], actualBackend := [], runtimeVersion := []
    loadTimeMs := 0, unloadAttempts := 0 }

def reserveWorker : ModelTestController :=
  if d.setExternalWorkerReserved then { s with externalWorkerReserved := true, reservationHeld := true } else s

def invalidateModelCache : ModelTestController :=
  if d.invalidateWorkerModelCache then s.emit .invalidateWorkerModelCache else s

/-- The end of `testModel`, with the audio file. -/
def announce (asked : TestAnswers) (answers : WorkerAnswers) : ModelTestController :=
  let s := s.emit (.setModelInUse s.modelId true)
  let s := s.emit (.testStarted s.modelId)
  let s := s.emit (.progressChanged s.modelId 0)
  if answers.ready then s.beginLoadingModel d answers
  else if !d.ensureWorkerStarted then s.fail d (qs "The native ASR worker could not be started.")
  else
    let s := s.interrupted d asked.starting
    if !asked.ensureWorkerStarted then s.fail d (qs "The native ASR worker could not be started.")
    else s.armTimeout d.timeouts.workerStartupMs

def startTest (modelId path : QString) (sha256 : QByteArray) (asked : TestAnswers) (answers : WorkerAnswers) :
    ModelTestController :=
  let s := ((s.accepted modelId path sha256 asked.uuid).reserveWorker d).invalidateModelCache d
  let s := { s with phase := .WaitingForWorker }.emit .runningChanged
  match createFixture d asked.fixture with
  | .error message => s.fail d (qs "The local model-test audio could not be created.") message
  | .ok fixturePath => { s with fixturePath, fixtures := s.fixtures ++ [fixturePath] }.announce d asked answers

def testModel (modelId : QString) (asked : TestAnswers) (answers : WorkerAnswers) : ModelTestController :=
  if s.isRunning then s.refuse modelId (qs "Wait for the current model test to finish.")
  else if !asked.services then s.refuse modelId (qs "The model test service is unavailable.")
  else
    let path := d.modelPath modelId
    if modelId.isEmpty || path.isEmpty || !asked.isFile then
      s.refuse modelId (qs "Install this model before testing it.")
    else
      let expectedSha256 := d.expectedSha256 modelId
      if expectedSha256.length ≠ 64 then s.refuse modelId (qs "This model does not have a trusted SHA-256.")
      else if d.workerReserved && asked.workerReserved then
        s.refuse modelId (qs "Wait for the active transcription job to finish.")
      else s.startTest d modelId path expectedSha256 asked answers

def cancel (answers : WorkerAnswers) : ModelTestController :=
  if !s.isRunning || s.cancelRequested then s
  else
    let s := { s with cancelRequested := true }.emit .cancelAccepted
    if s.phase = .WaitingForWorker then s.finish d false
    else if s.phase = .Transcribing ∧ answers.ready = true then
      (s.sendRequest d .CancelJob s.jobId [] answers).armTimeout d.timeouts.modelUnloadMs
    else s

/-! ## Signals and timers -/

def workerErrorMessage (envelope : Envelope) : QString :=
  let message := (envelope.payload.value (qs "message")).toText
  if message.isEmpty then qs "The ASR worker rejected the model test." else message

def handleError (envelope : Envelope) (answers : WorkerAnswers) : ModelTestController :=
  let message := workerErrorMessage envelope
  let details := (envelope.payload.value (qs "technicalDetails")).toText
  if s.phase = .UnloadingModel then
    if s.unloadAttempts < 3 then s.singleShot .beginUnload
    else
      s.abortLoadedWorker d (qs "The model test finished, but the worker could not unload the model.")
        (message ++ if details.isEmpty then [] else 0x20 :: 0x2014 :: 0x20 :: details) answers
  else
    let s := { s with pendingFailure := message, pendingTechnicalDetails := details }
    if s.modelLoaded then s.singleShot .beginUnload else s.fail d message details

def handleModelLoaded (payload : QCborMap) : ModelTestController :=
  let selectedBackend := (payload.value (qs "selectedBackend")).toTextOr s.backend
  let actualBackend := (payload.value (qs "actualBackend")).toTextOr selectedBackend
  let runtimeVersion := (payload.value (qs "runtimeVersion")).toText
  let loadTimeMs := (payload.value (qs "loadTimeMs")).toInteger
  let s := { s with modelLoaded := true, selectedBackend, actualBackend, runtimeVersion, loadTimeMs }
  let s := s.emit (.modelLoaded s.modelId selectedBackend actualBackend runtimeVersion loadTimeMs)
  s.singleShot (if s.cancelRequested then .beginUnload else .beginTranscription)

def handleProgress (payload : QCborMap) : ModelTestController :=
  let workerProgress := max 0 (min (payload.value (qs "progress")).toInteger 100)
  s.emit (.progressChanged s.modelId (1 / 5 + workerProgress * (3 / 400)))

def handleEnvelope (envelope : Envelope) (answers : WorkerAnswers) : ModelTestController :=
  if !s.isRunning || envelope.requestId != s.requestId then s
  else if envelope.type = .Error then s.handleError d envelope answers
  else
    match s.phase, envelope.type with
    | .LoadingModel, .ModelLoaded => s.handleModelLoaded envelope.payload
    | .Transcribing, .Progress => if envelope.jobId ≠ s.jobId then s else s.handleProgress envelope.payload
    | .Transcribing, .JobCancelled =>
      if envelope.jobId ≠ s.jobId then s else { s with cancelRequested := true }.singleShot .beginUnload
    | .Transcribing, .TranscriptionCompleted =>
      if envelope.jobId ≠ s.jobId then s
      else ({ s with inferenceSucceeded := true }.emit (.progressChanged s.modelId (19 / 20))).singleShot .beginUnload
    | .UnloadingModel, .UnloadModel =>
      let s := { s with modelLoaded := false }
      let s := s.emit (.modelUnloaded s.modelId)
      let s := s.emit (.progressChanged s.modelId 1)
      s.finish d (s.inferenceSucceeded && s.pendingFailure.isEmpty && !s.cancelRequested)
    | _, _ => s

def handleTimeout (answers : WorkerAnswers) : ModelTestController :=
  if !s.isRunning then s
  else
    let s :=
      if s.phase = .Transcribing ∧ answers.ready = true then s.sendRequest d .CancelJob s.jobId [] answers else s
    s.abortLoadedWorker d (qs "The model test timed out.") [] answers

/-- A single-shot timer is gone once it has fired. -/
def fired (index : Nat) : ModelTestController :=
  { s with deferred := s.deferred.eraseIdx index }

def runDeferred (call : Deferred) (answers : WorkerAnswers) : ModelTestController :=
  match call with
  | .beginTranscription => s.beginTranscription d answers
  | .beginUnload => s.beginUnload d answers

end ModelTestController

/-! ## The event loop -/

inductive ModelTestCallback where
  | setBackendPreference (backend : QString) (flashAttention : Bool)
  | testModel (modelId : QString) (asked : TestAnswers)
  | cancel
  | ready
  | signal (signal : WorkerSignal)
  | envelope (envelope : Envelope)
  | timeout
  | deferred (index : Nat)

structure ModelTestEvent where
  callback : ModelTestCallback
  answers : WorkerAnswers := {}

/-- One callback.  A timer that is not active does not fire. -/
def ModelTestController.step (d : ModelTestDependencies) (s : ModelTestController) (event : ModelTestEvent) :
    ModelTestController :=
  match event.callback with
  | .setBackendPreference backend flashAttention => s.setBackendPreference backend flashAttention
  | .testModel modelId asked => s.testModel d modelId asked event.answers
  | .cancel => s.cancel d event.answers
  | .ready => if s.phase = .WaitingForWorker then s.beginLoadingModel d event.answers else s
  | .signal signal => s.signalled d signal
  | .envelope envelope => s.handleEnvelope d envelope event.answers
  | .timeout => if s.timeout.isNone then s else { s with timeout := none }.handleTimeout d event.answers
  | .deferred index =>
    match s.deferred[index]? with
    | none => s
    | some entry => (s.fired index).runDeferred d entry.2 event.answers

end ModelTest

end BreezeDesk
