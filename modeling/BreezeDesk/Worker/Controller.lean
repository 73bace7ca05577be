/-
  The worker process: `WorkerController` on the main thread, `InferenceRunner` on its own.

  The controller claims the one operation there can be, hands the request to the runner, and is told by
  `operationFinished` that the runner is through with it.  A slot of the runner is the list of what it
  posts to the main thread; what the engine does in between is a parameter (`EngineRun`).  In every slot
  `operationFinished` comes last, behind the one response that ends the request (`slotReplies_split`).
-/
import BreezeDesk.Ipc.Protocol
import Mathlib.Logic.Function.Basic

namespace BreezeDesk.Worker

open Ipc

inductive AsrErrorCode where
  | None | RuntimeUnavailable | ModelFileMissing | ModelChecksumMismatch | ModelLoadFailed
  | VadModelLoadFailed | InvalidAudio | Busy | Cancelled | InferenceFailed | InvalidRequest | IoError
  deriving DecidableEq, Repr

structure AsrError where
  code : AsrErrorCode
  message : QString := []
  technicalDetails : QString := []

def errorEnvelope (requestId jobId : QString) (error : AsrError) : Envelope :=
  { type := .Error, requestId, jobId,
    payload := [(qs "code", .integer error.code.ctorIdx), (qs "message", .string error.message),
      (qs "technicalDetails", .string error.technicalDetails)] }

def cancellationEnvelope (requestId jobId : QString) : Envelope :=
  { type := .JobCancelled, requestId, jobId, payload := [(qs "partialResultsPreserved", .bool true)] }

/-! ## The operation -/

/-- `WorkerOperationState`.  The shared cancellation flags are numbered. -/
structure WorkerOperationState where
  jobId : QString := []
  cancellation : Option Nat := none
  created : Nat := 0
  requested : Nat → Bool := fun _ => false

namespace WorkerOperationState

def active (operation : WorkerOperationState) : Bool := operation.cancellation.isSome

def claim (operation : WorkerOperationState) (jobId : QString) : Option WorkerOperationState :=
  if operation.active then none
  else
    some { operation with
      jobId
      cancellation := some operation.created
      created := operation.created + 1 }

/-- `cancel`; an empty job id stands for whatever is active. -/
def cancel (operation : WorkerOperationState) (jobId : QString) : WorkerOperationState :=
  match operation.cancellation with
  | none => operation
  | some flag =>
    if jobId ≠ [] ∧ jobId ≠ operation.jobId then operation
    else { operation with requested := Function.update operation.requested flag true }

def finish (operation : WorkerOperationState) : WorkerOperationState :=
  { operation with jobId := [], cancellation := none }

end WorkerOperationState

/-! ## The runner -/

/-- A request in the runner's queue. -/
structure Task where
  request : Envelope
  cancellation : Option Nat

/-- What the engine does for a request: the error of loading the VAD model, the progress and the segments
    it reports, and the result. -/
structure EngineRun where
  loadError : Option AsrError := none
  updates : List (MessageType × QCborMap) := []
  result : Except AsrError QCborMap

/-- What is posted to the main thread. -/
inductive Post where
  | response (envelope : Envelope)
  | operationFinished

def reply (request : Envelope) (type : MessageType) (payload : QCborMap) : Envelope :=
  { type, requestId := request.requestId, jobId := request.jobId, payload }

def updateReplies (request : Envelope) (run : EngineRun) : List Envelope :=
  run.updates.filterMap fun update =>
    match update.1 with
    | .Progress | .PartialSegment => some (reply request update.1 update.2)
    | _ => none

/-- The response to an error of an inference. -/
def failureReply (request : Envelope) (error : AsrError) : Envelope :=
  if error.code = .Cancelled then cancellationEnvelope request.requestId request.jobId
  else errorEnvelope request.requestId request.jobId error

def loadModel (request : Envelope) (run : EngineRun) : List Envelope :=
  match run.result with
  | .error error => [errorEnvelope request.requestId [] error]
  | .ok payload => [{ type := .ModelLoaded, requestId := request.requestId, payload }]

def unloadModel (request : Envelope) : List Envelope :=
  [{ type := .UnloadModel, requestId := request.requestId, payload := [(qs "unloaded", .bool true)] }]

def analyzeSpeech (request : Envelope) (cancelled : Bool) (run : EngineRun) : List Envelope :=
  if cancelled then [cancellationEnvelope request.requestId request.jobId]
  else
    match run.loadError, run.result with
    | some error, _ => [errorEnvelope request.requestId request.jobId error]
    | none, .error error => updateReplies request run ++ [failureReply request error]
    | none, .ok payload => updateReplies request run ++ [reply request .SpeechAnalysisCompleted payload]

def finalChunk (request : Envelope) : Bool := (request.payload.value (qs "finalChunk")).toBool

def transcribe (request : Envelope) (cancelled : Bool) (run : EngineRun) : List Envelope :=
  if cancelled then [cancellationEnvelope request.requestId request.jobId]
  else
    match run.result with
    | .error error => updateReplies request run ++ [failureReply request error]
    | .ok payload =>
      updateReplies request run ++ reply request .ChunkCompleted payload ::
        if finalChunk request then [reply request .TranscriptionCompleted payload] else []

/-- The responses of a slot, when its cancellation has been requested before it starts or not. -/
def slotReplies (request : Envelope) (cancelled : Bool) (run : EngineRun) : List Envelope :=
  match request.type with
  | .LoadModel => loadModel request run
  | .UnloadModel => unloadModel request
  | .AnalyzeSpeech => analyzeSpeech request cancelled run
  | _ => transcribe request cancelled run

/-- `emit operationFinished()` at the end of every slot. -/
def slotPosts (request : Envelope) (cancelled : Bool) (run : EngineRun) : List Post :=
  (slotReplies request cancelled run).map .response ++ [.operationFinished]

/-! ## The controller -/

structure WorkerController where
  operation : WorkerOperationState := {}
  shutdownRequested : Bool := false
  quit : Bool := false
  workerVersion : QString := []
  capabilities : QCborMap := []

/-- What a message makes the controller do; `refused` marks the answer that the worker is busy. -/
structure Handled where
  controller : WorkerController
  replies : List Envelope := []
  tasks : List Task := []
  refused : Bool := false

namespace WorkerController

def busyError (jobId : QString) : AsrError := ⟨.Busy, qs "ASR worker is busy", jobId⟩

def invalidError (type : MessageType) : AsrError :=
  ⟨.InvalidRequest, qs "Message is not valid for the worker", messageTypeName type⟩

/-- `claimOperation`, and the request goes to the runner. -/
def claimOperation (controller : WorkerController) (envelope : Envelope) : Handled :=
  match controller.operation.claim envelope.jobId with
  | some operation =>
    { controller := { controller with operation }, tasks := [⟨envelope, operation.cancellation⟩] }
  | none =>
    { controller
      replies := [errorEnvelope envelope.requestId envelope.jobId (busyError controller.operation.jobId)]
      refused := true }

def handleEnvelope (controller : WorkerController) (envelope : Envelope) : Handled :=
  match envelope.type with
  | .GetCapabilities =>
    { controller
      replies := [{ type := .Capabilities, requestId := envelope.requestId,
                    workerVersion := controller.workerVersion, payload := controller.capabilities }] }
  | .LoadModel | .UnloadModel | .AnalyzeSpeech | .StartTranscription => controller.claimOperation envelope
  | .CancelJob =>
    { controller := { controller with operation := controller.operation.cancel envelope.jobId } }
  | .Shutdown =>
    { controller := { controller with
        operation := controller.operation.cancel []
        shutdownRequested := true
        quit := controller.quit || !controller.operation.active } }
  | type =>
    { controller, replies := [errorEnvelope envelope.requestId envelope.jobId (invalidError type)] }

/-- The slot of `operationFinished`. -/
def operationFinished (controller : WorkerController) : WorkerController :=
  { controller with
    operation := controller.operation.finish
    quit := controller.quit || controller.shutdownRequested }

end WorkerController

/-! ## What ends a request -/

/-- The requests that claim the operation. -/
def isOperation (envelope : Envelope) : Bool :=
  match envelope.type with
  | .LoadModel | .UnloadModel | .AnalyzeSpeech | .StartTranscription => true
  | _ => false

/-- The reply is the terminal one of the request. -/
def isTerminal (request answer : Envelope) : Bool :=
  answer.requestId == request.requestId &&
    match answer.type with
    | .ModelLoaded | .UnloadModel | .SpeechAnalysisCompleted | .TranscriptionCompleted | .JobCancelled
    | .Error => true
    | .ChunkCompleted => !finalChunk request
    | _ => false

variable {request : Envelope}

theorem mem_updateReplies {run : EngineRun} {answer : Envelope} (h : answer ∈ updateReplies request run) :
    answer.requestId = request.requestId ∧ isTerminal request answer = false := by
  obtain ⟨update, -, hupdate⟩ := List.mem_filterMap.mp h
  have hreply : ∀ type, (type = .Progress ∨ type = .PartialSegment) →
      isTerminal request (reply request type update.2) = false := by
    rintro type (rfl | rfl) <;> exact Bool.and_false _
  cases htype : update.1 <;> rw [htype] at hupdate <;> cases hupdate
  · exact ⟨rfl, hreply _ (Or.inl rfl)⟩
  · exact ⟨rfl, hreply _ (Or.inr rfl)⟩

/-- The responses of a slot: some that do not end the request, and the last one. -/
structure SlotSplit (request : Envelope) (replies : List Envelope) : Prop where
  split : ∃ updates last, replies = updates ++ [last] ∧ ∀ answer ∈ updates, isTerminal request answer = false
  requestId : ∀ answer ∈ replies, answer.requestId = request.requestId

theorem slotSplit_last {updates : List Envelope} {last : Envelope} (hid : last.requestId = request.requestId)
    (hupdates : ∀ answer ∈ updates, answer.requestId = request.requestId ∧ isTerminal request answer = false) :
    SlotSplit request (updates ++ [last]) := by
  refine ⟨⟨updates, last, rfl, fun answer hmem => (hupdates answer hmem).2⟩, fun answer hmem => ?_⟩
  rcases List.mem_append.mp hmem with hmem | hmem
  · exact (hupdates answer hmem).1
  · rw [List.mem_singleton.mp hmem]
    exact hid

theorem slotSplit_one {last : Envelope} (hid : last.requestId = request.requestId) :
    SlotSplit request [last] := @slotSplit_last request [] last hid fun _ hmem => (by cases hmem)

theorem failureReply_requestId (error : AsrError) : (failureReply request error).requestId = request.requestId := by
  unfold failureReply
  split <;> rfl

theorem transcribe_split (cancelled : Bool) (run : EngineRun) :
    SlotSplit request (transcribe request cancelled run) := by
  unfold transcribe
  split
  · exact slotSplit_one rfl
  · split
    · exact slotSplit_last (failureReply_requestId _) fun _ hmem => mem_updateReplies hmem
    next payload _ =>
      cases hfinal : finalChunk request with
      | false => exact slotSplit_last rfl fun _ hmem => mem_updateReplies hmem
      | true =>
        -- the last chunk is reported twice; the first report does not end the request
        have hchunk : isTerminal request (reply request .ChunkCompleted payload) = false := by
          show (_ && !finalChunk request) = false
          rw [hfinal]
          exact Bool.and_false _
        have hsplit : SlotSplit request ((updateReplies request run ++ [reply request .ChunkCompleted payload]) ++
            [reply request .TranscriptionCompleted payload]) := by
          refine slotSplit_last rfl fun answer hmem => ?_
          rcases List.mem_append.mp hmem with hmem | hmem
          · exact mem_updateReplies hmem
          · rw [List.mem_singleton.mp hmem]
            exact ⟨rfl, hchunk⟩
        rw [List.append_assoc] at hsplit
        exact hsplit

/-- **Every slot ends the request once**, with its last response. -/
theorem slotReplies_split (request : Envelope) (cancelled : Bool) (run : EngineRun) :
    SlotSplit request (slotReplies request cancelled run) := by
  unfold slotReplies
  split
  · unfold loadModel
    split <;> exact slotSplit_one rfl
  · exact slotSplit_one rfl
  · unfold analyzeSpeech
    split
    · exact slotSplit_one rfl
    · split
      · exact slotSplit_one rfl
      · exact slotSplit_last (failureReply_requestId _) fun _ hmem => mem_updateReplies hmem
      · exact slotSplit_last rfl fun _ hmem => mem_updateReplies hmem
  · exact transcribe_split cancelled run

end BreezeDesk.Worker
