/-
  The envelope of every message between two processes: `Protocol.h`.

  An envelope is a CBOR map with seven fields, each of one type.  `Envelope.fromCbor` refuses a map that
  misses one or has an unknown message type; what `toCbor` writes it reads back
  (`fromCbor_toCbor`).

  A `ProtocolError` whose code is `None` is no error, and is `none` here.
-/
import BreezeDesk.Core.Values

namespace BreezeDesk.Ipc

def kProtocolVersion : Int := 2

def kFramePrefixSize : Nat := 4

def kMaximumMessageSize : Nat := 16 * 1024 * 1024

inductive MessageType where
  | Hello | HelloAck | GetCapabilities | Capabilities | LoadModel | ModelLoaded | UnloadModel
  | AnalyzeSpeech | SpeechAnalysisCompleted | StartTranscription | Progress | PartialSegment
  | ChunkCompleted | TranscriptionCompleted | CancelJob | JobCancelled | Error | Ping | Pong | Shutdown
  | ActivateApplication | ActivationAccepted | ApplicationCommand | ApplicationCommandResult
  deriving DecidableEq, Repr

inductive ProtocolErrorCode where
  | FrameTooLarge | InvalidFrameLength | InvalidCbor | InvalidEnvelope | UnsupportedMessage
  | ProtocolMismatch | AuthenticationFailed | HandshakeRequired | HeartbeatTimeout | SocketError
  deriving DecidableEq, Repr

structure ProtocolError where
  code : ProtocolErrorCode
  detail : QString
  deriving DecidableEq, Repr

structure Envelope where
  protocolVersion : Int := kProtocolVersion
  type : MessageType := .Error
  requestId : QString := []
  jobId : QString := []
  workerVersion : QString := []
  sessionToken : QByteArray := []
  payload : QCborMap := []

/-- `kMessageEntries`. -/
def kMessageEntries : List (MessageType × QString) :=
  [(.Hello, qs "Hello"), (.HelloAck, qs "HelloAck"), (.GetCapabilities, qs "GetCapabilities"),
    (.Capabilities, qs "Capabilities"), (.LoadModel, qs "LoadModel"), (.ModelLoaded, qs "ModelLoaded"),
    (.UnloadModel, qs "UnloadModel"), (.AnalyzeSpeech, qs "AnalyzeSpeech"),
    (.SpeechAnalysisCompleted, qs "SpeechAnalysisCompleted"),
    (.StartTranscription, qs "StartTranscription"), (.Progress, qs "Progress"),
    (.PartialSegment, qs "PartialSegment"), (.ChunkCompleted, qs "ChunkCompleted"),
    (.TranscriptionCompleted, qs "TranscriptionCompleted"), (.CancelJob, qs "CancelJob"),
    (.JobCancelled, qs "JobCancelled"), (.Error, qs "Error"), (.Ping, qs "Ping"), (.Pong, qs "Pong"),
    (.Shutdown, qs "Shutdown"), (.ActivateApplication, qs "ActivateApplication"),
    (.ActivationAccepted, qs "ActivationAccepted"), (.ApplicationCommand, qs "ApplicationCommand"),
    (.ApplicationCommandResult, qs "ApplicationCommandResult")]

def messageTypeName (type : MessageType) : QString :=
  match kMessageEntries.find? fun entry => entry.1 == type with
  | some entry => entry.2
  | none => qs "Error"

def messageTypeFromName (name : QString) : Option MessageType :=
  (kMessageEntries.find? fun entry => entry.2 == name).map (·.1)

theorem messageTypeFromName_messageTypeName (type : MessageType) :
    messageTypeFromName (messageTypeName type) = some type := by
  cases type <;> decide

namespace Envelope

def toCbor (envelope : Envelope) : QCborMap :=
  [(qs "protocolVersion", .integer envelope.protocolVersion),
    (qs "type", .string (messageTypeName envelope.type)),
    (qs "requestId", .string envelope.requestId),
    (qs "jobId", .string envelope.jobId),
    (qs "workerVersion", .string envelope.workerVersion),
    (qs "sessionToken", .byteArray envelope.sessionToken),
    (qs "payload", .map envelope.payload)]

def fieldsError : ProtocolError :=
  ⟨.InvalidEnvelope, qs "Envelope contains missing or incorrectly typed fields"⟩

def fromCbor (map : QCborMap) : Except ProtocolError Envelope :=
  match map.value (qs "protocolVersion"), map.value (qs "type"), map.value (qs "requestId"),
      map.value (qs "jobId"), map.value (qs "workerVersion"), map.value (qs "sessionToken"),
      map.value (qs "payload") with
  | .integer protocolVersion, .string typeName, .string requestId, .string jobId, .string workerVersion,
      .byteArray sessionToken, .map payload =>
    match messageTypeFromName typeName with
    | some type =>
      .ok { protocolVersion, type, requestId, jobId, workerVersion, sessionToken, payload }
    | none => .error ⟨.UnsupportedMessage, qs "Unknown message type: " ++ typeName⟩
  | _, _, _, _, _, _, _ => .error fieldsError

/-- **An envelope** is read back as it was written. -/
theorem fromCbor_toCbor (envelope : Envelope) : fromCbor envelope.toCbor = .ok envelope := by
  show (match messageTypeFromName (messageTypeName envelope.type) with | some type => _ | none => _) = _
  rw [messageTypeFromName_messageTypeName]

end Envelope

end BreezeDesk.Ipc
