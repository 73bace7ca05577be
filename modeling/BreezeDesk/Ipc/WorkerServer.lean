/-
  `WorkerServer` — the worker's end of the connections.

  Every connection has an id, a decoder and a flag that says whether its `Hello` has been accepted.  A read
  decodes what has arrived and walks over the envelopes; the walk ends at the first one that is refused,
  and the connection is dropped.

  Every operation is about one connection (`ConcernsOnly`): the others keep their state.
-/
import BreezeDesk.Ipc.FrameCodec
import Mathlib.Logic.Function.Basic

namespace BreezeDesk.Ipc

variable (cbor : QCborCodec)

/-! ## The server -/

structure ClientState where
  decoder : FrameDecoder := {}
  ready : Bool := false

structure WorkerServer where
  clients : Nat → Option ClientState := fun _ => none
  sessionToken : QByteArray
  nextClientId : Nat := 1

/-- What the server does that others can see: its signals, and the bytes it writes. -/
inductive ServerOutput where
  | clientReady (clientId : Nat)
  | clientDisconnected (clientId : Nat)
  | envelopeReceived (clientId : Nat) (envelope : Envelope)
  | protocolError (clientId : Nat) (error : ProtocolError)
  | written (clientId : Nat) (bytes : QByteArray)

namespace WorkerServer

/-- The entry of a connection; its state is shared, so that what is changed in it is changed here. -/
def setClient (server : WorkerServer) (clientId : Nat) (state : Option ClientState) : WorkerServer :=
  { server with clients := Function.update server.clients clientId state }

/-- `send`.  The socket of a connection that is not dropped takes the bytes. -/
def send (server : WorkerServer) (clientId : Nat) (envelope : Envelope) : List ServerOutput :=
  match server.clients clientId with
  | none => []
  | some _ =>
    match FrameCodec.encode cbor { envelope with
        protocolVersion := kProtocolVersion
        sessionToken := server.sessionToken } with
    | .ok bytes => [.written clientId bytes]
    | .error error => [.protocolError clientId error]

/-- `disconnectClient`, with the error that is the reason, if there is one. -/
def disconnectClient (server : WorkerServer) (clientId : Nat) (error : Option ProtocolError) :
    WorkerServer × List ServerOutput :=
  match server.clients clientId with
  | none => (server, [])
  | some _ =>
    (server.setClient clientId none,
      (error.map (ServerOutput.protocolError clientId)).toList ++ [.clientDisconnected clientId])

def mismatchError (version : Int) : ProtocolError :=
  ⟨.ProtocolMismatch, qs ("Worker protocol " ++ toString kProtocolVersion ++ " cannot accept protocol " ++
    toString version)⟩

def tokenError : ProtocolError := ⟨.AuthenticationFailed, qs "Session token mismatch"⟩

def helloError : ProtocolError := ⟨.HandshakeRequired, qs "Hello must be the first message"⟩

def timeoutError : ProtocolError := ⟨.HeartbeatTimeout, qs "Client heartbeat timed out"⟩

def helloReply (envelope : Envelope) : Envelope :=
  { type := .HelloAck, requestId := envelope.requestId,
    payload := [(qs "protocolVersion", .integer kProtocolVersion)] }

def pongReply (envelope : Envelope) : Envelope := { type := .Pong, requestId := envelope.requestId }

/-- `processEnvelope`: whether the walk goes on, the server after it, and what was done. -/
def processEnvelope (server : WorkerServer) (clientId : Nat) (envelope : Envelope) :
    Bool × WorkerServer × List ServerOutput :=
  match server.clients clientId with
  | none => (false, server, [])
  | some state =>
    if envelope.protocolVersion ≠ kProtocolVersion then
      (false, server.disconnectClient clientId (some (mismatchError envelope.protocolVersion)))
    else if envelope.sessionToken ≠ server.sessionToken then
      (false, server.disconnectClient clientId (some tokenError))
    else if !state.ready then
      if envelope.type ≠ .Hello then (false, server.disconnectClient clientId (some helloError))
      else
        let greeted := server.setClient clientId (some { state with ready := true })
        (true, greeted, greeted.send cbor clientId (helloReply envelope) ++ [.clientReady clientId])
    else if envelope.type = .Ping then (true, server, server.send cbor clientId (pongReply envelope))
    else (true, server, [.envelopeReceived clientId envelope])

/-- The walk over the envelopes of one read. -/
def processEnvelopes (server : WorkerServer) (clientId : Nat) :
    List Envelope → WorkerServer × List ServerOutput
  | [] => (server, [])
  | envelope :: envelopes =>
    match server.processEnvelope cbor clientId envelope with
    | (true, server, outputs) =>
      let others := processEnvelopes server clientId envelopes
      (others.1, outputs ++ others.2)
    | (false, server, outputs) => (server, outputs)

/-- `readClient`. -/
def readClient (server : WorkerServer) (clientId : Nat) (bytes : QByteArray) :
    WorkerServer × List ServerOutput :=
  match server.clients clientId with
  | none => (server, [])
  | some state =>
    let parsed := state.decoder.append cbor bytes
    let server := server.setClient clientId (some { state with decoder := parsed.2 })
    match parsed.1.error with
    | some error => server.disconnectClient clientId (some error)
    | none => server.processEnvelopes cbor clientId parsed.1.envelopes

/-- `acceptConnections`, one connection of it. -/
def acceptConnection (server : WorkerServer) : WorkerServer :=
  { server.setClient server.nextClientId (some {}) with nextClientId := server.nextClientId + 1 }

end WorkerServer

/-- What the event loop delivers. -/
inductive ServerEvent where
  | newConnection
  | readyRead (clientId : Nat) (bytes : QByteArray)
  | disconnected (clientId : Nat)
  | errorOccurred (clientId : Nat) (detail : QString)
  | heartbeatTimeout (clientId : Nat)

namespace WorkerServer

def handle (server : WorkerServer) : ServerEvent → WorkerServer × List ServerOutput
  | .newConnection => (server.acceptConnection, [])
  | .readyRead clientId bytes => server.readClient cbor clientId bytes
  | .disconnected clientId => server.disconnectClient clientId none
  | .errorOccurred clientId detail =>
    match server.clients clientId with
    | none => (server, [])
    | some _ => (server, [.protocolError clientId ⟨.SocketError, detail⟩])
  | .heartbeatTimeout clientId => server.disconnectClient clientId (some timeoutError)

end WorkerServer

/-- The server, everything it has done, and the bytes it has read from each connection. -/
structure ServerHistory where
  server : WorkerServer
  outputs : List ServerOutput := []
  heard : Nat → List QByteArray := fun _ => []

namespace ServerHistory

/-- The bytes count as read when the connection is there. -/
def hear (history : ServerHistory) : ServerEvent → Nat → List QByteArray
  | .readyRead clientId bytes =>
    match history.server.clients clientId with
    | none => history.heard
    | some _ => Function.update history.heard clientId (history.heard clientId ++ [bytes])
  | _ => history.heard

def step (history : ServerHistory) (event : ServerEvent) : ServerHistory :=
  let handled := history.server.handle cbor event
  { server := handled.1, outputs := history.outputs ++ handled.2, heard := history.hear event }

/-- A server that listens. -/
def listening (token : QByteArray) : ServerHistory := { server := { sessionToken := token } }

/-- What a connection's stream has been decoded to, read by read. -/
def decoded (history : ServerHistory) (clientId : Nat) : List FrameParseResult :=
  (({} : FrameDecoder).appendAll cbor (history.heard clientId)).1

end ServerHistory

def ServerOutput.receivedOn (clientId : Nat) : ServerOutput → Option Envelope
  | .envelopeReceived other envelope => if other = clientId then some envelope else none
  | _ => none

/-- What `envelopeReceived` has been emitted for on a connection. -/
def receivedOn (clientId : Nat) (outputs : List ServerOutput) : List Envelope :=
  outputs.filterMap (ServerOutput.receivedOn clientId)

def Correct (token : QByteArray) (envelope : Envelope) : Prop :=
  envelope.protocolVersion = kProtocolVersion ∧ envelope.sessionToken = token

instance (token : QByteArray) (envelope : Envelope) : Decidable (Correct token envelope) :=
  inferInstanceAs (Decidable (_ ∧ _))

variable {cbor} {envelope : Envelope} {clientId : Nat} {server : WorkerServer}

/-! ## What one operation does -/

/-- An operation for one connection: the others keep their state, and nothing is received on them. -/
structure ConcernsOnly (clientId : Nat) (server : WorkerServer) (done : WorkerServer × List ServerOutput) :
    Prop where
  clients : ∀ other, other ≠ clientId → done.1.clients other = server.clients other
  received : ∀ other, other ≠ clientId → receivedOn other done.2 = []
  token : done.1.sessionToken = server.sessionToken
  next : done.1.nextClientId = server.nextClientId


theorem receivedOn_append (first second : List ServerOutput) :
    receivedOn clientId (first ++ second) = receivedOn clientId first ++ receivedOn clientId second :=
  List.filterMap_append

namespace ConcernsOnly

theorem refl (outputs : List ServerOutput) (h : ∀ other, receivedOn other outputs = []) :
    ConcernsOnly clientId server (server, outputs) where
  clients _ _ := rfl
  received other _ := h other
  token := rfl
  next := rfl

theorem trans {first second : WorkerServer × List ServerOutput} (h : ConcernsOnly clientId server first)
    (h' : ConcernsOnly clientId first.1 second) :
    ConcernsOnly clientId server (second.1, first.2 ++ second.2) where
  clients other hne := (h'.clients other hne).trans (h.clients other hne)
  received other hne := by rw [receivedOn_append, h.received other hne, h'.received other hne, List.append_nil]
  token := h'.token.trans h.token
  next := h'.next.trans h.next

/-- The connection's own entry is replaced. -/
theorem update (state : Option ClientState) (outputs : List ServerOutput)
    (h : ∀ other, other ≠ clientId → receivedOn other outputs = []) :
    ConcernsOnly clientId server (server.setClient clientId state, outputs) where
  clients _ hne := Function.update_of_ne hne ..
  received := h
  token := rfl
  next := rfl

end ConcernsOnly

open WorkerServer

theorem receivedOn_send (server : WorkerServer) (other clientId : Nat) (envelope : Envelope) :
    receivedOn other (server.send cbor clientId envelope) = [] := by
  unfold send
  split
  · rfl
  · split <;> rfl

theorem receivedOn_disconnect (server : WorkerServer) (other clientId : Nat) (error : Option ProtocolError) :
    receivedOn other (server.disconnectClient clientId error).2 = [] := by
  unfold disconnectClient
  split
  · rfl
  · cases error <;> rfl

theorem disconnect_gone (server : WorkerServer) (clientId : Nat) (error : Option ProtocolError) :
    (server.disconnectClient clientId error).1.clients clientId = none := by
  unfold disconnectClient
  split
  next h => exact h
  · exact Function.update_self ..

theorem disconnect_concerns (error : Option ProtocolError) :
    ConcernsOnly clientId server (server.disconnectClient clientId error) := by
  have hreceived := receivedOn_disconnect server
  unfold disconnectClient at hreceived ⊢
  split
  · exact .refl [] fun _ => rfl
  next state h =>
    refine .update none _ fun other _ => ?_
    cases error <;> rfl

variable {state : ClientState}

/-- An envelope that may not come next ends the connection. -/
theorem processEnvelope_refused (hstate : server.clients clientId = some state)
    (h : ¬(Correct server.sessionToken envelope ∧ (state.ready = false → envelope.type = .Hello))) :
    ∃ error, server.processEnvelope cbor clientId envelope =
      (false, server.disconnectClient clientId (some error)) := by
  unfold processEnvelope
  rw [hstate]
  dsimp only
  by_cases hversion : envelope.protocolVersion = kProtocolVersion
  · by_cases htoken : envelope.sessionToken = server.sessionToken
    · have hfront : state.ready = false ∧ envelope.type ≠ .Hello := by
        by_contra hnot
        exact h ⟨⟨hversion, htoken⟩, fun hready => by_contra fun htype => hnot ⟨hready, htype⟩⟩
      refine ⟨helloError, ?_⟩
      rw [if_neg (not_not.mpr hversion), if_neg (not_not.mpr htoken), hfront.1]
      exact if_pos hfront.2
    · refine ⟨tokenError, ?_⟩
      rw [if_neg (not_not.mpr hversion), if_pos htoken]
  · exact ⟨mismatchError envelope.protocolVersion, if_pos hversion⟩

theorem processEnvelope_correct (hstate : server.clients clientId = some state)
    (hcorrect : Correct server.sessionToken envelope) (htype : state.ready = false → envelope.type = .Hello) :
    ∃ outputs, server.processEnvelope cbor clientId envelope =
        (true, server.setClient clientId (some { state with ready := true }), outputs) ∧
      (∀ other, receivedOn other outputs =
        if other = clientId ∧ state.ready = true ∧ envelope.type ≠ .Ping then [envelope] else []) := by
  unfold processEnvelope
  rw [hstate]
  dsimp only
  rw [if_neg (not_not.mpr hcorrect.1), if_neg (not_not.mpr hcorrect.2)]
  cases hready : state.ready with
  | false =>
    refine ⟨_, (if_neg (not_not.mpr (htype hready))).trans rfl, fun other => ?_⟩
    rw [receivedOn_append, receivedOn_send, if_neg (by rintro ⟨-, h, -⟩; cases h)]
    rfl
  | true =>
    have hsame : server.setClient clientId (some { state with ready := true }) = server := by
      have hentry : Function.update server.clients clientId (some { state with ready := true }) = server.clients := by
        rw [Function.update_eq_self_iff, hstate, ← hready]
      unfold setClient
      rw [hentry]
    rw [hsame]
    by_cases hping : envelope.type = .Ping
    · refine ⟨_, if_pos hping, fun other => ?_⟩
      rw [receivedOn_send, if_neg (by rintro ⟨-, -, h⟩; exact h hping)]
    · refine ⟨_, if_neg hping, fun other => ?_⟩
      unfold receivedOn
      by_cases hother : clientId = other
      · rw [if_pos ⟨hother.symm, rfl, hping⟩]
        exact List.filterMap_cons_some (if_pos hother)
      · rw [if_neg fun h => hother h.1.symm]
        exact List.filterMap_cons_none (if_neg hother)

end BreezeDesk.Ipc
