/-
  A command on its way — `ApplicationCommandClient::forward` against `SingleInstanceGuard`.

  The system has one call of `forward` and one GUI at a time.  The GUI may start, set its handler and end
  at any time; a connection may be dropped at any time; bytes arrive in any pieces; the client may find
  that its time is up at every point where it looks at the clock.  `calls` are the calls of the handler.

  The client opens a connection only when every connection before it is spent: nothing is left on it for
  the GUI to read (`Spent`).  So there is at most one answer to come, and what the client knows fits what
  the GUI has done (`Fits`).

  * `invariant_step` — every event keeps that;
  * `executed_at_most_once` — so a command is handled at most once, and the client's report is right.
-/
import BreezeDesk.Ipc.ApplicationCommand
import BreezeDesk.Library.Runs
import Mathlib.Logic.Function.Basic

namespace BreezeDesk.Ipc

/-! ## The client -/

def maximumUnavailableAttempts : Nat := 3

def unavailableGuiMessage : QString := qs "No running BreezeDesk GUI was found."

def unconfirmedMessage (detail : QString) : QString :=
  qs "The GUI command may have been received, but its result could not be confirmed: " ++ detail

inductive ForwardPhase where
  /-- in the outer loop, without a connection -/
  | trying
  /-- in the inner loop -/
  | waiting (requestId : QString) (decoder : FrameDecoder)
  | done (result : ApplicationCommandForwardResult)

structure ForwardClient where
  phase : ForwardPhase := .trying
  connectedAtLeastOnce : Bool := false
  primaryExplicitlyNotReady : Bool := false
  unavailableAttempts : Nat := 0

namespace ForwardClient

/-- `forward`, up to the loop. -/
def start (applicationId : QString) (arguments : QStringList) : ForwardClient :=
  if (trimmed applicationId).isEmpty then
    { phase := .done (failed .ProtocolError (qs "Application ID must not be empty.")) }
  else
    match argumentsAreValid arguments with
    | .error message => { phase := .done (failed .ProtocolError message) }
    | .ok () => {}

/-- `waitForConnected` gives up. -/
def connectFailed (client : ForwardClient) : ForwardClient :=
  { client with
    unavailableAttempts := client.unavailableAttempts + 1
    phase :=
      if client.unavailableAttempts + 1 ≥ maximumUnavailableAttempts then
        .done (failed .Unavailable unavailableGuiMessage)
      else client.phase }

/-- What stands behind the outer loop. -/
def leaveLoop (client : ForwardClient) : ApplicationCommandForwardResult :=
  if client.primaryExplicitlyNotReady then
    failed .Declined (qs "The GUI did not become ready to accept commands in time.")
  else if client.connectedAtLeastOnce then
    failed .Indeterminate (qs "The GUI did not confirm the forwarded command.")
  else failed .Unavailable unavailableGuiMessage

end ForwardClient

/-! ## The system -/

/-- A connection: what is on its way in both directions, and the GUI's decoder for it. -/
structure Connection where
  requestId : QString := []
  toServer : QByteArray := []
  toClient : QByteArray := []
  decoder : FrameDecoder := {}
  /-- the GUI still has it open -/
  alive : Bool := false

/-- A reply of the handler that `main.cpp` sets: every path that does something, or has something to
    say, sets `handled`. -/
structure HandlerReply extends ApplicationCommandReply where
  quiet : handled = false → standardOutput = [] ∧ standardError = []

/-- `gui` is there when a GUI is running, and says whether its handler is set.  The client's socket is
    that of the connection opened last. -/
structure Forwarding where
  client : ForwardClient
  gui : Option Bool := none
  connections : Nat → Connection := fun _ => {}
  opened : Nat := 0
  calls : List (QStringList × ApplicationCommandReply) := []

inductive ForwardingEvent where
  | guiStarted
  | handlerSet
  /-- the GUI ends or crashes; of the bytes it has written to a connection some are kept -/
  | guiEnded (kept : Nat → Nat)
  | connectFailed
  /-- a connection is made and the command written; a failed write leaves a part of it -/
  | connected (requestId : QUuid) (failure : Option (Nat × QString))
  | replyRead (count : Nat)
  | peerGone
  | timedOut
  | commandRead (connection count : Nat) (reply : HandlerReply)
  | dropped (connection kept : Nat)

namespace SocketEffect

def bytes : SocketEffect → QByteArray
  | .written bytes => bytes
  | _ => []

def call : SocketEffect → Option (QStringList × ApplicationCommandReply)
  | .handlerCalled arguments reply => some (arguments, reply)
  | _ => none

def isAborted : SocketEffect → Bool
  | .aborted => true
  | _ => false

end SocketEffect

/-- The handler of a GUI, as an event has it. -/
def handlerOf (ready : Bool) (reply : ApplicationCommandReply) : Option CommandHandler :=
  if ready then some fun _ => reply else none

/-- The GUI's end is closed, and some of what it has written gets through. -/
def Connection.close (connection : Connection) (kept : Nat) : Connection :=
  { connection with alive := false, toClient := connection.toClient.take kept }

namespace Forwarding

def start (applicationId : QString) (arguments : QStringList) : Forwarding :=
  { client := .start applicationId arguments }

/-- The connection of the client's socket. -/
def current (s : Forwarding) : Connection := s.connections (s.opened - 1)

/-- What the client has reported. -/
def report (s : Forwarding) : Option ApplicationCommandForwardResult :=
  match s.client.phase with
  | .done result => some result
  | _ => none

/-- The commands that the handler has handled. -/
def handled (s : Forwarding) : List QStringList :=
  (s.calls.filter fun call => call.2.handled).map (·.1)

def setPhase (s : Forwarding) (phase : ForwardPhase) : Forwarding :=
  { s with client := { s.client with phase } }

def setConnection (s : Forwarding) (index : Nat) (connection : Connection) : Forwarding :=
  { s with connections := Function.update s.connections index connection }

variable (cbor : QCborCodec) (arguments : QStringList)

/-- From `waitForConnected` to the inner loop. -/
def connect (s : Forwarding) (requestId : QUuid) (failure : Option (Nat × QString)) : Forwarding :=
  let frame := frameBytes cbor (commandEnvelope requestId.text arguments)
  let sent := match failure with
    | none => frame
    | some (count, _) => frame.take count
  let phase : ForwardPhase := match failure with
    | none => .waiting requestId.text {}
    | some (_, detail) => .done (failed .Indeterminate (unconfirmedMessage detail))
  { s with
    client := { s.client with phase, connectedAtLeastOnce := true }
    connections := Function.update s.connections s.opened
      { requestId := requestId.text, toServer := sent, alive := true }
    opened := s.opened + 1 }

/-- The client reads some of what has arrived. -/
def readReplyBytes (s : Forwarding) (requestId : QString) (decoder : FrameDecoder) (count : Nat) : Forwarding :=
  let left := s.setConnection (s.opened - 1) { s.current with toClient := s.current.toClient.drop count }
  match readReply cbor requestId decoder (s.current.toClient.take count) with
  | .incomplete decoder => left.setPhase (.waiting requestId decoder)
  | .retryWhenReady =>
    { left with client := { left.client with phase := .trying, primaryExplicitlyNotReady := true } }
  | .result result => left.setPhase (.done result)

/-- The GUI reads some of what has arrived on a connection; `reply` is what the handler says if it is
    called. -/
def readCommandBytes (s : Forwarding) (index count : Nat) (ready : Bool) (reply : ApplicationCommandReply) :
    Forwarding :=
  let connection := s.connections index
  let read := readSocket cbor (handlerOf ready reply) connection.decoder (connection.toServer.take count)
  { s with
    calls := s.calls ++ read.2.filterMap SocketEffect.call
    connections := Function.update s.connections index
      { connection with
        toServer := connection.toServer.drop count
        toClient := connection.toClient ++ read.2.flatMap SocketEffect.bytes
        decoder := read.1
        alive := !read.2.any SocketEffect.isAborted } }

def step (s : Forwarding) : ForwardingEvent → Forwarding
  | .guiStarted =>
    match s.gui with
    | none => { s with gui := some false }
    | some _ => s
  | .handlerSet =>
    match s.gui with
    | none => s
    | some _ => { s with gui := some true }
  | .guiEnded kept => { s with gui := none, connections := fun i => (s.connections i).close (kept i) }
  | .dropped index kept => s.setConnection index ((s.connections index).close kept)
  | .commandRead index count reply =>
    match s.gui, (s.connections index).alive with
    | some ready, true => s.readCommandBytes cbor index count ready reply.toApplicationCommandReply
    | _, _ => s
  | .connectFailed =>
    match s.client.phase with
    | .trying => { s with client := s.client.connectFailed }
    | _ => s
  | .connected requestId failure =>
    match s.client.phase, s.gui with
    | .trying, some _ => s.connect cbor arguments requestId failure
    | _, _ => s
  | .replyRead count =>
    match s.client.phase with
    | .waiting requestId decoder => s.readReplyBytes cbor requestId decoder count
    | _ => s
  | .peerGone =>
    match s.client.phase, s.current.alive, s.current.toClient with
    | .waiting _ _, false, [] => s.setPhase (.done (failed .Indeterminate
        (qs "The GUI disconnected before confirming the forwarded command.")))
    | _, _, _ => s
  | .timedOut =>
    match s.client.phase with
    | .trying => s.setPhase (.done s.client.leaveLoop)
    | .waiting _ _ => s.setPhase (.done (failed .Indeterminate
        (qs "Timed out while waiting for the GUI command result.")))
    | .done _ => s

end Forwarding

/-! ## What the codec carries -/

def ForwardingEvent.requestId? : ForwardingEvent → Option QUuid
  | .connected requestId _ => some requestId
  | _ => none

def ForwardingEvent.reply? : ForwardingEvent → Option HandlerReply
  | .commandRead _ _ reply => some reply
  | _ => none

/-- The envelopes of a run come through: the texts of the command as UTF-8 carries them, the answers as
    they are. -/
structure CarriesRun (cbor : QCborCodec) (arguments : QStringList) (events : List ForwardingEvent) : Prop where
  command : ∀ requestId ∈ events.filterMap ForwardingEvent.requestId?,
    Carries cbor (commandEnvelope requestId.text arguments)
      (commandEnvelope requestId.text (arguments.map wireText))
  refusal : ∀ requestId ∈ events.filterMap ForwardingEvent.requestId?,
    ReadsBack cbor (resultEnvelope requestId.text false (limitOutput {}))
  reply : ∀ requestId ∈ events.filterMap ForwardingEvent.requestId?,
    ∀ reply ∈ events.filterMap ForwardingEvent.reply?,
      ReadsBack cbor (resultEnvelope requestId.text true (limitOutput reply.toApplicationCommandReply))

/-! ## The invariant -/

/-- Nothing is left to read on it. -/
def Connection.Spent (connection : Connection) : Prop :=
  connection.alive = false ∨ connection.decoder = {} ∧ connection.toServer = []

/-- What the GUI has said to a command. -/
inductive Answer where
  | pending
  | refusal
  | reply (reply : HandlerReply)

/-- The frame of the answer. -/
def Answer.frame (cbor : QCborCodec) (requestId : QString) : Answer → QByteArray
  | .pending => []
  | .refusal => frameBytes cbor (resultEnvelope requestId false (limitOutput {}))
  | .reply said => frameBytes cbor (resultEnvelope requestId true (limitOutput said.toApplicationCommandReply))

def Answer.calls (arguments : QStringList) : Answer → List (QStringList × ApplicationCommandReply)
  | .reply said => [(arguments.map wireText, said.toApplicationCommandReply)]
  | _ => []

section

variable (cbor : QCborCodec) (arguments : QStringList) (events : List ForwardingEvent)

/-- The requests and the replies that the run has. -/
def requestIds : List QUuid := events.filterMap ForwardingEvent.requestId?

/-- The GUI's side of the connection opened last. -/
inductive Served (connection : Connection) : Answer → Prop where
  | pending (requestId : QUuid) (held : QByteArray) (hmem : requestId ∈ requestIds events)
      (hrequest : connection.requestId = requestId.text) (hdecoder : connection.decoder = { buffer := held })
      (hfront : held ++ connection.toServer <+: frameBytes cbor (commandEnvelope requestId.text arguments)) :
      Served connection .pending
  | refusal (hspent : connection.Spent) : Served connection .refusal
  | reply (reply : HandlerReply) (hmem : reply ∈ events.filterMap ForwardingEvent.reply?)
      (hspent : connection.Spent) : Served connection (.reply reply)

/-- The client's side. -/
def Fits (connection : Connection) (answer : Answer) : ForwardPhase → Prop
  | .trying => answer = .refusal ∧ argumentsAreValid arguments = .ok ()
  | .waiting requestId decoder => argumentsAreValid arguments = .ok () ∧
      (∃ id ∈ requestIds events, requestId = id.text) ∧ requestId = connection.requestId ∧
        ∃ heard, decoder = { buffer := heard } ∧
          heard ++ connection.toClient <+: answer.frame cbor connection.requestId
  | .done result =>
      (result.status = .Completed → ∃ reply : HandlerReply, answer = .reply reply ∧ reply.handled = true) ∧
        (result.canExecuteLocally = true →
          answer = .refusal ∨ ∃ reply : HandlerReply, answer = .reply reply ∧ reply.handled = false)

/-- All but the last connection are spent, and what the client knows fits what the GUI has done. -/
structure InAgreement (s : Forwarding) (answer : Answer) : Prop where
  spent : ∀ index, index ≠ s.opened - 1 → (s.connections index).Spent
  served : Served cbor arguments events s.current answer
  fits : Fits cbor arguments events s.current answer s.client.phase
  calls : s.calls = answer.calls arguments
  valid : answer = .pending → argumentsAreValid arguments = .ok ()

def Invariant (s : Forwarding) : Prop := ∃ answer, InAgreement cbor arguments events s answer

end

/-! ## What one read does -/

variable {cbor : QCborCodec} {arguments : QStringList} {events : List ForwardingEvent}

theorem append_nil : ({} : FrameDecoder).append cbor [] = ({}, {}) := by
  have hopen : ({} : FrameDecoder).append cbor [] = _ := append_open rfl []
  rw [hopen]
  dsimp only
  rw [List.append_nil, Framing.drain_more rfl]
  rfl

/-- An envelope is written as its frame, or the connection is given up. -/
theorem writeEnvelope_eq (envelope : Envelope) :
    writeEnvelope cbor envelope = [.written (frameBytes cbor envelope)] ∨
      writeEnvelope cbor envelope = [.aborted] := by
  unfold writeEnvelope frameBytes
  cases FrameCodec.encode cbor envelope with
  | ok frame => exact Or.inl rfl
  | error error => exact Or.inr rfl

/-- The command as it has arrived is answered. -/
theorem answerEnvelope_command (hvalid : argumentsAreValid arguments = .ok ()) (requestId : QUuid)
    (handler : Option CommandHandler) :
    answerEnvelope cbor handler (commandEnvelope requestId.text (arguments.map wireText)) =
      match handler with
      | none => writeEnvelope cbor (resultEnvelope requestId.text false (limitOutput {}))
      | some handler => .handlerCalled (arguments.map wireText) (handler (arguments.map wireText)) ::
          writeEnvelope cbor
            (resultEnvelope requestId.text true (limitOutput (handler (arguments.map wireText)))) := by
  have hne : requestId.text ≠ [] := fun h => by
    have := requestId.length_text
    rw [h] at this
    cases this
  unfold answerEnvelope
  rw [if_neg (by rintro (h | h); exacts [h rfl, hne (List.isEmpty_iff.mp h)]),
    decodeCommandArguments_command requestId.text hvalid]
  rfl

/-- The answer to a command. -/
def answerOf (ready : Bool) (reply : HandlerReply) : Answer := if ready then .reply reply else .refusal

theorem answerEnvelope_answerOf (hvalid : argumentsAreValid arguments = .ok ()) (requestId : QUuid)
    (ready : Bool) (reply : HandlerReply) :
    let effects := answerEnvelope cbor (handlerOf ready reply.toApplicationCommandReply)
      (commandEnvelope requestId.text (arguments.map wireText))
    effects.filterMap SocketEffect.call = (answerOf ready reply).calls arguments ∧
      effects.flatMap SocketEffect.bytes <+: (answerOf ready reply).frame cbor requestId.text := by
  dsimp only
  rw [answerEnvelope_command hvalid]
  cases ready with
  | false =>
    show List.filterMap _ (writeEnvelope ..) = [] ∧ List.flatMap _ (writeEnvelope ..) <+: frameBytes ..
    rcases @writeEnvelope_eq cbor (resultEnvelope requestId.text false (limitOutput {})) with h | h <;> rw [h]
    · exact ⟨rfl, by simp [SocketEffect.bytes]⟩
    · exact ⟨rfl, List.nil_prefix⟩
  | true =>
    show List.filterMap _ (_ :: writeEnvelope ..) = [_] ∧ List.flatMap _ (_ :: writeEnvelope ..) <+: frameBytes ..
    rcases @writeEnvelope_eq cbor (resultEnvelope requestId.text true
      (limitOutput reply.toApplicationCommandReply)) with h | h <;> rw [h]
    · exact ⟨rfl, by simp [SocketEffect.bytes]⟩
    · exact ⟨rfl, List.nil_prefix⟩

/-- A read on a connection whose command is not answered: it is not complete, or it is answered. -/
theorem readSocket_pending {held bytes : QByteArray} {requestId : QUuid}
    (hcarries : Carries cbor (commandEnvelope requestId.text arguments)
      (commandEnvelope requestId.text (arguments.map wireText)))
    (hfront : held ++ bytes <+: frameBytes cbor (commandEnvelope requestId.text arguments))
    (handler : Option CommandHandler) :
    readSocket cbor handler { buffer := held } bytes = ({ buffer := held ++ bytes }, []) ∨
      held ++ bytes = frameBytes cbor (commandEnvelope requestId.text arguments) ∧
        readSocket cbor handler { buffer := held } bytes =
          ({}, answerEnvelope cbor handler (commandEnvelope requestId.text (arguments.map wireText))) := by
  unfold readSocket
  rcases append_front hcarries hfront with happend | ⟨hwhole, happend⟩
  · rw [happend]
    exact Or.inl rfl
  · rw [happend]
    exact Or.inr ⟨hwhole, rfl⟩

theorem readSocket_nothing (handler : Option CommandHandler) : readSocket cbor handler {} [] = ({}, []) := by
  unfold readSocket
  rw [append_nil]

/-- A read of the client while nothing has come. -/
theorem readReply_nothing (requestId : QString) : readReply cbor requestId {} [] = .incomplete {} := by
  unfold readReply
  rw [append_nil]

/-- What the client makes of a read of an answer: it is not complete, or it says what has been done. -/
theorem readReply_answer {held bytes : QByteArray} {requestId : QString} {ready : Bool}
    {reply : ApplicationCommandReply} (hback : ReadsBack cbor (resultEnvelope requestId ready (limitOutput reply)))
    (hfront : held ++ bytes <+: frameBytes cbor (resultEnvelope requestId ready (limitOutput reply))) :
    readReply cbor requestId { buffer := held } bytes = .incomplete { buffer := held ++ bytes } ∨
      readReply cbor requestId { buffer := held } bytes =
        if ready then
          .result (resultOf { limitOutput reply with exitCode := max 0 (min (limitOutput reply).exitCode 255) })
        else .retryWhenReady := by
  unfold readReply
  rcases append_front hback hfront with happend | ⟨-, happend⟩
  · rw [happend]
    exact Or.inl rfl
  · rw [happend]
    dsimp only
    rw [commandReply_result]
    exact Or.inr (by cases ready <;> rfl)

/-- The output limit does not turn a refusal into a success. -/
theorem handled_limitOutput (reply : HandlerReply) :
    (limitOutput reply.toApplicationCommandReply).handled = reply.handled := by
  unfold limitOutput
  split
  next hlong =>
    cases hhandled : reply.handled with
    | true => rfl
    | false =>
      obtain ⟨hout, herr⟩ := reply.quiet hhandled
      rw [hout, herr] at hlong
      exact absurd hlong (by decide)
  · rfl

/-! ## What one event keeps -/

variable {s : Forwarding} {answer : Answer} {connection : Connection}

theorem setConnection_of_ne {index other : Nat} (h : other ≠ index) (connection : Connection) :
    (s.setConnection index connection).connections other = s.connections other := Function.update_of_ne h ..

theorem spent_close (kept : Nat) : (connection.close kept).Spent := Or.inl rfl

theorem served_close (h : Served cbor arguments events connection answer) (kept : Nat) :
    Served cbor arguments events (connection.close kept) answer := by
  cases h with
  | pending requestId held hmem hrequest hdecoder hfront =>
    exact .pending requestId held hmem hrequest hdecoder hfront
  | refusal hspent => exact .refusal (spent_close kept)
  | reply reply hmem hspent => exact .reply reply hmem (spent_close kept)

theorem fits_close {phase : ForwardPhase} (h : Fits cbor arguments events connection answer phase) (kept : Nat) :
    Fits cbor arguments events (connection.close kept) answer phase := by
  cases phase with
  | trying => exact h
  | done result => exact h
  | waiting requestId decoder =>
    obtain ⟨hvalid, hid, hrequest, heard, hdecoder, hfront⟩ := h
    refine ⟨hvalid, hid, hrequest, heard, hdecoder, List.IsPrefix.trans ?_ hfront⟩
    exact (List.prefix_append_right_inj heard).mpr ( List.take_prefix kept connection.toClient)

theorem agreement_guiEnded (h : InAgreement cbor arguments events s answer) (kept : Nat → Nat) :
    InAgreement cbor arguments events
      { s with gui := none, connections := fun i => (s.connections i).close (kept i) } answer where
  spent index _ := spent_close (kept index)
  served := served_close h.served _
  fits := fits_close h.fits _
  calls := h.calls
  valid := h.valid

/-- A change of a connection that is not the last. -/
theorem agreement_setConnection {index : Nat} (h : InAgreement cbor arguments events s answer)
    (hindex : index ≠ s.opened - 1) (hspent : connection.Spent) :
    InAgreement cbor arguments events (s.setConnection index connection) answer := by
  have hcurrent : (s.setConnection index connection).current = s.current :=
    setConnection_of_ne (Ne.symm hindex) connection
  refine ⟨fun other hother => ?_, hcurrent ▸ h.served, ?_, h.calls, h.valid⟩
  · by_cases hsame : other = index
    · subst hsame
      rw [show (s.setConnection other connection).connections other = connection from Function.update_self ..]
      exact hspent
    · rw [setConnection_of_ne hsame]
      exact h.spent other hother
  · show Fits cbor arguments events (s.setConnection index connection).current answer s.client.phase
    rw [hcurrent]
    exact h.fits

/-- A change of the last connection, of what the client does, and of the calls. -/
theorem agreement_replace {client : ForwardClient} {calls : List (QStringList × ApplicationCommandReply)}
    (hspent : ∀ index, index ≠ s.opened - 1 → (s.connections index).Spent)
    (hserved : Served cbor arguments events connection answer)
    (hfits : Fits cbor arguments events connection answer client.phase)
    (hcalls : calls = answer.calls arguments) (hvalid : answer = .pending → argumentsAreValid arguments = .ok ()) :
    InAgreement cbor arguments events
      { s with client, calls, connections := Function.update s.connections (s.opened - 1) connection } answer := by
  have hcurrent : Function.update s.connections (s.opened - 1) connection (s.opened - 1) = connection :=
    Function.update_self ..
  refine ⟨fun index hindex => ?_, ?_, ?_, hcalls, hvalid⟩
  · have hother : index ≠ s.opened - 1 := hindex
    show (Function.update s.connections (s.opened - 1) connection index).Spent
    rw [Function.update_of_ne hother]
    exact hspent index hother
  · show Served cbor arguments events (Function.update s.connections (s.opened - 1) connection _) answer
    rw [hcurrent]
    exact hserved
  · show Fits cbor arguments events (Function.update s.connections (s.opened - 1) connection _) answer _
    rw [hcurrent]
    exact hfits

theorem agreement_dropped (h : InAgreement cbor arguments events s answer) (index kept : Nat) :
    InAgreement cbor arguments events (s.setConnection index ((s.connections index).close kept)) answer := by
  by_cases hindex : index = s.opened - 1
  · subst hindex
    exact agreement_replace h.spent (served_close h.served kept) (fits_close h.fits kept) h.calls h.valid
  · exact agreement_setConnection h hindex (spent_close kept)

/-- Nothing comes of a read of a spent connection. -/
theorem readCommandBytes_spent {index : Nat} (hspent : (s.connections index).Spent)
    (halive : (s.connections index).alive = true) (count : Nat) (ready : Bool)
    (reply : ApplicationCommandReply) : s.readCommandBytes cbor index count ready reply = s := by
  obtain ⟨hdecoder, hsent⟩ : (s.connections index).decoder = {} ∧ (s.connections index).toServer = [] :=
    hspent.resolve_left (by rw [halive]; nofun)
  have hread : readSocket cbor (handlerOf ready reply) (s.connections index).decoder
      ((s.connections index).toServer.take count) = ({}, []) := by
    rw [hdecoder, hsent, List.take_nil, readSocket_nothing]
  have hsame : Connection.mk (s.connections index).requestId ((s.connections index).toServer.drop count)
      ((s.connections index).toClient ++ []) {} true = s.connections index := by
    rw [hsent, List.drop_nil, List.append_nil, ← hdecoder, ← hsent, ← halive]
  unfold Forwarding.readCommandBytes
  dsimp only
  rw [hread]
  show Forwarding.mk s.client s.gui (Function.update s.connections index
    (Connection.mk (s.connections index).requestId ((s.connections index).toServer.drop count)
      ((s.connections index).toClient ++ []) {} true)) s.opened (s.calls ++ []) = s
  rw [hsame, Function.update_eq_self, List.append_nil]

/-- An answer fits what the client knew before it. -/
theorem fits_answered {phase : ForwardPhase} {answered : Connection} {bytes : QByteArray}
    {requestId : QString} (h : Fits cbor arguments events connection .pending phase)
    (hconnection : connection.requestId = requestId) (hrequest : answered.requestId = connection.requestId)
    (hclient : answered.toClient = connection.toClient ++ bytes)
    (hbytes : bytes <+: answer.frame cbor requestId) :
    Fits cbor arguments events answered answer phase := by
  cases phase with
  | trying => cases h.1
  | waiting requestId decoder =>
    obtain ⟨hvalid, hid, hsame, heard, hdecoder, hfront⟩ := h
    refine ⟨hvalid, hid, hsame.trans hrequest.symm, heard, hdecoder, ?_⟩
    rw [hclient, hrequest, hconnection, ← List.append_assoc, List.prefix_nil.mp hfront]
    exact hbytes
  | done result =>
    refine ⟨fun hcompleted => ?_, fun hlocal => ?_⟩
    · obtain ⟨reply, hreply, -⟩ := h.1 hcompleted
      cases hreply
    · rcases h.2 hlocal with hrefusal | ⟨reply, hreply, -⟩
      · cases hrefusal
      · cases hreply

/-- The read that the GUI makes of a command that is not answered. -/
theorem invariant_commandRead_pending (hcodec : CarriesRun cbor arguments events)
    (h : InAgreement cbor arguments events s .pending) (count : Nat) (ready : Bool) {reply : HandlerReply}
    (hreply : reply ∈ events.filterMap ForwardingEvent.reply?) :
    Invariant cbor arguments events
      (s.readCommandBytes cbor (s.opened - 1) count ready reply.toApplicationCommandReply) := by
  have hvalid := h.valid rfl
  obtain ⟨id, held, hmem, hrequest, hdecoder, hfront⟩ := h.served
  have hread : held ++ s.current.toServer.take count <+: frameBytes cbor (commandEnvelope id.text arguments) :=
    ((List.prefix_append_right_inj held).mpr ( List.take_prefix count _)).trans hfront
  unfold Forwarding.readCommandBytes
  dsimp only
  rw [show s.connections (s.opened - 1) = s.current from rfl, hdecoder]
  rcases readSocket_pending (hcodec.command id hmem) hread (handlerOf ready reply.toApplicationCommandReply)
    with hpart | ⟨hwhole, hpart⟩ <;> rw [hpart]
  · -- the frame is not complete
    refine ⟨.pending, agreement_replace h.spent (.pending id (held ++ s.current.toServer.take count) hmem
      hrequest rfl ?_) (fits_answered h.fits hrequest rfl rfl List.nil_prefix) ?_
      fun _ => hvalid⟩
    · show held ++ s.current.toServer.take count ++ s.current.toServer.drop count <+: _
      rw [List.append_assoc, List.take_append_drop]
      exact hfront
    · show s.calls ++ [] = _
      rw [List.append_nil, h.calls]
  · obtain ⟨hcall, hbytes⟩ := @answerEnvelope_answerOf cbor arguments hvalid id ready reply
    -- nothing is left of the frame
    have hrest : s.current.toServer.drop count = [] := by
      have hlength := hfront.length_le
      rw [← hwhole, List.length_append, List.length_append, List.length_take] at hlength
      exact List.drop_eq_nil_iff.mpr (by omega)
    refine ⟨answerOf ready reply, agreement_replace h.spent ?_
      (fits_answered h.fits hrequest rfl rfl hbytes) ?_ fun _ => hvalid⟩
    · cases ready with
      | false => exact .refusal (Or.inr ⟨rfl, hrest⟩)
      | true => exact .reply reply hreply (Or.inr ⟨rfl, hrest⟩)
    · rw [h.calls, hcall]
      rfl

theorem invariant_commandRead (hcodec : CarriesRun cbor arguments events)
    (h : InAgreement cbor arguments events s answer) (index count : Nat) {reply : HandlerReply}
    (hreply : reply ∈ events.filterMap ForwardingEvent.reply?) :
    Invariant cbor arguments events (s.step cbor arguments (.commandRead index count reply)) := by
  unfold Forwarding.step
  dsimp only
  split
  next ready hgui halive =>
    by_cases hindex : index = s.opened - 1
    · subst hindex
      cases answer with
      | pending => exact invariant_commandRead_pending hcodec h count ready hreply
      | refusal =>
        cases h.served with
        | refusal hspent =>
          rw [readCommandBytes_spent hspent halive]
          exact ⟨_, h⟩
      | reply said =>
        cases h.served with
        | reply _ _ hspent =>
          rw [readCommandBytes_spent hspent halive]
          exact ⟨_, h⟩
    · rw [readCommandBytes_spent (h.spent index hindex) halive]
      exact ⟨_, h⟩
  · exact ⟨_, h⟩

/-- Only the client changes. -/
theorem agreement_client {client : ForwardClient} (h : InAgreement cbor arguments events s answer)
    (hfits : Fits cbor arguments events s.current answer client.phase) :
    InAgreement cbor arguments events { s with client } answer :=
  ⟨h.spent, h.served, hfits, h.calls, h.valid⟩

/-- A report that leaves open what the GUI has done. -/
theorem fits_open {result : ApplicationCommandForwardResult}
    (h : result.status = .Indeterminate ∨ result.status = .ProtocolError) :
    Fits cbor arguments events connection answer (.done result) := by
  refine ⟨fun hcompleted => ?_, fun hlocal => ?_⟩
  · rcases h with h | h <;> rw [h] at hcompleted <;> cases hcompleted
  · unfold ApplicationCommandForwardResult.canExecuteLocally at hlocal
    rcases h with h | h <;> rw [h] at hlocal <;> cases hlocal

/-- After a refusal every report but success is right. -/
theorem fits_refusal {result : ApplicationCommandForwardResult} (h : result.status ≠ .Completed) :
    Fits cbor arguments events connection .refusal (.done result) :=
  ⟨fun hcompleted => absurd hcompleted h, fun _ => Or.inl rfl⟩

theorem invariant_connectFailed (h : InAgreement cbor arguments events s answer) :
    Invariant cbor arguments events (s.step cbor arguments .connectFailed) := by
  unfold Forwarding.step
  dsimp only
  split
  next hphase =>
    have hfits := h.fits
    rw [hphase] at hfits
    obtain ⟨rfl, hvalid⟩ := hfits
    refine ⟨.refusal, agreement_client h ?_⟩
    unfold ForwardClient.connectFailed
    dsimp only
    split
    · exact fits_refusal (by nofun)
    · rw [hphase]
      exact ⟨rfl, hvalid⟩
  · exact ⟨_, h⟩

theorem status_leaveLoop (client : ForwardClient) : client.leaveLoop.status ≠ .Completed := by
  unfold ForwardClient.leaveLoop
  split
  · nofun
  split
  · nofun
  · nofun

theorem invariant_timedOut (h : InAgreement cbor arguments events s answer) :
    Invariant cbor arguments events (s.step cbor arguments .timedOut) := by
  unfold Forwarding.step
  dsimp only
  split
  next hphase =>
    have hfits := h.fits
    rw [hphase] at hfits
    obtain ⟨rfl, hvalid⟩ := hfits
    exact ⟨.refusal, agreement_client h (fits_refusal (status_leaveLoop s.client))⟩
  · exact ⟨answer, agreement_client h (fits_open (Or.inl rfl))⟩
  · exact ⟨answer, h⟩

theorem invariant_peerGone (h : InAgreement cbor arguments events s answer) :
    Invariant cbor arguments events (s.step cbor arguments .peerGone) := by
  unfold Forwarding.step
  dsimp only
  split
  · exact ⟨answer, agreement_client h (fits_open (Or.inl rfl))⟩
  · exact ⟨answer, h⟩

/-- **A new connection** is opened when the ones before are spent. -/
theorem invariant_connected (h : InAgreement cbor arguments events s answer) {requestId : QUuid}
    (hrequest : requestId ∈ requestIds events) (failure : Option (Nat × QString)) :
    Invariant cbor arguments events (s.step cbor arguments (.connected requestId failure)) := by
  unfold Forwarding.step
  dsimp only
  split
  next gui hphase hgui =>
    have hfits := h.fits
    rw [hphase] at hfits
    obtain ⟨rfl, hvalid⟩ := hfits
    have hspent : ∀ index, (s.connections index).Spent := by
      intro index
      by_cases hindex : index = s.opened - 1
      · cases h.served with
        | refusal hspent => exact hindex ▸ hspent
      · exact h.spent index hindex
    unfold Forwarding.connect
    have hcurrent : ∀ connection, Function.update s.connections s.opened connection (s.opened + 1 - 1) =
        connection := fun connection => Function.update_self ..
    refine ⟨.pending, fun index hindex => ?_, ?_, ?_, h.calls, fun _ => hvalid⟩
    · have hother : index ≠ s.opened := hindex
      show (Function.update s.connections s.opened _ index).Spent
      rw [Function.update_of_ne hother]
      exact hspent index
    · show Served cbor arguments events (Function.update s.connections s.opened _ (s.opened + 1 - 1)) _
      rw [hcurrent]
      refine .pending requestId [] hrequest rfl rfl ?_
      cases failure with
      | none => exact List.prefix_refl _
      | some failure => exact List.take_prefix ..
    · show Fits cbor arguments events (Function.update s.connections s.opened _ (s.opened + 1 - 1)) _ _
      rw [hcurrent]
      cases failure with
      | none => exact ⟨hvalid, ⟨requestId, hrequest, rfl⟩, rfl, [], rfl, List.prefix_refl _⟩
      | some failure => exact fits_open (Or.inl rfl)
  · exact ⟨answer, h⟩

theorem served_toClient (h : Served cbor arguments events connection answer) (toClient : QByteArray) :
    Served cbor arguments events { connection with toClient } answer := by
  cases h with
  | pending requestId held hmem hrequest hdecoder hfront =>
    exact .pending requestId held hmem hrequest hdecoder hfront
  | refusal hspent => exact .refusal hspent
  | reply reply hmem hspent => exact .reply reply hmem hspent

/-- The result that a reply makes. -/
def replyResult (reply : HandlerReply) : ApplicationCommandForwardResult :=
  let limited := limitOutput reply.toApplicationCommandReply
  resultOf { limited with exitCode := max 0 (min limited.exitCode 255) }

theorem fits_replyResult (reply : HandlerReply) :
    Fits cbor arguments events connection (.reply reply) (.done (replyResult reply)) := by
  have hhandled : (replyResult reply).status = if reply.handled then .Completed else .Declined := by
    show (if (limitOutput reply.toApplicationCommandReply).handled then _ else _) = _
    rw [handled_limitOutput]
  refine ⟨fun hcompleted => ⟨reply, rfl, ?_⟩, fun hlocal => Or.inr ⟨reply, rfl, ?_⟩⟩
  · cases h : reply.handled with
    | true => rfl
    | false =>
      rw [hhandled, h] at hcompleted
      cases hcompleted
  · cases h : reply.handled with
    | true =>
      unfold ApplicationCommandForwardResult.canExecuteLocally at hlocal
      rw [hhandled, h] at hlocal
      cases hlocal
    | false => rfl

/-- **A read of the client** finds nothing new, or the refusal, or the reply. -/
theorem readReply_waiting (hcodec : CarriesRun cbor arguments events) {id : QUuid}
    (hid : id ∈ requestIds events) {heard bytes : QByteArray}
    (hserved : Served cbor arguments events connection answer)
    (hfront : heard ++ bytes <+: answer.frame cbor id.text) :
    readReply cbor id.text { buffer := heard } bytes = .incomplete { buffer := heard ++ bytes } ∨
      answer = .refusal ∧ readReply cbor id.text { buffer := heard } bytes = .retryWhenReady ∨
      ∃ reply, answer = .reply reply ∧
        readReply cbor id.text { buffer := heard } bytes = .result (replyResult reply) := by
  cases hserved with
  | pending requestId held hmem hrequest hdecoder hsent =>
    obtain ⟨rfl, rfl⟩ := List.append_eq_nil_iff.mp (List.prefix_nil.mp hfront)
    exact Or.inl (readReply_nothing id.text)
  | refusal hspent =>
    rcases readReply_answer (hcodec.refusal id hid) hfront with hread | hread
    · exact Or.inl hread
    · exact Or.inr (Or.inl ⟨rfl, hread⟩)
  | reply reply hmem hspent =>
    rcases readReply_answer (hcodec.reply id hid reply hmem) hfront with hread | hread
    · exact Or.inl hread
    · exact Or.inr (Or.inr ⟨reply, rfl, hread⟩)

theorem invariant_replyRead (hcodec : CarriesRun cbor arguments events)
    (h : InAgreement cbor arguments events s answer) (count : Nat) :
    Invariant cbor arguments events (s.step cbor arguments (.replyRead count)) := by
  unfold Forwarding.step
  dsimp only
  split
  next requestId decoder hphase =>
    have hfits := h.fits
    rw [hphase] at hfits
    obtain ⟨hvalid, ⟨id, hid, rfl⟩, hrequest, heard, rfl, hfront⟩ := hfits
    rw [← hrequest] at hfront
    have hread : heard ++ s.current.toClient.take count <+: answer.frame cbor id.text :=
      ((List.prefix_append_right_inj heard).mpr ( List.take_prefix count _)).trans hfront
    have hserved := served_toClient h.served (s.current.toClient.drop count)
    unfold Forwarding.readReplyBytes
    dsimp only
    rcases readReply_waiting hcodec hid h.served hread with hpart | ⟨rfl, hpart⟩ | ⟨reply, rfl, hpart⟩ <;>
      rw [hpart]
    · refine ⟨answer, agreement_replace h.spent hserved ?_ h.calls h.valid⟩
      refine ⟨hvalid, ⟨id, hid, rfl⟩, hrequest, heard ++ s.current.toClient.take count, rfl, ?_⟩
      show heard ++ s.current.toClient.take count ++ s.current.toClient.drop count <+: _
      rw [List.append_assoc, List.take_append_drop, ← hrequest]
      exact hfront
    · exact ⟨.refusal, agreement_replace h.spent hserved ⟨rfl, hvalid⟩ h.calls h.valid⟩
    · exact ⟨.reply reply, agreement_replace h.spent hserved (fits_replyResult reply) h.calls h.valid⟩
  · exact ⟨answer, h⟩

/-- **Every event** keeps the two sides consistent. -/
theorem invariant_step (hcodec : CarriesRun cbor arguments events) :
    Runs.StepKeeps (Forwarding.step cbor arguments) (fun _ event => event ∈ events)
      (Invariant cbor arguments events) := by
  rintro s event ⟨answer, h⟩ hevent
  cases event with
  | guiStarted =>
    unfold Forwarding.step
    dsimp only
    split <;> exact ⟨answer, h.spent, h.served, h.fits, h.calls, h.valid⟩
  | handlerSet =>
    unfold Forwarding.step
    dsimp only
    split <;> exact ⟨answer, h.spent, h.served, h.fits, h.calls, h.valid⟩
  | guiEnded kept => exact ⟨answer, agreement_guiEnded h kept⟩
  | connectFailed => exact invariant_connectFailed h
  | connected requestId failure =>
    exact invariant_connected h (List.mem_filterMap.mpr ⟨_, hevent, rfl⟩) failure
  | replyRead count => exact invariant_replyRead hcodec h count
  | peerGone => exact invariant_peerGone h
  | timedOut => exact invariant_timedOut h
  | commandRead index count reply =>
    exact invariant_commandRead hcodec h index count (List.mem_filterMap.mpr ⟨_, hevent, rfl⟩)
  | dropped index kept => exact ⟨answer, agreement_dropped h index kept⟩

theorem invariant_start (applicationId : QString) :
    Invariant cbor arguments events (.start applicationId arguments) := by
  have hspent : ∀ index, ((Forwarding.start applicationId arguments).connections index).Spent :=
    fun index => Or.inl rfl
  refine ⟨.refusal, fun index _ => hspent index, .refusal (hspent _), ?_, rfl, by nofun⟩
  show Fits cbor arguments events _ _ (ForwardClient.start applicationId arguments).phase
  unfold ForwardClient.start
  split
  · exact fits_open (Or.inr rfl)
  split
  · exact fits_open (Or.inr rfl)
  next hvalid => exact ⟨rfl, hvalid⟩

/-! ## Whole runs -/

/-- What the invariant says about the calls and the report. -/
theorem report_of_invariant (h : Invariant cbor arguments events s) :
    s.calls.length ≤ 1 ∧ (∀ call ∈ s.calls, call.1 = arguments.map wireText) ∧
      ∀ result, s.report = some result →
        (result.status = .Unavailable ∨ result.status = .Declined → s.handled = []) ∧
        (result.status = .Completed → s.handled = [arguments.map wireText]) := by
  obtain ⟨answer, h⟩ := h
  have hcalls := h.calls
  refine ⟨?_, ?_, fun result hreport => ?_⟩
  · rw [hcalls]
    cases answer with
    | pending => exact Nat.zero_le _
    | refusal => exact Nat.zero_le _
    | reply reply => exact Nat.le_refl _
  · rw [hcalls]
    cases answer with
    | pending => nofun
    | refusal => nofun
    | reply reply =>
      intro call hcall
      rw [List.mem_singleton.mp hcall]
  · have hfits := h.fits
    have hphase : s.client.phase = .done result := by
      unfold Forwarding.report at hreport
      split at hreport
      next hphase => rw [hphase, Option.some.inj hreport]
      · cases hreport
    rw [hphase] at hfits
    unfold Forwarding.handled
    rw [hcalls]
    refine ⟨fun hlocal => ?_, fun hcompleted => ?_⟩
    · have hexecute : result.canExecuteLocally = true := by
        unfold ApplicationCommandForwardResult.canExecuteLocally
        rcases hlocal with h | h <;> rw [h] <;> rfl
      rcases hfits.2 hexecute with rfl | ⟨reply, rfl, hhandled⟩
      · rfl
      · show List.map _ (List.filter _ [(arguments.map wireText, reply.toApplicationCommandReply)]) = []
        rw [List.filter_cons_of_neg (by rw [hhandled]; nofun)]
        rfl
    · obtain ⟨reply, rfl, hhandled⟩ := hfits.1 hcompleted
      show List.map _ (List.filter _ [(arguments.map wireText, reply.toApplicationCommandReply)]) = _
      rw [List.filter_cons_of_pos (by rw [hhandled])]
      rfl

/-- **A command is executed at most once.**  In every state of every run the handler has been called at
    most once, with the command as it has arrived; what the client has reported is so; and a command that
    the client admits is accepted by the GUI, as it is when its surrogates are paired. -/
theorem executed_at_most_once (applicationId : QString) (hcodec : CarriesRun cbor arguments events)
    (hshort : ShortItems cbor) :
    (∀ s ∈ Runs.states (Forwarding.step cbor arguments) (.start applicationId arguments) events,
      s.calls.length ≤ 1 ∧ (∀ call ∈ s.calls, call.1 = arguments.map wireText) ∧
        ∀ result, s.report = some result →
          (result.status = .Unavailable ∨ result.status = .Declined → s.handled = []) ∧
          (result.status = .Completed → s.handled = [arguments.map wireText])) ∧
      (argumentsAreValid arguments = .ok () → ∀ requestId : QUuid,
        Carries cbor (commandEnvelope requestId.text arguments)
          (commandEnvelope requestId.text (arguments.map wireText)) →
        ∀ reads : List QByteArray, reads.flatten = frameBytes cbor (commandEnvelope requestId.text arguments) →
          delivered cbor reads = [some (arguments.map wireText)]) ∧
      ((∀ argument ∈ arguments, PairedSurrogates argument = true) → arguments.map wireText = arguments) := by
  refine ⟨fun s hs => ?_, fun hvalid requestId hcarries reads hreads => ?_, fun hpaired => ?_⟩
  · exact report_of_invariant (Runs.states_invariant (invariant_step hcodec) (invariant_start applicationId)
      (Runs.guarded_of_forall (fun event hevent _ => hevent) _) s hs)
  · exact delivered_command hshort hvalid hcarries hreads
  · conv_rhs => rw [← List.map_id arguments]
    exact List.map_congr_left fun argument hmem => wireText_of_paired (hpaired argument hmem)

/-! ## A run -/

theorem ascii_of_all {text : QString} (h : (text.all fun c => decide (c.toNat < 0x80)) = true) :
    ∀ c ∈ text, c.toNat < 0x80 := fun c hc => of_decide_eq_true (List.all_eq_true.mp h c hc)

def firstRequest : QUuid where
  text := qs "0f8fad5b-d9cb-469f-a165-70867728950e"
  length_text := by decide +kernel
  ascii_text := ascii_of_all (by decide +kernel)

def secondRequest : QUuid where
  text := qs "7c9e6679-7425-40de-944b-e07fc1f90ae7"
  length_text := by decide +kernel
  ascii_text := ascii_of_all (by decide +kernel)

def acceptedReply : HandlerReply where
  handled := true
  standardOutput := toUtf8 (qs "Accepted.\n")
  quiet := nofun

def transcribeArguments : QStringList := [qs "transcribe", qs "/tmp/a.wav"]

/-- The GUI has no handler yet when the command comes for the first time, and reads the second in two
    pieces. -/
def retriedEvents : List ForwardingEvent :=
  [.connectFailed, .guiStarted, .connected firstRequest none, .commandRead 0 1000 acceptedReply, .replyRead 1000,
    .handlerSet, .connected secondRequest none, .commandRead 1 10 acceptedReply,
    .commandRead 1 1000 acceptedReply, .replyRead 1000]

theorem retriedEvents_report :
    (Runs.run (Forwarding.step definiteCbor transcribeArguments) (.start (qs "app") transcribeArguments)
      retriedEvents).report = some { status := .Completed, standardOutput := toUtf8 (qs "Accepted.\n") } := by
  decide +kernel

/-- The codec carries what the run sends, one envelope after the other. -/
theorem retriedEvents_carried : CarriesRun definiteCbor transcribeArguments retriedEvents := by
  have hids : ∀ {requestId}, requestId ∈ retriedEvents.filterMap ForwardingEvent.requestId? →
      requestId = firstRequest ∨ requestId = secondRequest := by
    intro requestId hmem
    rcases List.mem_cons.mp hmem with h | hmem
    · exact Or.inl h
    · exact Or.inr (List.mem_singleton.mp hmem)
  have hreplies : ∀ {reply}, reply ∈ retriedEvents.filterMap ForwardingEvent.reply? → reply = acceptedReply := by
    intro reply hmem
    rcases List.mem_cons.mp hmem with h | hmem
    · exact h
    rcases List.mem_cons.mp hmem with h | hmem
    · exact h
    · exact List.mem_singleton.mp hmem
  refine ⟨fun requestId hmem => ?_, fun requestId hmem => ?_, fun requestId hmem reply hreply => ?_⟩
  · rcases hids hmem with rfl | rfl
    · exact ⟨by decide +kernel, by cbv⟩
    · exact ⟨by decide +kernel, by cbv⟩
  · rcases hids hmem with rfl | rfl
    · exact ⟨by decide +kernel, by cbv⟩
    · exact ⟨by decide +kernel, by cbv⟩
  · rw [hreplies hreply]
    rcases hids hmem with rfl | rfl
    · exact ⟨by decide +kernel, by cbv⟩
    · exact ⟨by decide +kernel, by cbv⟩

theorem executed_retried :
    (Runs.run (Forwarding.step definiteCbor transcribeArguments) (.start (qs "app") transcribeArguments)
        retriedEvents).handled = [transcribeArguments] ∧
      delivered definiteCbor [frameBytes definiteCbor (commandEnvelope firstRequest.text transcribeArguments)] =
        [some transcribeArguments] := by
  obtain ⟨hstates, hdelivered, hsame⟩ :=
    executed_at_most_once (qs "app") retriedEvents_carried definiteCbor_shortItems
  have hpaired : transcribeArguments.map wireText = transcribeArguments := hsame (by decide +kernel)
  obtain ⟨-, -, hreport⟩ := hstates _ (Runs.run_mem_states _ _)
  have hhandled := (hreport _ retriedEvents_report).2 rfl
  have hread := hdelivered (by decide +kernel) firstRequest
    (retriedEvents_carried.command firstRequest (List.mem_cons_self ..)) [frameBytes definiteCbor _]
    (List.flatten_singleton ..)
  rw [hpaired] at hhandled hread
  exact ⟨hhandled, hread⟩

/-- **A lone surrogate** is admitted, and something else arrives: `toUtf8` has no bytes for it. -/
theorem loneSurrogate_replaced :
    ¬∀ arguments : QStringList, argumentsAreValid arguments = .ok () → ∀ requestId : QUuid,
      delivered definiteCbor [frameBytes definiteCbor (commandEnvelope requestId.text arguments)] =
        [some arguments] := by
  intro h
  have hsame := h [[0xD800]] (by decide +kernel) firstRequest
  have hread : delivered definiteCbor
      [frameBytes definiteCbor (commandEnvelope firstRequest.text [[0xD800]])] = [some [[0x3F]]] := by
    decide +kernel
  rw [hread] at hsame
  exact absurd hsame (by decide)

end BreezeDesk.Ipc
