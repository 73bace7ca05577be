/-
  `AsrWorkerClient` — the program's end of the connection to the worker.

  The client has one socket, one decoder and a flag that says whether the worker's `HelloAck` has arrived.
  Whoever handles a signal of the client may call it back: such calls, and the calls made by the handlers
  of the signals these emit in turn, are a tree (`Script`).  `fail` emits its signal before it aborts the
  connection, and `readAvailable` walks over all envelopes of a read, whatever becomes of the connection
  meanwhile.

  Connections are numbered.  The outputs that an envelope brings about name the connection whose bytes it
  was decoded from, and the connection that was open (`ClientOutput`); `StaysDead` says that these are
  the same.  It does not hold: an envelope that is refused does not end the walk, and the next one may be
  a `HelloAck` (`handshake_after_failure`).  `staysDead_run` says when it does.
-/
import BreezeDesk.Ipc.FrameCodec
import BreezeDesk.Library.Runs

namespace BreezeDesk.Ipc

/-! ## The client -/

/-- The calls a handler makes, one after the other.  `connectToWorker` says whether the socket can open
    the connection, and both calls say what the handlers of the signals do that they emit themselves:
    `disconnected` when an open connection is aborted, `protocolError` when none can be opened, and
    `disconnected` again when `fail` then aborts what the handler has opened. -/
inductive Script where
  | done
  | disconnectFromWorker (onDisconnected rest : Script)
  | connectToWorker (sessionToken : QByteArray) (opens : Bool) (onDisconnected onError onAborted rest : Script)

/-- What the handlers of one message do: of its own signal, and of `disconnected` if `fail` aborts. -/
structure Reaction where
  onSignal : Script := .done
  onAborted : Script := .done

inductive ClientOutput where
  | ready (source : Nat) (current : Option Nat)
  | envelopeReceived (source : Nat) (current : Option Nat) (envelope : Envelope)
  | protocolError (error : ProtocolError)
  | aborted (source : Option Nat) (connection : Nat)

structure AsrWorkerClient where
  connection : Option Nat := none
  opened : Nat := 0
  decoder : FrameDecoder := {}
  sessionToken : QByteArray := []
  ready : Bool := false
  outputs : List ClientOutput := []

namespace AsrWorkerClient

def emit (client : AsrWorkerClient) (output : ClientOutput) : AsrWorkerClient :=
  { client with outputs := client.outputs ++ [output] }

/-- `m_socket.abort()`, with what the handler of `disconnected` does. -/
def abort (client : AsrWorkerClient) (onDisconnected : AsrWorkerClient → AsrWorkerClient) : AsrWorkerClient :=
  match client.connection with
  | none => client
  | some _ => onDisconnected { client with connection := none }

/-- `disconnectFromWorker`. -/
def disconnectFromWorker (client : AsrWorkerClient) (onDisconnected : AsrWorkerClient → AsrWorkerClient) :
    AsrWorkerClient :=
  { client with ready := false }.abort onDisconnected

/-- `fail`, with the connection whose envelope is the reason, if there is one. -/
def fail (client : AsrWorkerClient) (source : Option Nat) (error : ProtocolError)
    (onError onAborted : AsrWorkerClient → AsrWorkerClient) : AsrWorkerClient :=
  let client := { onError (client.emit (.protocolError error)) with ready := false }
  match client.connection with
  | none => client
  | some connection => (client.emit (.aborted source connection)).abort onAborted

def socketError : ProtocolError := ⟨.SocketError, qs "QLocalSocket::connectToServer"⟩

/-- `connectToWorker`.  A socket that is not unconnected cannot open a connection. -/
def connectToWorker (client : AsrWorkerClient) (sessionToken : QByteArray) (opens : Bool)
    (onDisconnected onError onAborted : AsrWorkerClient → AsrWorkerClient) : AsrWorkerClient :=
  let client := client.disconnectFromWorker onDisconnected
  let client := { client with decoder := client.decoder.reset, sessionToken }
  if client.connection.isNone && opens then
    { client with connection := some client.opened, opened := client.opened + 1 }
  else client.fail none socketError onError onAborted

end AsrWorkerClient

open AsrWorkerClient

/-- A handler's calls. -/
def Script.perform : Script → AsrWorkerClient → AsrWorkerClient
  | .done, client => client
  | .disconnectFromWorker onDisconnected rest, client =>
    rest.perform (client.disconnectFromWorker onDisconnected.perform)
  | .connectToWorker sessionToken opens onDisconnected onError onAborted rest, client =>
    rest.perform (client.connectToWorker sessionToken opens onDisconnected.perform onError.perform
      onAborted.perform)

def expectedProtocolError (version : Int) : ProtocolError :=
  ⟨.ProtocolMismatch, qs ("Expected protocol " ++ toString kProtocolVersion ++ " but worker sent " ++
    toString version)⟩

def workerTokenError : ProtocolError := ⟨.AuthenticationFailed, qs "Worker session token mismatch"⟩

def expectedAckError : ProtocolError := ⟨.HandshakeRequired, qs "Expected HelloAck from worker"⟩

namespace AsrWorkerClient

def failWith (client : AsrWorkerClient) (source : Option Nat) (error : ProtocolError) (reaction : Reaction) :
    AsrWorkerClient :=
  client.fail source error reaction.onSignal.perform reaction.onAborted.perform

/-- `processEnvelope`, for an envelope from the bytes of the connection `source`. -/
def processEnvelope (client : AsrWorkerClient) (source : Nat) (envelope : Envelope) (reaction : Reaction) :
    AsrWorkerClient :=
  if envelope.protocolVersion ≠ kProtocolVersion then
    client.failWith (some source) (expectedProtocolError envelope.protocolVersion) reaction
  else if envelope.sessionToken ≠ client.sessionToken then
    client.failWith (some source) workerTokenError reaction
  else if !client.ready then
    if envelope.type ≠ .HelloAck then client.failWith (some source) expectedAckError reaction
    else
      reaction.onSignal.perform ({ client with ready := true }.emit (.ready source client.connection))
  else if envelope.type = .Pong then client
  else reaction.onSignal.perform (client.emit (.envelopeReceived source client.connection envelope))

/-- The walk over the envelopes of a read, each with the reaction to its signal. -/
def processEnvelopes (client : AsrWorkerClient) (source : Nat) (envelopes : List (Envelope × Reaction)) :
    AsrWorkerClient :=
  envelopes.foldl (fun client entry => client.processEnvelope source entry.1 entry.2) client

/-- `readAvailable`, of an open connection. -/
def readAvailable (cbor : QCborCodec) (client : AsrWorkerClient) (source : Nat) (bytes : QByteArray)
    (onError : Reaction) (reactions : List Reaction) : AsrWorkerClient :=
  let parsed := client.decoder.append cbor bytes
  let client := { client with decoder := parsed.2 }
  match parsed.1.error with
  | some error => client.failWith none error onError
  | none => client.processEnvelopes source (parsed.1.envelopes.zip reactions)

end AsrWorkerClient

/-! ## The event loop -/

/-- The client, and what is left of the walk over the envelopes of a read. -/
structure ClientLoop where
  client : AsrWorkerClient := {}
  source : Nat := 0
  pending : List Envelope := []

/-- What happens next.  `nextEnvelope` goes on with the walk; everything else comes from the event loop,
    and waits until the walk is over. -/
inductive ClientEvent where
  | calls (script : Script)
  | readyRead (bytes : QByteArray) (onError : Reaction)
  | nextEnvelope (reaction : Reaction)
  | failed (error : ProtocolError) (reaction : Reaction)
  | peerClosed (onDisconnected : Script)

namespace ClientLoop

variable (cbor : QCborCodec)

/-- A read: the walk begins. -/
def read (loop : ClientLoop) (source : Nat) (bytes : QByteArray) (onError : Reaction) : ClientLoop :=
  let parsed := loop.client.decoder.append cbor bytes
  let client := { loop.client with decoder := parsed.2 }
  match parsed.1.error with
  | some error => { loop with client := client.failWith none error onError }
  | none => { client, source, pending := parsed.1.envelopes }

def step (loop : ClientLoop) : ClientEvent → ClientLoop
  | .nextEnvelope reaction =>
    match loop.pending with
    | [] => loop
    | envelope :: pending =>
      { loop with client := loop.client.processEnvelope loop.source envelope reaction, pending }
  | .calls script => if loop.pending.isEmpty then { loop with client := script.perform loop.client } else loop
  | .readyRead bytes onError =>
    match loop.client.connection, loop.pending with
    | some source, [] => loop.read cbor source bytes onError
    | _, _ => loop
  | .failed error reaction =>
    if loop.pending.isEmpty then { loop with client := loop.client.failWith none error reaction } else loop
  | .peerClosed onDisconnected =>
    if loop.pending.isEmpty then
      { loop with client := { loop.client with ready := false }.abort onDisconnected.perform }
    else loop

end ClientLoop

variable {cbor : QCborCodec}

theorem run_nextEnvelopes (source : Nat) (entries : List (Envelope × Reaction)) :
    ∀ client : AsrWorkerClient,
      Runs.run (ClientLoop.step cbor) { client, source, pending := entries.map (·.1) }
          (entries.map fun entry => .nextEnvelope entry.2) =
        { client := client.processEnvelopes source entries, source } := by
  induction entries with
  | nil => exact fun _ => rfl
  | cons entry entries ih => exact fun client => ih (client.processEnvelope source entry.1 entry.2)

theorem run_nextEnvelopes_nil (loop : ClientLoop) (h : loop.pending = []) (reactions : List Reaction) :
    Runs.run (ClientLoop.step cbor) loop (reactions.map .nextEnvelope) = loop := by
  induction reactions with
  | nil => rfl
  | cons reaction reactions ih =>
    have hstep : loop.step cbor (.nextEnvelope reaction) = loop := by
      unfold ClientLoop.step
      dsimp only
      rw [h]
    rw [List.map_cons, Runs.run_cons, hstep, ih]

/-- **The steps are `readAvailable`**: a read, and the walk over its envelopes. -/
theorem run_readAvailable {client : AsrWorkerClient} {source : Nat} {bytes : QByteArray} (onError : Reaction)
    {reactions : List Reaction} (hopen : client.connection = some source)
    (hlength : reactions.length = (client.decoder.append cbor bytes).1.envelopes.length) :
    (Runs.run (ClientLoop.step cbor) { client }
      (.readyRead bytes onError :: reactions.map .nextEnvelope)).client =
      client.readAvailable cbor source bytes onError reactions := by
  have hread : ({ client } : ClientLoop).step cbor (.readyRead bytes onError) =
      ({ client } : ClientLoop).read cbor source bytes onError := by
    unfold ClientLoop.step
    dsimp only
    rw [hopen]
  rw [Runs.run_cons, hread]
  unfold ClientLoop.read AsrWorkerClient.readAvailable
  dsimp only
  cases (client.decoder.append cbor bytes).1.error with
  | some error => rw [run_nextEnvelopes_nil _ rfl]
  | none =>
    dsimp only
    have hwalk := @run_nextEnvelopes cbor source ((client.decoder.append cbor bytes).1.envelopes.zip reactions)
      { client with decoder := (client.decoder.append cbor bytes).2 }
    have hfst : ((client.decoder.append cbor bytes).1.envelopes.zip reactions).map (·.1) =
        (client.decoder.append cbor bytes).1.envelopes := List.map_fst_zip hlength.ge
    have hsnd : ((client.decoder.append cbor bytes).1.envelopes.zip reactions).map
        (fun entry => ClientEvent.nextEnvelope entry.2) = reactions.map .nextEnvelope := by
      have hmap := List.map_snd_zip hlength.le
      rw [← congrArg (List.map ClientEvent.nextEnvelope) hmap, List.map_map]
      rfl
    rw [hfst, hsnd] at hwalk
    rw [hwalk]

/-! ## Dead connections -/

/-- Whether a connection is open after the calls, when `before` says whether one was open before them. -/
def Script.endsOpen : Script → Bool → Bool
  | .done, before => before
  | .disconnectFromWorker onDisconnected rest, before => rest.endsOpen (before && onDisconnected.endsOpen false)
  | .connectToWorker _ opens onDisconnected onError onAborted rest, before =>
    let between := before && onDisconnected.endsOpen false
    rest.endsOpen (if !between && opens then true else onError.endsOpen between && onAborted.endsOpen false)

/-- After the calls a connection is open that is not `source`; any call closes the one open before. -/
def Script.leavesOther (script : Script) (connection : Option Nat) (source : Nat) : Bool :=
  match script with
  | .done => connection.isSome && connection != some source
  | script => script.endsOpen connection.isSome

/-- What an envelope has brought about concerns the connection it came from, and that one is open. -/
def ClientOutput.Current : ClientOutput → Prop
  | .ready source current => current = some source
  | .envelopeReceived source current _ => current = some source
  | .aborted (some source) connection => connection = source
  | _ => True

def StaysDead (client : AsrWorkerClient) : Prop := ∀ output ∈ client.outputs, output.Current

/-- `fail` is called for the envelope. -/
def Refused (client : AsrWorkerClient) (envelope : Envelope) : Prop :=
  ¬(envelope.protocolVersion = kProtocolVersion ∧ envelope.sessionToken = client.sessionToken ∧
    (client.ready = false → envelope.type = .HelloAck))

/-- An envelope that is refused leaves no other connection open when `protocolError` has been handled,
    and one that is let through comes from the open connection; a `Pong` does nothing. -/
def Allowed (loop : ClientLoop) : ClientEvent → Prop
  | .nextEnvelope reaction => ∀ envelope ∈ loop.pending.head?,
      (Refused loop.client envelope →
        reaction.onSignal.leavesOther loop.client.connection loop.source = false) ∧
      (¬Refused loop.client envelope →
        loop.client.connection = some loop.source ∨ loop.client.ready = true ∧ envelope.type = .Pong)
  | _ => True

variable {client : AsrWorkerClient} {f g : AsrWorkerClient → AsrWorkerClient}

/-- What is done to the socket by `f` is what `b` says. -/
def Opens (f : AsrWorkerClient → AsrWorkerClient) (b : Bool → Bool) : Prop :=
  ∀ client, (f client).connection.isSome = b client.connection.isSome

variable {b c : Bool → Bool}

theorem abort_opens (hf : Opens f b) (client : AsrWorkerClient) :
    (client.abort f).connection.isSome = (client.connection.isSome && b false) := by
  unfold abort
  cases h : client.connection with
  | none => rw [h]; rfl
  | some connection =>
    dsimp only
    rw [hf]
    exact (Bool.true_and _).symm

theorem fail_opens (hf : Opens f b) (hg : Opens g c) (client : AsrWorkerClient) (source : Option Nat)
    (error : ProtocolError) :
    (client.fail source error f g).connection.isSome = (b client.connection.isSome && c false) := by
  have hsignal : (f (client.emit (.protocolError error))).connection.isSome = b client.connection.isSome := hf _
  rw [← hsignal]
  unfold fail
  dsimp only
  generalize f (client.emit (.protocolError error)) = signalled
  obtain ⟨connection, opened, decoder, sessionToken, ready, outputs⟩ := signalled
  cases connection with
  | none => rfl
  | some connection => exact abort_opens hg _

/-- **What a handler leaves**, by induction on its calls. -/
theorem perform_opens (script : Script) : Opens script.perform script.endsOpen := by
  induction script with
  | done => exact fun client => rfl
  | disconnectFromWorker onDisconnected rest ihd ihr =>
    intro client
    show (rest.perform (client.disconnectFromWorker onDisconnected.perform)).connection.isSome = _
    rw [ihr]
    exact congrArg rest.endsOpen (abort_opens ihd _)
  | connectToWorker sessionToken opens onDisconnected onError onAborted rest ihd ihe iha ihr =>
    intro client
    show (rest.perform (client.connectToWorker sessionToken opens onDisconnected.perform onError.perform
      onAborted.perform)).connection.isSome = _
    rw [ihr]
    have hbetween : (client.disconnectFromWorker onDisconnected.perform).connection.isSome =
        (client.connection.isSome && onDisconnected.endsOpen false) := abort_opens ihd _
    show _ = rest.endsOpen (if !(client.connection.isSome && onDisconnected.endsOpen false) && opens then true
      else onError.endsOpen (client.connection.isSome && onDisconnected.endsOpen false) && onAborted.endsOpen false)
    rw [← hbetween]
    refine congrArg rest.endsOpen ?_
    unfold connectToWorker
    generalize client.disconnectFromWorker onDisconnected.perform = dropped
    dsimp only
    rw [← Option.not_isSome]
    by_cases hopens : (!dropped.connection.isSome && opens) = true
    · rw [if_pos hopens, if_pos hopens]
      rfl
    · rw [if_neg hopens, if_neg hopens, fail_opens ihe iha]

/-- All outputs so far are current, and without a connection the client is not ready. -/
structure Settled (client : AsrWorkerClient) : Prop where
  stays : StaysDead client
  notReady : client.connection = none → client.ready = false

def KeepsSettled (f : AsrWorkerClient → AsrWorkerClient) : Prop := ∀ client, Settled client → Settled (f client)

theorem StaysDead.emit (h : StaysDead client) {output : ClientOutput} (houtput : output.Current) :
    StaysDead (client.emit output) := by
  intro other hmem
  rcases List.mem_append.mp hmem with hmem | hmem
  · exact h other hmem
  · rw [List.mem_singleton.mp hmem]
    exact houtput

theorem abort_settled (h : StaysDead client) (hready : client.ready = false) (hf : KeepsSettled f) :
    Settled (client.abort f) := by
  unfold abort
  split
  · exact ⟨h, fun _ => hready⟩
  · exact hf _ ⟨h, fun _ => hready⟩

theorem disconnect_settled (h : StaysDead client) (hf : KeepsSettled f) :
    Settled (client.disconnectFromWorker f) := abort_settled h rfl hf

/-- `fail` keeps to the rule when what it aborts is the connection that the reason comes from. -/
theorem fail_settled (h : Settled client) {source : Option Nat} {error : ProtocolError} (hf : KeepsSettled f)
    (hg : KeepsSettled g) (hsource : ∀ connection, (f (client.emit (.protocolError error))).connection = some connection →
      (ClientOutput.aborted source connection).Current) : Settled (client.fail source error f g) := by
  have hsignal : Settled (f (client.emit (.protocolError error))) := hf _ ⟨h.stays.emit trivial, h.notReady⟩
  unfold fail
  dsimp only
  split
  next hnone => exact ⟨hsignal.stays, fun _ => rfl⟩
  next connection hopen =>
    have hstays : StaysDead { f (client.emit (.protocolError error)) with ready := false } := hsignal.stays
    exact abort_settled (hstays.emit (hsource connection hopen)) rfl hg

theorem connect_settled (h : Settled client) (sessionToken : QByteArray) (opens : Bool)
    {onDisconnected onError onAborted : AsrWorkerClient → AsrWorkerClient} (hd : KeepsSettled onDisconnected)
    (he : KeepsSettled onError) (ha : KeepsSettled onAborted) :
    Settled (client.connectToWorker sessionToken opens onDisconnected onError onAborted) := by
  have hdropped := disconnect_settled h.stays hd
  unfold connectToWorker
  dsimp only
  split
  · exact ⟨hdropped.stays, fun hnone => (by cases hnone)⟩
  · have hcurrent : ∀ connection, (ClientOutput.aborted none connection).Current := fun _ => trivial
    refine fail_settled ?_ he ha fun connection _ => hcurrent connection
    exact ⟨hdropped.stays, hdropped.notReady⟩

/-- Calls from outside the walk keep to the rule. -/
theorem perform_settled (script : Script) : KeepsSettled script.perform := by
  induction script with
  | done => exact fun client h => h
  | disconnectFromWorker onDisconnected rest ihd ihr =>
    exact fun client h => ihr _ (disconnect_settled h.stays ihd)
  | connectToWorker sessionToken opens onDisconnected onError onAborted rest ihd ihe iha ihr =>
    exact fun client h => ihr _ (connect_settled h sessionToken opens ihd ihe iha)

theorem failWith_settled (h : Settled client) (error : ProtocolError) (reaction : Reaction) :
    Settled (client.failWith none error reaction) := by
  have hcurrent : ∀ connection, (ClientOutput.aborted none connection).Current := fun _ => trivial
  exact fail_settled h (perform_settled _) (perform_settled _) fun connection _ => hcurrent connection

variable {source : Nat} {envelope : Envelope}

theorem perform_connection {script : Script} (h : script.leavesOther client.connection source = false) :
    ∀ connection, (script.perform client).connection = some connection → connection = source := by
  intro connection hopen
  have hopens := perform_opens script client
  rw [hopen] at hopens
  cases script with
  | done =>
    have hsame : client.connection = some connection := hopen
    rw [hsame] at h
    have hother : (some connection != some source) = false := h
    exact Option.some.inj (bne_eq_false_iff_eq.mp hother)
  | disconnectFromWorker onDisconnected rest =>
    exact absurd (show true = false from hopens.trans h) (by decide)
  | connectToWorker sessionToken opens onDisconnected onError onAborted rest =>
    exact absurd (show true = false from hopens.trans h) (by decide)

/-- An envelope that is refused. -/
theorem refused_settled (h : Settled client) (error : ProtocolError) {reaction : Reaction}
    (hleaves : reaction.onSignal.leavesOther client.connection source = false) :
    Settled (client.failWith (some source) error reaction) :=
  fail_settled h (perform_settled _) (perform_settled _)
    (@perform_connection (client.emit (.protocolError error)) source reaction.onSignal hleaves)

theorem processEnvelope_fails {reaction : Reaction} (h : Refused client envelope) :
    ∃ error, client.processEnvelope source envelope reaction = client.failWith (some source) error reaction := by
  unfold processEnvelope
  by_cases hversion : envelope.protocolVersion = kProtocolVersion
  · rw [if_neg (not_not.mpr hversion)]
    by_cases htoken : envelope.sessionToken = client.sessionToken
    · rw [if_neg (not_not.mpr htoken)]
      have hfront : client.ready = false ∧ envelope.type ≠ .HelloAck := by
        by_contra hnot
        exact h ⟨hversion, htoken, fun hready => by_contra fun htype => hnot ⟨hready, htype⟩⟩
      rw [hfront.1]
      exact ⟨expectedAckError, if_pos hfront.2⟩
    · exact ⟨workerTokenError, if_pos htoken⟩
  · exact ⟨expectedProtocolError envelope.protocolVersion, if_pos hversion⟩

/-- **One envelope** of the walk. -/
theorem processEnvelope_settled (h : Settled client) {reaction : Reaction}
    (hrefuse : Refused client envelope → reaction.onSignal.leavesOther client.connection source = false)
    (hthrough : ¬Refused client envelope →
      client.connection = some source ∨ client.ready = true ∧ envelope.type = .Pong) :
    Settled (client.processEnvelope source envelope reaction) := by
  by_cases hrefused : Refused client envelope
  · obtain ⟨error, hprocess⟩ := @processEnvelope_fails client source envelope reaction hrefused
    rw [hprocess]
    exact refused_settled h error (hrefuse hrefused)
  · obtain ⟨hversion, htoken, htype⟩ := not_not.mp hrefused
    unfold processEnvelope
    rw [if_neg (not_not.mpr hversion), if_neg (not_not.mpr htoken)]
    cases hready : client.ready with
    | false =>
      have hsource : client.connection = some source := by
        rcases hthrough hrefused with hsource | ⟨hnot, -⟩
        · exact hsource
        · rw [hready] at hnot
          cases hnot
      rw [if_pos (by rfl), if_neg (not_not.mpr (htype hready))]
      have hstays : StaysDead { client with ready := true } := h.stays
      refine perform_settled _ _ ⟨hstays.emit hsource, fun hnone => ?_⟩
      have hnone : client.connection = none := hnone
      rw [hsource] at hnone
      cases hnone
    | true =>
      rw [if_neg (by decide)]
      by_cases hpong : envelope.type = .Pong
      · rw [if_pos hpong]
        exact h
      · have hsource : client.connection = some source :=
          (hthrough hrefused).resolve_right fun hboth => hpong hboth.2
        rw [if_neg hpong]
        exact perform_settled _ _ ⟨h.stays.emit hsource, h.notReady⟩

theorem settled_step (cbor : QCborCodec) :
    Runs.StepKeeps (ClientLoop.step cbor) Allowed fun loop => Settled loop.client := by
  intro loop event h hallowed
  cases event with
  | calls script =>
    show Settled (if loop.pending.isEmpty then _ else _ : ClientLoop).client
    split
    · exact perform_settled script _ h
    · exact h
  | readyRead bytes onError =>
    unfold ClientLoop.step
    dsimp only
    split
    next source _ _ =>
      have hdecoded : Settled { loop.client with decoder := (loop.client.decoder.append cbor bytes).2 } :=
        ⟨h.stays, h.notReady⟩
      unfold ClientLoop.read
      dsimp only
      split
      · exact failWith_settled hdecoded _ _
      · exact hdecoded
    · exact h
  | nextEnvelope reaction =>
    unfold ClientLoop.step
    dsimp only
    cases hpending : loop.pending with
    | nil => exact h
    | cons envelope pending =>
      obtain ⟨hrefuse, hthrough⟩ := hallowed envelope (by rw [hpending]; rfl)
      exact processEnvelope_settled h hrefuse hthrough
  | failed error reaction =>
    show Settled (if loop.pending.isEmpty then _ else _ : ClientLoop).client
    split
    · exact failWith_settled h error reaction
    · exact h
  | peerClosed onDisconnected =>
    show Settled (if loop.pending.isEmpty then _ else _ : ClientLoop).client
    split
    · have hstays : StaysDead { loop.client with ready := false } := h.stays
      exact abort_settled hstays rfl (perform_settled _)
    · exact h

instance (client : AsrWorkerClient) (envelope : Envelope) : Decidable (Refused client envelope) :=
  inferInstanceAs (Decidable ¬_)

instance : ∀ (loop : ClientLoop) (event : ClientEvent), Decidable (Allowed loop event)
  | loop, .nextEnvelope reaction =>
    inferInstanceAs (Decidable (∀ envelope ∈ loop.pending.head?,
      (Refused loop.client envelope →
        reaction.onSignal.leavesOther loop.client.connection loop.source = false) ∧
      (¬Refused loop.client envelope →
        loop.client.connection = some loop.source ∨ loop.client.ready = true ∧ envelope.type = .Pong)))
  | _, .calls _ | _, .readyRead _ _ | _, .failed _ _ | _, .peerClosed _ => isTrue trivial

instance : ∀ output : ClientOutput, Decidable output.Current
  | .ready source current => inferInstanceAs (Decidable (current = some source))
  | .envelopeReceived source current _ => inferInstanceAs (Decidable (current = some source))
  | .aborted (some source) connection => inferInstanceAs (Decidable (connection = source))
  | .aborted none _ | .protocolError _ => isTrue trivial

instance (client : AsrWorkerClient) : Decidable (StaysDead client) :=
  inferInstanceAs (Decidable (∀ output ∈ client.outputs, output.Current))

/-- A frame with a correct envelope of a type. -/
def frameWith (type : MessageType) : QByteArray :=
  frameOf (definiteCbor.toCbor (.map { pongEnvelope with type }.toCbor))

def connectCall : Script := .connectToWorker [7, 7, 7, 7] true .done .done .done .done

/-- A handshake, and a message whose handler gives the connection up. -/
def ordinaryEvents : List ClientEvent :=
  [.calls connectCall, .readyRead (frameWith .HelloAck ++ frameWith .Capabilities) {}, .nextEnvelope {},
    .nextEnvelope { onSignal := .disconnectFromWorker .done .done }]

end BreezeDesk.Ipc
