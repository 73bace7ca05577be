/-
  `ApplicationCommand` — a command that the command line hands over to the running GUI.

  The command line writes one `ApplicationCommand` envelope on a connection of its own and waits for one
  `ApplicationCommandResult`.  `SingleInstanceGuard` reads it, calls the handler of the GUI when there is
  one, and answers; without a handler the answer is `retryable`.

  This module has the two ends as functions of what they read: `readSocket` for the GUI, `readReply` for
  the command line.  A read of a frame that is not complete does nothing, and the last one delivers the
  whole envelope (`append_front`).

  Both ends have the same limits (`decodeCommandArguments_command`).  The texts go as UTF-8, so a
  surrogate without its other half does not get across (`wireText`).
-/
import BreezeDesk.Ipc.FrameCodec

namespace BreezeDesk.Ipc

/-! ## Arguments -/

abbrev QStringList := List QString

def maximumArgumentCount : Nat := 256

def maximumArgumentBytes : Nat := 32 * 1024

def maximumCombinedArgumentBytes : Nat := 512 * 1024

def maximumCombinedOutputBytes : Nat := 8 * 1024 * 1024

/-- The loop of `argumentsAreValid`. -/
def checkArguments : Nat → QStringList → Except QString Unit
  | _, [] => .ok ()
  | combinedBytes, argument :: arguments =>
    let bytes := (toUtf8 argument).length
    if bytes > maximumArgumentBytes then .error (qs "A forwarded command argument is too large.")
    else if combinedBytes + bytes > maximumCombinedArgumentBytes then
      .error (qs "The forwarded command is too large.")
    else checkArguments (combinedBytes + bytes) arguments

def argumentsAreValid (arguments : QStringList) : Except QString Unit :=
  if arguments.isEmpty then .error (qs "The forwarded command must not be empty.")
  else if arguments.length > maximumArgumentCount then
    .error (qs "The forwarded command contains too many arguments.")
  else checkArguments 0 arguments

/-- The loop of `decodeCommandArguments`. -/
def decodeArguments : Nat → List QCborValue → Option QStringList
  | _, [] => some []
  | combinedBytes, .string decoded :: encoded =>
    let bytes := (toUtf8 decoded).length
    if bytes > maximumArgumentBytes ∨ combinedBytes + bytes > maximumCombinedArgumentBytes then none
    else (decodeArguments (combinedBytes + bytes) encoded).map (decoded :: ·)
  | _, _ :: _ => none

def decodeCommandArguments (payload : QCborMap) : Option QStringList :=
  match payload.value (qs "arguments") with
  | .array encoded =>
    if encoded.isEmpty ∨ encoded.length > maximumArgumentCount then none else decodeArguments 0 encoded
  | _ => none

/-! ## Envelopes -/

/-- `QUuid::createUuid().toString(QUuid::WithoutBraces)`. -/
structure QUuid where
  text : QString
  length_text : text.length = 36
  ascii_text : ∀ c ∈ text, c.toNat < 0x80

def commandEnvelope (requestId : QString) (arguments : QStringList) : Envelope :=
  { type := .ApplicationCommand, requestId, payload := [(qs "arguments", .array (arguments.map .string))] }

structure ApplicationCommandReply where
  handled : Bool := false
  exitCode : Int := 0
  standardOutput : QByteArray := []
  standardError : QByteArray := []
  deriving DecidableEq

def resultEnvelope (requestId : QString) (ready : Bool) (reply : ApplicationCommandReply) : Envelope :=
  { type := .ApplicationCommandResult, requestId,
    payload := [(qs "handled", .bool reply.handled), (qs "retryable", .bool !ready),
      (qs "exitCode", .integer (max 0 (min reply.exitCode 255))),
      (qs "stdout", .byteArray reply.standardOutput), (qs "stderr", .byteArray reply.standardError)] }

/-! ## The GUI's end -/

def commandInternalFailureExitCode : Int := 12

/-- An output that is too long is replaced by a failure. -/
def limitOutput (reply : ApplicationCommandReply) : ApplicationCommandReply :=
  if reply.standardOutput.length + reply.standardError.length > maximumCombinedOutputBytes then
    { handled := true, exitCode := commandInternalFailureExitCode,
      standardError := toUtf8 (qs "The GUI command output exceeded the local IPC limit.\n") }
  else reply

abbrev CommandHandler := QStringList → ApplicationCommandReply

/-- What a read of the GUI makes visible. -/
inductive SocketEffect where
  | activationRequested (paths : QStringList)
  | handlerCalled (arguments : QStringList) (reply : ApplicationCommandReply)
  | written (bytes : QByteArray)
  | aborted

variable (cbor : QCborCodec)

/-- The bytes of an envelope; none when it cannot be encoded. -/
def frameBytes (envelope : Envelope) : QByteArray :=
  match FrameCodec.encode cbor envelope with
  | .ok frame => frame
  | .error _ => []

def writeEnvelope (envelope : Envelope) : List SocketEffect :=
  match FrameCodec.encode cbor envelope with
  | .ok frame => [.written frame]
  | .error _ => [.aborted]

/-- The texts of an array that has nothing else in it. -/
def textsOf : List QCborValue → Option QStringList
  | [] => some []
  | .string text :: values => (textsOf values).map (text :: ·)
  | _ :: _ => none

/-- The answer to the first envelope of a read. -/
def answerEnvelope (handler : Option CommandHandler) (envelope : Envelope) : List SocketEffect :=
  if envelope.protocolVersion ≠ kProtocolVersion ∨ envelope.requestId.isEmpty then [.aborted]
  else
    match envelope.type with
    | .ActivateApplication =>
      match envelope.payload.value (qs "filePaths") with
      | .array values =>
        match textsOf values with
        | some paths =>
          .activationRequested paths ::
            writeEnvelope cbor { type := .ActivationAccepted, requestId := envelope.requestId }
        | none => [.aborted]
      | _ => [.aborted]
    | .ApplicationCommand =>
      match decodeCommandArguments envelope.payload with
      | none => [.aborted]
      | some arguments =>
        match handler with
        | none => writeEnvelope cbor (resultEnvelope envelope.requestId false (limitOutput {}))
        | some handler =>
          .handlerCalled arguments (handler arguments) ::
            writeEnvelope cbor (resultEnvelope envelope.requestId true (limitOutput (handler arguments)))
    | _ => [.aborted]

/-- `readSocket`: the decoder after the read, and what was done. -/
def readSocket (handler : Option CommandHandler) (decoder : FrameDecoder) (bytes : QByteArray) :
    FrameDecoder × List SocketEffect :=
  let parsed := decoder.append cbor bytes
  match parsed.1.error, parsed.1.envelopes with
  | some _, _ => (parsed.2, [.aborted])
  | none, [] => (parsed.2, [])
  | none, envelope :: _ => (parsed.2, answerEnvelope cbor handler envelope)

/-! ## The end of the command line -/

inductive ApplicationCommandForwardStatus where
  | Completed | Unavailable | Declined | Indeterminate | ProtocolError
  deriving DecidableEq, Repr

structure ApplicationCommandForwardResult where
  status : ApplicationCommandForwardStatus := .Unavailable
  exitCode : Int := 0
  standardOutput : QByteArray := []
  standardError : QByteArray := []
  error : QString := []
  deriving DecidableEq

/-- After these the command line does the work itself. -/
def ApplicationCommandForwardResult.canExecuteLocally (result : ApplicationCommandForwardResult) : Bool :=
  result.status == .Unavailable || result.status == .Declined

def failed (status : ApplicationCommandForwardStatus) (message : QString) : ApplicationCommandForwardResult :=
  { status, error := message }

/-- What a reply says: whether to try again, and the reply of the handler. -/
def commandReply (requestId : QString) (reply : Envelope) : Except QString (Bool × ApplicationCommandReply) :=
  if reply.protocolVersion ≠ kProtocolVersion ∨ reply.type ≠ .ApplicationCommandResult ∨
      reply.requestId ≠ requestId then
    .error (qs "The GUI returned an invalid command response.")
  else
    match reply.payload.value (qs "handled"), reply.payload.value (qs "retryable"),
        reply.payload.value (qs "exitCode"), reply.payload.value (qs "stdout"),
        reply.payload.value (qs "stderr") with
    | .bool handled, .bool retryable, .integer exitCode, .byteArray standardOutput,
        .byteArray standardError =>
      if exitCode < 0 ∨ exitCode > 255 ∨
          standardOutput.length + standardError.length > maximumCombinedOutputBytes then
        .error (qs "The GUI command response exceeds protocol limits.")
      else .ok (retryable, { handled, exitCode, standardOutput, standardError })
    | _, _, _, _, _ => .error (qs "The GUI command response has invalid fields.")

inductive ReplyRead where
  | incomplete (decoder : FrameDecoder)
  | retryWhenReady
  | result (result : ApplicationCommandForwardResult)

def resultOf (reply : ApplicationCommandReply) : ApplicationCommandForwardResult :=
  { status := if reply.handled then .Completed else .Declined
    exitCode := reply.exitCode
    standardOutput := reply.standardOutput
    standardError := reply.standardError }

/-- One read of the command line, behind `waitForReadyRead`. -/
def readReply (requestId : QString) (decoder : FrameDecoder) (bytes : QByteArray) : ReplyRead :=
  let parsed := decoder.append cbor bytes
  match parsed.1.error, parsed.1.envelopes with
  | some error, _ => .result (failed .ProtocolError error.detail)
  | none, [] => .incomplete parsed.2
  | none, reply :: _ =>
    match commandReply requestId reply with
    | .error message => .result (failed .ProtocolError message)
    | .ok (true, _) => .retryWhenReady
    | .ok (false, reply) => .result (resultOf reply)

/-! ## The same limits -/

variable {cbor} {decoder : FrameDecoder} {sent arrived : Envelope} {bytes : QByteArray}

theorem value_head (key : QString) (value : QCborValue) (entries : QCborMap) :
    QCborMap.value ((key, value) :: entries) key = value := by
  unfold QCborMap.value
  rw [List.find?_cons_of_pos (by rw [beq_self_eq_true])]

/-- What the one loop lets through, the other takes as it has arrived. -/
theorem decodeArguments_map {arguments : QStringList} :
    ∀ {combinedBytes : Nat}, checkArguments combinedBytes arguments = .ok () →
      decodeArguments combinedBytes ((arguments.map wireText).map .string) = some (arguments.map wireText) := by
  induction arguments with
  | nil => exact fun _ => rfl
  | cons argument arguments ih =>
    intro combinedBytes h
    unfold checkArguments at h
    dsimp only at h
    split at h
    · cases h
    next hbytes =>
      split at h
      · cases h
      next hcombined =>
        show (if _ then none else _) = _
        rw [toUtf8_wireText, if_neg (not_or.mpr ⟨hbytes, hcombined⟩), ih h]
        rfl

theorem argumentsAreValid_eq_ok {arguments : QStringList} (h : argumentsAreValid arguments = .ok ()) :
    arguments ≠ [] ∧ arguments.length ≤ maximumArgumentCount ∧ checkArguments 0 arguments = .ok () := by
  unfold argumentsAreValid at h
  split at h
  · cases h
  next hempty =>
    split at h
    · cases h
    next hcount => exact ⟨fun hnil => hempty (by rw [hnil]; rfl), not_lt.mp hcount, h⟩

/-- **What the client sends** is accepted. -/
theorem decodeCommandArguments_command {arguments : QStringList} (requestId : QString)
    (h : argumentsAreValid arguments = .ok ()) :
    decodeCommandArguments (commandEnvelope requestId (arguments.map wireText)).payload =
      some (arguments.map wireText) := by
  obtain ⟨hne, hcount, hcheck⟩ := argumentsAreValid_eq_ok h
  have hvalue : (commandEnvelope requestId (arguments.map wireText)).payload.value (qs "arguments") =
      .array ((arguments.map wireText).map .string) := value_head _ _ []
  unfold decodeCommandArguments
  rw [hvalue]
  dsimp only
  rw [if_neg, decodeArguments_map hcheck]
  rintro (hempty | hmany)
  · rw [List.isEmpty_iff, List.map_eq_nil_iff, List.map_eq_nil_iff] at hempty
    exact hne hempty
  · rw [List.length_map, List.length_map] at hmany
    omega

/-- **What the GUI answers** is understood. -/
theorem commandReply_result (requestId : QString) (ready : Bool) (reply : ApplicationCommandReply) :
    commandReply requestId (resultEnvelope requestId ready (limitOutput reply)) =
      .ok (!ready, { limitOutput reply with exitCode := max 0 (min (limitOutput reply).exitCode 255) }) := by
  have hlimit : (limitOutput reply).standardOutput.length + (limitOutput reply).standardError.length ≤
      maximumCombinedOutputBytes := by
    unfold limitOutput
    split
    · decide +kernel
    next h => exact not_lt.mp h
  unfold commandReply
  rw [if_neg (by rintro (h | h | h) <;> exact h rfl)]
  show (if _ then _ else _) = _
  rw [if_neg]
  rintro (h | h | h) <;> omega

/-- What the envelope adds to the texts. -/
def commandOverhead : Nat := 245

theorem itemBound_command (requestId : QString) (arguments : QStringList) :
    itemBound (.map (commandEnvelope requestId arguments).toCbor) =
      commandOverhead + (toUtf8 requestId).length + valuesBound (arguments.map .string) := by
  -- one key and one value after the other, as `toCbor` has them
  have hfields : itemBound (.map (commandEnvelope requestId arguments).toCbor) =
      9 + (9 + 15 + 9 + (9 + 4 + (9 + 18) + (9 + 9 + (9 + (toUtf8 requestId).length) + (9 + 5 + 9 +
        (9 + 13 + 9 + (9 + 12 + 9 + (9 + 7 + (9 + (9 + 9 + (9 + valuesBound (arguments.map .string))))))))))) := by
    simp only [itemBound, entriesBound, Envelope.toCbor, commandEnvelope]
    rfl
  rw [hfields]
  unfold commandOverhead
  omega

theorem valuesBound_checked {arguments : QStringList} :
    ∀ {combinedBytes : Nat}, combinedBytes ≤ maximumCombinedArgumentBytes →
      checkArguments combinedBytes arguments = .ok () →
        combinedBytes + valuesBound (arguments.map .string) ≤ maximumCombinedArgumentBytes + 9 * arguments.length := by
  induction arguments with
  | nil => exact fun h _ => h
  | cons argument arguments ih =>
    intro combinedBytes hle h
    unfold checkArguments at h
    dsimp only at h
    split at h
    · cases h
    split at h
    · cases h
    next hcombined =>
      have hrest := ih (not_lt.mp hcombined) h
      have hfirst : valuesBound ((argument :: arguments).map .string) =
          9 + (toUtf8 argument).length + valuesBound (arguments.map .string) := rfl
      rw [hfirst, List.length_cons]
      omega

/-- **A command that is admitted** can be encoded. -/
theorem encode_command (hshort : ShortItems cbor) (requestId : QUuid) {arguments : QStringList}
    (h : argumentsAreValid arguments = .ok ()) :
    FrameCodec.encode cbor (commandEnvelope requestId.text arguments) =
      .ok (frameBytes cbor (commandEnvelope requestId.text arguments)) := by
  obtain ⟨hne, hcount, hcheck⟩ := argumentsAreValid_eq_ok h
  obtain ⟨hbody, hlength⟩ := hshort (.map (commandEnvelope requestId.text arguments).toCbor)
  have hid : (toUtf8 requestId.text).length = 36 := (length_asciiText requestId.ascii_text).trans requestId.length_text
  have hvalues := valuesBound_checked (Nat.zero_le _) hcheck
  have hbound := itemBound_command requestId.text arguments
  have hencode := encode_of_length hbody (by
    have hcombined : maximumCombinedArgumentBytes = 524288 := rfl
    have hmany : maximumArgumentCount = 256 := rfl
    have hlimit : kMaximumMessageSize = 16777216 := rfl
    have hoverhead : commandOverhead = 245 := rfl
    omega)
  unfold frameBytes
  rw [hencode]
/-! ## One frame on a connection -/

/-- What the reader makes of an envelope that the writer has written. -/
def Carries (cbor : QCborCodec) (sent arrived : Envelope) : Prop :=
  (cbor.fromCbor (cbor.toCbor (.map sent.toCbor))).failed = false ∧
    (cbor.fromCbor (cbor.toCbor (.map sent.toCbor))).value = .map arrived.toCbor

theorem decodeBody_carried (h : Carries cbor sent arrived) :
    decodeBody cbor (cbor.toCbor (.map sent.toCbor)) = .ok arrived :=
  decodeBody_of_item h.1 h.2 (Envelope.fromCbor_toCbor arrived)

theorem nextFrame_frame {frame : QByteArray} (hcarries : Carries cbor sent arrived)
    (hencode : FrameCodec.encode cbor sent = .ok frame) :
    nextFrame cbor kMaximumMessageSize frame = .item arrived [] := by
  obtain ⟨rfl, hne, hmax⟩ := encode_eq_ok hencode
  have hlimit : kMaximumMessageSize = 16777216 := rfl
  have hframe := @nextFrame_frameOf cbor kMaximumMessageSize _ [] hne hmax (by omega)
  rw [List.append_nil, decodeBody_carried hcarries] at hframe
  exact hframe

/-- A front part of a frame holds nothing yet, unless it is the frame. -/
theorem nextFrame_front (hcarries : Carries cbor sent arrived) (hfront : bytes <+: frameBytes cbor sent) :
    nextFrame cbor kMaximumMessageSize bytes = .more ∨
      bytes = frameBytes cbor sent ∧ nextFrame cbor kMaximumMessageSize bytes = .item arrived [] := by
  unfold frameBytes at hfront ⊢
  cases hencode : FrameCodec.encode cbor sent with
  | error error =>
    rw [hencode] at hfront
    rw [List.prefix_nil.mp hfront]
    exact Or.inl rfl
  | ok frame =>
    rw [hencode] at hfront
    by_cases hmore : nextFrame cbor kMaximumMessageSize bytes = .more
    · exact Or.inl hmore
    obtain ⟨extra, hextra⟩ := hfront
    have happend := nextFrame_append extra hmore
    rw [hextra, nextFrame_frame hcarries hencode] at happend
    -- nothing can be behind what has been read
    cases hnext : nextFrame cbor kMaximumMessageSize bytes with
    | more => exact absurd hnext hmore
    | error error rest =>
      rw [hnext] at happend
      cases happend
    | item envelope rest =>
      rw [hnext] at happend
      injection happend with henvelope hrest
      obtain ⟨rfl, rfl⟩ := List.append_eq_nil_iff.mp hrest.symm
      rw [List.append_nil] at hextra
      exact Or.inr ⟨hextra, by rw [henvelope]⟩

/-- **One read** of a connection that carries one frame. -/
theorem append_front {held : QByteArray} (hcarries : Carries cbor sent arrived)
    (hfront : held ++ bytes <+: frameBytes cbor sent) :
    ({ buffer := held } : FrameDecoder).append cbor bytes = ({}, { buffer := held ++ bytes }) ∨
      held ++ bytes = frameBytes cbor sent ∧
        ({ buffer := held } : FrameDecoder).append cbor bytes = ({ envelopes := [arrived] }, {}) := by
  have hopen : ({ buffer := held } : FrameDecoder).append cbor bytes = _ := append_open rfl bytes
  rcases nextFrame_front hcarries hfront with hmore | ⟨hwhole, hitem⟩
  · refine Or.inl (hopen.trans ?_)
    dsimp only
    rw [Framing.drain_more hmore]
    rfl
  · refine Or.inr ⟨hwhole, hopen.trans ?_⟩
    dsimp only
    rw [Framing.drain_item hitem, Framing.drain_more rfl]
    rfl

/-- What the GUI's decoders make of a command, read by read. -/
def delivered (cbor : QCborCodec) (reads : List QByteArray) : List (Option QStringList) :=
  (emitted (({} : FrameDecoder).appendAll cbor reads).1).map fun envelope =>
    decodeCommandArguments envelope.payload

/-- **A command that is admitted** is delivered, whatever the reads. -/
theorem delivered_command (hshort : ShortItems cbor) {requestId : QUuid} {arguments : QStringList}
    (hvalid : argumentsAreValid arguments = .ok ())
    (hcarries : Carries cbor (commandEnvelope requestId.text arguments)
      (commandEnvelope requestId.text (arguments.map wireText)))
    {reads : List QByteArray}
    (hreads : reads.flatten = frameBytes cbor (commandEnvelope requestId.text arguments)) :
    delivered cbor reads = [some (arguments.map wireText)] := by
  have hnext := nextFrame_frame hcarries (encode_command hshort requestId hvalid)
  have hall := (@append_reads cbor kMaximumMessageSize reads).1
  rw [append_open rfl] at hall
  dsimp only at hall
  rw [hreads, List.nil_append, Framing.drain_item hnext, Framing.drain_more rfl] at hall
  have hemitted : emitted (({} : FrameDecoder).appendAll cbor reads).1 =
      [commandEnvelope requestId.text (arguments.map wireText)] := hall
  unfold delivered
  rw [hemitted, List.map_singleton, decodeCommandArguments_command requestId.text hvalid]

end BreezeDesk.Ipc
