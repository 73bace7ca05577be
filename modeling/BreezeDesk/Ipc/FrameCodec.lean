/-
  `FrameCodec` — envelopes in a stream of bytes.

  A frame is the length of its body, four bytes with the most significant first, and the body, the CBOR
  of one envelope.  `FrameDecoder.append` takes whatever a read has delivered, and gives the envelopes
  that are complete and the first error; after an error it has to be reset.

  One turn of its loop is a `Framing`, so the division into reads does not matter
  (`append_reads`), and what `FrameCodec.encode` writes comes out again (`append_encoded`).

  Two results for the whole decoder close the module: `decoding_of_reads`, and `exactBody_iff` for the
  bodies it accepts.  The reader stops behind the first item, and `FrameDecoder` never compares the offset
  with the length of the body, so what is behind the envelope is not looked at.
-/
import BreezeDesk.Ipc.Cbor
import BreezeDesk.Ipc.Protocol
import BreezeDesk.Library.Framing

namespace BreezeDesk.Ipc

variable (cbor : QCborCodec)

/-! ## Encoding -/

def frameOf (body : QByteArray) : QByteArray := toBigEndian body.length ++ body

def FrameCodec.encode (envelope : Envelope) : Except ProtocolError QByteArray :=
  let body := cbor.toCbor (.map envelope.toCbor)
  if body.isEmpty then
    .error ⟨.InvalidEnvelope, qs "CBOR serialization produced an empty body"⟩
  else if body.length > kMaximumMessageSize ∨ body.length > 2 ^ 32 - 1 then
    .error ⟨.FrameTooLarge, qs "Serialized message exceeds the protocol limit"⟩
  else .ok (frameOf body)

/-! ## Decoding -/

structure FrameParseResult where
  envelopes : List Envelope := []
  error : Option ProtocolError := none

structure FrameDecoder where
  buffer : QByteArray := []
  maximumMessageSize : Nat := kMaximumMessageSize
  fatalError : Bool := false

def zeroLengthError : ProtocolError :=
  ⟨.InvalidFrameLength, qs "Zero-length frames are not valid"⟩

def tooLargeError (length maximum : Nat) : ProtocolError :=
  ⟨.FrameTooLarge, qs ("Frame length " ++ toString length ++ " exceeds limit " ++ toString maximum)⟩

def invalidCborError (offset : Nat) : ProtocolError :=
  ⟨.InvalidCbor, qs ("Invalid CBOR payload at offset " ++ toString offset)⟩

/-- The body of a frame. -/
def decodeBody (body : QByteArray) : Except ProtocolError Envelope :=
  let parsed := cbor.fromCbor body
  match parsed.failed, parsed.value with
  | false, .map map => Envelope.fromCbor map
  | _, _ => .error (invalidCborError parsed.offset)

/-- The rest of a turn, once the length is read. -/
def readFrame (maximum length : Nat) (buffer behind : QByteArray) :
    Outcome Envelope UInt8 ProtocolError :=
  if length = 0 then .error zeroLengthError buffer
  else if length > maximum then .error (tooLargeError length maximum) buffer
  else if behind.length < length then .more
  else
    match decodeBody cbor (behind.take length) with
    | .ok envelope => .item envelope (behind.drop length)
    | .error error => .error error (behind.drop length)

/-- One turn of the loop in `append`. -/
def nextFrame (maximum : Nat) (buffer : QByteArray) : Outcome Envelope UInt8 ProtocolError :=
  match buffer with
  | b0 :: b1 :: b2 :: b3 :: behind => readFrame cbor maximum (fromBigEndian b0 b1 b2 b3) buffer behind
  | _ => .more

variable {cbor} {maximum : Nat}

theorem readFrame_complete {length : Nat} {buffer behind : QByteArray} (hzero : length ≠ 0)
    (hmax : length ≤ maximum) (hlength : length ≤ behind.length) :
    readFrame cbor maximum length buffer behind =
      match decodeBody cbor (behind.take length) with
      | .ok envelope => .item envelope (behind.drop length)
      | .error error => .error error (behind.drop length) := by
  unfold readFrame
  rw [if_neg hzero, if_neg (not_lt.mpr hmax), if_neg (not_lt.mpr hlength)]

theorem readFrame_append {length : Nat} {buffer behind : QByteArray} (extra : QByteArray)
    (h : readFrame cbor maximum length buffer behind ≠ .more) :
    readFrame cbor maximum length (buffer ++ extra) (behind ++ extra) =
      match readFrame cbor maximum length buffer behind with
      | .item envelope rest => .item envelope (rest ++ extra)
      | .more => .more
      | .error error rest => .error error (rest ++ extra) := by
  by_cases hzero : length = 0
  · unfold readFrame
    rw [if_pos hzero, if_pos hzero]
  by_cases hmax : length ≤ maximum
  · by_cases hlength : length ≤ behind.length
    · rw [readFrame_complete hzero hmax hlength,
        readFrame_complete hzero hmax (by rw [List.length_append]; omega),
        List.take_append_of_le_length hlength, List.drop_append_of_le_length hlength]
      cases decodeBody cbor (behind.take length) <;> rfl
    · unfold readFrame at h
      rw [if_neg hzero, if_neg (not_lt.mpr hmax), if_pos (not_le.mp hlength)] at h
      exact absurd rfl h
  · unfold readFrame
    rw [if_neg hzero, if_neg hzero, if_pos (not_le.mp hmax), if_pos (not_le.mp hmax)]

/-- **Bytes that come later** do not change what the front of the buffer is. -/
theorem nextFrame_append {buffer : QByteArray} (extra : QByteArray)
    (h : nextFrame cbor maximum buffer ≠ .more) :
    nextFrame cbor maximum (buffer ++ extra) =
      match nextFrame cbor maximum buffer with
      | .item envelope rest => .item envelope (rest ++ extra)
      | .more => .more
      | .error error rest => .error error (rest ++ extra) := by
  match buffer with
  | [] | [_] | [_, _] | [_, _, _] => exact absurd rfl h
  | b0 :: b1 :: b2 :: b3 :: behind => exact readFrame_append extra h

theorem nextFrame_shrinks {buffer rest : QByteArray} {envelope : Envelope}
    (h : nextFrame cbor maximum buffer = .item envelope rest) : rest.length < buffer.length := by
  match buffer with
  | [] | [_] | [_, _] | [_, _, _] => cases h
  | b0 :: b1 :: b2 :: b3 :: behind =>
    have hread : readFrame cbor maximum (fromBigEndian b0 b1 b2 b3) (b0 :: b1 :: b2 :: b3 :: behind) behind =
        .item envelope rest := h
    generalize fromBigEndian b0 b1 b2 b3 = length at hread
    unfold readFrame at hread
    split at hread
    · cases hread
    split at hread
    · cases hread
    split at hread
    · cases hread
    split at hread
    · cases hread
      simp only [List.length_drop, List.length_cons]
      omega
    · cases hread

variable (cbor maximum)

/-- The turn as a framing. -/
def frames : Framing Envelope UInt8 ProtocolError where
  next := nextFrame cbor maximum
  shrinks := nextFrame_shrinks
  item_append := fun extra h => by rw [nextFrame_append extra (by rw [h]; nofun), h]
  error_append := fun extra h => by rw [nextFrame_append extra (by rw [h]; nofun), h]

theorem frames_next (buffer : QByteArray) :
    (frames cbor maximum).next buffer = nextFrame cbor maximum buffer := rfl

def resetRequiredError : ProtocolError :=
  ⟨.InvalidFrameLength, qs "Decoder must be reset after a fatal framing error"⟩

namespace FrameDecoder

/-- `append`: the bytes are put behind the buffer, and the loop runs. -/
def append (decoder : FrameDecoder) (bytes : QByteArray) : FrameParseResult × FrameDecoder :=
  if decoder.fatalError then ({ error := some resetRequiredError }, decoder)
  else
    let drained := (frames cbor decoder.maximumMessageSize).drain (decoder.buffer ++ bytes)
    ({ envelopes := drained.items, error := drained.error },
      { decoder with buffer := drained.rest, fatalError := drained.error.isSome })

def reset (decoder : FrameDecoder) : FrameDecoder :=
  { decoder with buffer := [], fatalError := false }

/-- The reads of a connection, one `append` each. -/
def appendAll : FrameDecoder → List QByteArray → List FrameParseResult × FrameDecoder
  | decoder, [] => ([], decoder)
  | decoder, bytes :: reads =>
    let first := decoder.append cbor bytes
    let others := appendAll first.2 reads
    (first.1 :: others.1, others.2)

end FrameDecoder

/-- All envelopes of a sequence of reads. -/
def emitted (results : List FrameParseResult) : List Envelope := results.flatMap (·.envelopes)

def firstError (results : List FrameParseResult) : Option ProtocolError := results.findSome? (·.error)

/-! ## Reads -/

variable {cbor maximum} {decoder : FrameDecoder}

/-- **After an error** nothing is emitted until the decoder is reset. -/
theorem appendAll_fatal (hfatal : decoder.fatalError = true) (reads : List QByteArray) :
    emitted (decoder.appendAll cbor reads).1 = [] ∧ (decoder.appendAll cbor reads).2 = decoder ∧
      ∀ result ∈ (decoder.appendAll cbor reads).1, result.error = some resetRequiredError := by
  have hstep : ∀ bytes, decoder.append cbor bytes = ({ error := some resetRequiredError }, decoder) := by
    intro bytes
    unfold FrameDecoder.append
    rw [if_pos hfatal]
  induction reads with
  | nil => exact ⟨rfl, rfl, fun result hmem => (by cases hmem)⟩
  | cons bytes reads ih =>
    obtain ⟨hnone, hsame, herrors⟩ := ih
    unfold FrameDecoder.appendAll
    rw [hstep bytes]
    refine ⟨hnone, hsame, fun result hmem => ?_⟩
    rcases List.mem_cons.mp hmem with rfl | hmem
    · rfl
    · exact herrors result hmem

theorem append_open (h : decoder.fatalError = false) (bytes : QByteArray) :
    decoder.append cbor bytes =
      ({ envelopes := ((frames cbor decoder.maximumMessageSize).drain (decoder.buffer ++ bytes)).items
         error := ((frames cbor decoder.maximumMessageSize).drain (decoder.buffer ++ bytes)).error },
        { decoder with
          buffer := ((frames cbor decoder.maximumMessageSize).drain (decoder.buffer ++ bytes)).rest
          fatalError :=
            ((frames cbor decoder.maximumMessageSize).drain (decoder.buffer ++ bytes)).error.isSome }) := by
  unfold FrameDecoder.append
  rw [h]
  rfl

/-- The reads feed the framing. -/
theorem appendAll_feed (reads : List QByteArray) :
    ∀ {decoder : FrameDecoder}, decoder.fatalError = false →
      emitted (decoder.appendAll cbor reads).1 =
          ((frames cbor decoder.maximumMessageSize).feed decoder.buffer reads).items ∧
        firstError (decoder.appendAll cbor reads).1 =
          ((frames cbor decoder.maximumMessageSize).feed decoder.buffer reads).error ∧
        (firstError (decoder.appendAll cbor reads).1 = none →
          (decoder.appendAll cbor reads).2.fatalError = false ∧ (decoder.appendAll cbor reads).2.buffer =
            ((frames cbor decoder.maximumMessageSize).feed decoder.buffer reads).rest) := by
  induction reads with
  | nil => exact fun h => ⟨rfl, rfl, fun _ => ⟨h, rfl⟩⟩
  | cons bytes reads ih =>
    intro decoder h
    have hfirst : decoder.append cbor bytes = _ := append_open h bytes
    unfold FrameDecoder.appendAll Framing.feed
    rw [hfirst]
    generalize (frames cbor decoder.maximumMessageSize).drain (decoder.buffer ++ bytes) = drained
    dsimp only
    cases herror : drained.error with
    | none =>
      let next : FrameDecoder := { decoder with buffer := drained.rest, fatalError := false }
      obtain ⟨hitems, herrors, hrest⟩ := ih (show next.fatalError = false from rfl)
      exact ⟨congrArg (drained.items ++ ·) hitems, herrors, hrest⟩
    | some error =>
      let next : FrameDecoder := { decoder with buffer := drained.rest, fatalError := true }
      have hnone : emitted (next.appendAll cbor reads).1 = [] := (appendAll_fatal rfl reads).1
      refine ⟨?_, rfl, fun hfirst => (by cases hfirst)⟩
      show drained.items ++ emitted (next.appendAll cbor reads).1 = drained.items
      rw [hnone, List.append_nil]

/-- **The division into reads** does not matter. -/
theorem append_reads (reads : List QByteArray) :
    emitted (({ maximumMessageSize := maximum } : FrameDecoder).appendAll cbor reads).1 =
        (({ maximumMessageSize := maximum } : FrameDecoder).append cbor reads.flatten).1.envelopes ∧
      firstError (({ maximumMessageSize := maximum } : FrameDecoder).appendAll cbor reads).1 =
        (({ maximumMessageSize := maximum } : FrameDecoder).append cbor reads.flatten).1.error := by
  have hempty : (frames cbor maximum).next [] = .more := rfl
  obtain ⟨hitems, herror, -⟩ := Framing.feed_flatten reads hempty
  have hopen : ({ maximumMessageSize := maximum } : FrameDecoder).fatalError = false := rfl
  obtain ⟨hemitted, hfirst, -⟩ := @appendAll_feed cbor reads _ hopen
  exact ⟨hemitted.trans hitems, hfirst.trans herror⟩

/-- A buffer in which nothing can be read yet is shorter than a frame can be. -/
theorem length_of_more {buffer : QByteArray} (h : nextFrame cbor maximum buffer = .more) :
    buffer.length < kFramePrefixSize + maximum := by
  have hprefix : kFramePrefixSize = 4 := rfl
  match buffer with
  | [] | [_] | [_, _] | [_, _, _] =>
    simp only [List.length_cons, List.length_nil]
    omega
  | b0 :: b1 :: b2 :: b3 :: behind =>
    have hread : readFrame cbor maximum (fromBigEndian b0 b1 b2 b3) (b0 :: b1 :: b2 :: b3 :: behind) behind =
        .more := h
    generalize fromBigEndian b0 b1 b2 b3 = length at hread
    by_cases hzero : length = 0
    · unfold readFrame at hread
      rw [if_pos hzero] at hread
      cases hread
    by_cases hmax : length ≤ maximum
    · by_cases hlength : length ≤ behind.length
      · rw [readFrame_complete hzero hmax hlength] at hread
        cases hbody : decodeBody cbor (behind.take length) <;> rw [hbody] at hread <;> cases hread
      · simp only [List.length_cons]
        omega
    · unfold readFrame at hread
      rw [if_neg hzero, if_pos (not_le.mp hmax)] at hread
      cases hread

/-- **Between reads** less than one frame is held. -/
theorem bufferedBytes_lt (reads : List QByteArray)
    (h : firstError (({ maximumMessageSize := maximum } : FrameDecoder).appendAll cbor reads).1 = none) :
    (({ maximumMessageSize := maximum } : FrameDecoder).appendAll cbor reads).2.buffer.length <
      kFramePrefixSize + maximum := by
  have hempty : (frames cbor maximum).next [] = .more := rfl
  obtain ⟨-, herror, hrest⟩ := Framing.feed_flatten reads hempty
  have hopen : ({ maximumMessageSize := maximum } : FrameDecoder).fatalError = false := rfl
  obtain ⟨-, hfirst, hdecoder⟩ := @appendAll_feed cbor reads _ hopen
  have hnone := hfirst.symm.trans h
  rw [(hdecoder h).2]
  show ((frames cbor maximum).feed [] reads).rest.length < _
  rw [hrest hnone]
  exact length_of_more (Framing.drain_rest (herror.symm.trans hnone))

/-! ## Encoded envelopes -/

/-- A complete frame at the front of the buffer. -/
theorem nextFrame_frameOf {body : QByteArray} (extra : QByteArray) (hne : body ≠ [])
    (hmax : body.length ≤ maximum) (h32 : body.length < 2 ^ 32) :
    nextFrame cbor maximum (frameOf body ++ extra) =
      match decodeBody cbor body with
      | .ok envelope => .item envelope extra
      | .error error => .error error extra := by
  have hlength : body.length ≠ 0 := fun h => hne (List.length_eq_zero_iff.mp h)
  have hread : nextFrame cbor maximum (frameOf body ++ extra) =
      readFrame cbor maximum (fromBigEndian (UInt8.ofNat (body.length / 2 ^ 24))
        (UInt8.ofNat (body.length / 2 ^ 16)) (UInt8.ofNat (body.length / 2 ^ 8)) (UInt8.ofNat body.length))
        (frameOf body ++ extra) (body ++ extra) := rfl
  rw [hread, fromBigEndian_toBigEndian h32,
    readFrame_complete hlength hmax (by rw [List.length_append]; omega), List.take_left, List.drop_left]

/-- The CBOR reader gets back the map of an envelope that the writer has written. -/
def ReadsBack (cbor : QCborCodec) (envelope : Envelope) : Prop :=
  (cbor.fromCbor (cbor.toCbor (.map envelope.toCbor))).failed = false ∧
    (cbor.fromCbor (cbor.toCbor (.map envelope.toCbor))).value = .map envelope.toCbor

theorem decodeBody_encoded {envelope : Envelope} (h : ReadsBack cbor envelope) :
    decodeBody cbor (cbor.toCbor (.map envelope.toCbor)) = .ok envelope := by
  unfold decodeBody
  dsimp only
  rw [h.1, h.2]
  exact Envelope.fromCbor_toCbor envelope

theorem encode_eq_ok {envelope : Envelope} {frame : QByteArray} (h : FrameCodec.encode cbor envelope = .ok frame) :
    frame = frameOf (cbor.toCbor (.map envelope.toCbor)) ∧ cbor.toCbor (.map envelope.toCbor) ≠ [] ∧
      (cbor.toCbor (.map envelope.toCbor)).length ≤ kMaximumMessageSize := by
  unfold FrameCodec.encode at h
  dsimp only at h
  split at h
  · cases h
  next hempty =>
    split at h
    · cases h
    next hsize =>
      cases h
      refine ⟨rfl, fun hnil => hempty (by rw [hnil]; rfl), ?_⟩
      exact not_lt.mp fun hlt => hsize (Or.inl hlt)

theorem encode_of_length {envelope : Envelope} (hne : cbor.toCbor (.map envelope.toCbor) ≠ [])
    (hmax : (cbor.toCbor (.map envelope.toCbor)).length ≤ kMaximumMessageSize) :
    FrameCodec.encode cbor envelope = .ok (frameOf (cbor.toCbor (.map envelope.toCbor))) := by
  have hlimit : kMaximumMessageSize = 16777216 := rfl
  unfold FrameCodec.encode
  dsimp only
  rw [if_neg (fun h => hne (List.isEmpty_iff.mp h)), if_neg (by omega)]

/-- What the encoder has written is read back, frame by frame. -/
theorem drain_encoded :
    ∀ {envelopes : List Envelope} {encoded : List QByteArray},
      envelopes.map (FrameCodec.encode cbor) = encoded.map .ok →
      (∀ envelope ∈ envelopes, ReadsBack cbor envelope) →
      (frames cbor kMaximumMessageSize).drain encoded.flatten = ⟨envelopes, none, []⟩ := by
  intro envelopes
  induction envelopes with
  | nil =>
    intro encoded h _
    rw [List.map_nil, eq_comm, List.map_eq_nil_iff] at h
    rw [h]
    exact Framing.drain_more rfl
  | cons envelope envelopes ih =>
    intro encoded h hread
    cases encoded with
    | nil => cases h
    | cons frame encoded =>
      rw [List.map_cons, List.map_cons, List.cons.injEq] at h
      obtain ⟨rfl, hne, hmax⟩ := encode_eq_ok h.1
      have h32 : (cbor.toCbor (.map envelope.toCbor)).length < 2 ^ 32 := by
        have : kMaximumMessageSize = 16777216 := rfl
        omega
      have hnext : (frames cbor kMaximumMessageSize).next
          (frameOf (cbor.toCbor (.map envelope.toCbor)) ++ encoded.flatten) = .item envelope encoded.flatten := by
        rw [frames_next, nextFrame_frameOf encoded.flatten hne hmax h32,
          decodeBody_encoded (hread envelope (List.mem_cons_self ..))]
      rw [List.flatten_cons, Framing.drain_item hnext,
        ih h.2 fun other hmem => hread other (List.mem_cons_of_mem _ hmem)]

/-- **Envelopes come out as they went in**, whatever the reads. -/
theorem append_encoded {envelopes : List Envelope} {encoded reads : List QByteArray}
    (hencoded : envelopes.map (FrameCodec.encode cbor) = encoded.map .ok)
    (hread : ∀ envelope ∈ envelopes, ReadsBack cbor envelope) (hreads : reads.flatten = encoded.flatten) :
    emitted (({} : FrameDecoder).appendAll cbor reads).1 = envelopes ∧
      firstError (({} : FrameDecoder).appendAll cbor reads).1 = none := by
  have hall := @append_reads cbor kMaximumMessageSize reads
  have hdrained : (({} : FrameDecoder).append cbor reads.flatten).1 = { envelopes, error := none } := by
    rw [append_open rfl, hreads]
    show FrameParseResult.mk ((frames cbor kMaximumMessageSize).drain encoded.flatten).items
      ((frames cbor kMaximumMessageSize).drain encoded.flatten).error = _
    rw [drain_encoded hencoded hread]
  rw [hdrained] at hall
  exact hall

/-! ## Whole streams -/

/-- Without a first error there is none at all; with one the decoder waits for its reset. -/
theorem fatalError_of_firstError (reads : List QByteArray) :
    ∀ {decoder : FrameDecoder}, firstError (decoder.appendAll cbor reads).1 ≠ none →
      (decoder.appendAll cbor reads).2.fatalError = true := by
  induction reads with
  | nil => exact fun h => absurd rfl h
  | cons bytes reads ih =>
    intro decoder h
    cases hfatal : decoder.fatalError with
    | true =>
      obtain ⟨-, hsame, -⟩ := @appendAll_fatal cbor _ hfatal (bytes :: reads)
      rw [hsame]
      exact hfatal
    | false =>
      unfold FrameDecoder.appendAll at h ⊢
      rw [append_open hfatal bytes] at h ⊢
      generalize (frames cbor decoder.maximumMessageSize).drain (decoder.buffer ++ bytes) = drained at h ⊢
      dsimp only at h ⊢
      cases herror : drained.error with
      | none =>
        rw [herror] at h
        exact ih h
      | some error =>
        obtain ⟨-, hsame, -⟩ := @appendAll_fatal cbor { decoder with
          buffer := drained.rest
          fatalError := true } rfl reads
        show (FrameDecoder.appendAll cbor _ reads).2.fatalError = true
        rw [show (some error).isSome = true from rfl, hsame]

theorem maximum_appendAll (reads : List QByteArray) :
    ∀ {decoder : FrameDecoder},
      (decoder.appendAll cbor reads).2.maximumMessageSize = decoder.maximumMessageSize := by
  induction reads with
  | nil => exact rfl
  | cons bytes reads ih =>
    intro decoder
    have hfirst : (decoder.append cbor bytes).2.maximumMessageSize = decoder.maximumMessageSize := by
      unfold FrameDecoder.append
      split <;> rfl
    exact ih.trans hfirst

/-- **Decoding undoes encoding, and the reads do not matter.**  Encoded envelopes come out again without
    an error; any stream gives what it gives in one read; after an error nothing comes out until the
    reset, which makes the decoder a fresh one; before an error less than one frame is held. -/
theorem decoding_of_reads (cbor : QCborCodec) :
    (∀ (envelopes : List Envelope) (encoded reads : List QByteArray),
      envelopes.map (FrameCodec.encode cbor) = encoded.map .ok →
      (∀ envelope ∈ envelopes, ReadsBack cbor envelope) → reads.flatten = encoded.flatten →
        emitted (({} : FrameDecoder).appendAll cbor reads).1 = envelopes ∧
          firstError (({} : FrameDecoder).appendAll cbor reads).1 = none) ∧
    ∀ (maximum : Nat) (reads : List QByteArray), let fresh : FrameDecoder := { maximumMessageSize := maximum }
      emitted (fresh.appendAll cbor reads).1 = (fresh.append cbor reads.flatten).1.envelopes ∧
        firstError (fresh.appendAll cbor reads).1 = (fresh.append cbor reads.flatten).1.error ∧
        (firstError (fresh.appendAll cbor reads).1 ≠ none → ∀ later,
          emitted ((fresh.appendAll cbor reads).2.appendAll cbor later).1 = [] ∧
            ((fresh.appendAll cbor reads).2.appendAll cbor later).2.reset = fresh) ∧
        (firstError (fresh.appendAll cbor reads).1 = none →
          (fresh.appendAll cbor reads).2.buffer.length < kFramePrefixSize + maximum) := by
  refine ⟨fun envelopes encoded reads hencoded hread hreads => append_encoded hencoded hread hreads, ?_⟩
  intro maximum reads fresh
  obtain ⟨hemitted, hfirst⟩ := @append_reads cbor maximum reads
  refine ⟨hemitted, hfirst, fun herror later => ?_, bufferedBytes_lt reads⟩
  have hfatal : (fresh.appendAll cbor reads).2.fatalError = true := fatalError_of_firstError reads herror
  obtain ⟨hnone, hsame, -⟩ := @appendAll_fatal cbor _ hfatal later
  have hmaximum : (fresh.appendAll cbor reads).2.maximumMessageSize = maximum := maximum_appendAll reads
  refine ⟨hnone, ?_⟩
  rw [hsame]
  unfold FrameDecoder.reset
  rw [hmaximum]

/-- A message of the worker. -/
def pongEnvelope : Envelope :=
  { type := .Pong, requestId := qs "p1", workerVersion := qs "1.0", sessionToken := [7, 7, 7, 7],
    payload := [(qs "busy", .bool false), (qs "uptime", .integer 300)] }

def pongBody : QByteArray := definiteCbor.toCbor (.map pongEnvelope.toCbor)

theorem pongBody_length : pongBody.length = 109 := by decide +kernel

theorem pongBody_ne_nil : pongBody ≠ [] := by decide +kernel

theorem pongBody_readsBack : ReadsBack definiteCbor pongEnvelope := by
  constructor
  · decide +kernel
  · cbv

theorem decoding_of_singleBytes :
    emitted (({} : FrameDecoder).appendAll definiteCbor ((frameOf pongBody).map fun byte => [byte])).1 =
        [pongEnvelope] ∧
      firstError (({} : FrameDecoder).appendAll definiteCbor ((frameOf pongBody).map fun byte => [byte])).1 =
        none := by
  have hencoded : FrameCodec.encode definiteCbor pongEnvelope = .ok (frameOf pongBody) :=
    encode_of_length pongBody_ne_nil (show pongBody.length ≤ kMaximumMessageSize by
      rw [pongBody_length]
      decide)
  refine (decoding_of_reads definiteCbor).1 [pongEnvelope] [frameOf pongBody] _ ?_ ?_ ?_
  · exact congrArg (fun frame => [frame]) hencoded
  · intro envelope hmem
    rw [List.mem_singleton.mp hmem]
    exact pongBody_readsBack
  · rw [← List.flatMap_def, List.flatMap_singleton', List.flatten_singleton]

/-! ## Bodies -/

/-- The bytes are, in their entirety, one item that holds the envelope. -/
def EnvelopeItem (cbor : QCborCodec) (bytes : QByteArray) (envelope : Envelope) : Prop :=
  (cbor.fromCbor bytes).failed = false ∧ (cbor.fromCbor bytes).offset = bytes.length ∧
    ∃ map, (cbor.fromCbor bytes).value = .map map ∧ Envelope.fromCbor map = .ok envelope

/-- What a fresh decoder makes of one frame. -/
def parseBody (cbor : QCborCodec) (maximum : Nat) (body : QByteArray) : FrameParseResult :=
  (({ maximumMessageSize := maximum } : FrameDecoder).append cbor (frameOf body)).1

/-- **A body is exactly one map**: an envelope that is read from it fills it, and an envelope with more
    bytes behind it is refused. -/
def ExactBody (cbor : QCborCodec) (maximum : Nat) (body : QByteArray) : Prop :=
  (∀ envelope ∈ (parseBody cbor maximum body).envelopes, EnvelopeItem cbor body envelope) ∧
    ∀ item extra envelope, body = item ++ extra → extra ≠ [] → EnvelopeItem cbor item envelope →
      (parseBody cbor maximum body).envelopes = [] ∧ ∃ error, (parseBody cbor maximum body).error = some error

theorem decodeBody_eq_ok {body : QByteArray} {envelope : Envelope} (h : decodeBody cbor body = .ok envelope) :
    (cbor.fromCbor body).failed = false ∧
      ∃ map, (cbor.fromCbor body).value = .map map ∧ Envelope.fromCbor map = .ok envelope := by
  unfold decodeBody at h
  dsimp only at h
  split at h
  next map hfailed hvalue => exact ⟨hfailed, map, hvalue, h⟩
  · cases h

theorem decodeBody_of_item {body : QByteArray} {envelope : Envelope} {map : QCborMap}
    (hfailed : (cbor.fromCbor body).failed = false) (hvalue : (cbor.fromCbor body).value = .map map)
    (hmap : Envelope.fromCbor map = .ok envelope) : decodeBody cbor body = .ok envelope := by
  unfold decodeBody
  dsimp only
  rw [hfailed, hvalue]
  exact hmap

theorem parseBody_eq {body : QByteArray} (hne : body ≠ []) (hmax : body.length ≤ maximum)
    (h32 : maximum < 2 ^ 32) :
    parseBody cbor maximum body =
      match decodeBody cbor body with
      | .ok envelope => { envelopes := [envelope] }
      | .error error => { error := some error } := by
  have hnext : (frames cbor maximum).next (frameOf body) =
      match decodeBody cbor body with
      | .ok envelope => .item envelope []
      | .error error => .error error [] := by
    rw [← List.append_nil (frameOf body), frames_next]
    exact nextFrame_frameOf [] hne hmax (by omega)
  have hparse : parseBody cbor maximum body = { envelopes := ((frames cbor maximum).drain (frameOf body)).items
                                                error := ((frames cbor maximum).drain (frameOf body)).error } := rfl
  rw [hparse]
  cases hbody : decodeBody cbor body with
  | ok envelope =>
    rw [hbody] at hnext
    rw [Framing.drain_item hnext, Framing.drain_more rfl]
  | error error =>
    rw [hbody] at hnext
    rw [Framing.drain_error hnext]

/-- Bytes behind an item do not reach the reader. -/
theorem fromCbor_item (hfirst : ReadsFirstItem cbor) {item : QByteArray} {envelope : Envelope}
    (hitem : EnvelopeItem cbor item envelope) (extra : QByteArray) :
    cbor.fromCbor (item ++ extra) = cbor.fromCbor item := by
  obtain ⟨hfailed, hoffset, -⟩ := hitem
  have hrest := (hfirst item hfailed).2 extra
  rw [hoffset, List.take_length] at hrest
  exact hrest

theorem decodeBody_item (hfirst : ReadsFirstItem cbor) {item : QByteArray} {envelope : Envelope}
    (hitem : EnvelopeItem cbor item envelope) (extra : QByteArray) :
    decodeBody cbor (item ++ extra) = .ok envelope := by
  have hsame := fromCbor_item hfirst hitem extra
  obtain ⟨hfailed, -, map, hvalue, hmap⟩ := hitem
  exact decodeBody_of_item (hsame ▸ hfailed) (hsame ▸ hvalue) hmap

/-- **When the rule is kept**: unless the body is an envelope with more bytes behind it. -/
theorem exactBody_iff (hfirst : ReadsFirstItem cbor) {body : QByteArray} (hne : body ≠ [])
    (hmax : body.length ≤ maximum) (h32 : maximum < 2 ^ 32) :
    ExactBody cbor maximum body ↔
      ¬∃ item extra envelope, body = item ++ extra ∧ extra ≠ [] ∧ EnvelopeItem cbor item envelope := by
  have hparse := @parseBody_eq cbor maximum body hne hmax h32
  constructor
  · rintro ⟨-, hextra⟩ ⟨item, extra, envelope, hbody, hne, hitem⟩
    obtain ⟨hnone, -⟩ := hextra item extra envelope hbody hne hitem
    have haccepted : decodeBody cbor body = .ok envelope := hbody ▸ decodeBody_item hfirst hitem extra
    rw [hparse, haccepted] at hnone
    cases hnone
  · intro hexact
    refine ⟨fun envelope hmem => ?_, fun item extra envelope hbody hne hitem =>
      absurd ⟨item, extra, envelope, hbody, hne, hitem⟩ hexact⟩
    cases hdecoded : decodeBody cbor body with
    | error error =>
      rw [hparse, hdecoded] at hmem
      cases hmem
    | ok accepted =>
      rw [hparse, hdecoded] at hmem
      obtain rfl := List.mem_singleton.mp hmem
      obtain ⟨hfailed, map, hvalue, hmap⟩ := decodeBody_eq_ok hdecoded
      obtain ⟨hoffset, hrest⟩ := hfirst body hfailed
      refine ⟨hfailed, ?_, map, hvalue, hmap⟩
      by_contra hshort
      -- otherwise the first item and what is behind it are such a body
      have hsame : cbor.fromCbor (body.take (cbor.fromCbor body).offset) = cbor.fromCbor body := by
        rw [← List.append_nil (body.take _)]
        exact hrest []
      refine hexact ⟨body.take (cbor.fromCbor body).offset, body.drop (cbor.fromCbor body).offset, envelope,
        (List.take_append_drop ..).symm, ?_, ?_⟩
      · intro hnil
        have := List.drop_eq_nil_iff.mp hnil
        omega
      · unfold EnvelopeItem
        rw [hsame, List.length_take]
        exact ⟨hfailed, by omega, map, hvalue, hmap⟩

theorem exactBody_pong : ExactBody definiteCbor kMaximumMessageSize pongBody := by
  have hmax : pongBody.length ≤ kMaximumMessageSize := by
    rw [pongBody_length]
    decide
  refine (exactBody_iff definiteCbor_readsFirstItem pongBody_ne_nil hmax (by decide)).mpr ?_
  rintro ⟨item, extra, envelope, hbody, hne, hitem⟩
  -- the reader stops at the end of the body
  have hstop : (definiteCbor.fromCbor pongBody).offset = pongBody.length := by decide +kernel
  have hsame := fromCbor_item definiteCbor_readsFirstItem hitem extra
  rw [← hbody] at hsame
  have hlength : pongBody.length = item.length + extra.length := by rw [hbody, List.length_append]
  have hoffset : (definiteCbor.fromCbor item).offset = item.length := hitem.2.1
  rw [hsame, hoffset] at hstop
  exact hne (List.length_eq_zero_iff.mp (by omega))

theorem pongBody_item : EnvelopeItem definiteCbor pongBody pongEnvelope := by
  have hfailed : (definiteCbor.fromCbor pongBody).failed = false := by decide +kernel
  have hoffset : (definiteCbor.fromCbor pongBody).offset = pongBody.length := by decide +kernel
  have hvalue : (definiteCbor.fromCbor pongBody).value = .map pongEnvelope.toCbor := by cbv
  exact ⟨hfailed, hoffset, pongEnvelope.toCbor, hvalue, Envelope.fromCbor_toCbor pongEnvelope⟩

/-- **One more byte** behind an envelope goes through. -/
theorem pongBody_extra :
    ReadsFirstItem definiteCbor ∧ EnvelopeItem definiteCbor pongBody pongEnvelope ∧
      (parseBody definiteCbor kMaximumMessageSize (pongBody ++ [0])).envelopes = [pongEnvelope] ∧
      ¬ExactBody definiteCbor kMaximumMessageSize (pongBody ++ [0]) := by
  have hitem := pongBody_item
  have hmax : (pongBody ++ [0]).length ≤ kMaximumMessageSize := by
    rw [List.length_append, pongBody_length]
    decide
  have hdecoded : decodeBody definiteCbor (pongBody ++ [0]) = .ok pongEnvelope :=
    decodeBody_item definiteCbor_readsFirstItem hitem [0]
  have hparse : (parseBody definiteCbor kMaximumMessageSize (pongBody ++ [0])).envelopes = [pongEnvelope] := by
    rw [parseBody_eq (List.append_ne_nil_of_right_ne_nil _ (List.cons_ne_nil 0 [])) hmax (by decide), hdecoded]
  refine ⟨definiteCbor_readsFirstItem, hitem, hparse, fun hexact => ?_⟩
  obtain ⟨hnone, -⟩ := hexact.2 pongBody [0] pongEnvelope rfl (List.cons_ne_nil 0 []) hitem
  rw [hparse] at hnone
  cases hnone

end BreezeDesk.Ipc
