/-
  Qt's CBOR reader and writer, `QCborValue::fromCbor` and `QCborValue::toCbor`.

  They belong to Qt, so everything that rests on them takes a `QCborCodec`.  What the program relies on
  is documented behaviour and is named here: the reader decodes the first item of the bytes and reports
  where it stopped (`ReadsFirstItem`).

  `definiteCbor` is a codec that can be run: items of definite length, as `toCbor` writes them, without
  floating point numbers.  It reads the first item (`definiteCbor_readsFirstItem`), by induction on the
  depth of nesting.
-/
import BreezeDesk.Core.Values

namespace BreezeDesk

/-! ## UTF-8 -/

def isHighSurrogate (c : QChar) : Bool := 0xD800 ≤ c && c < 0xDC00

def isLowSurrogate (c : QChar) : Bool := 0xDC00 ≤ c && c < 0xE000

/-- One code unit; a surrogate without its other half becomes a question mark. -/
def utf8Unit (c : QChar) : QByteArray :=
  let u := c.toNat
  if u < 0x80 then [UInt8.ofNat u]
  else if u < 0x800 then [UInt8.ofNat (0xC0 + u / 64), UInt8.ofNat (0x80 + u % 64)]
  else if isHighSurrogate c || isLowSurrogate c then [0x3F]
  else [UInt8.ofNat (0xE0 + u / 4096), UInt8.ofNat (0x80 + u / 64 % 64), UInt8.ofNat (0x80 + u % 64)]

def utf8Pair (high low : QChar) : QByteArray :=
  let u := 0x10000 + 1024 * (high.toNat - 0xD800) + (low.toNat - 0xDC00)
  [UInt8.ofNat (0xF0 + u / 262144), UInt8.ofNat (0x80 + u / 4096 % 64), UInt8.ofNat (0x80 + u / 64 % 64),
    UInt8.ofNat (0x80 + u % 64)]

/-- `QString::toUtf8`. -/
def toUtf8 : QString → QByteArray
  | [] => []
  | [c] => utf8Unit c
  | c :: d :: rest =>
    if isHighSurrogate c && isLowSurrogate d then utf8Pair c d ++ toUtf8 rest
    else utf8Unit c ++ toUtf8 (d :: rest)

/-- The question mark in the place of a surrogate without its other half. -/
def wireUnit (c : QChar) : QChar := if isHighSurrogate c || isLowSurrogate c then 0x3F else c

/-- What UTF-8 keeps of a text. -/
def wireText : QString → QString
  | [] => []
  | [c] => [wireUnit c]
  | c :: d :: rest =>
    if isHighSurrogate c && isLowSurrogate d then c :: d :: wireText rest
    else wireUnit c :: wireText (d :: rest)

/-- Every surrogate has its other half. -/
def PairedSurrogates : QString → Bool
  | [] => true
  | [c] => !(isHighSurrogate c || isLowSurrogate c)
  | c :: d :: rest =>
    if isHighSurrogate c && isLowSurrogate d then PairedSurrogates rest
    else !(isHighSurrogate c || isLowSurrogate c) && PairedSurrogates (d :: rest)

/-- The text of well-formed UTF-8. -/
def fromUtf8 : QByteArray → Option QString
  | [] => some []
  | a :: rest =>
    if a < 0x80 then (UInt16.ofNat a.toNat :: ·) <$> fromUtf8 rest
    else
      match rest with
      | [] => none
      | b :: rest =>
        if a < 0xE0 then (UInt16.ofNat (64 * (a.toNat - 0xC0) + (b.toNat - 0x80)) :: ·) <$> fromUtf8 rest
        else
          match rest with
          | [] => none
          | c :: rest =>
            let u := 64 * (b.toNat - 0x80) + (c.toNat - 0x80)
            if a < 0xF0 then (UInt16.ofNat (4096 * (a.toNat - 0xE0) + u) :: ·) <$> fromUtf8 rest
            else
              match rest with
              | [] => none
              | d :: rest =>
                let v := 64 * (4096 * (a.toNat - 0xF0) + u) + (d.toNat - 0x80) - 0x10000
                (UInt16.ofNat (0xD800 + v / 1024) :: UInt16.ofNat (0xDC00 + v % 1024) :: ·) <$> fromUtf8 rest

theorem wireUnit_eq_self {c : QChar} (h : (isHighSurrogate c || isLowSurrogate c) = false) : wireUnit c = c :=
  if_neg (Bool.eq_false_iff.mp h)

theorem wireUnit_not_high (c : QChar) : isHighSurrogate (wireUnit c) = false := by
  cases h : isHighSurrogate c || isLowSurrogate c with
  | false => rw [wireUnit_eq_self h, (Bool.or_eq_false_iff.mp h).1]
  | true =>
    unfold wireUnit
    rw [if_pos h]
    decide

theorem utf8Unit_wireUnit (c : QChar) : utf8Unit (wireUnit c) = utf8Unit c := by
  cases h : isHighSurrogate c || isLowSurrogate c with
  | false => rw [wireUnit_eq_self h]
  | true =>
    -- a surrogate is behind the two shorter forms
    have hlarge : 0xD800 ≤ c.toNat := by
      rcases Bool.or_eq_true_iff.mp h with hhigh | hlow
      · exact of_decide_eq_true (Bool.and_eq_true_iff.mp hhigh).1
      · have : (0xDC00 : Nat) ≤ c.toNat := of_decide_eq_true (Bool.and_eq_true_iff.mp hlow).1
        omega
    have hunit : utf8Unit c = [0x3F] := by
      unfold utf8Unit
      dsimp only
      rw [if_neg (by omega), if_neg (by omega), if_pos h]
    rw [hunit]
    unfold wireUnit
    rw [if_pos h]
    decide

theorem toUtf8_cons {c : QChar} (h : isHighSurrogate c = false) (rest : QString) :
    toUtf8 (c :: rest) = utf8Unit c ++ toUtf8 rest := by
  cases rest with
  | nil =>
    unfold toUtf8
    exact (List.append_nil _).symm
  | cons d rest =>
    rw [toUtf8, h]
    rfl

theorem length_asciiText {text : QString} (h : ∀ c ∈ text, c.toNat < 0x80) :
    (toUtf8 text).length = text.length := by
  induction text with
  | nil => rfl
  | cons c text ih =>
    have hc := h c (List.mem_cons_self ..)
    have hhigh : isHighSurrogate c = false := by
      have hnot : ¬(0xD800 : QChar) ≤ c := fun hle => by
        have : (0xD800 : Nat) ≤ c.toNat := hle
        omega
      unfold isHighSurrogate
      rw [decide_eq_false hnot, Bool.false_and]
    have hunit : utf8Unit c = [UInt8.ofNat c.toNat] := if_pos hc
    rw [toUtf8_cons hhigh, hunit, List.length_append, ih fun d hd => h d (List.mem_cons_of_mem _ hd)]
    exact Nat.add_comm 1 _

/-- The text that arrives takes the same bytes. -/
theorem toUtf8_wireText (text : QString) : toUtf8 (wireText text) = toUtf8 text := by
  fun_induction wireText text with
  | case1 => rfl
  | case2 c => exact utf8Unit_wireUnit c
  | case3 c d rest hpair ih => rw [toUtf8, toUtf8, if_pos hpair, if_pos hpair, ih]
  | case4 c d rest hpair ih =>
    rw [toUtf8_cons (wireUnit_not_high c), utf8Unit_wireUnit, ih, toUtf8, if_neg hpair]

/-- **Nothing is lost** of a text whose surrogates are paired. -/
theorem wireText_of_paired {text : QString} (h : PairedSurrogates text = true) : wireText text = text := by
  fun_induction wireText text with
  | case1 => rfl
  | case2 c =>
    rw [PairedSurrogates, Bool.not_eq_true'] at h
    rw [wireUnit_eq_self h]
  | case3 c d rest hpair ih =>
    rw [PairedSurrogates, if_pos hpair] at h
    rw [ih h]
  | case4 c d rest hpair ih =>
    rw [PairedSurrogates, if_neg hpair, Bool.and_eq_true, Bool.not_eq_true'] at h
    rw [wireUnit_eq_self h.1, ih h.2]

namespace Ipc

/-! ## The codec -/

/-- The outcome of `QCborValue::fromCbor(body, &parserError)`: the value, whether there is an error, and
    the offset at which the reader stopped. -/
structure QCborParse where
  value : QCborValue := .undefined
  failed : Bool := false
  offset : Nat := 0

structure QCborCodec where
  toCbor : QCborValue → QByteArray
  fromCbor : QByteArray → QCborParse

/-- The reader decodes the first item: without an error it has stopped inside the bytes, and what is
    behind that place has no influence. -/
def ReadsFirstItem (cbor : QCborCodec) : Prop :=
  ∀ body, (cbor.fromCbor body).failed = false →
    (cbor.fromCbor body).offset ≤ body.length ∧
      ∀ extra, cbor.fromCbor (body.take (cbor.fromCbor body).offset ++ extra) = cbor.fromCbor body

/-- `qToBigEndian<quint32>`. -/
def toBigEndian (n : Nat) : QByteArray :=
  [UInt8.ofNat (n / 2 ^ 24), UInt8.ofNat (n / 2 ^ 16), UInt8.ofNat (n / 2 ^ 8), UInt8.ofNat n]

/-- `qFromBigEndian<quint32>`. -/
def fromBigEndian (b0 b1 b2 b3 : UInt8) : Nat :=
  256 * (256 * (256 * b0.toNat + b1.toNat) + b2.toNat) + b3.toNat

theorem fromBigEndian_toBigEndian {n : Nat} (h : n < 2 ^ 32) :
    fromBigEndian (UInt8.ofNat (n / 2 ^ 24)) (UInt8.ofNat (n / 2 ^ 16)) (UInt8.ofNat (n / 2 ^ 8))
      (UInt8.ofNat n) = n := by
  unfold fromBigEndian
  simp only [UInt8.toNat_ofNat']
  omega

/-! ## Items of definite length -/

/-- The head of an item: its major type, and its argument in the fewest bytes. -/
def itemHead (major argument : Nat) : QByteArray :=
  if argument < 24 then [UInt8.ofNat (32 * major + argument)]
  else if argument < 2 ^ 8 then [UInt8.ofNat (32 * major + 24), UInt8.ofNat argument]
  else if argument < 2 ^ 16 then
    [UInt8.ofNat (32 * major + 25), UInt8.ofNat (argument / 2 ^ 8), UInt8.ofNat argument]
  else if argument < 2 ^ 32 then UInt8.ofNat (32 * major + 26) :: toBigEndian argument
  else UInt8.ofNat (32 * major + 27) :: (toBigEndian (argument / 2 ^ 32) ++ toBigEndian argument)

mutual

/-- A value as an item; a floating point number is written as null. -/
def writeItem : QCborValue → QByteArray
  | .undefined => [0xF7]
  | .null => [0xF6]
  | .bool value => [if value then 0xF5 else 0xF4]
  | .integer value => if 0 ≤ value then itemHead 0 value.toNat else itemHead 1 (-1 - value).toNat
  | .double _ => [0xF6]
  | .byteArray value => itemHead 2 value.length ++ value
  | .string value => itemHead 3 (toUtf8 value).length ++ toUtf8 value
  | .array values => itemHead 4 values.length ++ writeValues values
  | .map entries => itemHead 5 entries.length ++ writeEntries entries

def writeValues : List QCborValue → QByteArray
  | [] => []
  | value :: values => writeItem value ++ writeValues values

def writeEntries : List (QString × QCborValue) → QByteArray
  | [] => []
  | (key, value) :: entries =>
    itemHead 3 (toUtf8 key).length ++ toUtf8 key ++ writeItem value ++ writeEntries entries

end

/-- A reader: what it has read and the bytes behind. -/
abbrev Reader (α : Type) := QByteArray → Option (α × QByteArray)

namespace Reader

variable {α β : Type}

def done (a : α) : Reader α := fun bytes => some (a, bytes)

def fail : Reader α := fun _ => none

def andThen (first : Reader α) (second : α → Reader β) : Reader β := fun bytes =>
  match first bytes with
  | some (a, rest) => second a rest
  | none => none

end Reader

open Reader

def readByte : Reader UInt8
  | [] => none
  | a :: rest => some (a, rest)

def readBytes : Nat → Reader QByteArray
  | 0 => done []
  | count + 1 => readByte.andThen fun a => (readBytes count).andThen fun bytes => done (a :: bytes)

def readWord : Reader Nat :=
  readByte.andThen fun a => readByte.andThen fun b => readByte.andThen fun c => readByte.andThen fun d =>
    done (fromBigEndian a b c d)

def readArgument (info : Nat) : Reader Nat :=
  if info < 24 then done info
  else if info = 24 then readByte.andThen fun a => done a.toNat
  else if info = 25 then readByte.andThen fun a => readByte.andThen fun b => done (256 * a.toNat + b.toNat)
  else if info = 26 then readWord
  else if info = 27 then readWord.andThen fun high => readWord.andThen fun low => done (2 ^ 32 * high + low)
  else fail

/-- The major type and the argument. -/
def readHead : Reader (Nat × Nat) :=
  readByte.andThen fun a => (readArgument (a.toNat % 32)).andThen fun argument => done (a.toNat / 32, argument)

def readText (count : Nat) : Reader QString :=
  (readBytes count).andThen fun utf8 =>
    match fromUtf8 utf8 with
    | some text => done text
    | none => fail

/-- A key is a text here, as everywhere in the program. -/
def readKey : Reader QString :=
  readHead.andThen fun head => if head.1 = 3 then readText head.2 else fail

def readValues (readOne : Reader QCborValue) : Nat → Reader (List QCborValue)
  | 0 => done []
  | count + 1 =>
    readOne.andThen fun value => (readValues readOne count).andThen fun values => done (value :: values)

def readEntries (readOne : Reader QCborValue) : Nat → Reader QCborMap
  | 0 => done []
  | count + 1 =>
    readKey.andThen fun key => readOne.andThen fun value =>
      (readEntries readOne count).andThen fun entries => done ((key, value) :: entries)

def readSimple (argument : Nat) : Reader QCborValue :=
  if argument = 20 then done (.bool false)
  else if argument = 21 then done (.bool true)
  else if argument = 22 then done .null
  else if argument = 23 then done .undefined
  else fail

/-- The rest of an item, once its head is read. -/
def readContent (readOne : Reader QCborValue) (major argument : Nat) : Reader QCborValue :=
  match major with
  | 0 => done (.integer argument)
  | 1 => done (.integer (-1 - argument))
  | 2 => (readBytes argument).andThen fun value => done (.byteArray value)
  | 3 => (readText argument).andThen fun value => done (.string value)
  | 4 => (readValues readOne argument).andThen fun values => done (.array values)
  | 5 => (readEntries readOne argument).andThen fun entries => done (.map entries)
  | 7 => readSimple argument
  | _ => fail

/-- An item with less than `depth` items around it. -/
def readItem : Nat → Reader QCborValue
  | 0 => fail
  | depth + 1 => readHead.andThen fun head => readContent (readItem depth) head.1 head.2

/-- Qt's limit of nesting. -/
def maximumRecursionDepth : Nat := 1024

def definiteCbor : QCborCodec where
  toCbor := writeItem
  fromCbor body :=
    match readItem maximumRecursionDepth body with
    | some (value, rest) => { value, offset := body.length - rest.length }
    | none => { failed := true, offset := body.length }

/-! ## Sizes -/

mutual

/-- A head of nine bytes for every item, and the content. -/
def itemBound : QCborValue → Nat
  | .byteArray value => 9 + value.length
  | .string value => 9 + (toUtf8 value).length
  | .array values => 9 + valuesBound values
  | .map entries => 9 + entriesBound entries
  | .undefined | .null | .bool _ | .integer _ | .double _ => 9

def valuesBound : List QCborValue → Nat
  | [] => 0
  | value :: values => itemBound value + valuesBound values

def entriesBound : List (QString × QCborValue) → Nat
  | [] => 0
  | (key, value) :: entries => 9 + (toUtf8 key).length + itemBound value + entriesBound entries

end

/-- The writer uses no more bytes for a head than the format has. -/
def ShortItems (cbor : QCborCodec) : Prop :=
  ∀ value, cbor.toCbor value ≠ [] ∧ (cbor.toCbor value).length ≤ itemBound value

theorem length_itemHead (major argument : Nat) :
    0 < (itemHead major argument).length ∧ (itemHead major argument).length ≤ 9 := by
  unfold itemHead
  split
  · exact ⟨Nat.one_pos, by simp⟩
  split
  · exact ⟨Nat.succ_pos _, by simp⟩
  split
  · exact ⟨Nat.succ_pos _, by simp⟩
  split
  · exact ⟨Nat.succ_pos _, by simp [toBigEndian]⟩
  · exact ⟨Nat.succ_pos _, by simp [toBigEndian]⟩

mutual

theorem length_writeItem : ∀ value, 0 < (writeItem value).length ∧ (writeItem value).length ≤ itemBound value
  | .undefined | .null | .bool _ | .double _ => ⟨Nat.one_pos, by simp [writeItem, itemBound]⟩
  | .integer value => by
    unfold writeItem itemBound
    split <;> exact length_itemHead _ _
  | .byteArray value => by
    have hhead := length_itemHead 2 value.length
    unfold writeItem itemBound
    rw [List.length_append]
    omega
  | .string value => by
    have hhead := length_itemHead 3 (toUtf8 value).length
    unfold writeItem itemBound
    rw [List.length_append]
    omega
  | .array values => by
    have hhead := length_itemHead 4 values.length
    have hvalues := length_writeValues values
    unfold writeItem itemBound
    rw [List.length_append]
    omega
  | .map entries => by
    have hhead := length_itemHead 5 entries.length
    have hentries := length_writeEntries entries
    unfold writeItem itemBound
    rw [List.length_append]
    omega

theorem length_writeValues : ∀ values, (writeValues values).length ≤ valuesBound values
  | [] => Nat.le_refl _
  | value :: values => by
    have hvalue := length_writeItem value
    have hvalues := length_writeValues values
    unfold writeValues valuesBound
    rw [List.length_append]
    omega

theorem length_writeEntries : ∀ entries, (writeEntries entries).length ≤ entriesBound entries
  | [] => Nat.le_refl _
  | (key, value) :: entries => by
    have hhead := length_itemHead 3 (toUtf8 key).length
    have hvalue := length_writeItem value
    have hentries := length_writeEntries entries
    unfold writeEntries entriesBound
    simp only [List.length_append]
    omega

end

theorem definiteCbor_shortItems : ShortItems definiteCbor := by
  intro value
  obtain ⟨hpos, hbound⟩ := length_writeItem value
  exact ⟨List.ne_nil_of_length_pos hpos, hbound⟩

/-! ## The first item -/

/-- What a reader has read is a front part of the bytes, and whatever is put behind it stays behind. -/
def ReadsFront {α : Type} (reader : Reader α) : Prop :=
  ∀ bytes a rest, reader bytes = some (a, rest) →
    ∃ front, bytes = front ++ rest ∧ ∀ extra, reader (front ++ extra) = some (a, extra)

variable {α β : Type} {first : Reader α} {second : α → Reader β} {readOne : Reader QCborValue}

theorem readsFront_done (a : α) : ReadsFront (done a) := by
  intro bytes b rest h
  cases h
  exact ⟨[], rfl, fun extra => rfl⟩

theorem readsFront_fail : ReadsFront (fail : Reader α) := by
  intro bytes a rest h
  cases h

theorem readsFront_andThen (hfirst : ReadsFront first) (hsecond : ∀ a, ReadsFront (second a)) :
    ReadsFront (first.andThen second) := by
  intro bytes b rest h
  unfold andThen at h
  split at h
  next a behind hread =>
    obtain ⟨front, rfl, hextra⟩ := hfirst bytes a behind hread
    obtain ⟨front', rfl, hextra'⟩ := hsecond a behind b rest h
    refine ⟨front ++ front', (List.append_assoc ..).symm, fun extra => ?_⟩
    unfold andThen
    rw [List.append_assoc, hextra]
    exact hextra' extra
  · cases h

theorem readsFront_ite {p : Prop} [Decidable p] {reader other : Reader α} (h : ReadsFront reader)
    (hother : ReadsFront other) : ReadsFront (if p then reader else other) := by
  by_cases hp : p
  · rw [if_pos hp]
    exact h
  · rw [if_neg hp]
    exact hother

theorem readByte_readsFront : ReadsFront readByte := by
  intro bytes a rest h
  cases bytes with
  | nil => cases h
  | cons b bytes =>
    cases h
    exact ⟨[a], rfl, fun extra => rfl⟩

/-- A byte, and then. -/
theorem readsFront_byte {second : UInt8 → Reader β} (h : ∀ a, ReadsFront (second a)) :
    ReadsFront (readByte.andThen second) := readsFront_andThen readByte_readsFront h

theorem readBytes_readsFront (count : Nat) : ReadsFront (readBytes count) := by
  induction count with
  | zero => exact readsFront_done []
  | succ count ih =>
    exact readsFront_byte fun a => readsFront_andThen ih fun bytes => readsFront_done (a :: bytes)

theorem readWord_readsFront : ReadsFront readWord :=
  readsFront_byte fun _ => readsFront_byte fun _ => readsFront_byte fun _ => readsFront_byte fun _ =>
    readsFront_done _

theorem readArgument_readsFront (info : Nat) : ReadsFront (readArgument info) := by
  unfold readArgument
  refine readsFront_ite (readsFront_done info) (readsFront_ite ?_ (readsFront_ite ?_ (readsFront_ite ?_
    (readsFront_ite ?_ readsFront_fail))))
  · exact readsFront_byte fun a => readsFront_done a.toNat
  · exact readsFront_byte fun _ => readsFront_byte fun _ => readsFront_done _
  · exact readWord_readsFront
  · exact readsFront_andThen readWord_readsFront fun _ => readsFront_andThen readWord_readsFront fun _ =>
      readsFront_done _

theorem readHead_readsFront : ReadsFront readHead :=
  readsFront_byte fun _ => readsFront_andThen (readArgument_readsFront _) fun _ => readsFront_done _

theorem readText_readsFront (count : Nat) : ReadsFront (readText count) := by
  refine readsFront_andThen (readBytes_readsFront count) fun utf8 => ?_
  cases fromUtf8 utf8 with
  | some text => exact readsFront_done text
  | none => exact readsFront_fail

theorem readKey_readsFront : ReadsFront readKey :=
  readsFront_andThen readHead_readsFront fun _ => readsFront_ite (readText_readsFront _) readsFront_fail

theorem readValues_readsFront (hone : ReadsFront readOne) (count : Nat) :
    ReadsFront (readValues readOne count) := by
  induction count with
  | zero => exact readsFront_done []
  | succ count ih =>
    exact readsFront_andThen hone fun value => readsFront_andThen ih fun values => readsFront_done _

theorem readEntries_readsFront (hone : ReadsFront readOne) (count : Nat) :
    ReadsFront (readEntries readOne count) := by
  induction count with
  | zero => exact readsFront_done []
  | succ count ih =>
    exact readsFront_andThen readKey_readsFront fun key => readsFront_andThen hone fun value =>
      readsFront_andThen ih fun entries => readsFront_done _

theorem readSimple_readsFront (argument : Nat) : ReadsFront (readSimple argument) :=
  readsFront_ite (readsFront_done _) (readsFront_ite (readsFront_done _)
    (readsFront_ite (readsFront_done _) (readsFront_ite (readsFront_done _) readsFront_fail)))

/-- One case for each major type. -/
theorem readContent_readsFront (hone : ReadsFront readOne) (major argument : Nat) :
    ReadsFront (readContent readOne major argument) := by
  unfold readContent
  split
  · exact readsFront_done _
  · exact readsFront_done _
  · exact readsFront_andThen (readBytes_readsFront argument) fun value => readsFront_done _
  · exact readsFront_andThen (readText_readsFront argument) fun value => readsFront_done _
  · exact readsFront_andThen (readValues_readsFront hone argument) fun values => readsFront_done _
  · exact readsFront_andThen (readEntries_readsFront hone argument) fun entries => readsFront_done _
  · exact readSimple_readsFront argument
  · exact readsFront_fail

theorem readItem_readsFront (depth : Nat) : ReadsFront (readItem depth) := by
  induction depth with
  | zero => exact readsFront_fail
  | succ depth ih =>
    exact readsFront_andThen readHead_readsFront fun head => readContent_readsFront ih head.1 head.2

theorem definiteCbor_readsFirstItem : ReadsFirstItem definiteCbor := by
  intro body h
  cases hread : readItem maximumRecursionDepth body with
  | none =>
    have hparse : definiteCbor.fromCbor body = { failed := true, offset := body.length } := by
      show (match readItem maximumRecursionDepth body with | some (value, rest) => _ | none => _) = _
      rw [hread]
    rw [hparse] at h
    cases h
  | some read =>
    obtain ⟨value, rest⟩ := read
    obtain ⟨front, rfl, hextra⟩ := readItem_readsFront maximumRecursionDepth body value rest hread
    -- the same for every rest
    have hparse : ∀ extra, definiteCbor.fromCbor (front ++ extra) = { value, offset := front.length } := by
      intro extra
      show (match readItem maximumRecursionDepth (front ++ extra) with | some (value, rest) => _ | none => _) = _
      rw [hextra extra]
      dsimp only
      rw [List.length_append, Nat.add_sub_cancel]
    rw [hparse rest, List.take_left]
    exact ⟨by rw [List.length_append]; exact Nat.le_add_right .., hparse⟩

end Ipc

end BreezeDesk
