/-
  The waveform cache: a file of peaks, from fine levels to coarse ones.

  It begins with a magic number, a version and the number of the levels.  A level is the number of samples
  for a peak, the number of its peaks, and the peaks, a minimum and a maximum each.  All numbers are little
  endian, as `QDataStream` is told.

  `read_serialized` — what `generate` writes of levels within the limits, `read` gives back.

  A read behind the end leaves a status on the stream; the source asks for it behind each group of reads,
  so such a group is an `Option` here, and the check behind the loop over the levels finds nothing more.
-/
import BreezeDesk.Audio.WaveFile
import Mathlib.Data.Int.Order.Basic
import Mathlib.Order.BoundedOrder.Basic

namespace BreezeDesk

/-! ## Numbers -/

/-- `qint16`. -/
abbrev QInt16 := { value : Int // -32768 ≤ value ∧ value ≤ 32767 }

namespace QInt16

instance : LinearOrder QInt16 := @Subtype.instLinearOrder Int Int.instLinearOrder _

/-- `std::numeric_limits<qint16>`. -/
instance : BoundedOrder QInt16 where
  top := ⟨32767, by decide⟩
  le_top value := value.2.2
  bot := ⟨-32768, by decide⟩
  bot_le value := value.2.1

/-- The cast from `quint16`. -/
def ofUnsigned (value : Nat) : QInt16 :=
  if h : value % 65536 < 32768 then ⟨value % 65536, by omega⟩ else ⟨value % 65536 - 65536, by omega⟩

/-- The cast to `quint16`. -/
def toUnsigned (value : QInt16) : Nat := (value.1 % 65536).toNat

theorem toUnsigned_lt (value : QInt16) : value.toUnsigned < 256 ^ 2 := by
  show (value.1 % 65536).toNat < 65536
  omega

theorem ofUnsigned_toUnsigned (value : QInt16) : ofUnsigned value.toUnsigned = value := by
  obtain ⟨value, hlow, hhigh⟩ := value
  apply Subtype.ext
  unfold ofUnsigned toUnsigned
  dsimp only
  split <;> dsimp only <;> omega

end QInt16

/-- A number in `width` bytes, the least significant first. -/
def littleEndian : Nat → Nat → QByteArray
  | 0, _ => []
  | width + 1, value => UInt8.ofNat value :: littleEndian width (value / 256)

def fromLittleEndian : QByteArray → Nat
  | [] => 0
  | byte :: bytes => byte.toNat + 256 * fromLittleEndian bytes

@[simp] theorem length_littleEndian (width : Nat) : ∀ value, (littleEndian width value).length = width := by
  induction width with
  | zero => exact fun _ => rfl
  | succ width ih => exact fun value => congrArg (· + 1) (ih (value / 256))

theorem fromLittleEndian_littleEndian (width : Nat) :
    ∀ {value}, value < 256 ^ width → fromLittleEndian (littleEndian width value) = value := by
  induction width with
  | zero =>
    intro value h
    exact (Nat.lt_one_iff.mp h).symm
  | succ width ih =>
    intro value h
    have hrest : value / 256 < 256 ^ width := Nat.div_lt_of_lt_mul (by rwa [← Nat.pow_succ'])
    have hbyte : (UInt8.ofNat value).toNat = value % 256 := rfl
    show (UInt8.ofNat value).toNat + 256 * fromLittleEndian (littleEndian width (value / 256)) = value
    rw [ih hrest, hbyte]
    exact Nat.mod_add_div value 256

/-! ## A stream over a file -/

namespace QFile

/-- `QDataStream::operator>>` for a number of `width` bytes; `none` past the end. -/
def readNumber (width : Nat) (file : QFile) : Option (Nat × QFile) :=
  let (bytes, file) := file.read width
  if bytes.length = width then some (fromLittleEndian bytes, file) else none

/-- These bytes are still to be read. -/
structure Before (file : QFile) (bytes : QByteArray) : Prop where
  rest : file.content.drop file.pos = bytes
  inside : file.pos ≤ file.size

theorem Before.remaining {file : QFile} {bytes : QByteArray} (h : file.Before bytes) :
    file.size - file.pos = bytes.length := by
  rw [← h.rest, List.length_drop]
  rfl

theorem Before.at_end {file : QFile} (h : file.Before []) : file.pos = file.size :=
  Nat.le_antisymm h.inside (Nat.sub_eq_zero_iff_le.mp h.remaining)

theorem Before.readNumber {file : QFile} {width value : Nat} {behind : QByteArray}
    (h : file.Before (littleEndian width value ++ behind)) (hvalue : value < 256 ^ width) :
    ∃ next, file.readNumber width = some (value, next) ∧ next.Before behind := by
  have hlength := h.remaining
  rw [List.length_append, length_littleEndian] at hlength
  have hinside := h.inside
  have hpeek : file.peek width = littleEndian width value := by
    unfold peek
    rw [h.rest, List.take_append_of_le_length (by rw [length_littleEndian]), List.take_of_length_le]
    rw [length_littleEndian]
  refine ⟨{ file with pos := file.pos + width }, ?_, ?_, ?_⟩
  · unfold QFile.readNumber
    rw [read_of_inside (by omega), hpeek]
    dsimp only
    rw [if_pos (length_littleEndian width value), fromLittleEndian_littleEndian width hvalue]
  · show file.content.drop (file.pos + width) = behind
    rw [← List.drop_drop, h.rest, List.drop_left' (length_littleEndian width value)]
  · show file.pos + width ≤ file.size
    omega

end QFile

/-! ## Levels -/

structure WaveformLevel where
  samplesPerPeak : Nat := 0
  minimums : List QInt16 := []
  maximums : List QInt16 := []
  deriving DecidableEq

namespace WaveformGenerator

/-- `BWPK`. -/
def magicNumber : Nat := 0x4257504B
def formatVersion : Nat := 1
def maximumSerializedPeakPairs : Nat := 64 * 1024 * 1024 / (2 * 2)
def serializedLevelHeaderBytes : Nat := 4 + 8
def serializedPeakPairBytes : Nat := 2 * 2

/-- The peaks of all levels. -/
def totalPeaks (levels : List WaveformLevel) : Nat := (levels.map (·.minimums.length)).sum

/-! ## Writing -/

def serializedPeaks (minimums maximums : List QInt16) : QByteArray :=
  (minimums.zip maximums).flatMap fun peak =>
    littleEndian 2 peak.1.toUnsigned ++ littleEndian 2 peak.2.toUnsigned

def serializedLevel (level : WaveformLevel) : QByteArray :=
  littleEndian 4 level.samplesPerPeak ++ (littleEndian 8 level.minimums.length ++
    serializedPeaks level.minimums level.maximums)

/-- What `generate` streams into its output. -/
def serialized (levels : List WaveformLevel) : QByteArray :=
  littleEndian 4 magicNumber ++ (littleEndian 2 formatVersion ++ (littleEndian 2 levels.length ++
    levels.flatMap serializedLevel))

/-! ## Reading -/

def truncatedPeaks : QString := qs "Waveform cache peak data is truncated."

def readPeak (file : QFile) : Option (QInt16 × QInt16 × QFile) :=
  (file.readNumber 2).bind fun (minimum, file) =>
    (file.readNumber 2).map fun (maximum, file) => (.ofUnsigned minimum, .ofUnsigned maximum, file)

/-- The peaks of a level. -/
def readPeaks : Nat → QFile → Except QString (List QInt16 × List QInt16 × QFile)
  | 0, file => .ok ([], [], file)
  | count + 1, file =>
    match readPeak file with
    | none => .error truncatedPeaks
    | some (minimum, maximum, file) =>
      if minimum.1 > maximum.1 then .error (qs "Waveform cache contains an invalid peak range.")
      else
        (readPeaks count file).map fun (minimums, maximums, file) =>
          (minimum :: minimums, maximum :: maximums, file)

def readLevelHeader (file : QFile) : Option (Nat × Nat × QFile) :=
  (file.readNumber 4).bind fun (samplesPerPeak, file) =>
    (file.readNumber 8).map fun (count, file) => (samplesPerPeak, count, file)

/-- The levels that are left, `totalPeakCount` peaks behind the first of them. -/
def readLevels : Nat → Nat → QFile → Except QString (List WaveformLevel × QFile)
  | 0, _, file => .ok ([], file)
  | later + 1, totalPeakCount, file =>
    match readLevelHeader file with
    | none => .error (qs "Waveform cache level header is truncated.")
    | some (samplesPerPeak, count, file) =>
      if samplesPerPeak = 0 ∨ count = 0 then .error (qs "Waveform cache contains invalid level metadata.")
      else if count > maximumSerializedPeakPairs ∨ count > maximumSerializedPeakPairs - totalPeakCount then
        .error (qs "Waveform cache is too large.")
      else
        let remainingBytes := file.size - file.pos
        let remainingLevelHeaders := later * serializedLevelHeaderBytes
        if remainingBytes < remainingLevelHeaders ∨
            count > (remainingBytes - remainingLevelHeaders) / serializedPeakPairBytes then .error truncatedPeaks
        else
          match readPeaks count file with
          | .error error => .error error
          | .ok (minimums, maximums, file) =>
            (readLevels later (totalPeakCount + count) file).map fun (levels, file) =>
              (⟨samplesPerPeak, minimums, maximums⟩ :: levels, file)

def readHeader (file : QFile) : Option (Nat × Nat × Nat × QFile) :=
  (file.readNumber 4).bind fun (magic, file) =>
    (file.readNumber 2).bind fun (version, file) =>
      (file.readNumber 2).map fun (levelCount, file) => (magic, version, levelCount, file)

/-- `WaveformGenerator::read`. -/
def read (disk : QString → Except QString QByteArray) (waveformPath : QString) :
    Except QString (List WaveformLevel) :=
  match QFile.openReadOnly disk waveformPath with
  | .error error => .error error
  | .ok file =>
    match readHeader file with
    | none => .error (qs "Waveform cache header is truncated.")
    | some (magic, version, levelCount, file) =>
      if magic ≠ magicNumber ∨ version ≠ formatVersion then .error (qs "Unsupported waveform cache format.")
      else if levelCount = 0 ∨ levelCount > 32 then .error (qs "Waveform cache has an invalid level count.")
      else
        match readLevels levelCount 0 file with
        | .error error => .error error
        | .ok (levels, file) =>
          if file.pos ≠ file.size then .error (qs "Waveform cache contains unexpected trailing data.")
          else .ok levels

/-! ## The round trip -/

/-- A level that `read` takes. -/
structure Serializable (level : WaveformLevel) : Prop where
  samples_pos : 0 < level.samplesPerPeak
  samples_lt : level.samplesPerPeak < 2 ^ 32
  count_pos : 0 < level.minimums.length
  paired : level.maximums.length = level.minimums.length
  ordered : ∀ peak ∈ level.minimums.zip level.maximums, peak.1 ≤ peak.2

theorem length_serializedPeaks {minimums maximums : List QInt16} (h : maximums.length = minimums.length) :
    (serializedPeaks minimums maximums).length = minimums.length * serializedPeakPairBytes := by
  induction minimums generalizing maximums with
  | nil => simp [serializedPeaks]
  | cons minimum minimums ih =>
    obtain _ | ⟨maximum, maximums⟩ := maximums
    · cases h
    · have hrest := ih (Nat.succ.inj h)
      unfold serializedPeaks at hrest ⊢
      rw [List.zip_cons_cons, List.flatMap_cons, List.length_append, hrest, List.length_append, length_littleEndian,
        length_littleEndian, List.length_cons, Nat.succ_mul, Nat.add_comm]
      rfl

theorem length_serializedLevel {level : WaveformLevel} (h : Serializable level) :
    (serializedLevel level).length =
      serializedLevelHeaderBytes + level.minimums.length * serializedPeakPairBytes := by
  unfold serializedLevel
  rw [List.length_append, List.length_append, length_littleEndian, length_littleEndian,
    length_serializedPeaks h.paired, ← Nat.add_assoc]
  rfl

/-- Every level that is left has a header at least. -/
theorem headers_le {levels : List WaveformLevel} (h : ∀ level ∈ levels, Serializable level) :
    levels.length * serializedLevelHeaderBytes ≤ (levels.flatMap serializedLevel).length := by
  induction levels with
  | nil => exact Nat.zero_le _
  | cons level levels ih =>
    have hrest := ih fun other hother => h other (List.mem_cons_of_mem level hother)
    have hlevel := length_serializedLevel (h level List.mem_cons_self)
    rw [List.flatMap_cons, List.length_append, List.length_cons, Nat.succ_mul, hlevel]
    omega

variable {file : QFile} {behind : QByteArray}

theorem readPeak_serialized {minimum maximum : QInt16}
    (h : file.Before (littleEndian 2 minimum.toUnsigned ++ (littleEndian 2 maximum.toUnsigned ++ behind))) :
    ∃ next, readPeak file = some (minimum, maximum, next) ∧ next.Before behind := by
  obtain ⟨between, hminimum, hbetween⟩ := h.readNumber minimum.toUnsigned_lt
  obtain ⟨next, hmaximum, hnext⟩ := hbetween.readNumber maximum.toUnsigned_lt
  refine ⟨next, ?_, hnext⟩
  unfold readPeak
  rw [hminimum, Option.bind_some]
  dsimp only
  rw [hmaximum, Option.map_some, QInt16.ofUnsigned_toUnsigned, QInt16.ofUnsigned_toUnsigned]

theorem readPeaks_serialized {minimums maximums : List QInt16} (hpaired : maximums.length = minimums.length)
    (hordered : ∀ peak ∈ minimums.zip maximums, peak.1 ≤ peak.2)
    (h : file.Before (serializedPeaks minimums maximums ++ behind)) :
    ∃ next, readPeaks minimums.length file = .ok (minimums, maximums, next) ∧ next.Before behind := by
  induction minimums generalizing maximums file with
  | nil =>
    obtain rfl := List.length_eq_zero_iff.mp hpaired
    exact ⟨file, rfl, h⟩
  | cons minimum minimums ih =>
    obtain _ | ⟨maximum, maximums⟩ := maximums
    · cases hpaired
    · unfold serializedPeaks at h
      rw [List.zip_cons_cons, List.flatMap_cons, List.append_assoc, List.append_assoc] at h
      rw [List.zip_cons_cons] at hordered
      obtain ⟨between, hpeak, hbetween⟩ := readPeak_serialized h
      obtain ⟨next, hrest, hnext⟩ := ih (Nat.succ.inj hpaired)
        (fun peak hpeak => hordered peak (List.mem_cons_of_mem _ hpeak)) hbetween
      refine ⟨next, ?_, hnext⟩
      rw [List.length_cons, readPeaks, hpeak]
      dsimp only
      have hle : minimum.1 ≤ maximum.1 := hordered (minimum, maximum) List.mem_cons_self
      rw [if_neg (Int.not_lt.mpr hle), hrest]
      rfl

theorem readHeader_serialized {levelCount : Nat} (hcount : levelCount < 256 ^ 2)
    (h : file.Before (littleEndian 4 magicNumber ++ (littleEndian 2 formatVersion ++
      (littleEndian 2 levelCount ++ behind)))) :
    ∃ next, readHeader file = some (magicNumber, formatVersion, levelCount, next) ∧ next.Before behind := by
  obtain ⟨file', hmagic, hfile'⟩ := h.readNumber (by decide)
  obtain ⟨file'', hversion, hfile''⟩ := hfile'.readNumber (by decide)
  obtain ⟨next, hlength, hnext⟩ := hfile''.readNumber hcount
  refine ⟨next, ?_, hnext⟩
  unfold readHeader
  rw [hmagic, Option.bind_some]
  dsimp only
  rw [hversion, Option.bind_some]
  dsimp only
  rw [hlength, Option.map_some]

theorem readLevelHeader_serialized {samplesPerPeak count : Nat} (hsamples : samplesPerPeak < 2 ^ 32)
    (hcount : count < 2 ^ 64) (h : file.Before (littleEndian 4 samplesPerPeak ++ (littleEndian 8 count ++ behind))) :
    ∃ next, readLevelHeader file = some (samplesPerPeak, count, next) ∧ next.Before behind := by
  obtain ⟨between, hfirst, hbetween⟩ := h.readNumber hsamples
  obtain ⟨next, hsecond, hnext⟩ := hbetween.readNumber hcount
  refine ⟨next, ?_, hnext⟩
  unfold readLevelHeader
  rw [hfirst, Option.bind_some]
  dsimp only
  rw [hsecond, Option.map_some]

theorem readLevels_serialized {levels : List WaveformLevel} {totalPeakCount : Nat}
    (hlevels : ∀ level ∈ levels, Serializable level)
    (htotal : totalPeakCount + totalPeaks levels ≤ maximumSerializedPeakPairs)
    (h : file.Before (levels.flatMap serializedLevel)) :
    ∃ next, readLevels levels.length totalPeakCount file = .ok (levels, next) ∧ next.Before [] := by
  induction levels generalizing totalPeakCount file with
  | nil => exact ⟨file, rfl, h⟩
  | cons level levels ih =>
    have hlevel := hlevels level List.mem_cons_self
    have hlater : ∀ other ∈ levels, Serializable other :=
      fun other hother => hlevels other (List.mem_cons_of_mem level hother)
    have hsum : totalPeaks (level :: levels) = level.minimums.length + totalPeaks levels := List.sum_cons
    have hmaximum : maximumSerializedPeakPairs = 16777216 := rfl
    have hpair : serializedPeakPairBytes = 4 := rfl
    have hheaders := headers_le hlater
    rw [hsum] at htotal
    rw [List.flatMap_cons, serializedLevel, List.append_assoc, List.append_assoc] at h
    obtain ⟨file', hheader, hpeaks⟩ := readLevelHeader_serialized hlevel.samples_lt (by omega) h
    obtain ⟨file'', hread, hrest⟩ := readPeaks_serialized hlevel.paired hlevel.ordered hpeaks
    obtain ⟨next, hlast, hnext⟩ := ih hlater
      (show totalPeakCount + level.minimums.length + totalPeaks levels ≤ maximumSerializedPeakPairs by omega) hrest
    have hremaining := hpeaks.remaining
    rw [List.length_append, length_serializedPeaks hlevel.paired, hpair] at hremaining
    refine ⟨next, ?_, hnext⟩
    rw [List.length_cons, readLevels, hheader]
    dsimp only
    have hpositive := hlevel.samples_pos
    have hcount := hlevel.count_pos
    rw [if_neg (by omega), if_neg (by omega), hremaining, hpair, if_neg (by omega), hread]
    dsimp only
    rw [hlast]
    rfl

/-- **The round trip.**  Levels within the limits are read as they were written. -/
theorem read_serialized {levels : List WaveformLevel} (hcount : 0 < levels.length ∧ levels.length ≤ 32)
    (hlevels : ∀ level ∈ levels, Serializable level) (htotal : totalPeaks levels ≤ maximumSerializedPeakPairs)
    (waveformPath : QString) : read (fun _ => .ok (serialized levels)) waveformPath = .ok levels := by
  have hfile : QFile.Before { content := serialized levels, fileName := waveformPath } (serialized levels) :=
    ⟨rfl, Nat.zero_le _⟩
  obtain ⟨file', hheader, hfile'⟩ := readHeader_serialized (by omega) hfile
  obtain ⟨last, hread, hlast⟩ := readLevels_serialized hlevels (by rw [Nat.zero_add]; exact htotal) hfile'
  unfold read
  dsimp only [QFile.openReadOnly, Except.map]
  rw [hheader]
  dsimp only
  rw [if_neg (by simp), if_neg (by omega), hread]
  dsimp only
  rw [if_neg (not_not.mpr hlast.at_end)]

end WaveformGenerator

end BreezeDesk
