/-
  WAV files, and the walk over their chunks.

  A `QFile` is what has been opened for reading: its bytes and a position in them.  A RIFF file is a
  header of twelve bytes and a row of chunks, each a name, a size and its data, padded to an even length.
  Sizes and offsets are `qint64` in the source and `Nat` here: they are sums of two 32-bit sizes at most.

  `inspectTurn` is the loop that the worker and the waveform generator share, word for word but for their
  errors.  It stops at the first chunk behind which a format and data have been found.
-/
import BreezeDesk.Core.Values
import BreezeDesk.Library.Loop

namespace BreezeDesk

/-! ## Files -/

structure QFile where
  content : QByteArray
  fileName : QString := []
  errorString : QString := qs "Unknown error"
  pos : Nat := 0

namespace QFile

/-- `QFile::open` for reading; `disk` is what the paths lead to, or why they cannot be read. -/
def openReadOnly (disk : QString → Except QString QByteArray) (path : QString) : Except QString QFile :=
  (disk path).map fun content => { content, fileName := path }

def size (file : QFile) : Nat := file.content.length

def peek (file : QFile) (count : Nat) : QByteArray := (file.content.drop file.pos).take count

def read (file : QFile) (count : Nat) : QByteArray × QFile :=
  (file.peek count, { file with pos := file.pos + (file.peek count).length })

/-- `QFile::seek`, which goes through wherever the position lies. -/
def seek (file : QFile) (pos : Nat) : Option QFile := some { file with pos }

/-- `QFileInfo(file.fileName()).suffix()`. -/
def suffix (file : QFile) : QString :=
  let name := file.fileName.rtakeWhile (· ≠ 0x2F)
  if 0x2E ∈ name then name.rtakeWhile (· ≠ 0x2E) else []

/-- The suffix compared with `pcm`, without regard to case. -/
def isRawPcm (file : QFile) : Bool :=
  file.suffix.map (fun c => if 0x41 ≤ c ∧ c ≤ 0x5A then c + 0x20 else c) == qs "pcm"

theorem length_peek {file : QFile} {count : Nat} (h : file.pos + count ≤ file.size) :
    (file.peek count).length = count := by
  unfold peek
  unfold size at h
  rw [List.length_take, List.length_drop]
  omega

theorem read_of_inside {file : QFile} {count : Nat} (h : file.pos + count ≤ file.size) :
    file.read count = (file.peek count, { file with pos := file.pos + count }) := by
  unfold read
  rw [length_peek h]

end QFile

/-! ## Numbers -/

/-- One byte of a number; nothing is read behind the end. -/
def byteAt (data : QByteArray) (offset : Nat) : Nat := (data[offset]?.map UInt8.toNat).getD 0

/-- `qFromLittleEndian<quint16>`. -/
def readLe16 (data : QByteArray) (offset : Nat) : Nat := byteAt data offset + 256 * byteAt data (offset + 1)

/-- `qFromLittleEndian<quint32>`. -/
def readLe32 (data : QByteArray) (offset : Nat) : Nat := readLe16 data offset + 65536 * readLe16 data (offset + 2)

theorem byteAt_lt (data : QByteArray) (offset : Nat) : byteAt data offset < 256 := by
  unfold byteAt
  cases data[offset]? with
  | none => decide
  | some byte => exact byte.toNat_lt

theorem readLe32_lt (data : QByteArray) (offset : Nat) : readLe32 data offset < 2 ^ 32 := by
  have h0 := byteAt_lt data offset
  have h1 := byteAt_lt data (offset + 1)
  have h2 := byteAt_lt data (offset + 2)
  have h3 := byteAt_lt data (offset + 2 + 1)
  unfold readLe32 readLe16
  omega

/-- `QByteArrayLiteral` of four letters. -/
def chunkName (name : String) : QByteArray := name.toList.map fun c => UInt8.ofNat c.toNat

/-- `RIFF`, a size, and `WAVE`. -/
def isRiffWave (header : QByteArray) : Bool :=
  header.length == 12 && header.take 4 == chunkName "RIFF" && (header.drop 8).take 4 == chunkName "WAVE"

/-! ## The walk -/

structure PcmLayout where
  dataOffset : Nat := 0
  dataSize : Nat := 0
  deriving DecidableEq, Repr

/-- The sixteen bytes of a format chunk. -/
structure WaveFormat where
  audioFormat : Nat := 0
  channels : Nat := 0
  sampleRate : Nat := 0
  bytesPerSecond : Nat := 0
  blockAlign : Nat := 0
  bitsPerSample : Nat := 0

def WaveFormat.read (format : QByteArray) : WaveFormat where
  audioFormat := readLe16 format 0
  channels := readLe16 format 2
  sampleRate := readLe32 format 4
  bytesPerSecond := readLe32 format 8
  blockAlign := readLe16 format 12
  bitsPerSample := readLe16 format 14

/-- The variables of the loops over the chunks. -/
structure WaveScan where
  file : QFile
  formatFound : Bool := false
  dataFound : Bool := false
  format : WaveFormat := {}
  layout : PcmLayout := {}

/-- The same scan, elsewhere in the file. -/
def WaveScan.moved (s : WaveScan) (pos : Nat) : WaveScan := { s with file := { s.file with pos } }

/-- The texts in which the readers differ; `truncatedFormat` is left out by the one that does not look. -/
structure LayoutErrors (ε : Type) where
  empty : ε
  unseekable : ε
  pastEnd : QByteArray → ε
  shortFormat : ε
  truncatedFormat : Option ε
  stuck : ε

open Loop

variable {ε : Type}

/-- The two chunks that are looked at. -/
def inspectChunk (errors : LayoutErrors ε) (chunkId : QByteArray) (chunkSize chunkDataOffset : Nat) (s : WaveScan) :
    Except ε WaveScan :=
  if chunkId = chunkName "fmt " then
    if chunkSize < 16 then .error errors.shortFormat
    else
      let (format, file) := s.file.read 16
      match errors.truncatedFormat with
      | some error =>
        if format.length ≠ 16 then .error error
        else .ok { s with file, format := .read format, formatFound := true }
      | none => .ok { s with file, format := .read format, formatFound := true }
  else if chunkId = chunkName "data" then
    .ok { s with layout := ⟨chunkDataOffset, chunkSize⟩, dataFound := true }
  else .ok s

/-- One turn of the loop in `inspectPcmLayout`. -/
def inspectTurn (errors : LayoutErrors ε) (s : WaveScan) : Turn WaveScan (Except ε WaveScan) :=
  if s.file.pos + 8 ≤ s.file.size then
    let (chunkHeader, file) := s.file.read 8
    if chunkHeader.length ≠ 8 then .done (.ok { s with file })
    else
      let chunkId := chunkHeader.take 4
      let chunkSize := readLe32 chunkHeader 4
      let chunkDataOffset := file.pos
      let chunkEnd := chunkDataOffset + chunkSize
      if chunkEnd < chunkDataOffset ∨ chunkEnd > file.size then .done (.error (errors.pastEnd chunkId))
      else
        match inspectChunk errors chunkId chunkSize chunkDataOffset { s with file } with
        | .error error => .done (.error error)
        | .ok next =>
          let paddedEnd := chunkEnd + chunkSize % 2
          if paddedEnd > next.file.size then .done (.error errors.stuck)
          else
            match next.file.seek paddedEnd with
            | none => .done (.error errors.stuck)
            | some file =>
              if next.formatFound && next.dataFound then .done (.ok { next with file })
              else .again { next with file }
  else .done (.ok s)

/-- `inspectPcmLayout`, its loop given `fuel` turns: a RIFF file is accepted by what `accept` checks behind the
    loop, and any other one by `raw`. -/
def inspectLayout (errors : LayoutErrors ε) (raw : Except ε PcmLayout) (accept : WaveScan → Except ε PcmLayout)
    (fuel : Nat) (file : QFile) : Option (Except ε PcmLayout) :=
  if file.size = 0 then some (.error errors.empty)
  else if isRiffWave (file.peek 12) then
    match file.seek 12 with
    | none => some (.error errors.unseekable)
    | some file => (run (inspectTurn errors) fuel { file }).map (· >>= accept)
  else some raw

variable {errors : LayoutErrors ε} {chunkId : QByteArray} {chunkSize chunkDataOffset : Nat} {s next : WaveScan}

theorem inspectChunk_content (h : inspectChunk errors chunkId chunkSize chunkDataOffset s = .ok next) :
    next.file.content = s.file.content := by
  unfold inspectChunk at h
  split at h
  · split at h
    · cases h
    · dsimp only at h
      split at h
      · split at h
        · cases h
        · cases h
          rfl
      · cases h
        rfl
  · split at h <;> cases h <;> rfl

/-- The next turn begins behind a chunk. -/
theorem inspectTurn_again (h : inspectTurn errors s = .again next) :
    s.file.pos + 8 ≤ s.file.size ∧ next.file.content = s.file.content ∧ s.file.pos + 8 ≤ next.file.pos := by
  unfold inspectTurn at h
  split at h
  next hinside =>
    dsimp only at h
    split at h
    · cases h
    next hlength =>
      split at h
      · cases h
      · split at h
        · cases h
        next admitted hadmitted =>
          split at h
          · cases h
          · dsimp only [QFile.seek] at h
            split at h
            · cases h
            · cases h
              have hcontent := inspectChunk_content hadmitted
              refine ⟨hinside, hcontent, ?_⟩
              rw [QFile.read_of_inside hinside]
              dsimp only
              omega
  · cases h

/-- **The walk ends**, since every chunk has a header. -/
theorem inspectTurn_sound (errors : LayoutErrors ε) :
    TurnSound (inspectTurn errors) (fun _ => True) (fun s => s.file.size - s.file.pos) fun _ => True := by
  intro s _
  cases hturned : inspectTurn errors s with
  | again next =>
    obtain ⟨hinside, hcontent, hpos⟩ := inspectTurn_again hturned
    have hsize : next.file.size = s.file.size := congrArg List.length hcontent
    refine ⟨trivial, ?_⟩
    show next.file.size - next.file.pos < s.file.size - s.file.pos
    omega
  | done result => trivial

theorem inspectChunk_layout (h : inspectChunk errors chunkId chunkSize chunkDataOffset s = .ok next) :
    next.layout = s.layout ∨ next.layout = ⟨chunkDataOffset, chunkSize⟩ := by
  unfold inspectChunk at h
  split at h
  · split at h
    · cases h
    · dsimp only at h
      split at h
      · split at h
        · cases h
        · cases h
          exact Or.inl rfl
      · cases h
        exact Or.inl rfl
  · split at h
    · cases h
      exact Or.inr rfl
    · cases h
      exact Or.inl rfl

/-- The data lie in the file. -/
structure ScanInside (content : QByteArray) (s : WaveScan) : Prop where
  content_eq : s.file.content = content
  data_le : s.layout.dataOffset + s.layout.dataSize ≤ content.length

/-- What a turn admits lies in the file, since its end has been compared. -/
theorem ScanInside.admitted {content : QByteArray} (h : ScanInside content s)
    (hadmitted : inspectChunk errors chunkId chunkSize chunkDataOffset s = .ok next)
    (hend : chunkDataOffset + chunkSize ≤ s.file.size) : ScanInside content next := by
  have hsize : s.file.size = content.length := congrArg List.length h.content_eq
  refine ⟨(inspectChunk_content hadmitted).trans h.content_eq, ?_⟩
  rcases inspectChunk_layout hadmitted with hsame | hnew
  · rw [hsame]
    exact h.data_le
  · rw [hnew, ← hsize]
    exact hend

/-- Wherever a turn leads, the data still lie in the file. -/
theorem inspectTurn_outcome (errors : LayoutErrors ε) {content : QByteArray} (hinside : ScanInside content s) :
    (∃ next, inspectTurn errors s = .again next ∧ ScanInside content next) ∨
      (∃ last, inspectTurn errors s = .done (.ok last) ∧ ScanInside content last) ∨
        ∃ error, inspectTurn errors s = .done (.error error) := by
  by_cases hleft : s.file.pos + 8 ≤ s.file.size
  · have hmoved : ScanInside content { s with file := { s.file with pos := s.file.pos + 8 } } :=
      ⟨hinside.content_eq, hinside.data_le⟩
    unfold inspectTurn
    rw [if_pos hleft, QFile.read_of_inside hleft]
    dsimp only
    split
    · exact Or.inr (Or.inl ⟨_, rfl, hmoved⟩)
    · split
      · exact Or.inr (Or.inr ⟨_, rfl⟩)
      next hchunk =>
        split
        · exact Or.inr (Or.inr ⟨_, rfl⟩)
        next next hadmitted =>
          have hnext := hmoved.admitted hadmitted (not_lt.mp (not_or.mp hchunk).2)
          split
          · exact Or.inr (Or.inr ⟨_, rfl⟩)
          · dsimp only [QFile.seek]
            split
            · exact Or.inr (Or.inl ⟨_, rfl, hnext.content_eq, hnext.data_le⟩)
            · exact Or.inl ⟨_, rfl, hnext.content_eq, hnext.data_le⟩
  · refine Or.inr (Or.inl ⟨s, ?_, hinside⟩)
    unfold inspectTurn
    rw [if_neg hleft]

theorem inspectTurn_inside (errors : LayoutErrors ε) (content : QByteArray) :
    TurnKeeps (inspectTurn errors) (ScanInside content) fun result =>
      ∀ last, result = .ok last → ScanInside content last := by
  intro s hinside
  rcases inspectTurn_outcome errors hinside with ⟨next, hturned, hnext⟩ | ⟨stop, hturned, hstop⟩ |
    ⟨error, hturned⟩
  · rw [hturned]
    exact hnext
  · rw [hturned]
    rintro last ⟨⟩
    exact hstop
  · rw [hturned]
    rintro last ⟨⟩

variable {raw : Except ε PcmLayout} {accept : WaveScan → Except ε PcmLayout} {file : QFile}

theorem inspectLayout_wave (h : isRiffWave (file.peek 12) = true) (fuel : Nat) :
    inspectLayout errors raw accept fuel file =
      (run (inspectTurn errors) fuel { file := { file with pos := 12 } }).map (· >>= accept) := by
  have hsize : ¬ file.size = 0 := by
    unfold isRiffWave QFile.peek at h
    simp only [Bool.and_eq_true, beq_iff_eq, List.length_take, List.length_drop] at h
    unfold QFile.size
    omega
  unfold inspectLayout
  rw [if_neg hsize, if_pos h]
  rfl

theorem inspectLayout_terminates (errors : LayoutErrors ε) (raw : Except ε PcmLayout)
    (accept : WaveScan → Except ε PcmLayout) (file : QFile) :
    ∃ result, ∀ fuel, file.size < fuel → inspectLayout errors raw accept fuel file = some result := by
  by_cases hwave : isRiffWave (file.peek 12) = true
  · obtain ⟨scan, -, hrun⟩ := run_total (inspectTurn_sound errors) (s := { file := { file with pos := 12 } }) trivial
    refine ⟨scan >>= accept, fun fuel hfuel => ?_⟩
    rw [inspectLayout_wave hwave, hrun fuel (Nat.lt_of_le_of_lt (Nat.sub_le ..) hfuel)]
    rfl
  · by_cases hsize : file.size = 0
    · exact ⟨_, fun fuel _ => if_pos hsize⟩
    · refine ⟨raw, fun fuel _ => ?_⟩
      unfold inspectLayout
      rw [if_neg hsize, if_neg hwave]

end BreezeDesk
