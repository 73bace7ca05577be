/-
  `NormalizedAudioValidator::validate` — whether a file is the 16 kHz mono PCM16 audio of a recording.

  The validator walks over every chunk up to the end of the file, and admits one format and one data
  chunk.  What it accepts, the other readers find where it has found it (`validateTurn_followed`): up to
  the second of the two chunks they go the same way, and behind it the validator finds no other.
-/
import BreezeDesk.Audio.WaveFile
import BreezeDesk.Asr.ChunkPlanner

namespace BreezeDesk

open Loop

structure NormalizedAudioInfo where
  dataOffset : Nat := 0
  dataSize : Nat := 0
  durationMs : Int := 0
  deriving DecidableEq, Repr

namespace NormalizedAudioValidator

def RequiredSampleRate : Nat := 16000

def RequiredBlockAlign : Nat := 2

def RequiredBytesPerSecond : Nat := RequiredSampleRate * RequiredBlockAlign

/-- `std::clamp`, with the tolerances of the source. -/
def durationToleranceMs (expectedDurationMs : Int) : Int := Asr.clamp (expectedDurationMs / 200) 250 2000

def readableDurationMs (dataSize : Nat) : Int :=
  let wholeSeconds := dataSize / RequiredBytesPerSecond
  let remainingBytes := dataSize % RequiredBytesPerSecond
  (wholeSeconds * 1000 + remainingBytes * 1000 / RequiredBytesPerSecond : Nat)

/-- A millisecond is 32 bytes. -/
theorem readableDurationMs_eq (dataSize : Nat) : readableDurationMs dataSize = (dataSize / 32 : Nat) := by
  show ((dataSize / 32000 * 1000 + dataSize % 32000 * 1000 / 32000 : Nat) : Int) = (dataSize / 32 : Nat)
  omega

def validateChunk (chunkId : QByteArray) (chunkSize chunkDataOffset : Nat) (s : WaveScan) :
    Except QString WaveScan :=
  if chunkId = chunkName "fmt " then
    if s.formatFound = true ∨ chunkSize < 16 then .error (qs "The normalized WAV format chunk is invalid.")
    else
      let (format, file) := s.file.read 16
      if format.length ≠ 16 then .error (qs "The normalized WAV format chunk is truncated.")
      else .ok { s with file, format := .read format, formatFound := true }
  else if chunkId = chunkName "data" then
    if s.dataFound = true then .error (qs "The normalized WAV contains multiple data chunks.")
    else .ok { s with layout := ⟨chunkDataOffset, chunkSize⟩, dataFound := true }
  else .ok s

/-- One turn of the loop. -/
def validateTurn (riffEnd : Nat) (s : WaveScan) : Turn WaveScan (Except QString WaveScan) :=
  if s.file.pos + 8 ≤ riffEnd then
    let (chunkHeader, file) := s.file.read 8
    if chunkHeader.length ≠ 8 then .done (.error (qs "The normalized WAV contains a truncated chunk header."))
    else
      let chunkId := chunkHeader.take 4
      let chunkSize := readLe32 chunkHeader 4
      let chunkDataOffset := file.pos
      let chunkEnd := chunkDataOffset + chunkSize
      let paddedEnd := chunkEnd + chunkSize % 2
      if chunkEnd < chunkDataOffset ∨ paddedEnd > riffEnd then
        .done (.error (qs "A normalized WAV chunk extends past the end of the file."))
      else
        match validateChunk chunkId chunkSize chunkDataOffset { s with file } with
        | .error error => .done (.error error)
        | .ok next =>
          match next.file.seek paddedEnd with
          | none => .done (.error next.file.errorString)
          | some file => .again { next with file }
  else .done (.ok s)

/-- What is checked of a file behind the loop. -/
def acceptScan (riffEnd : Nat) (expectedDurationMs : Int) (s : WaveScan) : Except QString NormalizedAudioInfo :=
  if s.file.pos ≠ riffEnd ∨ ¬ s.formatFound = true ∨ ¬ s.dataFound = true then
    .error (qs "The normalized WAV is missing required format or audio data.")
  else if s.format.audioFormat ≠ 1 ∨ s.format.channels ≠ 1 ∨ s.format.sampleRate ≠ RequiredSampleRate ∨
      s.format.bytesPerSecond ≠ RequiredBytesPerSecond ∨ s.format.blockAlign ≠ RequiredBlockAlign ∨
      s.format.bitsPerSample ≠ 16 then
    .error (qs "The normalized WAV must be 16 kHz mono signed PCM16 audio.")
  else if s.layout.dataSize = 0 ∨ s.layout.dataSize % RequiredBlockAlign ≠ 0 then
    .error (qs "The normalized WAV contains invalid PCM sample data.")
  else
    let expectedDataSize := expectedDurationMs * RequiredBytesPerSecond / 1000
    let toleranceMs := durationToleranceMs expectedDurationMs
    let toleratedBytes := toleranceMs * RequiredBytesPerSecond / 1000 + RequiredBlockAlign
    if Asr.qAbs (s.layout.dataSize - expectedDataSize) > toleratedBytes then
      .error (qs ("The normalized WAV duration is " ++ toString (readableDurationMs s.layout.dataSize) ++
        " ms; expected " ++ toString expectedDurationMs ++ " ms (tolerance " ++ toString toleranceMs ++ " ms)."))
    else .ok ⟨s.layout.dataOffset, s.layout.dataSize, readableDurationMs s.layout.dataSize⟩

/-- `NormalizedAudioValidator::validate`, its loop given `fuel` turns. -/
def validate (fuel : Nat) (disk : QString → Except QString QByteArray) (path : QString) (expectedDurationMs : Int) :
    Option (Except QString NormalizedAudioInfo) :=
  if expectedDurationMs ≤ 0 then some (.error (qs "The expected media duration is invalid."))
  else if expectedDurationMs > Asr.maxInt64 / RequiredBytesPerSecond then
    some (.error (qs "The expected media duration is too large."))
  else
    match QFile.openReadOnly disk path with
    | .error error => some (.error error)
    | .ok opened =>
      let (header, input) := opened.read 12
      if isRiffWave header then
        let riffEnd := 8 + readLe32 header 4
        if riffEnd ≠ input.size then
          some (.error (qs "The normalized WAV RIFF size does not match the file size."))
        else (run (validateTurn riffEnd) fuel { file := input }).map fun scan => do
          acceptScan riffEnd expectedDurationMs (← scan)
      else some (.error (qs "The normalized output is not a RIFF/WAVE file."))

/-! ## The walk of the validator, and an earlier one -/

variable {ε : Type} {riffEnd chunkSize chunkDataOffset : Nat} {chunkId : QByteArray}
  {s next stop : WaveScan}

/-- A chunk that the validator admits is read from the same file, and the other readers admit it too. -/
theorem validateChunk_inspect (errors : LayoutErrors ε)
    (h : validateChunk chunkId chunkSize chunkDataOffset s = .ok next) :
    next.file.content = s.file.content ∧ inspectChunk errors chunkId chunkSize chunkDataOffset s = .ok next := by
  unfold validateChunk at h
  unfold inspectChunk
  split at h
  next hformat =>
    rw [if_pos hformat]
    split at h
    · cases h
    next hsize =>
      rw [not_or] at hsize
      rw [if_neg hsize.2]
      dsimp only at h ⊢
      split at h
      · cases h
      next hlength =>
        cases h
        refine ⟨rfl, ?_⟩
        cases errors.truncatedFormat with
        | none => rfl
        | some error => exact if_neg hlength
  next hother =>
    rw [if_neg hother]
    split at h
    next hdata =>
      rw [if_pos hdata]
      split at h
      · cases h
      · cases h
        exact ⟨rfl, rfl⟩
    next hdata =>
      rw [if_neg hdata]
      cases h
      exact ⟨rfl, rfl⟩

/-- The two chunks have been found, as they were when another walk stopped. -/
structure Settled (stop s : WaveScan) : Prop where
  format_found : s.formatFound = true
  data_found : s.dataFound = true
  format_eq : s.format = stop.format
  layout_eq : s.layout = stop.layout

/-- No second chunk of either kind is admitted. -/
theorem validateChunk_settled (h : Settled stop s)
    (hok : validateChunk chunkId chunkSize chunkDataOffset s = .ok next) :
    Settled stop next := by
  unfold validateChunk at hok
  rw [if_pos (Or.inl h.format_found), if_pos h.data_found] at hok
  split at hok
  · cases hok
  · split at hok
    · cases hok
    · cases hok
      exact h

/-- **What a turn does** when it goes on: a chunk is admitted, and the next one begins behind it. -/
theorem validateTurn_again (h : validateTurn riffEnd s = .again next) :
    ∃ chunkHeader file paddedEnd admitted, s.file.pos + 8 ≤ riffEnd ∧ s.file.read 8 = (chunkHeader, file) ∧
      chunkHeader.length = 8 ∧ paddedEnd = file.pos + readLe32 chunkHeader 4 + readLe32 chunkHeader 4 % 2 ∧
      paddedEnd ≤ riffEnd ∧
      validateChunk (chunkHeader.take 4) (readLe32 chunkHeader 4) file.pos { s with file } = .ok admitted ∧
      next = admitted.moved paddedEnd := by
  unfold validateTurn at h
  split at h
  next hinside =>
    dsimp only at h
    split at h
    · cases h
    next hlength =>
      split at h
      · cases h
      next hbounds =>
        rw [not_or, not_lt, not_lt] at hbounds
        split at h
        · cases h
        next admitted hadmitted =>
          cases h
          exact ⟨_, _, _, admitted, hinside, rfl, not_not.mp hlength, rfl, hbounds.2, hadmitted, rfl⟩
  · cases h

/-- The loop is left with the scan as it is. -/
theorem validateTurn_done (h : validateTurn riffEnd s = .done (.ok next)) : next = s ∧ riffEnd < s.file.pos + 8 := by
  unfold validateTurn at h
  split at h
  · dsimp only at h
    split at h
    · cases h
    · split at h
      · cases h
      · split at h <;> cases h
  next houtside =>
    cases h
    exact ⟨rfl, not_le.mp houtside⟩

theorem validateTurn_settled (stop : WaveScan) (riffEnd : Nat) :
    TurnKeeps (validateTurn riffEnd) (Settled stop) fun result => ∀ s, result = .ok s → Settled stop s := by
  intro s h
  cases hturned : validateTurn riffEnd s with
  | again next =>
    obtain ⟨_, file, paddedEnd, admitted, -, -, -, -, -, hadmitted, rfl⟩ := validateTurn_again hturned
    have hread : Settled stop { s with file } := ⟨h.format_found, h.data_found, h.format_eq, h.layout_eq⟩
    obtain ⟨hformat, hdata, hsame, hlayout⟩ := validateChunk_settled hread hadmitted
    exact ⟨hformat, hdata, hsame, hlayout⟩
  | done result =>
    rintro last rfl
    rw [(validateTurn_done hturned).1]
    exact h

/-- Both chunks are found in what the loop has left with. -/
def BothFound (result : Except QString WaveScan) : Prop :=
  ∃ last, result = .ok last ∧ last.formatFound = true ∧ last.dataFound = true

/-- The other walk has found them where this one has. -/
def FoundAlike (result : Except QString WaveScan) (other : Except ε WaveScan) : Prop :=
  ∃ last stop, result = .ok last ∧ other = .ok stop ∧ Settled stop stop ∧ Settled stop last

/-- **The other readers** go the way of the validator, as far as the second of the two chunks. -/
theorem validateTurn_followed (errors : LayoutErrors ε) (content : QByteArray) :
    TurnFollowed (validateTurn content.length) (inspectTurn errors) (fun s => s.file.content = content) BothFound
      FoundAlike := by
  intro s hcontent
  have hsize : s.file.size = content.length := congrArg List.length hcontent
  cases hturned : validateTurn content.length s with
  | again next =>
    obtain ⟨chunkHeader, file, paddedEnd, admitted, hinside, hread, hlength, hpadded, hle, hadmitted, rfl⟩ :=
      validateTurn_again hturned
    obtain ⟨hsame, hchunk⟩ := validateChunk_inspect errors hadmitted
    have hfile : file.content = content := by
      rw [← hcontent]
      exact (congrArg (fun result => result.2.content) hread).symm
    have hopened : file.size = content.length := congrArg List.length hfile
    have hadmittedSize : admitted.file.size = content.length := congrArg List.length (hsame.trans hfile)
    have hearly : inspectTurn errors s =
        if admitted.formatFound && admitted.dataFound then .done (.ok (admitted.moved paddedEnd))
        else .again (admitted.moved paddedEnd) := by
      unfold inspectTurn
      rw [hsize, if_pos hinside, hread]
      dsimp only
      rw [if_neg (not_not.mpr hlength), if_neg (by omega), hchunk]
      dsimp only
      rw [if_neg (by omega), hpadded]
      rfl
    refine ⟨hsame.trans hfile, ?_⟩
    rw [hearly]
    by_cases hboth : (admitted.formatFound && admitted.dataFound) = true
    · -- the other walk stops here; what is still to come changes nothing
      rw [if_pos hboth]
      obtain ⟨hformat, hdata⟩ := (Bool.and_eq_true _ _).mp hboth
      have hstop : Settled (admitted.moved paddedEnd) (admitted.moved paddedEnd) := ⟨hformat, hdata, rfl, rfl⟩
      refine Or.inr ⟨_, rfl, fun fuel result hrun hfound => ?_⟩
      obtain ⟨last, hresult, -, -⟩ := hfound
      exact ⟨last, _, hresult, rfl, hstop, run_kept (validateTurn_settled _ _) hstop hrun last hresult⟩
    · rw [if_neg hboth]
      exact Or.inl rfl
  | done result =>
    rintro ⟨last, rfl, hformat, hdata⟩
    obtain ⟨rfl, houtside⟩ := validateTurn_done hturned
    have hearly : inspectTurn errors last = .done (.ok last) := by
      unfold inspectTurn
      rw [hsize, if_neg (by omega)]
    exact ⟨_, hearly, last, last, rfl, rfl, ⟨hformat, hdata, rfl, rfl⟩, hformat, hdata, rfl, rfl⟩

/-- A layout that lies in the file; a size has 32 bits. -/
def LayoutInside (riffEnd : Nat) (s : WaveScan) : Prop :=
  s.layout.dataOffset + s.layout.dataSize ≤ riffEnd ∧ s.layout.dataSize < 2 ^ 32

theorem validateChunk_layout (h : validateChunk chunkId chunkSize chunkDataOffset s = .ok next) :
    next.layout = s.layout ∨ next.layout = ⟨chunkDataOffset, chunkSize⟩ := by
  unfold validateChunk at h
  split at h
  · split at h
    · cases h
    · dsimp only at h
      split at h
      · cases h
      · cases h
        exact Or.inl rfl
  · split at h
    · split at h
      · cases h
      · cases h
        exact Or.inr rfl
    · cases h
      exact Or.inl rfl

theorem validateTurn_inside (riffEnd : Nat) :
    TurnKeeps (validateTurn riffEnd) (LayoutInside riffEnd) fun result =>
      ∀ s, result = .ok s → LayoutInside riffEnd s := by
  intro s h
  cases hturned : validateTurn riffEnd s with
  | again next =>
    obtain ⟨chunkHeader, file, paddedEnd, admitted, -, -, -, hpadded, hle, hadmitted, rfl⟩ := validateTurn_again hturned
    show admitted.layout.dataOffset + admitted.layout.dataSize ≤ riffEnd ∧ admitted.layout.dataSize < 2 ^ 32
    rcases validateChunk_layout hadmitted with hsame | hnew
    · rw [hsame]
      exact h
    · rw [hnew]
      refine ⟨?_, readLe32_lt ..⟩
      show file.pos + readLe32 chunkHeader 4 ≤ riffEnd
      omega
  | done result =>
    rintro last rfl
    rw [(validateTurn_done hturned).1]
    exact h

/-! ## Termination -/

theorem validateTurn_sound (riffEnd : Nat) :
    TurnSound (validateTurn riffEnd) (fun _ => True) (fun s => riffEnd - s.file.pos) fun _ => True := by
  intro s _
  cases hturned : validateTurn riffEnd s with
  | again next =>
    obtain ⟨chunkHeader, file, paddedEnd, admitted, hinside, hread, hlength, hpadded, -, -, rfl⟩ :=
      validateTurn_again hturned
    have hpos : file.pos = s.file.pos + chunkHeader.length := by
      obtain ⟨rfl, rfl⟩ := Prod.mk.inj hread
      rfl
    refine ⟨trivial, ?_⟩
    show riffEnd - paddedEnd < riffEnd - s.file.pos
    omega
  | done result => trivial

variable {fuel : Nat} {disk : QString → Except QString QByteArray} {path : QString} {expectedDurationMs : Int}
  {content : QByteArray} {info : NormalizedAudioInfo}

/-- The loop over the chunks of a file with a good header, and the checks behind it. -/
def scanned (fuel : Nat) (path : QString) (content : QByteArray) (expectedDurationMs : Int) :
    Option (Except QString NormalizedAudioInfo) :=
  (run (validateTurn content.length) fuel { file := { content, fileName := path, pos := 12 } }).map fun scan => do
    acceptScan content.length expectedDurationMs (← scan)

/-- The validator gives up before the loop, whatever the fuel, or goes into it. -/
theorem validate_cases (hcontent : disk path = .ok content) (expectedDurationMs : Int) :
    (∃ error, ∀ fuel, validate fuel disk path expectedDurationMs = some (.error error)) ∨
      (isRiffWave (content.take 12) = true ∧
        ∀ fuel, validate fuel disk path expectedDurationMs = scanned fuel path content expectedDurationMs) := by
  unfold validate QFile.openReadOnly
  rw [hcontent]
  by_cases hpositive : expectedDurationMs ≤ 0
  · exact Or.inl ⟨_, fun _ => if_pos hpositive⟩
  · by_cases hlarge : expectedDurationMs > Asr.maxInt64 / RequiredBytesPerSecond
    · exact Or.inl ⟨_, fun _ => by rw [if_neg hpositive, if_pos hlarge]⟩
    · simp only [if_neg hpositive, if_neg hlarge, Except.map]
      have hpeek : (QFile.read { content, fileName := path } 12).1 = content.take 12 := rfl
      rw [hpeek]
      by_cases hwave : isRiffWave (content.take 12) = true
      · have hlength : (content.take 12).length = 12 := by
          unfold isRiffWave at hwave
          simp only [Bool.and_eq_true, beq_iff_eq] at hwave
          exact hwave.1.1
        have hopened : (QFile.read { content, fileName := path } 12).2 =
            { content, fileName := path, pos := 12 } := by
          unfold QFile.read
          rw [show (QFile.peek { content, fileName := path } 12).length = 12 from hlength]
        have hwhole : QFile.size { content, fileName := path, pos := 12 } = content.length := rfl
        rw [hopened, hwhole]
        by_cases hsize : 8 + readLe32 (content.take 12) 4 ≠ content.length
        · exact Or.inl ⟨_, fun _ => by rw [if_pos hwave, if_pos hsize]⟩
        · refine Or.inr ⟨hwave, fun fuel => ?_⟩
          rw [if_pos hwave, if_neg hsize, not_not.mp hsize]
          rfl
      · exact Or.inl ⟨_, fun _ => if_neg hwave⟩

theorem validate_terminates (hcontent : disk path = .ok content) (expectedDurationMs : Int) :
    ∃ result, ∀ fuel, content.length < fuel → validate fuel disk path expectedDurationMs = some result := by
  rcases validate_cases hcontent expectedDurationMs with ⟨error, hearly⟩ | ⟨-, hscanned⟩
  · exact ⟨.error error, fun fuel _ => hearly fuel⟩
  · obtain ⟨scan, -, hrun⟩ := run_total (validateTurn_sound content.length)
      (s := { file := { content, fileName := path, pos := 12 } }) trivial
    refine ⟨scan >>= acceptScan content.length expectedDurationMs, fun fuel hfuel => ?_⟩
    rw [hscanned fuel, scanned, hrun fuel (Nat.lt_of_le_of_lt (Nat.sub_le ..) hfuel)]
    rfl

/-- What the checks behind the loop leave. -/
structure AcceptedScan (s : WaveScan) (info : NormalizedAudioInfo) : Prop where
  format_found : s.formatFound = true
  data_found : s.dataFound = true
  pcm : s.format.audioFormat = 1
  mono : s.format.channels = 1
  rate : s.format.sampleRate = 16000
  bits : s.format.bitsPerSample = 16
  size_pos : 0 < s.layout.dataSize
  size_even : s.layout.dataSize % 2 = 0
  info_eq : info = ⟨s.layout.dataOffset, s.layout.dataSize, readableDurationMs s.layout.dataSize⟩

theorem acceptScan_accepted (h : acceptScan riffEnd expectedDurationMs s = .ok info) : AcceptedScan s info := by
  unfold acceptScan at h
  split at h
  · cases h
  next hfound =>
    split at h
    · cases h
    next hformat =>
      split at h
      · cases h
      next hsize =>
        dsimp only at h
        split at h
        · cases h
        · cases h
          simp only [not_or, not_not] at hfound hformat hsize
          exact ⟨hfound.2.1, hfound.2.2, hformat.1, hformat.2.1, hformat.2.2.1, hformat.2.2.2.2.2,
            Nat.pos_of_ne_zero hsize.1, hsize.2, rfl⟩

/-- **An accepted file** is a RIFF file of the size it says, and its walk ends with what is accepted. -/
theorem validate_accepted (hcontent : disk path = .ok content)
    (h : validate fuel disk path expectedDurationMs = some (.ok info)) :
    isRiffWave (content.take 12) = true ∧
      ∃ last, run (validateTurn content.length) fuel { file := { content, fileName := path, pos := 12 } } =
        some (.ok last) ∧ AcceptedScan last info ∧ LayoutInside content.length last := by
  rcases validate_cases hcontent expectedDurationMs with ⟨error, hearly⟩ | ⟨hwave, hscanned⟩
  · rw [hearly fuel] at h
    cases h
  · refine ⟨hwave, ?_⟩
    rw [hscanned fuel] at h
    obtain ⟨scan, hrun, hchecked⟩ := Option.map_eq_some_iff.mp h
    cases scan with
    | error text => cases hchecked
    | ok last =>
      have hstart : LayoutInside content.length { file := { content, fileName := path, pos := 12 } } :=
        ⟨Nat.zero_le _, Nat.two_pow_pos 32⟩
      exact ⟨last, hrun, acceptScan_accepted hchecked, run_kept (validateTurn_inside _) hstart hrun last rfl⟩

end NormalizedAudioValidator

end BreezeDesk
