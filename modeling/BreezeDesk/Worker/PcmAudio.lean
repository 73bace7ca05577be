/-
  The worker's readers of normalized audio: `inspectPcmLayout`, `readPcm16Chunk` and `analyzePcmSpeech`.

  A chunk is read in blocks of one mebibyte, the whole audio in blocks of 128 frames of the voice activity
  detection; between blocks the cancellation is polled.  The detector belongs to a library and is a
  parameter (`WhisperVadContext`); `requested` says which poll of the cancellation flag finds it set.

  Samples are rational numbers: a 16-bit integer over 32768 is what a `float` holds exactly.
-/
import BreezeDesk.Audio.WaveFile
import BreezeDesk.Asr.StreamingVadSegmenter
import BreezeDesk.Worker.Controller

namespace BreezeDesk.Worker

open Loop Asr

variable (fuel : Nat) (disk : QString → Except QString QByteArray) (path : QString)

/-! ## The layout -/

def layoutErrors (file : QFile) : LayoutErrors AsrError where
  empty := ⟨.InvalidAudio, qs "Normalized audio is empty", []⟩
  unseekable := ⟨.IoError, qs "Unable to inspect normalized WAV audio", file.errorString⟩
  pastEnd chunkId := ⟨.InvalidAudio, qs "WAV chunk extends past the end of the file",
    chunkId.map fun byte => UInt16.ofNat byte.toNat⟩
  shortFormat := ⟨.InvalidAudio, qs "WAV format chunk is too short", []⟩
  truncatedFormat := none
  stuck := ⟨.InvalidAudio, qs "Unable to advance through WAV chunks", file.errorString⟩

/-- What is checked of a scan. -/
def acceptLayout (s : WaveScan) : Except AsrError PcmLayout :=
  if ¬ s.formatFound = true ∨ ¬ s.dataFound = true ∨ s.format.audioFormat ≠ 1 ∨ s.format.channels ≠ 1 ∨
      s.format.sampleRate ≠ 16000 ∨ s.format.bitsPerSample ≠ 16 ∨ s.layout.dataSize % 2 ≠ 0 then
    .error ⟨.InvalidAudio, qs "WAV must contain 16 kHz mono signed PCM16 audio",
      qs ("format=" ++ toString s.format.audioFormat ++ " channels=" ++ toString s.format.channels ++
        " rate=" ++ toString s.format.sampleRate ++ " bits=" ++ toString s.format.bitsPerSample)⟩
  else .ok s.layout

/-- A file that is not a RIFF file. -/
def rawLayout (file : QFile) : Except AsrError PcmLayout :=
  if file.isRawPcm then
    if file.size % 2 ≠ 0 then
      .error ⟨.InvalidAudio, qs "Raw PCM data has an incomplete sample", file.fileName⟩
    else .ok ⟨0, file.size⟩
  else .error ⟨.InvalidAudio, qs "Normalized audio is not a RIFF/WAVE or raw PCM file", file.fileName⟩

def inspectPcmLayout (file : QFile) : Option (Except AsrError PcmLayout) :=
  inspectLayout (layoutErrors file) (rawLayout file) acceptLayout fuel file

/-! ## Samples -/

/-- `qFromLittleEndian<qint16>`, as a share of 32768. -/
def sampleOf (low high : UInt8) : Rat :=
  let value := low.toNat + 256 * high.toNat
  (if value < 32768 then (value : Int) else value - 65536 : Int) / 32768

def samplesOf : QByteArray → List Rat
  | low :: high :: rest => sampleOf low high :: samplesOf rest
  | _ => []

/-! ## A chunk -/

variable (requested : Nat → Bool)

def transcriptionCancelled : AsrError := ⟨.Cancelled, qs "Transcription was cancelled", []⟩

structure ChunkRead where
  file : QFile
  remaining : Nat
  samples : List Rat := []
  polls : Nat := 0

/-- One turn of the loop in `readPcm16Chunk`. -/
def readTurn (s : ChunkRead) : Turn ChunkRead (Except AsrError (List Rat)) :=
  if 0 < s.remaining then
    if requested s.polls then .done (.error transcriptionCancelled)
    else
      let (bytes, file) := s.file.read (min (1024 * 1024) s.remaining)
      if bytes.isEmpty = true ∨ bytes.length % 2 ≠ 0 then
        .done (.error ⟨.IoError, qs "Unable to read normalized audio", file.errorString⟩)
      else
        .again
          { file, remaining := s.remaining - bytes.length, samples := s.samples ++ samplesOf bytes,
            polls := s.polls + 1 }
  else .done (.ok s.samples)

/-- The two seconds by which the last chunk may pass the end. -/
def maximumFinalChunkOvershootSamples : Int := 2000 * 16000 / 1000

def readPcm16Chunk (startMs endMs : Int) (finalChunk : Bool) : Option (Except AsrError (List Rat)) :=
  if startMs < 0 ∨ endMs ≤ startMs ∨ endMs > maxInt64 / 16000 then
    some (.error ⟨.InvalidRequest, qs "Invalid PCM time range", []⟩)
  else
    match QFile.openReadOnly disk path with
    | .error error => some (.error ⟨.IoError, qs "Unable to open normalized audio", error⟩)
    | .ok file =>
      (inspectPcmLayout fuel file).bind fun inspected =>
        match inspected with
        | .error error => some (.error error)
        | .ok layout =>
          let firstSample := startMs * 16000 / 1000
          let requestedSample := endMs * 16000 / 1000
          let totalSamples : Int := layout.dataSize / 2
          let lastSample :=
            if finalChunk = true ∧ firstSample < totalSamples ∧ requestedSample > totalSamples ∧
                requestedSample - totalSamples ≤ maximumFinalChunkOvershootSamples then totalSamples
            else requestedSample
          let relativeByteOffset := firstSample * 2
          let byteCount := (lastSample - firstSample) * 2
          if relativeByteOffset < 0 ∨ byteCount ≤ 0 ∨ relativeByteOffset > layout.dataSize - byteCount ∨
              byteCount / 2 > 2 ^ 31 - 1 then
            some (.error ⟨.InvalidAudio, qs "Requested PCM range is outside the normalized audio",
              qs ("offset=" ++ toString relativeByteOffset ++ " bytes=" ++ toString byteCount ++
                " fileSize=" ++ toString layout.dataSize)⟩)
          else
            match file.seek (layout.dataOffset + relativeByteOffset.toNat) with
            | none => some (.error ⟨.IoError, qs "Unable to seek normalized audio", file.errorString⟩)
            | some file => run (readTurn requested) fuel { file, remaining := byteCount.toNat }

/-! ## Speech -/

variable {σ P : Type} [LE P] [DecidableLE P]

/-- `WhisperVadContext`: a detector with state, that may fail. -/
structure WhisperVadContext (σ P : Type) where
  resetStreamingState : σ → σ
  analyzeBlock : List Rat → σ → Except AsrError (List P) × σ

def analysisCancelled : AsrError := ⟨.Cancelled, qs "Speech analysis was cancelled", []⟩

structure SpeechScan (σ : Type) where
  file : QFile
  processedBytes : Nat := 0
  vad : σ
  segmenter : StreamingVadSegmenter := {}
  polls : Nat := 0

def samplesPerBlock : Nat := 512 * 128

/-- The samples of a block, filled up with silence to whole frames. -/
def wholeFrames (samples : List Rat) : List Rat :=
  let remainder := samples.length % 512
  if remainder ≠ 0 then samples ++ List.replicate (512 - remainder) 0 else samples

/-- One turn of the loop in `analyzePcmSpeech`. -/
def analyzeTurn (detector : WhisperVadContext σ P) (config : StreamingVadConfiguration P) (layout : PcmLayout)
    (s : SpeechScan σ) : Turn (SpeechScan σ) (Except AsrError (SpeechScan σ)) :=
  if s.processedBytes < layout.dataSize then
    if requested s.polls then .done (.error analysisCancelled)
    else
      let requestedBytes := min (samplesPerBlock * 2) (layout.dataSize - s.processedBytes)
      let (bytes, file) := s.file.read requestedBytes
      if bytes.length ≠ requestedBytes ∨ bytes.length % 2 ≠ 0 then
        .done (.error ⟨.IoError, qs "Unable to read normalized audio for speech analysis", file.errorString⟩)
      else
        match detector.analyzeBlock (wholeFrames (samplesOf bytes)) s.vad with
        | (.error error, _) => .done (.error error)
        | (.ok probabilities, vad) =>
          .again
            { file, processedBytes := s.processedBytes + bytes.length, vad,
              segmenter := appendProbabilities config s.segmenter probabilities, polls := s.polls + 1 }
  else .done (.ok s)

/-- The regions and the duration of a finished analysis. -/
def finished (config : StreamingVadConfiguration P) (layout : PcmLayout) (s : SpeechScan σ) :
    List SpeechRegion × Int :=
  let totalSamples := layout.dataSize / 2
  let durationMs : Int := (totalSamples * 1000 / 16000 : Nat)
  ((finish config s.segmenter durationMs).regions, durationMs)

def analyzePcmSpeech (detector : WhisperVadContext σ P) (vad : σ) (config : StreamingVadConfiguration P) :
    Option (Except AsrError (List SpeechRegion × Int)) :=
  match QFile.openReadOnly disk path with
  | .error error => some (.error ⟨.IoError, qs "Unable to open normalized audio for speech analysis", error⟩)
  | .ok file =>
    (inspectPcmLayout fuel file).bind fun inspected =>
      match inspected with
      | .error error => some (.error error)
      | .ok layout =>
        match file.seek layout.dataOffset with
        | none => some (.error ⟨.IoError, qs "Unable to seek normalized audio", file.errorString⟩)
        | some file =>
          (run (analyzeTurn requested detector config layout) fuel
            { file, vad := detector.resetStreamingState vad }).map (·.map (finished config layout))

/-! ## What is read -/

theorem samplesOf_append : ∀ {first : QByteArray} (second : QByteArray), first.length % 2 = 0 →
    samplesOf (first ++ second) = samplesOf first ++ samplesOf second
  | [], _, _ => rfl
  | [_], _, h => by cases h
  | low :: high :: rest, second, h => by
    have hrest : rest.length % 2 = 0 := by
      simp only [List.length_cons] at h
      omega
    show sampleOf low high :: samplesOf (rest ++ second) = sampleOf low high :: (samplesOf rest ++ samplesOf second)
    rw [samplesOf_append second hrest]

theorem length_samplesOf : ∀ bytes : QByteArray, (samplesOf bytes).length = bytes.length / 2
  | [] => rfl
  | [_] => by simp [samplesOf]
  | low :: high :: rest => by
    show (samplesOf rest).length + 1 = (rest.length + 1 + 1) / 2
    rw [length_samplesOf rest]
    omega

variable {requested}

/-- **The loop over a chunk** reads all of it, unless it is cancelled. -/
theorem readTurn_sound (requested : Nat → Bool) (content : QByteArray) (total : List Rat) :
    TurnSound (readTurn requested)
      (fun s => s.file.content = content ∧ s.file.pos + s.remaining ≤ content.length ∧ s.remaining % 2 = 0 ∧
        s.samples ++ samplesOf ((content.drop s.file.pos).take s.remaining) = total)
      (·.remaining)
      fun result => result = .ok total ∨ result = .error transcriptionCancelled ∧ ∃ n, requested n = true := by
  rintro s ⟨hcontent, hinside, heven, htotal⟩
  unfold readTurn
  by_cases hremaining : 0 < s.remaining
  · rw [if_pos hremaining]
    by_cases hcancelled : requested s.polls = true
    · rw [if_pos hcancelled]
      exact Or.inr ⟨rfl, s.polls, hcancelled⟩
    · rw [if_neg hcancelled]
      generalize hblock : min (1024 * 1024) s.remaining = block
      have hfits : s.file.pos + block ≤ s.file.size := by
        have hsize : s.file.size = content.length := congrArg List.length hcontent
        omega
      have hlength : (s.file.peek block).length = block := QFile.length_peek hfits
      have hne : ¬ ((s.file.peek block).isEmpty = true ∨ (s.file.peek block).length % 2 ≠ 0) := by
        rw [List.isEmpty_iff_length_eq_zero, hlength]
        omega
      rw [QFile.read_of_inside hfits]
      dsimp only
      rw [if_neg hne, hlength]
      have hsplit : (content.drop s.file.pos).take s.remaining =
          s.file.peek block ++ (content.drop (s.file.pos + block)).take (s.remaining - block) := by
        unfold QFile.peek
        rw [hcontent, ← List.drop_drop, ← List.take_add]
        congr 1
        omega
      refine ⟨⟨hcontent, ?_, ?_, ?_⟩, ?_⟩
      · dsimp only
        omega
      · dsimp only
        omega
      · dsimp only
        rw [← htotal, hsplit, samplesOf_append _ (by omega), List.append_assoc]
      · dsimp only
        omega
  · rw [if_neg hremaining]
    have hzero : s.remaining = 0 := by omega
    rw [hzero, List.take_zero] at htotal
    exact Or.inl (congrArg Except.ok ((List.append_nil _).symm.trans htotal))

/-- **The loop over the audio** reads all of it, unless it is cancelled or the detector fails. -/
theorem analyzeTurn_sound (detector : WhisperVadContext σ P) (requested : Nat → Bool)
    (config : StreamingVadConfiguration P) (layout : PcmLayout) {content : QByteArray}
    (hlayout : layout.dataOffset + layout.dataSize ≤ content.length) (heven : layout.dataSize % 2 = 0) :
    TurnSound (analyzeTurn requested detector config layout)
      (fun s => s.file.content = content ∧ s.file.pos = layout.dataOffset + s.processedBytes ∧
        s.processedBytes ≤ layout.dataSize ∧ s.processedBytes % 2 = 0)
      (fun s => layout.dataSize - s.processedBytes)
      fun result => ∀ error, result = .error error → (error = analysisCancelled ∧ ∃ n, requested n = true) ∨
        ∃ samples vad, (detector.analyzeBlock samples vad).1 = .error error := by
  rintro s ⟨hcontent, hpos, hle, hprocessed⟩
  unfold analyzeTurn
  by_cases hleft : s.processedBytes < layout.dataSize
  · rw [if_pos hleft]
    by_cases hcancelled : requested s.polls = true
    · rw [if_pos hcancelled]
      rintro error ⟨⟩
      exact Or.inl ⟨rfl, s.polls, hcancelled⟩
    · rw [if_neg hcancelled]
      have hblockSize : samplesPerBlock * 2 = 131072 := rfl
      generalize hblock : min (samplesPerBlock * 2) (layout.dataSize - s.processedBytes) = block
      have hfits : s.file.pos + block ≤ s.file.size := by
        have hsize : s.file.size = content.length := congrArg List.length hcontent
        omega
      have hlength : (s.file.peek block).length = block := QFile.length_peek hfits
      have hwhole : ¬ ((s.file.peek block).length ≠ block ∨ (s.file.peek block).length % 2 ≠ 0) := by
        rw [hlength]
        omega
      dsimp only
      rw [QFile.read_of_inside hfits]
      dsimp only
      rw [if_neg hwhole, hlength]
      cases hanalyzed : detector.analyzeBlock (wholeFrames (samplesOf (s.file.peek block))) s.vad with
      | mk outcome vad =>
        cases outcome with
        | error error =>
          rintro other ⟨⟩
          exact Or.inr ⟨_, _, congrArg Prod.fst hanalyzed⟩
        | ok probabilities =>
          refine ⟨⟨hcontent, ?_, ?_, ?_⟩, ?_⟩ <;> dsimp only <;> omega
  · rw [if_neg hleft]
    rintro error ⟨⟩

end BreezeDesk.Worker
