/-
  The three readers of normalized audio agree on where the samples are.

  `readers_agree` — the loops over the chunks end on every file; and what the validator accepts, the worker
  and the waveform generator accept too, with the same offset and size.  The validator's duration is the one
  the worker finds in the speech analysis, and every chunk of a plan for it is read in full: a sample lasts a
  sixteenth of a millisecond, and the duration is rounded down.
-/
import BreezeDesk.Audio.NormalizedAudioValidator
import BreezeDesk.Worker.PcmAudio
import BreezeDesk.Asr.ChunkPlanDecoding

namespace BreezeDesk

open Loop

/-! ## The waveform generator -/

namespace WaveformGenerator

def layoutErrors (file : QFile) : LayoutErrors QString where
  empty := qs "Normalized audio is empty."
  unseekable := file.errorString
  pastEnd _ := qs "A WAV chunk extends past the end of the file."
  shortFormat := qs "The WAV format chunk is too short."
  truncatedFormat := some (qs "The WAV format chunk is truncated.")
  stuck := qs "The WAV chunk layout is invalid."

/-- What is checked of a scan: unlike the worker, the generator wants a sample. -/
def acceptLayout (s : WaveScan) : Except QString PcmLayout :=
  if ¬ s.formatFound = true ∨ ¬ s.dataFound = true ∨ s.format.audioFormat ≠ 1 ∨ s.format.channels ≠ 1 ∨
      s.format.sampleRate ≠ 16000 ∨ s.format.bitsPerSample ≠ 16 ∨ s.layout.dataSize = 0 ∨
      s.layout.dataSize % 2 ≠ 0 then
    .error (qs "The WAV file must contain 16 kHz mono signed PCM16 audio.")
  else .ok s.layout

def rawLayout (file : QFile) : Except QString PcmLayout :=
  if ¬ file.isRawPcm ∨ file.size % 2 ≠ 0 then .error (qs "Audio must be a PCM16 RIFF/WAVE file or raw .pcm data.")
  else .ok ⟨0, file.size⟩

def inspectPcmLayout (fuel : Nat) (file : QFile) : Option (Except QString PcmLayout) :=
  inspectLayout (layoutErrors file) (rawLayout file) acceptLayout fuel file

end WaveformGenerator

open NormalizedAudioValidator

variable {fuel : Nat} {content : QByteArray} {path : QString} {info : NormalizedAudioInfo} {expectedDurationMs : Int}

/-! ## Layouts -/

/-- The file that each of the readers opens. -/
def wavFile (content : QByteArray) (path : QString) : QFile := { content, fileName := path }

/-- **A reader** that checks no more than the validator accepts the layout that the validator accepts. -/
theorem inspectLayout_of_accepted {ε : Type} (errors : LayoutErrors ε) (raw : Except ε PcmLayout)
    {accept : WaveScan → Except ε PcmLayout} {last : WaveScan}
    (hwave : isRiffWave ((wavFile content path).peek 12) = true)
    (hrun : run (validateTurn content.length) fuel { file := { wavFile content path with pos := 12 } } =
      some (.ok last))
    (haccepted : AcceptedScan last info) (haccept : ∀ stop, AcceptedScan stop info → accept stop = .ok stop.layout) :
    inspectLayout errors raw accept fuel (wavFile content path) = some (.ok ⟨info.dataOffset, info.dataSize⟩) := by
  obtain ⟨other, hother, last', stop, hlast, rfl, hstop, hsettled⟩ :=
    run_early (validateTurn_followed errors content) (show (wavFile content path).content = content from rfl) hrun
      ⟨last, rfl, haccepted.format_found, haccepted.data_found⟩
  obtain rfl : last = last' := Except.ok.inj hlast
  obtain ⟨-, -, hpcm, hmono, hrate, hbits, hpos, heven, hinfo⟩ := haccepted
  rw [hsettled.format_eq] at hpcm hmono hrate hbits
  rw [hsettled.layout_eq] at hpos heven hinfo
  have hsame : AcceptedScan stop info :=
    ⟨hstop.format_found, hstop.data_found, hpcm, hmono, hrate, hbits, hpos, heven, hinfo⟩
  rw [inspectLayout_wave hwave, hother, hinfo]
  show some (accept stop) = _
  rw [haccept stop hsame]

theorem Worker.acceptLayout_of_accepted (stop : WaveScan) (h : AcceptedScan stop info) :
    Worker.acceptLayout stop = .ok stop.layout := by
  unfold Worker.acceptLayout
  rw [if_neg]
  simp [h.format_found, h.data_found, h.pcm, h.mono, h.rate, h.bits, h.size_even]

theorem WaveformGenerator.acceptLayout_of_accepted (stop : WaveScan) (h : AcceptedScan stop info) :
    WaveformGenerator.acceptLayout stop = .ok stop.layout := by
  unfold WaveformGenerator.acceptLayout
  rw [if_neg]
  simp [h.format_found, h.data_found, h.pcm, h.mono, h.rate, h.bits, h.size_even, Nat.ne_of_gt h.size_pos]

/-! ## Chunks -/

/-- The samples of a stretch of the data chunk: sixteen for a millisecond, of two bytes each. -/
def samplesBetween (content : QByteArray) (info : NormalizedAudioInfo) (startMs endMs : Int) : List Rat :=
  Worker.samplesOf ((content.drop (info.dataOffset + (startMs * 32).toNat)).take ((endMs - startMs) * 32).toNat)

/-- The stretch lies in the data chunk, and has all of its samples. -/
structure StretchInside (content : QByteArray) (info : NormalizedAudioInfo) (startMs endMs : Int) : Prop where
  start_nonneg : 0 ≤ startMs
  end_le : endMs * 32 ≤ info.dataSize
  length_eq : (samplesBetween content info startMs endMs).length = ((endMs - startMs) * 16).toNat
  ne_nil : samplesBetween content info startMs endMs ≠ []

theorem readPcm16Chunk_of_accepted {startMs endMs : Int}
    (hlayout : Worker.inspectPcmLayout fuel (wavFile content path) = some (.ok ⟨info.dataOffset, info.dataSize⟩))
    (hinside : info.dataOffset + info.dataSize ≤ content.length) (hsize : info.dataSize < 2 ^ 32)
    (hduration : info.durationMs = readableDurationMs info.dataSize) (hfuel : content.length < fuel)
    (hstart : 0 ≤ startMs) (hlt : startMs < endMs) (hend : endMs ≤ info.durationMs) (requested : Nat → Bool)
    (finalChunk : Bool) :
    StretchInside content info startMs endMs ∧
      (Worker.readPcm16Chunk fuel (fun _ => .ok content) path requested startMs endMs finalChunk =
          some (.ok (samplesBetween content info startMs endMs)) ∨
        Worker.readPcm16Chunk fuel (fun _ => .ok content) path requested startMs endMs finalChunk =
          some (.error Worker.transcriptionCancelled) ∧ ∃ n, requested n = true) := by
  rw [hduration, readableDurationMs_eq] at hend
  have hmilliseconds : endMs * 32 ≤ info.dataSize := by omega
  obtain ⟨start, rfl⟩ : ∃ start : Nat, startMs = start := ⟨startMs.toNat, by omega⟩
  obtain ⟨length, rfl⟩ : ∃ length : Nat, endMs = start + length := ⟨(endMs - start).toNat, by omega⟩
  have hoffset : ((start : Int) * 32).toNat = start * 32 := by omega
  have hcount : (((start : Int) + length - start) * 32).toNat = length * 32 := by omega
  have hsamples : samplesBetween content info start (start + length) =
      Worker.samplesOf ((content.drop (info.dataOffset + start * 32)).take (length * 32)) := by
    unfold samplesBetween
    rw [hoffset, hcount]
  have hlength : (samplesBetween content info start (start + length)).length = length * 16 := by
    rw [hsamples, Worker.length_samplesOf, List.length_take, List.length_drop]
    omega
  refine ⟨⟨hstart, hmilliseconds, ?_, ?_⟩, ?_⟩
  · rw [hlength]
    omega
  · intro hnil
    rw [hnil] at hlength
    simp only [List.length_nil] at hlength
    omega
  · have hread : Worker.readPcm16Chunk fuel (fun _ => .ok content) path requested start (start + length) finalChunk =
        run (Worker.readTurn requested) fuel
          { file := { wavFile content path with pos := info.dataOffset + start * 32 }, remaining := length * 32 } := by
      have hfirst : (start : Int) * 16000 / 1000 = start * 16 := by omega
      have hlast : ((start : Int) + length) * 16000 / 1000 = (start + length) * 16 := by omega
      have hrange : ¬ ((start : Int) < 0 ∨ (start : Int) + length ≤ start ∨
          (start : Int) + length > Asr.maxInt64 / 16000) := by
        have hmax : Asr.maxInt64 / 16000 = 576460752303423 := rfl
        omega
      unfold Worker.readPcm16Chunk
      rw [if_neg hrange]
      dsimp only [QFile.openReadOnly, Except.map]
      rw [show ({ content, fileName := path } : QFile) = wavFile content path from rfl, hlayout]
      dsimp only [Option.bind_some]
      -- the end is not behind the audio, so the last chunk is not cut
      rw [hfirst, hlast, if_neg (by omega), if_neg (by omega)]
      have hstartByte : ((start : Int) * 16 * 2).toNat = start * 32 := by omega
      have hbytes : ((((start : Int) + length) * 16 - start * 16) * 2).toNat = length * 32 := by omega
      dsimp only [QFile.seek]
      rw [hstartByte, hbytes]
    have hstarted : (wavFile content path).content = content := rfl
    obtain ⟨result, hresult, hrun⟩ := run_total (Worker.readTurn_sound requested content
      (samplesBetween content info start (start + length)))
      (s := { file := { wavFile content path with pos := info.dataOffset + start * 32 }, remaining := length * 32 })
      ⟨hstarted, by dsimp only; omega, by dsimp only; omega, hsamples.symm⟩
    rw [hread, hrun fuel (by dsimp only; omega)]
    exact hresult.imp (congrArg some) (And.imp_left (congrArg some))

/-! ## Speech -/

section Speech

variable {σ P : Type} [LE P] [DecidableLE P]

/-- What becomes of a speech analysis: the duration of the validator, or one of two reasons to stop. -/
def AnalyzedAs (durationMs : Int) (detector : Worker.WhisperVadContext σ P) (requested : Nat → Bool) :
    Except Worker.AsrError (List Asr.SpeechRegion × Int) → Prop
  | .ok (_, duration) => duration = durationMs
  | .error error => (error = Worker.analysisCancelled ∧ ∃ n, requested n = true) ∨
      ∃ samples vad, (detector.analyzeBlock samples vad).1 = .error error

theorem analyzePcmSpeech_of_accepted
    (hlayout : Worker.inspectPcmLayout fuel (wavFile content path) = some (.ok ⟨info.dataOffset, info.dataSize⟩))
    (hinside : info.dataOffset + info.dataSize ≤ content.length) (heven : info.dataSize % 2 = 0)
    (hduration : info.durationMs = readableDurationMs info.dataSize) (hfuel : content.length < fuel)
    (requested : Nat → Bool) (detector : Worker.WhisperVadContext σ P) (vad : σ)
    (config : Asr.StreamingVadConfiguration P) :
    ∃ result, Worker.analyzePcmSpeech fuel (fun _ => .ok content) path requested detector vad config = some result ∧
      AnalyzedAs info.durationMs detector requested result := by
  obtain ⟨scan, hscan, hrun⟩ := run_total
    (Worker.analyzeTurn_sound detector requested config ⟨info.dataOffset, info.dataSize⟩ hinside heven)
    (s := { file := { wavFile content path with pos := info.dataOffset }, vad := detector.resetStreamingState vad })
    ⟨rfl, rfl, Nat.zero_le _, rfl⟩
  refine ⟨scan.map (Worker.finished config ⟨info.dataOffset, info.dataSize⟩), ?_, ?_⟩
  · unfold Worker.analyzePcmSpeech
    dsimp only [QFile.openReadOnly, Except.map]
    rw [show ({ content, fileName := path } : QFile) = wavFile content path from rfl, hlayout]
    dsimp only [Option.bind_some, QFile.seek]
    rw [hrun fuel (by dsimp only; omega)]
    rfl
  · cases scan with
    | error error => exact hscan error rfl
    | ok last =>
      show ((info.dataSize / 2 * 1000 / 16000 : Nat) : Int) = info.durationMs
      rw [hduration, readableDurationMs_eq]
      omega

end Speech

/-! ## The readers -/

/-- Three readers and a planner, of one mind about a file. -/
structure ReadersAgree (fuel : Nat) (content : QByteArray) (path : QString) (info : NormalizedAudioInfo) : Prop where
  worker : Worker.inspectPcmLayout fuel (wavFile content path) = some (.ok ⟨info.dataOffset, info.dataSize⟩)
  waveform :
    WaveformGenerator.inspectPcmLayout fuel (wavFile content path) = some (.ok ⟨info.dataOffset, info.dataSize⟩)
  inside : info.dataOffset + info.dataSize ≤ content.length
  speech : ∀ {σ P : Type} [LE P] [DecidableLE P] (requested : Nat → Bool) (detector : Worker.WhisperVadContext σ P)
    (vad : σ) (config : Asr.StreamingVadConfiguration P), ∃ result,
      Worker.analyzePcmSpeech fuel (fun _ => .ok content) path requested detector vad config = some result ∧
        AnalyzedAs info.durationMs detector requested result
  chunks : ∀ config, Asr.Admissible config → ∀ regions, ∃ chunks,
    (∀ fuel, info.durationMs.toNat < fuel → Asr.plan fuel config info.durationMs regions = some chunks) ∧
      ∀ chunk ∈ chunks, StretchInside content info chunk.startMs chunk.endMs ∧ ∀ requested finalChunk,
        Worker.readPcm16Chunk fuel (fun _ => .ok content) path requested chunk.startMs chunk.endMs finalChunk =
            some (.ok (samplesBetween content info chunk.startMs chunk.endMs)) ∨
          Worker.readPcm16Chunk fuel (fun _ => .ok content) path requested chunk.startMs chunk.endMs finalChunk =
            some (.error Worker.transcriptionCancelled) ∧ ∃ n, requested n = true

/-- **Audio layout.**  The readers come to an end on every file, and what the validator accepts they agree on. -/
theorem readers_agree (content : QByteArray) (path : QString) :
    (∀ expectedDurationMs, ∃ result, ∀ fuel, content.length < fuel →
      validate fuel (fun _ => .ok content) path expectedDurationMs = some result) ∧
    (∃ result, ∀ fuel, content.length < fuel → Worker.inspectPcmLayout fuel (wavFile content path) = some result) ∧
    (∃ result, ∀ fuel, content.length < fuel →
      WaveformGenerator.inspectPcmLayout fuel (wavFile content path) = some result) ∧
    ∀ fuel expectedDurationMs info, content.length < fuel →
      validate fuel (fun _ => .ok content) path expectedDurationMs = some (.ok info) →
      ReadersAgree fuel content path info := by
  refine ⟨fun expectedDurationMs => validate_terminates rfl expectedDurationMs,
    inspectLayout_terminates _ _ _ (wavFile content path), inspectLayout_terminates _ _ _ (wavFile content path),
    fun fuel expectedDurationMs info hfuel hvalid => ?_⟩
  obtain ⟨hwave, last, hrun, haccepted, hinside, hsize⟩ := validate_accepted rfl hvalid
  have hinfo := haccepted.info_eq
  have hworker := inspectLayout_of_accepted (Worker.layoutErrors (wavFile content path))
    (Worker.rawLayout (wavFile content path)) hwave hrun haccepted Worker.acceptLayout_of_accepted
  have hwaveform := inspectLayout_of_accepted (WaveformGenerator.layoutErrors (wavFile content path))
    (WaveformGenerator.rawLayout (wavFile content path)) hwave hrun haccepted
    WaveformGenerator.acceptLayout_of_accepted
  have hduration : info.durationMs = readableDurationMs info.dataSize := by rw [hinfo]
  rw [show last.layout.dataOffset = info.dataOffset by rw [hinfo],
    show last.layout.dataSize = info.dataSize by rw [hinfo]] at hinside
  rw [show last.layout.dataSize = info.dataSize by rw [hinfo]] at hsize
  have heven : info.dataSize % 2 = 0 := by
    rw [hinfo]
    exact haccepted.size_even
  constructor
  · exact hworker
  · exact hwaveform
  · exact hinside
  · exact fun requested detector vad config =>
      analyzePcmSpeech_of_accepted hworker hinside heven hduration hfuel requested detector vad config
  · intro config hconfig regions
    by_cases hpositive : 0 < info.durationMs
    · obtain ⟨chunks, hcovers, hplan⟩ := Asr.plan_covers hconfig hpositive regions
      refine ⟨chunks, hplan, fun chunk hchunk => ?_⟩
      obtain ⟨hstart, hlt, hend⟩ := hcovers.within chunk hchunk
      have hread := readPcm16Chunk_of_accepted hworker hinside hsize hduration hfuel hstart hlt hend
      exact ⟨(hread (fun _ => false) false).1, fun requested finalChunk => (hread requested finalChunk).2⟩
    · -- less than a millisecond of audio: nothing is planned
      exact ⟨[], fun fuel _ => if_pos (not_lt.mp hpositive), fun chunk hchunk => (by cases hchunk)⟩

/-- Two milliseconds of silence, behind a chunk of odd length. -/
def paddedWave : QByteArray :=
  chunkName "RIFF" ++ [112, 0, 0, 0] ++ chunkName "WAVE" ++ chunkName "LIST" ++ [3, 0, 0, 0] ++ [0x61, 0x62, 0x63, 0] ++
    chunkName "fmt " ++ [16, 0, 0, 0] ++ [1, 0, 1, 0, 0x80, 0x3E, 0, 0, 0, 0x7D, 0, 0, 2, 0, 16, 0] ++
    chunkName "data" ++ [64, 0, 0, 0] ++ List.replicate 64 0

theorem readers_agree_padded : ReadersAgree 121 paddedWave [] ⟨56, 64, 2⟩ :=
  (readers_agree paddedWave []).2.2.2 121 1 _ (by decide) rfl

end BreezeDesk
