/-
  `WaveformGenerator::generate`: the peaks of normalized audio, at several resolutions.

  The finest level has a peak for each window of 256 samples; the next ones join four peaks into one, until
  at most 2048 are left.  How many peaks there will be is computed first, without the samples
  (`peakPlanFits`), and checked again while the levels are built and before they are written.

  `waveform_round_trip` — once the plan fits, only a cancellation or the output can stop the generation; what is
  written is read again, and every peak holds the extremes of its window.  The plan and the loop over the levels
  keep step (`levelTurn_simulates`), so one argument serves for both.

  An input and an output are what `QFile` and `QSaveFile` make of their paths.
-/
import BreezeDesk.Audio.LayoutAgreement
import BreezeDesk.Audio.WaveformCache
import BreezeDesk.Library.Windows

namespace BreezeDesk

/-- A `QSaveFile`: whether it can be opened, and whether what has been written is committed. -/
structure QSaveFile where
  opened : Except QString Unit := .ok ()
  committed : Except QString Unit := .ok ()

/-- What is in the file afterwards. -/
def QSaveFile.save (output : QSaveFile) (bytes : QByteArray) : Except QString QByteArray :=
  match output.opened with
  | .error error => .error error
  | .ok () =>
    match output.committed with
    | .error error => .error error
    | .ok () => .ok bytes

namespace WaveformGenerator

open Loop Windows

/-! ## The plan -/

def baseWindowSamples : Nat := 256

/-- `std::numeric_limits<quint32>::max()`. -/
def maxUInt32 : Nat := 2 ^ 32 - 1

structure PeakPlan where
  totalPeakCount : Nat
  currentPeakCount : Nat
  samplesPerPeak : Nat := baseWindowSamples
  levelCount : Nat := 1

/-- One turn of the loop in `peakPlanFits`. -/
def planTurn (s : PeakPlan) : Turn PeakPlan Bool :=
  if s.currentPeakCount > 2048 then
    if s.samplesPerPeak > maxUInt32 / 4 ∨ s.levelCount ≥ 32 then .done false
    else
      let currentPeakCount := s.currentPeakCount / 4 + if s.currentPeakCount % 4 ≠ 0 then 1 else 0
      if currentPeakCount > maximumSerializedPeakPairs - s.totalPeakCount then .done false
      else
        .again
          { totalPeakCount := s.totalPeakCount + currentPeakCount, currentPeakCount,
            samplesPerPeak := s.samplesPerPeak * 4, levelCount := s.levelCount + 1 }
  else .done true

def peakPlanFits (fuel : Nat) (basePeakCount : Nat) : Option Bool :=
  if basePeakCount = 0 ∨ basePeakCount > maximumSerializedPeakPairs then some false
  else run planTurn fuel { totalPeakCount := basePeakCount, currentPeakCount := basePeakCount }

/-- The number of peaks in the finest level. -/
def basePeakCount (layout : PcmLayout) : Nat :=
  let sampleCount := layout.dataSize / 2
  sampleCount / baseWindowSamples + if sampleCount % baseWindowSamples ≠ 0 then 1 else 0

/-! ## The finest level -/

/-- Two bytes of a sample, the low one first. -/
def sampleOf (low high : UInt8) : QInt16 := .ofUnsigned (low.toNat + 256 * high.toNat)

def samplesOf : QByteArray → List QInt16
  | low :: high :: rest => sampleOf low high :: samplesOf rest
  | _ => []

structure PeakRead where
  file : QFile
  remaining : Nat
  minimums : List QInt16 := []
  maximums : List QInt16 := []
  polls : Nat := 0

def generationCancelled : QString := qs "Waveform generation was cancelled."

def layoutChanged : QString := qs "The PCM sample layout changed during waveform generation."

/-- One turn of the loop over the windows; `requested` says which poll finds the generation cancelled. -/
def peakTurn (requested : Nat → Bool) (basePeakCount : Nat) (s : PeakRead) :
    Turn PeakRead (Except QString (List QInt16 × List QInt16)) :=
  if 0 < s.remaining then
    if requested s.polls then .done (.error generationCancelled)
    else
      let count := min (baseWindowSamples * 2) s.remaining
      let (bytes, file) := s.file.read count
      if bytes.length ≠ count ∨ bytes.length % 2 ≠ 0 then
        .done (.error (qs "The PCM sample data is truncated."))
      else
        let minimum := (samplesOf bytes).foldl min ⊤
        let maximum := (samplesOf bytes).foldl max ⊥
        if s.minimums.length ≥ basePeakCount then .done (.error layoutChanged)
        else
          .again
            { file, remaining := s.remaining - bytes.length, minimums := s.minimums ++ [minimum],
              maximums := s.maximums ++ [maximum], polls := s.polls + 1 }
  else .done (.ok (s.minimums, s.maximums))

/-! ## Coarser levels -/

/-- Where the loop in `aggregate` stops by. -/
def aggregateIndices (count : Nat) : List Nat :=
  (List.range (count / 4 + if count % 4 ≠ 0 then 1 else 0)).map (· * 4)

/-- The peaks from `index` on, four of them at most. -/
def candidates (peaks : List QInt16) (index : Nat) : List QInt16 :=
  (peaks.drop index).take (min (index + 4) peaks.length - index)

def aggregate (source : WaveformLevel) : Option WaveformLevel :=
  if source.samplesPerPeak = 0 ∨ source.samplesPerPeak > maxUInt32 / 4 ∨ source.minimums.isEmpty = true ∨
      source.minimums.length ≠ source.maximums.length then none
  else
    let indices := aggregateIndices source.minimums.length
    some
      { samplesPerPeak := source.samplesPerPeak * 4
        minimums := indices.map fun index => (candidates source.minimums index).foldl min ⊤
        maximums := indices.map fun index => (candidates source.maximums index).foldl max ⊥ }

structure LevelBuild where
  levels : List WaveformLevel
  totalPeakCount : Nat

/-- One turn of the loop over the levels. -/
def levelTurn (s : LevelBuild) : Turn LevelBuild (Except QString (List WaveformLevel)) :=
  let last := s.levels.getLastD {}
  if last.minimums.length > 2048 then
    match aggregate last with
    | none => .done (.error (qs "Waveform resolution exceeds the supported range."))
    | some aggregated =>
      let aggregatedCount := aggregated.minimums.length
      if aggregatedCount > maximumSerializedPeakPairs - s.totalPeakCount then
        .done (.error (qs "Waveform cache is too large."))
      else .again ⟨s.levels ++ [aggregated], s.totalPeakCount + aggregatedCount⟩
  else .done (.ok s.levels)

/-- The loop of `levelsFitSerializedLimits`. -/
def fitLevels : Nat → List WaveformLevel → Except QString Unit
  | _, [] => .ok ()
  | totalPeakCount, level :: levels =>
    if level.samplesPerPeak = 0 ∨ level.minimums.isEmpty = true ∨ level.minimums.length ≠ level.maximums.length then
      .error (qs "Waveform cache contains invalid level data.")
    else
      let count := level.minimums.length
      if count > maximumSerializedPeakPairs - totalPeakCount then .error (qs "Waveform cache is too large.")
      else fitLevels (totalPeakCount + count) levels

def levelsFitSerializedLimits (levels : List WaveformLevel) : Except QString Unit :=
  if levels.isEmpty = true ∨ levels.length > 32 then .error (qs "Waveform cache has an invalid level count.")
  else fitLevels 0 levels

/-! ## Generation -/

/-- The levels over the finest one, and the output. -/
def writeLevels (fuel : Nat) (output : QSaveFile) (basePeakCount : Nat) (minimums maximums : List QInt16) :
    Option (Except QString QByteArray) :=
  if minimums.isEmpty then some (.error (qs "The normalized audio does not contain PCM samples."))
  else
    let totalPeakCount := minimums.length
    if totalPeakCount ≠ basePeakCount then some (.error layoutChanged)
    else
      (run levelTurn fuel ⟨[⟨baseWindowSamples, minimums, maximums⟩], totalPeakCount⟩).map fun built =>
        match built with
        | .error error => .error error
        | .ok levels =>
          match levelsFitSerializedLimits levels with
          | .error error => .error error
          | .ok () => output.save (serialized levels)

/-- `WaveformGenerator::generate`, with `fuel` turns for each of its loops. -/
def generate (fuel : Nat) (disk : QString → Except QString QByteArray) (pcm16Path : QString)
    (requested : Nat → Bool) (output : QSaveFile) : Option (Except QString QByteArray) :=
  match QFile.openReadOnly disk pcm16Path with
  | .error error => some (.error error)
  | .ok input =>
    (inspectPcmLayout fuel input).bind fun inspected =>
      match inspected with
      | .error error => some (.error (if error.isEmpty then input.errorString else error))
      | .ok layout =>
        match input.seek layout.dataOffset with
        | none => some (.error input.errorString)
        | some input =>
          (peakPlanFits fuel (basePeakCount layout)).bind fun fits =>
            if ¬ fits then some (.error (qs "The audio is too large to generate a bounded waveform cache."))
            else
              (run (peakTurn requested (basePeakCount layout)) fuel { file := input, remaining := layout.dataSize }).bind
                fun peaks =>
                  match peaks with
                  | .error error => some (.error error)
                  | .ok (minimums, maximums) => writeLevels fuel output (basePeakCount layout) minimums maximums

/-! ## Samples -/

theorem samplesOf_take : ∀ (n : Nat) (bytes : QByteArray), samplesOf (bytes.take (n * 2)) = (samplesOf bytes).take n
  | 0, _ => rfl
  | n + 1, [] => rfl
  | n + 1, [byte] => by simp [samplesOf, Nat.succ_mul]
  | n + 1, low :: high :: rest => by
    have hrest := samplesOf_take n rest
    rw [Nat.succ_mul, List.take_succ_cons, List.take_succ_cons, samplesOf, samplesOf, hrest, List.take_succ_cons]

theorem samplesOf_drop : ∀ (n : Nat) (bytes : QByteArray), samplesOf (bytes.drop (n * 2)) = (samplesOf bytes).drop n
  | 0, _ => rfl
  | n + 1, [] => rfl
  | n + 1, [byte] => by simp [samplesOf, Nat.succ_mul]
  | n + 1, low :: high :: rest => by
    have hrest := samplesOf_drop n rest
    rw [Nat.succ_mul, List.drop_succ_cons, List.drop_succ_cons, samplesOf, hrest, List.drop_succ_cons]

theorem length_samplesOf : ∀ bytes : QByteArray, (samplesOf bytes).length = bytes.length / 2
  | [] => rfl
  | [byte] => by simp [samplesOf]
  | low :: high :: rest => by
    have hrest := length_samplesOf rest
    rw [samplesOf, List.length_cons, List.length_cons, List.length_cons, hrest]
    omega

/-- The samples of a layout. -/
def layoutSamples (content : QByteArray) (layout : PcmLayout) : List QInt16 :=
  samplesOf ((content.drop layout.dataOffset).take layout.dataSize)

/-- What `inspectPcmLayout` accepts: a sample at least, and all of them in the file. -/
structure AcceptedLayout (content : QByteArray) (layout : PcmLayout) : Prop where
  inside : layout.dataOffset + layout.dataSize ≤ content.length
  size_pos : 0 < layout.dataSize
  size_even : layout.dataSize % 2 = 0

variable {fuel : Nat} {content : QByteArray} {path : QString} {layout : PcmLayout}

theorem acceptLayout_ok {s : WaveScan} (hinside : ScanInside content s) (h : acceptLayout s = .ok layout) :
    AcceptedLayout content layout := by
  unfold acceptLayout at h
  split at h
  · cases h
  next haccepted =>
    cases h
    have hinside := hinside.data_le
    constructor <;> omega

theorem rawLayout_ok (hsize : (wavFile content path).size ≠ 0) (h : rawLayout (wavFile content path) = .ok layout) :
    AcceptedLayout content layout := by
  unfold rawLayout at h
  split at h
  · cases h
  next haccepted =>
    cases h
    have hsame : (wavFile content path).size = content.length := rfl
    constructor <;> dsimp only <;> omega

theorem inspectPcmLayout_ok (h : inspectPcmLayout fuel (wavFile content path) = some (.ok layout)) :
    AcceptedLayout content layout := by
  unfold inspectPcmLayout inspectLayout at h
  split at h
  · cases h
  next hsize =>
    split at h
    · dsimp only [QFile.seek] at h
      obtain ⟨scan, hrun, hscan⟩ := Option.map_eq_some_iff.mp h
      cases scan with
      | error error => cases hscan
      | ok last =>
        have hstart : ScanInside content { file := { wavFile content path with pos := 12 } } := ⟨rfl, Nat.zero_le _⟩
        exact acceptLayout_ok (run_kept (inspectTurn_inside _ content) hstart hrun last rfl) hscan
    · exact rawLayout_ok hsize (Option.some.inj h)

theorem AcceptedLayout.length_samples (h : AcceptedLayout content layout) :
    (layoutSamples content layout).length = layout.dataSize / 2 := by
  have hinside := h.inside
  unfold layoutSamples
  rw [length_samplesOf, List.length_take, List.length_drop, Nat.min_eq_left (by omega)]

theorem AcceptedLayout.samples_ne_nil (h : AcceptedLayout content layout) : layoutSamples content layout ≠ [] := by
  have hpos := h.size_pos
  have heven := h.size_even
  apply List.ne_nil_of_length_pos
  rw [h.length_samples]
  omega

/-! ## The finest level -/

/-- The extremes of the windows of a list. -/
abbrev minimumsOf (n : Nat) (samples : List QInt16) : List QInt16 := summaries min ⊤ n samples
abbrev maximumsOf (n : Nat) (samples : List QInt16) : List QInt16 := summaries max ⊥ n samples

/-- What is read and what is still to be read make up the finest level. -/
structure ReadSoFar (content : QByteArray) (samples : List QInt16) (s : PeakRead) : Prop where
  content_eq : s.file.content = content
  inside : s.file.pos + s.remaining ≤ content.length
  even : s.remaining % 2 = 0
  minimums_eq : s.minimums ++ minimumsOf baseWindowSamples (samplesOf ((content.drop s.file.pos).take s.remaining)) =
    minimumsOf baseWindowSamples samples
  maximums_eq : s.maximums ++ maximumsOf baseWindowSamples (samplesOf ((content.drop s.file.pos).take s.remaining)) =
    maximumsOf baseWindowSamples samples

/-- One window, and the rest. -/
theorem unread_eq_cons {op : QInt16 → QInt16 → QInt16} {e : QInt16} {pos remaining : Nat}
    (hinside : pos + remaining ≤ content.length) (hpos : 0 < remaining) (heven : remaining % 2 = 0) :
    summaries op e baseWindowSamples (samplesOf ((content.drop pos).take remaining)) =
      summary op e (samplesOf ((content.drop pos).take (min (baseWindowSamples * 2) remaining))) ::
        summaries op e baseWindowSamples
          (samplesOf ((content.drop (pos + min (baseWindowSamples * 2) remaining)).take
            (remaining - min (baseWindowSamples * 2) remaining))) := by
  have hne : samplesOf ((content.drop pos).take remaining) ≠ [] := by
    apply List.ne_nil_of_length_pos
    rw [length_samplesOf, List.length_take, List.length_drop]
    omega
  have hrest : (content.drop (pos + min (baseWindowSamples * 2) remaining)).take
      (remaining - min (baseWindowSamples * 2) remaining) =
        ((content.drop pos).take remaining).drop (baseWindowSamples * 2) := by
    rw [← List.drop_drop, List.drop_take]
    rcases Nat.le_total (baseWindowSamples * 2) remaining with hle | hle
    · rw [Nat.min_eq_left hle]
    · rw [Nat.min_eq_right hle, Nat.sub_self, Nat.sub_eq_zero_iff_le.mpr hle, List.take_zero, List.take_zero]
  rw [summaries_eq_cons (by decide) hne, ← samplesOf_take, ← samplesOf_drop, List.take_take, hrest]

theorem peakTurn_sound (requested : Nat → Bool) {samples : List QInt16} {basePeakCount : Nat}
    (hcount : basePeakCount = windowCount baseWindowSamples samples.length) :
    TurnSound (peakTurn requested basePeakCount) (ReadSoFar content samples) (·.remaining) fun result =>
      result = .ok (minimumsOf baseWindowSamples samples, maximumsOf baseWindowSamples samples) ∨
        result = .error generationCancelled ∧ ∃ n, requested n = true := by
  intro s h
  have hinside := h.inside
  have heven := h.even
  have hsize : s.file.size = content.length := congrArg List.length h.content_eq
  have hwindow : baseWindowSamples * 2 = 512 := rfl
  by_cases hpos : 0 < s.remaining
  · by_cases hrequested : requested s.polls = true
    · have hturned : peakTurn requested basePeakCount s = .done (.error generationCancelled) := by
        unfold peakTurn
        rw [if_pos hpos, if_pos hrequested]
      rw [hturned]
      exact Or.inr ⟨rfl, s.polls, hrequested⟩
    · have hle : s.file.pos + min (baseWindowSamples * 2) s.remaining ≤ s.file.size := by omega
      have hbytes : s.file.peek (min (baseWindowSamples * 2) s.remaining) =
          (content.drop s.file.pos).take (min (baseWindowSamples * 2) s.remaining) := by
        unfold QFile.peek
        rw [h.content_eq]
      have hminimums := h.minimums_eq
      have hmaximums := h.maximums_eq
      have hroom := congrArg List.length hminimums
      unfold minimumsOf at hminimums hroom
      unfold maximumsOf at hmaximums
      rw [unread_eq_cons hinside hpos heven] at hminimums hmaximums hroom
      rw [List.length_append, List.length_cons, length_summaries _ samples, ← hcount] at hroom
      have hturned : peakTurn requested basePeakCount s = .again
          { file := { s.file with pos := s.file.pos + min (baseWindowSamples * 2) s.remaining }
            remaining := s.remaining - min (baseWindowSamples * 2) s.remaining
            minimums := s.minimums ++
              [summary min ⊤ (samplesOf ((content.drop s.file.pos).take (min (baseWindowSamples * 2) s.remaining)))]
            maximums := s.maximums ++
              [summary max ⊥ (samplesOf ((content.drop s.file.pos).take (min (baseWindowSamples * 2) s.remaining)))]
            polls := s.polls + 1 } := by
        unfold peakTurn
        rw [if_pos hpos, if_neg hrequested]
        dsimp only
        rw [QFile.read_of_inside hle]
        dsimp only
        rw [QFile.length_peek hle, if_neg (by omega), if_neg (by omega), hbytes]
        rfl
      rw [hturned]
      refine ⟨⟨h.content_eq, ?_, ?_, ?_, ?_⟩, ?_⟩
      · dsimp only
        omega
      · dsimp only
        omega
      · dsimp only
        rw [List.append_assoc]
        exact hminimums
      · dsimp only
        rw [List.append_assoc]
        exact hmaximums
      · dsimp only
        omega
  · -- nothing is left to be read
    have hturned : peakTurn requested basePeakCount s = .done (.ok (s.minimums, s.maximums)) := by
      unfold peakTurn
      rw [if_neg hpos]
    have hnothing : s.remaining = 0 := by omega
    have hminimums := h.minimums_eq
    have hmaximums := h.maximums_eq
    rw [hnothing, List.take_zero] at hminimums hmaximums
    rw [hturned]
    left
    rw [← hminimums, ← hmaximums]
    show Except.ok (s.minimums, s.maximums) = .ok (s.minimums ++ [], s.maximums ++ [])
    rw [List.append_nil, List.append_nil]

/-! ## Coarser levels -/

/-- The level with the number `k`: a peak for each window of `256 * 4 ^ k` samples. -/
def levelAt (samples : List QInt16) (k : Nat) : WaveformLevel where
  samplesPerPeak := baseWindowSamples * 4 ^ k
  minimums := minimumsOf (baseWindowSamples * 4 ^ k) samples
  maximums := maximumsOf (baseWindowSamples * 4 ^ k) samples

def pyramid (samples : List QInt16) (levelCount : Nat) : List WaveformLevel :=
  (List.range levelCount).map (levelAt samples)

theorem pyramid_succ (samples : List QInt16) (k : Nat) :
    pyramid samples (k + 1) = pyramid samples k ++ [levelAt samples k] := by
  unfold pyramid
  rw [List.range_succ, List.map_append, List.map_singleton]

theorem window_pos (k : Nat) : 0 < baseWindowSamples * 4 ^ k :=
  Nat.mul_pos (by decide) (Nat.pow_pos (by decide))

theorem levelAt_count (samples : List QInt16) (k : Nat) :
    (levelAt samples k).minimums.length = windowCount (baseWindowSamples * 4 ^ k) samples.length :=
  length_summaries _ samples

theorem totalPeaks_pyramid_succ (samples : List QInt16) (k : Nat) :
    totalPeaks (pyramid samples (k + 1)) =
      totalPeaks (pyramid samples k) + windowCount (baseWindowSamples * 4 ^ k) samples.length := by
  unfold totalPeaks
  rw [pyramid_succ, List.map_append, List.sum_append, List.map_singleton, List.sum_singleton, levelAt_count]

/-- The loop in `aggregate` goes through windows of four peaks. -/
theorem aggregateIndices_map (op : QInt16 → QInt16 → QInt16) (e : QInt16) (peaks : List QInt16) :
    ((aggregateIndices peaks.length).map fun index => (candidates peaks index).foldl op e) = summaries op e 4 peaks := by
  unfold aggregateIndices summaries windows
  rw [List.map_map, List.map_map]
  apply List.map_congr_left
  intro j _
  have hcandidates : candidates peaks (j * 4) = window 4 peaks j := by
    unfold candidates window
    rw [List.take_eq_take_iff, List.length_drop]
    omega
  show (candidates peaks (j * 4)).foldl op e = (window 4 peaks j).foldl op e
  rw [hcandidates]

theorem aggregate_levelAt {samples : List QInt16} (hne : samples ≠ []) {k : Nat}
    (hwidth : baseWindowSamples * 4 ^ k ≤ maxUInt32 / 4) :
    aggregate (levelAt samples k) = some (levelAt samples (k + 1)) := by
  have hpos := window_pos k
  have hcount := windowCount_pos hpos (List.length_pos_iff.mpr hne)
  have hminimums := levelAt_count samples k
  have hmaximums : (levelAt samples k).maximums.length = windowCount (baseWindowSamples * 4 ^ k) samples.length :=
    length_summaries _ samples
  have hsome : ¬ (levelAt samples k).minimums.isEmpty = true := by
    rw [List.isEmpty_iff_length_eq_zero]
    omega
  have hguard : ¬ ((levelAt samples k).samplesPerPeak = 0 ∨ (levelAt samples k).samplesPerPeak > maxUInt32 / 4 ∨
      (levelAt samples k).minimums.isEmpty = true ∨
        (levelAt samples k).minimums.length ≠ (levelAt samples k).maximums.length) := by
    rintro (hzero | hwide | hempty | hunpaired)
    · exact Nat.ne_of_gt hpos hzero
    · exact absurd hwidth (not_le.mpr hwide)
    · exact hsome hempty
    · exact hunpaired (hminimums.trans hmaximums.symm)
  have hwider : baseWindowSamples * 4 ^ k * 4 = baseWindowSamples * 4 ^ (k + 1) := by
    rw [Nat.pow_succ, Nat.mul_assoc]
  unfold aggregate
  rw [if_neg hguard]
  dsimp only
  rw [aggregateIndices_map min ⊤, hminimums.trans hmaximums.symm, aggregateIndices_map max ⊥]
  unfold levelAt
  dsimp only [minimumsOf, maximumsOf]
  rw [summaries_summaries hpos (by decide), summaries_summaries hpos (by decide), hwider]

/-! ## The plan and the levels -/

/-- The plan is for `k + 1` levels, and so many have been built. -/
structure Matches (samples : List QInt16) (plan : PeakPlan) (build : LevelBuild) : Prop where
  step : ∃ k, plan.levelCount = k + 1 ∧ plan.samplesPerPeak = baseWindowSamples * 4 ^ k ∧
    plan.currentPeakCount = windowCount (baseWindowSamples * 4 ^ k) samples.length ∧
      build.levels = pyramid samples (k + 1)
  level_le : plan.levelCount ≤ 32
  width_le : plan.samplesPerPeak ≤ maxUInt32
  total_eq : plan.totalPeakCount = build.totalPeakCount
  counted : build.totalPeakCount = totalPeaks build.levels
  total_le : build.totalPeakCount ≤ maximumSerializedPeakPairs

/-- What comes out of the loop over the levels. -/
structure Built (samples : List QInt16) (levels : List WaveformLevel) (k : Nat) : Prop where
  levels_eq : levels = pyramid samples (k + 1)
  level_le : k + 1 ≤ 32
  width_le : baseWindowSamples * 4 ^ k ≤ maxUInt32
  total_le : totalPeaks levels ≤ maximumSerializedPeakPairs
  coarse : windowCount (baseWindowSamples * 4 ^ k) samples.length ≤ 2048

/-- **The plan and the loop keep step.** -/
theorem levelTurn_simulates {samples : List QInt16} (hne : samples ≠ []) :
    TurnSimulated planTurn levelTurn (Matches samples) (· = true) fun _ result =>
      ∃ levels k, result = .ok levels ∧ Built samples levels k := by
  intro plan build h
  obtain ⟨k, hlevel, hwidth, hcurrent, hlevels⟩ := h.step
  have hlast : build.levels.getLastD {} = levelAt samples k := by
    rw [hlevels, pyramid_succ, List.getLastD_concat]
  have hcount := levelAt_count samples k
  have hplanned := h.total_eq
  have htotal := h.total_le
  by_cases hmore : plan.currentPeakCount > 2048
  · by_cases hfull : plan.samplesPerPeak > maxUInt32 / 4 ∨ plan.levelCount ≥ 32
    · have hturned : planTurn plan = .done false := by
        unfold planTurn
        rw [if_pos hmore, if_pos hfull]
      rw [hturned]
      rintro ⟨⟩
    · have hquarter : plan.currentPeakCount / 4 + (if plan.currentPeakCount % 4 ≠ 0 then 1 else 0) =
          windowCount (baseWindowSamples * 4 ^ (k + 1)) samples.length := by
        have hjoined := windowCount_windowCount (window_pos k) (show 0 < 4 by decide) samples.length
        rw [hcurrent, Nat.pow_succ, ← Nat.mul_assoc, ← hjoined]
        rfl
      by_cases hlarge : windowCount (baseWindowSamples * 4 ^ (k + 1)) samples.length >
          maximumSerializedPeakPairs - plan.totalPeakCount
      · have hturned : planTurn plan = .done false := by
          unfold planTurn
          dsimp only
          rw [hquarter, if_pos hmore, if_neg hfull, if_pos hlarge]
        rw [hturned]
        rintro ⟨⟩
      · have hturned : planTurn plan = .again
            { totalPeakCount := plan.totalPeakCount + windowCount (baseWindowSamples * 4 ^ (k + 1)) samples.length
              currentPeakCount := windowCount (baseWindowSamples * 4 ^ (k + 1)) samples.length
              samplesPerPeak := plan.samplesPerPeak * 4
              levelCount := plan.levelCount + 1 } := by
          unfold planTurn
          dsimp only
          rw [hquarter, if_pos hmore, if_neg hfull, if_neg hlarge]
        have hnarrow : baseWindowSamples * 4 ^ k ≤ maxUInt32 / 4 := by omega
        have hbuilt : levelTurn build = .again ⟨build.levels ++ [levelAt samples (k + 1)],
            build.totalPeakCount + windowCount (baseWindowSamples * 4 ^ (k + 1)) samples.length⟩ := by
          unfold levelTurn
          rw [hlast]
          dsimp only
          rw [aggregate_levelAt hne hnarrow, if_pos (by omega)]
          dsimp only
          rw [levelAt_count, if_neg (by omega)]
        rw [hturned]
        refine ⟨_, hbuilt, ⟨k + 1, ?_, ?_, rfl, ?_⟩, ?_, ?_, ?_, ?_, ?_⟩
        · exact congrArg (· + 1) hlevel
        · show plan.samplesPerPeak * 4 = baseWindowSamples * 4 ^ (k + 1)
          rw [hwidth, Nat.pow_succ, Nat.mul_assoc]
        · show build.levels ++ [levelAt samples (k + 1)] = pyramid samples (k + 1 + 1)
          rw [hlevels, ← pyramid_succ]
        · dsimp only
          omega
        · show plan.samplesPerPeak * 4 ≤ maxUInt32
          omega
        · dsimp only
          omega
        · show build.totalPeakCount + _ = totalPeaks (build.levels ++ [levelAt samples (k + 1)])
          rw [h.counted, hlevels, ← pyramid_succ, totalPeaks_pyramid_succ samples (k + 1)]
        · dsimp only
          omega
  · have hturned : planTurn plan = .done true := by
      unfold planTurn
      rw [if_neg hmore]
    have hbuilt : levelTurn build = .done (.ok build.levels) := by
      unfold levelTurn
      rw [hlast]
      dsimp only
      rw [if_neg (by omega)]
    have hlevelLe := h.level_le
    have hwidthLe := h.width_le
    have hcounted := h.counted
    rw [hturned]
    intro _
    exact ⟨_, hbuilt, _, k, rfl, hlevels, by omega, by omega, by omega, by omega⟩

/-! ## The limits -/

theorem levelAt_serializable {samples : List QInt16} (hne : samples ≠ []) {k : Nat}
    (hwidth : baseWindowSamples * 4 ^ k ≤ maxUInt32) : Serializable (levelAt samples k) where
  samples_pos := window_pos k
  samples_lt := Nat.lt_of_le_of_lt hwidth (by decide)
  count_pos := by
    rw [levelAt_count]
    exact windowCount_pos (window_pos k) (List.length_pos_iff.mpr hne)
  paired := (length_summaries _ samples).trans (length_summaries _ samples).symm
  ordered := by
    intro peak hpeak
    have hzip : (levelAt samples k).minimums.zip (levelAt samples k).maximums =
        (windows (baseWindowSamples * 4 ^ k) samples).map fun w => (summary min ⊤ w, summary max ⊥ w) := List.zip_map'
    rw [hzip] at hpeak
    obtain ⟨w, hw, rfl⟩ := List.mem_map.mp hpeak
    obtain ⟨j, hj, rfl⟩ := List.mem_map.mp hw
    have hwindow : window (baseWindowSamples * 4 ^ k) samples j ≠ [] :=
      window_ne_nil (window_pos k) (List.mem_range.mp hj)
    obtain ⟨hmem, -⟩ := isLeast_summary hwindow
    exact (isGreatest_summary hwindow).2 hmem

theorem Built.serializable {samples : List QInt16} (hne : samples ≠ []) {levels : List WaveformLevel} {k : Nat}
    (h : Built samples levels k) : ∀ level ∈ levels, Serializable level := by
  intro level hlevel
  rw [h.levels_eq] at hlevel
  obtain ⟨i, hi, rfl⟩ := List.mem_map.mp hlevel
  have hle : i ≤ k := Nat.lt_succ_iff.mp (List.mem_range.mp hi)
  have hpow : 4 ^ i ≤ 4 ^ k := Nat.pow_le_pow_right (by decide) hle
  exact levelAt_serializable hne ((Nat.mul_le_mul_left _ hpow).trans h.width_le)

theorem fitLevels_ok {levels : List WaveformLevel} {totalPeakCount : Nat}
    (hlevels : ∀ level ∈ levels, Serializable level)
    (htotal : totalPeakCount + totalPeaks levels ≤ maximumSerializedPeakPairs) :
    fitLevels totalPeakCount levels = .ok () := by
  induction levels generalizing totalPeakCount with
  | nil => rfl
  | cons level levels ih =>
    have hlevel := hlevels level List.mem_cons_self
    have hsum : totalPeaks (level :: levels) = level.minimums.length + totalPeaks levels := List.sum_cons
    have hsome : ¬ level.minimums.isEmpty = true := by
      have hcount := hlevel.count_pos
      rw [List.isEmpty_iff_length_eq_zero]
      omega
    have hvalid : ¬ (level.samplesPerPeak = 0 ∨ level.minimums.isEmpty = true ∨
        level.minimums.length ≠ level.maximums.length) := by
      rintro (hzero | hempty | hunpaired)
      · exact Nat.ne_of_gt hlevel.samples_pos hzero
      · exact hsome hempty
      · exact hunpaired hlevel.paired.symm
    rw [hsum] at htotal
    unfold fitLevels
    dsimp only
    rw [if_neg hvalid, if_neg (by omega)]
    exact ih (fun other hother => hlevels other (List.mem_cons_of_mem level hother)) (by omega)

theorem Built.length_eq {samples : List QInt16} {levels : List WaveformLevel} {k : Nat} (h : Built samples levels k) :
    levels.length = k + 1 := by
  rw [h.levels_eq]
  unfold pyramid
  rw [List.length_map, List.length_range]

theorem Built.fits {samples : List QInt16} (hne : samples ≠ []) {levels : List WaveformLevel} {k : Nat}
    (h : Built samples levels k) : levelsFitSerializedLimits levels = .ok () := by
  have hlength := h.length_eq
  have hle := h.level_le
  have hsome : ¬ (levels.isEmpty = true ∨ levels.length > 32) := by
    rw [List.isEmpty_iff_length_eq_zero]
    omega
  unfold levelsFitSerializedLimits
  rw [if_neg hsome]
  exact fitLevels_ok (h.serializable hne) (by rw [Nat.zero_add]; exact h.total_le)

/-! ## Generation -/

theorem planTurn_sound : TurnSound planTurn (fun _ => True) (·.currentPeakCount) fun _ => True := by
  intro s _
  unfold planTurn
  by_cases hmore : s.currentPeakCount > 2048
  · rw [if_pos hmore]
    dsimp only
    by_cases hfull : s.samplesPerPeak > maxUInt32 / 4 ∨ s.levelCount ≥ 32
    · rw [if_pos hfull]
      trivial
    · rw [if_neg hfull]
      by_cases hlarge : s.currentPeakCount / 4 + (if s.currentPeakCount % 4 ≠ 0 then 1 else 0) >
          maximumSerializedPeakPairs - s.totalPeakCount
      · rw [if_pos hlarge]
        trivial
      · rw [if_neg hlarge]
        refine ⟨trivial, ?_⟩
        show s.currentPeakCount / 4 + (if s.currentPeakCount % 4 ≠ 0 then 1 else 0) < s.currentPeakCount
        split <;> omega
  · rw [if_neg hmore]
    trivial

/-- The plan is always made. -/
theorem peakPlanFits_terminates (basePeakCount : Nat) :
    ∃ fits, ∀ fuel, basePeakCount < fuel → peakPlanFits fuel basePeakCount = some fits := by
  by_cases hrefused : basePeakCount = 0 ∨ basePeakCount > maximumSerializedPeakPairs
  · exact ⟨false, fun fuel _ => if_pos hrefused⟩
  · obtain ⟨fits, -, hrun⟩ := run_total planTurn_sound
      (s := { totalPeakCount := basePeakCount, currentPeakCount := basePeakCount }) trivial
    refine ⟨fits, fun fuel hfuel => ?_⟩
    unfold peakPlanFits
    rw [if_neg hrefused]
    exact hrun fuel hfuel

/-- A plan that fits is carried out. -/
theorem levels_built {samples : List QInt16} (hne : samples ≠ [])
    (hplan : peakPlanFits fuel (windowCount baseWindowSamples samples.length) = some true) :
    ∃ levels k, run levelTurn fuel ⟨[levelAt samples 0], windowCount baseWindowSamples samples.length⟩ =
      some (.ok levels) ∧ Built samples levels k := by
  unfold peakPlanFits at hplan
  split at hplan
  · cases hplan
  next hadmitted =>
    have hzero : baseWindowSamples * 4 ^ 0 = baseWindowSamples := rfl
    have hstart : Matches samples
        { totalPeakCount := windowCount baseWindowSamples samples.length
          currentPeakCount := windowCount baseWindowSamples samples.length }
        ⟨[levelAt samples 0], windowCount baseWindowSamples samples.length⟩ := by
      refine ⟨⟨0, rfl, rfl, by rw [hzero], rfl⟩, show 1 ≤ 32 by decide,
        show baseWindowSamples ≤ maxUInt32 by decide, rfl, ?_, ?_⟩
      · show windowCount baseWindowSamples samples.length = (levelAt samples 0).minimums.length + 0
        rw [levelAt_count, hzero, Nat.add_zero]
      · dsimp only
        omega
    obtain ⟨result, hrun, levels, k, rfl, hbuilt⟩ := run_simulated (levelTurn_simulates hne) hstart hplan rfl
    exact ⟨levels, k, hrun, hbuilt⟩

theorem writeLevels_built {samples : List QInt16} (hne : samples ≠ [])
    (hplan : peakPlanFits fuel (windowCount baseWindowSamples samples.length) = some true) :
    ∃ levels k, Built samples levels k ∧ ∀ output,
      writeLevels fuel output (windowCount baseWindowSamples samples.length)
        (minimumsOf baseWindowSamples samples) (maximumsOf baseWindowSamples samples) =
          some (output.save (serialized levels)) := by
  obtain ⟨levels, k, hrun, hbuilt⟩ := levels_built hne hplan
  refine ⟨levels, k, hbuilt, fun output => ?_⟩
  have hlength : (minimumsOf baseWindowSamples samples).length = windowCount baseWindowSamples samples.length :=
    length_summaries _ samples
  have hsome : ¬ (minimumsOf baseWindowSamples samples).isEmpty = true := by
    have hpos := windowCount_pos (show 0 < baseWindowSamples by decide) (List.length_pos_iff.mpr hne)
    rw [List.isEmpty_iff_length_eq_zero]
    omega
  have hbase : (⟨baseWindowSamples, minimumsOf baseWindowSamples samples, maximumsOf baseWindowSamples samples⟩ :
      WaveformLevel) = levelAt samples 0 := rfl
  unfold writeLevels
  rw [if_neg hsome, hbase]
  dsimp only
  rw [hlength, if_neg (not_not.mpr rfl), hrun, Option.map_some]
  dsimp only
  rw [hbuilt.fits hne]

/-! ## The peaks -/

/-- The peaks of the level `k`: the extremes of the windows of `256 * 4 ^ k` samples, the last of which may be short. -/
structure LevelOf (samples : List QInt16) (k : Nat) (level : WaveformLevel) : Prop where
  samplesPerPeak_eq : level.samplesPerPeak = 256 * 4 ^ k
  minimums_length : level.minimums.length = windowCount (256 * 4 ^ k) samples.length
  maximums_length : level.maximums.length = windowCount (256 * 4 ^ k) samples.length
  minimum : ∀ j value, level.minimums[j]? = some value → IsLeast {x | x ∈ window (256 * 4 ^ k) samples j} value
  maximum : ∀ j value, level.maximums[j]? = some value → IsGreatest {x | x ∈ window (256 * 4 ^ k) samples j} value

/-- A pyramid over the samples, within its limits, and coarse enough at its top. -/
structure PeaksOf (samples : List QInt16) (levels : List WaveformLevel) : Prop where
  level : ∀ k level, levels[k]? = some level → LevelOf samples k level
  some_level : 0 < levels.length
  count_le : levels.length ≤ 32
  total_le : totalPeaks levels ≤ maximumSerializedPeakPairs
  coarse : ∀ level, levels.getLast? = some level → level.minimums.length ≤ 2048

theorem levelAt_levelOf (samples : List QInt16) (k : Nat) : LevelOf samples k (levelAt samples k) where
  samplesPerPeak_eq := rfl
  minimums_length := length_summaries _ samples
  maximums_length := length_summaries _ samples
  minimum := by
    intro j value hvalue
    obtain ⟨hlt, -⟩ := List.getElem?_eq_some_iff.mp hvalue
    have hlength : (levelAt samples k).minimums.length = windowCount (256 * 4 ^ k) samples.length :=
      length_summaries _ samples
    have hwindow := hlength ▸ hlt
    have hsummary := (getElem?_summaries (window_pos k) hwindow).symm.trans hvalue
    rw [← Option.some.inj hsummary]
    exact isLeast_summary (window_ne_nil (window_pos k) hwindow)
  maximum := by
    intro j value hvalue
    obtain ⟨hlt, -⟩ := List.getElem?_eq_some_iff.mp hvalue
    have hlength : (levelAt samples k).maximums.length = windowCount (256 * 4 ^ k) samples.length :=
      length_summaries _ samples
    have hwindow := hlength ▸ hlt
    have hsummary := (getElem?_summaries (window_pos k) hwindow).symm.trans hvalue
    rw [← Option.some.inj hsummary]
    exact isGreatest_summary (window_ne_nil (window_pos k) hwindow)

theorem Built.peaksOf {samples : List QInt16} {levels : List WaveformLevel} {k : Nat} (h : Built samples levels k) :
    PeaksOf samples levels where
  level := by
    intro i level hlevel
    rw [h.levels_eq, pyramid, List.getElem?_map] at hlevel
    obtain ⟨j, hj, rfl⟩ := Option.map_eq_some_iff.mp hlevel
    obtain ⟨hlt, hsame⟩ := List.getElem?_eq_some_iff.mp hj
    rw [List.getElem_range] at hsame
    rw [hsame]
    exact levelAt_levelOf samples j
  some_level := by
    rw [h.length_eq]
    exact Nat.succ_pos k
  count_le := by
    rw [h.length_eq]
    exact h.level_le
  total_le := h.total_le
  coarse := by
    intro level hlevel
    rw [h.levels_eq, pyramid_succ, List.getLast?_concat] at hlevel
    rw [← Option.some.inj hlevel, levelAt_count]
    exact h.coarse

/-- What is left to be done when the layout is accepted and the plan fits. -/
theorem generate_planned (hlayout : inspectPcmLayout fuel (wavFile content path) = some (.ok layout))
    (hplan : peakPlanFits fuel (basePeakCount layout) = some true) {requested : Nat → Bool} {output : QSaveFile} :
    generate fuel (fun _ => .ok content) path requested output =
      (run (peakTurn requested (basePeakCount layout)) fuel
        { file := { wavFile content path with pos := layout.dataOffset }, remaining := layout.dataSize }).bind
        fun peaks =>
          match peaks with
          | .error error => some (.error error)
          | .ok (minimums, maximums) => writeLevels fuel output (basePeakCount layout) minimums maximums := by
  unfold generate
  dsimp only [QFile.openReadOnly, Except.map]
  rw [show ({ content, fileName := path } : QFile) = wavFile content path from rfl, hlayout]
  dsimp only [Option.bind_some, QFile.seek]
  rw [hplan]
  dsimp only [Option.bind_some]
  rw [if_neg (by simp)]

/-- **The waveform.**  Audio whose layout is accepted and whose plan fits has a pyramid of peaks.  The generation
    writes it, unless it is cancelled or the output fails, and what it has written is read as the same levels. -/
theorem waveform_round_trip (fuel : Nat) (content : QByteArray) (pcm16Path : QString) (layout : PcmLayout)
    (hfuel : content.length < fuel)
    (hlayout : inspectPcmLayout fuel (wavFile content pcm16Path) = some (.ok layout))
    (hplan : peakPlanFits fuel (basePeakCount layout) = some true) :
    ∃ levels, PeaksOf (layoutSamples content layout) levels ∧
      (∀ requested output,
        generate fuel (fun _ => .ok content) pcm16Path requested output = some (output.save (serialized levels)) ∨
          generate fuel (fun _ => .ok content) pcm16Path requested output = some (.error generationCancelled) ∧
            ∃ n, requested n = true) ∧
      ∀ waveformPath, read (fun _ => .ok (serialized levels)) waveformPath = .ok levels := by
  have haccepted := inspectPcmLayout_ok hlayout
  have hne := haccepted.samples_ne_nil
  have hbase : basePeakCount layout = windowCount baseWindowSamples (layoutSamples content layout).length := by
    rw [haccepted.length_samples]
    rfl
  have hplanned := hplan
  rw [hbase] at hplanned
  obtain ⟨levels, k, hbuilt, hwritten⟩ := writeLevels_built hne hplanned
  have hpeaks := hbuilt.peaksOf
  refine ⟨levels, hpeaks, fun requested output => ?_, fun waveformPath =>
    read_serialized ⟨hpeaks.some_level, hpeaks.count_le⟩ (hbuilt.serializable hne) hpeaks.total_le waveformPath⟩
  have hinside := haccepted.inside
  have hstart : ReadSoFar content (layoutSamples content layout)
      { file := { wavFile content pcm16Path with pos := layout.dataOffset }, remaining := layout.dataSize } :=
    ⟨rfl, hinside, haccepted.size_even, rfl, rfl⟩
  obtain ⟨result, hresult, hread⟩ := run_total (peakTurn_sound requested hbase) hstart
  rw [generate_planned hlayout hplan, hread fuel (by dsimp only; omega), Option.bind_some]
  rcases hresult with rfl | ⟨rfl, hrequested⟩
  · left
    dsimp only
    rw [hbase]
    exact hwritten output
  · exact Or.inr ⟨rfl, hrequested⟩

/-- Two samples in a raw file. -/
theorem waveform_round_trip_raw :
    ∃ levels, PeaksOf (layoutSamples [1, 0, 0xFF, 0xFF] ⟨0, 4⟩) levels ∧
      (∀ requested output,
        generate 5 (fun _ => .ok [1, 0, 0xFF, 0xFF]) (qs "a.pcm") requested output =
            some (output.save (serialized levels)) ∨
          generate 5 (fun _ => .ok [1, 0, 0xFF, 0xFF]) (qs "a.pcm") requested output =
              some (.error generationCancelled) ∧
            ∃ n, requested n = true) ∧
      ∀ waveformPath, read (fun _ => .ok (serialized levels)) waveformPath = .ok levels :=
  waveform_round_trip 5 [1, 0, 0xFF, 0xFF] (qs "a.pcm") ⟨0, 4⟩ (by decide) rfl rfl

end WaveformGenerator

end BreezeDesk
