/-
  `LongFormChunkPlanner` — how a long recording is cut into transcription chunks.

  `plan durationMs speechRegions` returns one chunk for short audio; otherwise it collects the
  midpoints of the silences between the speech regions and walks a cursor over the recording:

  1. the remaining audio fits the preferred maximum — emit it as the last chunk and stop;
  2. a silence lies in the preferred window — cut at the one nearest the target length;
  3. a silence lies between the preferred minimum and the hard maximum — cut there;
  4. otherwise cut hard at the maximum and step back by the overlap.

  The source loops are `Loop.run` loops here (`targetTurn`, `planTurn`), so that the planner is
  executable and termination is a theorem and not a side effect of how the model is written: the
  grid loop runs forever on a target of zero.

  Milliseconds are `qint64` in the source and `Int` here.  The cursor never passes the duration
  (`planTurn_sound`), so every sum the planner forms is at most the duration plus one configured
  length.

  Correctness has two halves:

  * `Chain` — the geometry read from left to right, which is how both decoders check it;
  * `plan_chain` — `planTurn` keeps a chain up to the cursor and lowers the distance to the end, so
    `Loop.run_total` gives a plan, and the plan is a chain that ends at the duration.
-/
import BreezeDesk.Library.Loop
import Mathlib

namespace BreezeDesk.Asr

open Loop

/-! ## Data -/

structure SpeechRegion where
  startMs : Int := 0
  endMs : Int := 0
  deriving DecidableEq, Repr

structure TranscriptionChunk where
  ordinal : Int := 0
  startMs : Int := 0
  endMs : Int := 0
  overlapBeforeMs : Int := 0
  overlapAfterMs : Int := 0
  deriving DecidableEq, Repr

structure ChunkPlannerConfiguration where
  shortAudioThresholdMs : Int := 12 * 60 * 1000
  targetChunkMs : Int := 10 * 60 * 1000
  minimumPreferredChunkMs : Int := 8 * 60 * 1000
  maximumPreferredChunkMs : Int := 12 * 60 * 1000
  hardMaximumChunkMs : Int := 15 * 60 * 1000
  hardCutOverlapMs : Int := 900
  deriving DecidableEq, Repr

/-- `std::clamp`. -/
def clamp (value low high : Int) : Int := if value < low then low else if high < value then high else value

/-! ## Silence boundaries -/

/-- Speech regions cut to the recording; the ones left empty are dropped. -/
def clampedRegions (durationMs : Int) (speechRegions : List SpeechRegion) : List SpeechRegion :=
  speechRegions.filterMap fun region =>
    let start := clamp region.startMs 0 durationMs
    let finish := clamp region.endMs 0 durationMs
    if finish > start then some ⟨start, finish⟩ else none

def sortedRegions (durationMs : Int) (speechRegions : List SpeechRegion) : List SpeechRegion :=
  (clampedRegions durationMs speechRegions).insertionSort fun left right => left.startMs ≤ right.startMs

/-- `for (boundary = target; boundary < duration; boundary += target)`: the grid that stands in for
    silences when no speech was found. -/
def targetTurn (config : ChunkPlannerConfiguration) (durationMs : Int) :
    Int × List Int → Turn (Int × List Int) (List Int)
  | (boundary, boundaries) =>
    if boundary < durationMs then
      .again (boundary + config.targetChunkMs, boundaries ++ [boundary])
    else .done boundaries

/-- The loop over the sorted regions: a midpoint for each gap, and the end of the speech so far. -/
def gapBoundaries : List SpeechRegion → Int → List Int × Int
  | [], previousEnd => ([], previousEnd)
  | region :: rest, previousEnd =>
    let (boundaries, finish) := gapBoundaries rest (max previousEnd region.endMs)
    if region.startMs > previousEnd then
      ((previousEnd + (region.startMs - previousEnd) / 2) :: boundaries, finish)
    else (boundaries, finish)

/-- The midpoints of the gaps before, between and after the speech regions. -/
def speechGaps (durationMs : Int) (regions : List SpeechRegion) : List Int :=
  let (gaps, previousEnd) := gapBoundaries regions 0
  if previousEnd < durationMs then gaps ++ [previousEnd + (durationMs - previousEnd) / 2] else gaps

def silenceBoundaries (fuel : Nat) (config : ChunkPlannerConfiguration) (durationMs : Int)
    (regions : List SpeechRegion) : Option (List Int) :=
  let grid := if regions.isEmpty then run (targetTurn config durationMs) fuel (config.targetChunkMs, [])
    else some []
  grid.map (· ++ speechGaps durationMs regions)

/-! ## The cursor loop -/

/-- `std::numeric_limits<qint64>::max()`. -/
def maxInt64 : Int := 2 ^ 63 - 1

def qAbs (value : Int) : Int := if value ≥ 0 then value else -value

/-- One pass over the candidates inside `[low, high]`, keeping the one nearest the target. -/
def nearestBoundary (low high target : Int) (candidates : List Int) (best : Int × Int) : Int × Int :=
  candidates.foldl (fun (boundary, bestDistance) candidate =>
    if candidate < low ∨ candidate > high then (boundary, bestDistance)
    else if qAbs (candidate - target) < bestDistance then (candidate, qAbs (candidate - target))
    else (boundary, bestDistance)) best

/-- Where the chunk at `cursor` ends, and whether that is a hard cut. -/
def chooseBoundary (config : ChunkPlannerConfiguration) (durationMs : Int) (silences : List Int)
    (cursor : Int) : Int × Bool :=
  let preferredMin := cursor + config.minimumPreferredChunkMs
  let preferredMax := min durationMs (cursor + config.maximumPreferredChunkMs)
  let target := min durationMs (cursor + config.targetChunkMs)
  let preferred := nearestBoundary preferredMin preferredMax target silences (-1, maxInt64)
  if preferred.1 ≤ cursor then
    let hardMaximum := min durationMs (cursor + config.hardMaximumChunkMs)
    let late := nearestBoundary preferredMin hardMaximum target silences preferred
    if late.1 ≤ cursor then (hardMaximum, decide (hardMaximum < durationMs)) else (late.1, false)
  else (preferred.1, false)

structure PlanState where
  cursor : Int
  ordinal : Int
  chunks : List TranscriptionChunk

/-- `chunks.isEmpty() ? 0 : chunks.constLast().overlapAfterMs`. -/
def lastOverlapAfter (chunks : List TranscriptionChunk) : Int :=
  match chunks.getLast? with
  | none => 0
  | some chunk => chunk.overlapAfterMs

/-- The chunk cut at the cursor when the rest does not fit into a preferred chunk. -/
def cutChunk (config : ChunkPlannerConfiguration) (durationMs : Int) (silences : List Int)
    (s : PlanState) : TranscriptionChunk :=
  let (boundary, hardCut) := chooseBoundary config durationMs silences s.cursor
  ⟨s.ordinal, s.cursor, boundary, lastOverlapAfter s.chunks, if hardCut then config.hardCutOverlapMs else 0⟩

def planTurn (config : ChunkPlannerConfiguration) (durationMs : Int) (silences : List Int)
    (s : PlanState) : Turn PlanState (List TranscriptionChunk) :=
  if s.cursor < durationMs then
    if durationMs - s.cursor ≤ config.maximumPreferredChunkMs then
      .done (s.chunks ++ [⟨s.ordinal, s.cursor, durationMs, lastOverlapAfter s.chunks, 0⟩])
    else
      let chunk := cutChunk config durationMs silences s
      let nextCursor := chunk.endMs - chunk.overlapAfterMs
      -- the source's guard against a cursor that does not advance
      if nextCursor ≤ s.cursor then .done (s.chunks ++ [chunk])
      else .again ⟨nextCursor, s.ordinal + 1, s.chunks ++ [chunk]⟩
  else .done s.chunks

/-- `LongFormChunkPlanner::plan`, each of its two loops given `fuel` turns. -/
def plan (fuel : Nat) (config : ChunkPlannerConfiguration) (durationMs : Int)
    (speechRegions : List SpeechRegion) : Option (List TranscriptionChunk) :=
  if durationMs ≤ 0 then some []
  else if durationMs ≤ config.shortAudioThresholdMs then some [⟨0, 0, durationMs, 0, 0⟩]
  else do
    let silences ← silenceBoundaries fuel config durationMs (sortedRegions durationMs speechRegions)
    run (planTurn config durationMs silences) fuel ⟨0, 0, []⟩

/-! ## The geometry of a plan -/

/-- The relations between the parameters that every shipped configuration satisfies. -/
structure Admissible (config : ChunkPlannerConfiguration) : Prop where
  overlap_nonneg : 0 ≤ config.hardCutOverlapMs
  overlap_lt_minimum : config.hardCutOverlapMs < config.minimumPreferredChunkMs
  minimum_le_target : config.minimumPreferredChunkMs ≤ config.targetChunkMs
  target_le_maximum : config.targetChunkMs ≤ config.maximumPreferredChunkMs
  maximum_le_hard : config.maximumPreferredChunkMs ≤ config.hardMaximumChunkMs

theorem admissible_default : Admissible {} := by
  constructor <;> decide

/-- No chunk is longer than this. -/
def ChunkPlannerConfiguration.longestChunkMs (config : ChunkPlannerConfiguration) : Int :=
  max config.shortAudioThresholdMs config.hardMaximumChunkMs

/-- A chunk that is not empty, within the limit, and longer than either of its overlaps. -/
structure WellSized (limit : Int) (chunk : TranscriptionChunk) : Prop where
  start_lt_end : chunk.startMs < chunk.endMs
  length_le : chunk.endMs - chunk.startMs ≤ limit
  overlapBefore_nonneg : 0 ≤ chunk.overlapBeforeMs
  overlapBefore_lt : chunk.overlapBeforeMs < chunk.endMs - chunk.startMs
  overlapAfter_nonneg : 0 ≤ chunk.overlapAfterMs
  overlapAfter_lt : chunk.overlapAfterMs < chunk.endMs - chunk.startMs

/-- The chunk numbered `index` takes over where its predecessor, ending at `previousEnd` with
    `previousOverlap` after it, left off. -/
structure Follows (index previousEnd previousOverlap : Int) (chunk : TranscriptionChunk) : Prop where
  ordinal_eq : chunk.ordinal = index
  overlapBefore_eq : chunk.overlapBeforeMs = previousOverlap
  start_eq : chunk.startMs = previousEnd - previousOverlap

/-- **The geometry from left to right**: well-sized chunks, each following the one before it. -/
def Chain (limit : Int) : Int → Int → Int → List TranscriptionChunk → Prop
  | _, _, _, [] => True
  | index, previousEnd, previousOverlap, chunk :: rest =>
    Follows index previousEnd previousOverlap chunk ∧ WellSized limit chunk ∧
      Chain limit (index + 1) chunk.endMs chunk.overlapAfterMs rest

/-- The end of the last chunk, or `default` before the first one. -/
def lastEnd (default : Int) (chunks : List TranscriptionChunk) : Int :=
  (chunks.getLast?.map (·.endMs)).getD default

def lastOverlap (default : Int) (chunks : List TranscriptionChunk) : Int :=
  (chunks.getLast?.map (·.overlapAfterMs)).getD default

theorem lastOverlapAfter_eq (chunks : List TranscriptionChunk) :
    lastOverlapAfter chunks = lastOverlap 0 chunks := by
  unfold lastOverlapAfter lastOverlap
  cases chunks.getLast? <;> rfl

@[simp] theorem lastEnd_append (e : Int) (chunks : List TranscriptionChunk) (c : TranscriptionChunk) :
    lastEnd e (chunks ++ [c]) = c.endMs := by
  simp [lastEnd]

@[simp] theorem lastOverlap_append (o : Int) (chunks : List TranscriptionChunk)
    (c : TranscriptionChunk) : lastOverlap o (chunks ++ [c]) = c.overlapAfterMs := by
  simp [lastOverlap]

theorem lastEnd_cons (e : Int) (c : TranscriptionChunk) (chunks : List TranscriptionChunk) :
    lastEnd e (c :: chunks) = lastEnd c.endMs chunks := by
  unfold lastEnd
  cases chunks with
  | nil => rfl
  | cons d rest => simp [List.getLast?_cons]

theorem lastOverlap_cons (o : Int) (c : TranscriptionChunk) (chunks : List TranscriptionChunk) :
    lastOverlap o (c :: chunks) = lastOverlap c.overlapAfterMs chunks := by
  unfold lastOverlap
  cases chunks with
  | nil => rfl
  | cons d rest => simp [List.getLast?_cons]

/-- A chain grows at its right end by a chunk that follows its last one. -/
theorem Chain.append {limit : Int} {c : TranscriptionChunk} :
    ∀ {chunks : List TranscriptionChunk} {i e o : Int}, Chain limit i e o chunks →
      Follows (i + chunks.length) (lastEnd e chunks) (lastOverlap o chunks) c → WellSized limit c →
      Chain limit i e o (chunks ++ [c]) := by
  intro chunks
  induction chunks with
  | nil =>
    intro i e o _ hf hw
    exact ⟨by simpa [lastEnd, lastOverlap] using hf, hw, trivial⟩
  | cons d rest ih =>
    intro i e o h hf hw
    obtain ⟨hd, hsize, hrest⟩ := h
    rw [lastEnd_cons, lastOverlap_cons] at hf
    have hi : i + ((d :: rest).length : Int) = i + 1 + rest.length := by simp; omega
    rw [hi] at hf
    exact ⟨hd, hsize, ih hrest hf hw⟩

/-- Ends only move to the right: each chunk of a chain ends no later than the last one. -/
theorem Chain.end_le_lastEnd {limit : Int} :
    ∀ {chunks : List TranscriptionChunk} {i e o : Int}, Chain limit i e o chunks →
      e ≤ lastEnd e chunks ∧ ∀ c ∈ chunks, c.endMs ≤ lastEnd e chunks := by
  intro chunks
  induction chunks with
  | nil => intro i e o _; exact ⟨Int.le_refl e, by simp⟩
  | cons d rest ih =>
    intro i e o h
    obtain ⟨hf, hw, hrest⟩ := h
    obtain ⟨hle, hall⟩ := ih hrest
    rw [lastEnd_cons]
    -- `d` starts an overlap before `e` and is longer than that overlap
    have he : e < d.endMs := by
      have h1 := hf.start_eq
      have h2 := hf.overlapBefore_eq
      have h3 := hw.overlapBefore_lt
      omega
    refine ⟨by omega, fun c hc => ?_⟩
    rcases List.mem_cons.mp hc with rfl | hc
    · exact hle
    · exact hall c hc

/-- The starts of a chain do not go back. -/
theorem Chain.le_start {limit : Int} : ∀ {chunks : List TranscriptionChunk} {i e o low : Int},
    Chain limit i e o chunks → low ≤ e - o → ∀ c ∈ chunks, low ≤ c.startMs := by
  intro chunks
  induction chunks with
  | nil => intro i e o low _ _ c hc; cases hc
  | cons d rest ih =>
    intro i e o low h hlow c hc
    obtain ⟨hf, hw, hrest⟩ := h
    have hstart := hf.start_eq
    have hshort := hw.overlapAfter_lt
    rcases List.mem_cons.mp hc with rfl | hc
    · omega
    · exact ih hrest (by omega) c hc

/-! ## Each choice of the planner -/

variable {config : ChunkPlannerConfiguration} {durationMs : Int}

/-- A pass over the candidates keeps what it had or takes a candidate of the window. -/
theorem nearestBoundary_mem (low high target : Int) :
    ∀ (candidates : List Int) (best : Int × Int),
      (nearestBoundary low high target candidates best).1 = best.1 ∨
        (low ≤ (nearestBoundary low high target candidates best).1 ∧
          (nearestBoundary low high target candidates best).1 ≤ high) := by
  intro candidates
  induction candidates with
  | nil => intro best; exact Or.inl rfl
  | cons candidate rest ih =>
    intro best
    simp only [nearestBoundary, List.foldl_cons]
    split
    · exact ih best
    · rename_i hwindow
      split
      · rcases ih (candidate, qAbs (candidate - target)) with h | h
        · right
          rw [nearestBoundary] at h
          rw [h]
          omega
        · exact Or.inr h
      · exact ih best

/-- **The cut.**  With more audio left than a preferred chunk, the boundary is at least the preferred
    minimum and at most the hard maximum away, inside the recording, and before its end when the
    cut is hard. -/
theorem chooseBoundary_bounds (hc : Admissible config) {cursor : Int} (h0 : 0 ≤ cursor)
    (hlong : config.maximumPreferredChunkMs < durationMs - cursor) (silences : List Int) :
    let cut := chooseBoundary config durationMs silences cursor
    cursor + config.minimumPreferredChunkMs ≤ cut.1 ∧ cut.1 ≤ cursor + config.hardMaximumChunkMs ∧
      cut.1 ≤ durationMs ∧ (cut.2 = true → cut.1 < durationMs) := by
  obtain ⟨hov, hmin, htar, hmax, hhard⟩ := hc
  set low := cursor + config.minimumPreferredChunkMs with hlow
  set target := min durationMs (cursor + config.targetChunkMs) with htarget
  set high := min durationMs (cursor + config.maximumPreferredChunkMs) with hhigh
  set hardMaximum := min durationMs (cursor + config.hardMaximumChunkMs) with hhardMaximum
  have hpreferred := nearestBoundary_mem low high target silences (-1, maxInt64)
  set preferred := nearestBoundary low high target silences (-1, maxInt64)
  have hlate := nearestBoundary_mem low hardMaximum target silences preferred
  set late := nearestBoundary low hardMaximum target silences preferred
  have hcut : chooseBoundary config durationMs silences cursor =
      if preferred.1 ≤ cursor then
        if late.1 ≤ cursor then (hardMaximum, decide (hardMaximum < durationMs)) else (late.1, false)
      else (preferred.1, false) := rfl
  rw [hcut]
  by_cases hp : preferred.1 ≤ cursor
  · rw [if_pos hp]
    by_cases hl : late.1 ≤ cursor
    · -- no silence in reach: cut at the hard maximum
      rw [if_pos hl]
      simp only [decide_eq_true_eq]
      omega
    · -- the late candidate lies beyond the cursor, so it is not the one inherited
      rw [if_neg hl]
      refine ⟨?_, ?_, ?_, by simp⟩ <;> dsimp only <;> omega
  · rw [if_neg hp]
    dsimp only at hpreferred
    refine ⟨?_, ?_, ?_, by simp⟩ <;> dsimp only <;> omega

/-! ## The loops -/

/-- The grid loop ends: it moves by the positive target length. -/
theorem targetTurn_sound (htarget : 0 < config.targetChunkMs) :
    TurnSound (targetTurn config durationMs) (fun _ => True) (fun s => (durationMs - s.1).toNat)
      (fun _ => True) := by
  rintro ⟨boundary, boundaries⟩ -
  by_cases h : boundary < durationMs
  · simp only [targetTurn, if_pos h]
    exact ⟨trivial, by omega⟩
  · simp only [targetTurn, if_neg h]

/-- The chunks so far are a chain up to the cursor, and what is left is longer than the overlap the
    next chunk begins with (or nothing is left). -/
structure PlanInv (config : ChunkPlannerConfiguration) (durationMs : Int) (s : PlanState) : Prop where
  cursor_nonneg : 0 ≤ s.cursor
  ordinal_eq : s.ordinal = s.chunks.length
  chain : Chain config.longestChunkMs 0 0 0 s.chunks
  cursor_eq : s.cursor = lastEnd 0 s.chunks - lastOverlap 0 s.chunks
  overlap_nonneg : 0 ≤ lastOverlap 0 s.chunks
  overlap_le : lastOverlap 0 s.chunks ≤ config.hardCutOverlapMs
  rest : lastOverlap 0 s.chunks < durationMs - s.cursor ∨
    (s.cursor = durationMs ∧ lastOverlap 0 s.chunks = 0 ∧ s.chunks ≠ [])

/-- What the finished plan owes: a chain from `0` to the duration with no overlap at its end. -/
structure Covers (limit durationMs : Int) (chunks : List TranscriptionChunk) : Prop where
  chain : Chain limit 0 0 0 chunks
  nonempty : chunks ≠ []
  end_eq : lastEnd 0 chunks = durationMs
  overlap_eq : lastOverlap 0 chunks = 0

theorem planInv_start (hc : Admissible config) (hd : 0 < durationMs) : PlanInv config durationMs ⟨0, 0, []⟩ where
  cursor_nonneg := Int.le_refl 0
  ordinal_eq := rfl
  chain := trivial
  cursor_eq := rfl
  overlap_nonneg := Int.le_refl 0
  overlap_le := hc.overlap_nonneg
  rest := Or.inl (by simpa [lastOverlap] using hd)

/-- The chunk cut at the cursor follows the chain, is well-sized, and leaves the invariant. -/
theorem cutChunk_spec (hc : Admissible config) {s : PlanState} (hs : PlanInv config durationMs s)
    (hlong : config.maximumPreferredChunkMs < durationMs - s.cursor) (silences : List Int) :
    let chunk := cutChunk config durationMs silences s
    s.cursor < chunk.endMs - chunk.overlapAfterMs ∧
      PlanInv config durationMs
        ⟨chunk.endMs - chunk.overlapAfterMs, s.ordinal + 1, s.chunks ++ [chunk]⟩ := by
  have hcut := chooseBoundary_bounds hc hs.cursor_nonneg hlong silences
  obtain ⟨hov, hmin, htar, hmax, hhard⟩ := hc
  obtain ⟨hcur, hord, hchain, heq, ho0, ho, -⟩ := hs
  unfold cutChunk
  rw [lastOverlapAfter_eq]
  revert hcut
  rcases chooseBoundary config durationMs silences s.cursor with ⟨boundary, hardCut⟩
  dsimp only
  intro ⟨hlow, hhigh, hdur, hbefore⟩
  -- a hard cut stops short of the end, so at least its overlap is left
  have hover : ∀ b, hardCut = b → (if b = true then config.hardCutOverlapMs else 0) ≤
      config.hardCutOverlapMs ∧ 0 ≤ (if b = true then config.hardCutOverlapMs else 0) := by
    intro b _
    cases b <;> simp [hov]
  obtain ⟨hover_le, hover_nonneg⟩ := hover hardCut rfl
  have hlimit : config.hardMaximumChunkMs ≤ config.longestChunkMs := Int.le_max_right _ _
  refine ⟨by omega, ?_⟩
  refine
    { cursor_nonneg := by dsimp only; omega
      ordinal_eq := by simp [hord]
      chain := hchain.append ⟨by simp [hord], rfl, heq⟩ ?_
      cursor_eq := by simp
      overlap_nonneg := by simpa using hover_nonneg
      overlap_le := by simpa using hover_le
      rest := ?_ }
  · exact
      { start_lt_end := by dsimp only; omega
        length_le := by dsimp only; omega
        overlapBefore_nonneg := ho0
        overlapBefore_lt := by dsimp only; omega
        overlapAfter_nonneg := hover_nonneg
        overlapAfter_lt := by dsimp only; omega }
  · simp only [lastOverlap_append]
    cases hardCut with
    | false =>
      simp only [Bool.false_eq_true, if_false]
      rcases Int.lt_or_eq_of_le hdur with hlt | hlast
      · left; omega
      · right; exact ⟨by omega, trivial, by simp⟩
    | true =>
      have := hbefore rfl
      left
      simp only [if_true]
      omega

/-- The last chunk follows the chain and is well-sized. -/
theorem tailChunk_covers (hc : Admissible config) {s : PlanState} (hs : PlanInv config durationMs s)
    (hleft : s.cursor < durationMs)
    (hshort : durationMs - s.cursor ≤ config.maximumPreferredChunkMs) :
    Covers config.longestChunkMs durationMs
      (s.chunks ++ [⟨s.ordinal, s.cursor, durationMs, lastOverlapAfter s.chunks, 0⟩]) := by
  obtain ⟨hov, hmin, htar, hmax, hhard⟩ := hc
  obtain ⟨hcur, hord, hchain, heq, ho0, ho, hrest⟩ := hs
  have hlimit : config.hardMaximumChunkMs ≤ config.longestChunkMs := Int.le_max_right _ _
  rw [lastOverlapAfter_eq]
  refine ⟨hchain.append ⟨by simp [hord], rfl, heq⟩ ?_, by simp, by simp, by simp⟩
  exact
    { start_lt_end := hleft
      length_le := by dsimp only; omega
      overlapBefore_nonneg := ho0
      overlapBefore_lt := by dsimp only; omega
      overlapAfter_nonneg := Int.le_refl 0
      overlapAfter_lt := by dsimp only; omega }

theorem planTurn_sound (hc : Admissible config) (silences : List Int) :
    TurnSound (planTurn config durationMs silences) (PlanInv config durationMs)
      (fun s => (durationMs - s.cursor).toNat) (Covers config.longestChunkMs durationMs) := by
  intro s hs
  unfold planTurn
  by_cases hleft : s.cursor < durationMs
  · rw [if_pos hleft]
    by_cases hshort : durationMs - s.cursor ≤ config.maximumPreferredChunkMs
    · rw [if_pos hshort]
      exact tailChunk_covers hc hs hleft hshort
    · rw [if_neg hshort]
      obtain ⟨hadvance, hinv⟩ := cutChunk_spec hc hs (by omega) silences
      -- the guard against a standing cursor never fires
      rw [if_neg (by omega)]
      exact ⟨hinv, by dsimp only; omega⟩
  · rw [if_neg hleft]
    -- the loop test fails only at the very end
    rcases hs.rest with hrest | ⟨hend, hover, hne⟩
    · have := hs.overlap_nonneg
      omega
    · refine ⟨hs.chain, hne, ?_, hover⟩
      have := hs.cursor_eq
      omega

/-- **The planner terminates with a covering chain**, whatever the speech regions are. -/
theorem plan_covers (hc : Admissible config) (hd : 0 < durationMs) (speechRegions : List SpeechRegion) :
    ∃ chunks, Covers config.longestChunkMs durationMs chunks ∧
      ∀ fuel, durationMs.toNat < fuel → plan fuel config durationMs speechRegions = some chunks := by
  unfold plan
  simp only [if_neg (Int.not_le.mpr hd)]
  by_cases hshort : durationMs ≤ config.shortAudioThresholdMs
  · simp only [if_pos hshort]
    refine ⟨[⟨0, 0, durationMs, 0, 0⟩], ?_, fun fuel _ => rfl⟩
    have hlimit : config.shortAudioThresholdMs ≤ config.longestChunkMs := Int.le_max_left _ _
    refine ⟨⟨⟨rfl, rfl, rfl⟩, ?_, trivial⟩, by simp, rfl, rfl⟩
    constructor <;> dsimp only <;> omega
  · simp only [if_neg hshort]
    have htarget : 0 < config.targetChunkMs := by
      have h1 := hc.overlap_nonneg
      have h2 := hc.overlap_lt_minimum
      have h3 := hc.minimum_le_target
      omega
    -- the grid of target lengths, used only when no speech was found
    have hstep : TurnSound (targetTurn config durationMs) _ _ _ := targetTurn_sound htarget
    obtain ⟨grid, -, hgrid⟩ := run_total hstep (s := (config.targetChunkMs, [])) trivial
    set regions := sortedRegions durationMs speechRegions with hregions
    obtain ⟨silences, hsilences⟩ : ∃ silences, ∀ fuel, durationMs.toNat < fuel →
        silenceBoundaries fuel config durationMs regions = some silences := by
      cases hempty : regions.isEmpty with
      | true =>
        refine ⟨grid ++ speechGaps durationMs regions, fun fuel hfuel => ?_⟩
        have hg := hgrid fuel (by dsimp only; omega)
        simp only [silenceBoundaries, hempty, if_true, hg, Option.map_some]
      | false =>
        refine ⟨[] ++ speechGaps durationMs regions, fun fuel _ => ?_⟩
        simp only [silenceBoundaries, hempty, Bool.false_eq_true, if_false, Option.map_some]
    obtain ⟨chunks, hcovers, hrun⟩ := run_total (planTurn_sound hc silences) (planInv_start hc hd)
    refine ⟨chunks, hcovers, fun fuel hfuel => ?_⟩
    rw [hsilences fuel hfuel]
    exact hrun fuel (by dsimp only; omega)

end BreezeDesk.Asr
