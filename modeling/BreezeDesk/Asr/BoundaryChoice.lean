/-
  Where `LongFormChunkPlanner` cuts.

  A cut candidate is the middle of a silence: a stretch of the recording that no speech region reaches into
  and that ends at a region, or at an end of the recording, on either side (`IsSilence`).  A recording
  without any speech may be cut at the multiples of the target length as well.

  * `mem_silenceBoundaries` — the list that the planner collects from its sorted regions is the candidates;
  * `nearestBoundary_spec` — a pass over the list keeps a nearest candidate of its window;
  * `boundary_choice` — every boundary of every plan is a nearest candidate, or a hard cut where there is no
    candidate in reach, or the end of the audio.
-/
import BreezeDesk.Asr.ChunkPlanDecoding
import Mathlib.Data.List.TakeWhile
import Mathlib.Order.MinMax

namespace BreezeDesk.Asr

open Loop

/-! ## Candidates -/

/-- A silence of the recording: no region reaches into it, and it cannot be made longer. -/
structure IsSilence (durationMs : Int) (regions : List SpeechRegion) (startMs endMs : Int) : Prop where
  start_nonneg : 0 ≤ startMs
  start_lt_end : startMs < endMs
  end_le : endMs ≤ durationMs
  silent : ∀ region ∈ regions, region.endMs ≤ startMs ∨ endMs ≤ region.startMs
  starts : startMs = 0 ∨ ∃ region ∈ regions, region.endMs = startMs
  ends : endMs = durationMs ∨ ∃ region ∈ regions, region.startMs = endMs

/-- The middle of a silence, or a multiple of the target length when there is no speech at all. -/
def IsCandidate (config : ChunkPlannerConfiguration) (durationMs : Int) (speechRegions : List SpeechRegion)
    (candidate : Int) : Prop :=
  let regions := clampedRegions durationMs speechRegions
  (∃ startMs endMs, IsSilence durationMs regions startMs endMs ∧ candidate = startMs + (endMs - startMs) / 2) ∨
    regions = [] ∧ candidate < durationMs ∧ ∃ k : Nat, candidate = (k + 1) * config.targetChunkMs

/-! ## The gaps between sorted regions -/

/-- The end of the speech so far. -/
def maxEnd (previousEnd : Int) (regions : List SpeechRegion) : Int :=
  regions.foldl (fun e region => max e region.endMs) previousEnd

theorem le_maxEnd (regions : List SpeechRegion) : ∀ previousEnd,
    previousEnd ≤ maxEnd previousEnd regions ∧ ∀ region ∈ regions, region.endMs ≤ maxEnd previousEnd regions := by
  induction regions with
  | nil => exact fun previousEnd => ⟨Int.le_refl _, fun region hregion => absurd hregion List.not_mem_nil⟩
  | cons first rest ih =>
    intro previousEnd
    obtain ⟨hle, hall⟩ := ih (max previousEnd first.endMs)
    refine ⟨(Int.le_max_left _ _).trans hle, fun region hregion => ?_⟩
    rcases List.mem_cons.mp hregion with rfl | hregion
    · exact (Int.le_max_right _ _).trans hle
    · exact hall region hregion

theorem maxEnd_eq (regions : List SpeechRegion) : ∀ previousEnd,
    maxEnd previousEnd regions = previousEnd ∨ ∃ region ∈ regions, region.endMs = maxEnd previousEnd regions := by
  induction regions with
  | nil => exact fun previousEnd => Or.inl rfl
  | cons first rest ih =>
    intro previousEnd
    rcases ih (max previousEnd first.endMs) with hsame | ⟨region, hregion, hend⟩
    · rcases max_choice previousEnd first.endMs with hmax | hmax
      · exact Or.inl (hsame.trans hmax)
      · exact Or.inr ⟨first, List.mem_cons_self .., (hsame.trans hmax).symm⟩
    · exact Or.inr ⟨region, List.mem_cons_of_mem _ hregion, hend⟩

theorem gapBoundaries_end (regions : List SpeechRegion) : ∀ previousEnd,
    (gapBoundaries regions previousEnd).2 = maxEnd previousEnd regions := by
  induction regions with
  | nil => exact fun _ => rfl
  | cons first rest ih =>
    intro previousEnd
    rw [gapBoundaries]
    dsimp only
    split <;> exact ih _

/-- A gap lies before a region, and behind all that were before it. -/
theorem mem_gapBoundaries {m : Int} (regions : List SpeechRegion) : ∀ previousEnd,
    m ∈ (gapBoundaries regions previousEnd).1 ↔ ∃ before region after, regions = before ++ region :: after ∧
      maxEnd previousEnd before < region.startMs ∧
      m = maxEnd previousEnd before + (region.startMs - maxEnd previousEnd before) / 2 := by
  induction regions with
  | nil =>
    intro previousEnd
    refine iff_of_false List.not_mem_nil ?_
    rintro ⟨before, region, after, hsplit, -⟩
    exact List.append_ne_nil_of_right_ne_nil before (List.cons_ne_nil region after) hsplit.symm
  | cons first rest ih =>
    intro previousEnd
    have hfirst : m ∈ (gapBoundaries (first :: rest) previousEnd).1 ↔
        (previousEnd < first.startMs ∧ m = previousEnd + (first.startMs - previousEnd) / 2) ∨
          m ∈ (gapBoundaries rest (max previousEnd first.endMs)).1 := by
      rw [gapBoundaries]
      dsimp only
      split
      · next hgap => rw [List.mem_cons, and_iff_right hgap]
      · next hgap => exact ⟨Or.inr, fun h => h.resolve_left fun hmiddle => hgap hmiddle.1⟩
    rw [hfirst, ih]
    constructor
    · rintro (⟨hgap, hmiddle⟩ | ⟨before, region, after, rfl, hgap, hmiddle⟩)
      · exact ⟨[], first, rest, rfl, hgap, hmiddle⟩
      · exact ⟨first :: before, region, after, rfl, hgap, hmiddle⟩
    · rintro ⟨before, region, after, hsplit, hgap, hmiddle⟩
      cases before with
      | nil =>
        obtain ⟨rfl, rfl⟩ := List.cons.inj hsplit
        exact Or.inl ⟨hgap, hmiddle⟩
      | cons head before =>
        obtain ⟨rfl, hrest⟩ := List.cons.inj hsplit
        exact Or.inr ⟨before, region, after, hrest, hgap, hmiddle⟩

theorem mem_speechGaps {durationMs m : Int} {regions : List SpeechRegion} :
    m ∈ speechGaps durationMs regions ↔
      (∃ before region after, regions = before ++ region :: after ∧ maxEnd 0 before < region.startMs ∧
        m = maxEnd 0 before + (region.startMs - maxEnd 0 before) / 2) ∨
      (maxEnd 0 regions < durationMs ∧ m = maxEnd 0 regions + (durationMs - maxEnd 0 regions) / 2) := by
  unfold speechGaps
  dsimp only
  rw [gapBoundaries_end, ← mem_gapBoundaries]
  split
  · next htail => rw [List.mem_append, List.mem_singleton, and_iff_right htail]
  · next htail => exact ⟨Or.inl, fun h => h.resolve_right fun hmiddle => htail hmiddle.1⟩

/-! ## The gaps are the silences -/

/-- What clamping and sorting leave: non-empty regions inside the recording, in order of their starts. -/
structure Prepared (durationMs : Int) (regions : List SpeechRegion) : Prop where
  sorted : regions.Pairwise fun left right => left.startMs ≤ right.startMs
  inside : ∀ region ∈ regions, 0 ≤ region.startMs ∧ region.startMs < region.endMs ∧ region.endMs ≤ durationMs

theorem maxEnd_nonneg (regions : List SpeechRegion) : 0 ≤ maxEnd 0 regions := (le_maxEnd regions 0).1

variable {durationMs : Int} {regions : List SpeechRegion}

/-- The gap before a region is a silence. -/
theorem Prepared.silence_before (h : Prepared durationMs regions) {before after : List SpeechRegion}
    {region : SpeechRegion} (hsplit : regions = before ++ region :: after)
    (hgap : maxEnd 0 before < region.startMs) :
    IsSilence durationMs regions (maxEnd 0 before) region.startMs := by
  have hregion : region ∈ regions := hsplit ▸ List.mem_append_right _ (List.mem_cons_self ..)
  obtain ⟨-, hproper, hend⟩ := h.inside region hregion
  have hsorted := h.sorted
  rw [hsplit] at hsorted
  have hafter := (List.pairwise_cons.mp (List.pairwise_append.mp hsorted).2.1).1
  refine ⟨maxEnd_nonneg before, hgap, by omega, fun other hother => ?_, ?_, Or.inr ⟨region, hregion, rfl⟩⟩
  · rw [hsplit] at hother
    rcases List.mem_append.mp hother with hother | hother
    · exact Or.inl ((le_maxEnd before 0).2 other hother)
    · rcases List.mem_cons.mp hother with rfl | hother
      · exact Or.inr (Int.le_refl _)
      · exact Or.inr (hafter other hother)
  · refine (maxEnd_eq before 0).imp_right ?_
    rintro ⟨other, hother, hend⟩
    exact ⟨other, hsplit ▸ List.mem_append_left _ hother, hend⟩

/-- What is left behind the last speech is a silence. -/
theorem silence_after (htail : maxEnd 0 regions < durationMs) :
    IsSilence durationMs regions (maxEnd 0 regions) durationMs :=
  ⟨maxEnd_nonneg regions, htail, Int.le_refl _, fun region hregion => Or.inl ((le_maxEnd regions 0).2 region hregion),
    maxEnd_eq regions 0, Or.inl rfl⟩

/-- A silence begins where the speech before it ends. -/
theorem IsSilence.start_eq {startMs endMs : Int} {before : List SpeechRegion}
    (h : IsSilence durationMs regions startMs endMs)
    (hbefore : ∀ region ∈ before, region.endMs ≤ startMs)
    (hall : ∀ region ∈ regions, region.endMs = startMs → region ∈ before) : startMs = maxEnd 0 before := by
  have hle : maxEnd 0 before ≤ startMs := by
    rcases maxEnd_eq before 0 with hzero | ⟨region, hregion, hend⟩
    · rw [hzero]
      exact h.start_nonneg
    · rw [← hend]
      exact hbefore region hregion
  have hge : startMs ≤ maxEnd 0 before := by
    rcases h.starts with hzero | ⟨region, hregion, hend⟩
    · rw [hzero]
      exact maxEnd_nonneg before
    · rw [← hend]
      exact (le_maxEnd before 0).2 region (hall region hregion hend)
  omega

/-- **Every silence is one of the gaps**: the one before the first region that begins at its end, or the one
    behind all of them. -/
theorem Prepared.gap_of_silence (h : Prepared durationMs regions) {startMs endMs : Int}
    (hsilence : IsSilence durationMs regions startMs endMs) :
    (∃ before region after, regions = before ++ region :: after ∧ startMs = maxEnd 0 before ∧
      endMs = region.startMs) ∨ (startMs = maxEnd 0 regions ∧ endMs = durationMs) := by
  rcases hsilence.ends with hend | ⟨region, hregion, hend⟩
  · refine Or.inr ⟨hsilence.start_eq (fun region hregion => ?_) fun region hregion _ => hregion, hend⟩
    refine (hsilence.silent region hregion).resolve_right fun hlater => ?_
    have hinside := h.inside region hregion
    omega
  · -- the regions that begin before the end of the silence are a front of the sorted list
    left
    have hfront : ∀ other ∈ regions.takeWhile fun other => decide (other.startMs < endMs), other.startMs < endMs :=
      fun other hother => by
        have hpassed := List.mem_takeWhile_imp hother
        exact of_decide_eq_true hpassed
    have hsplit := List.takeWhile_append_dropWhile (p := fun other => decide (SpeechRegion.startMs other < endMs))
      (l := regions)
    have hhead := List.head?_dropWhile_not (fun other => decide (SpeechRegion.startMs other < endMs)) regions
    have hback : region ∈ regions.dropWhile fun other => decide (other.startMs < endMs) := by
      rw [← hsplit] at hregion
      refine (List.mem_append.mp hregion).resolve_left fun hmem => ?_
      have hbefore := hfront region hmem
      omega
    revert hsplit hhead hfront hback
    generalize regions.takeWhile (fun other => decide (other.startMs < endMs)) = before
    generalize regions.dropWhile (fun other => decide (other.startMs < endMs)) = back
    intro hfront hsplit hhead hback
    cases back with
    | nil => exact absurd hback List.not_mem_nil
    | cons first after =>
      have hlater : ¬ first.startMs < endMs := of_decide_eq_false hhead
      have hsorted := h.sorted
      rw [← hsplit] at hsorted
      have hfirst := (List.pairwise_cons.mp (List.pairwise_append.mp hsorted).2.1).1
      have hbegin : first.startMs = endMs := by
        rcases List.mem_cons.mp hback with rfl | hmem
        · exact hend
        · have hle := hfirst region hmem
          omega
      refine ⟨before, first, after, hsplit.symm, hsilence.start_eq (fun other hother => ?_)
        fun other hother hstart => ?_, hbegin.symm⟩
      · have hless := hfront other hother
        exact (hsilence.silent other (hsplit ▸ List.mem_append_left _ hother)).resolve_right (by omega)
      · -- what ends where the silence begins has begun before the silence ends
        have hinside := h.inside other hother
        have hshort := hsilence.start_lt_end
        rw [← hsplit] at hother
        refine (List.mem_append.mp hother).resolve_right fun hmem => ?_
        rcases List.mem_cons.mp hmem with rfl | hmem
        · omega
        · have hle := hfirst other hmem
          omega

/-- **The gaps are the middles of the silences.** -/
theorem Prepared.mem_speechGaps_iff (h : Prepared durationMs regions) {m : Int} :
    m ∈ speechGaps durationMs regions ↔
      ∃ startMs endMs, IsSilence durationMs regions startMs endMs ∧ m = startMs + (endMs - startMs) / 2 := by
  rw [mem_speechGaps]
  constructor
  · rintro (⟨before, region, after, hsplit, hgap, rfl⟩ | ⟨htail, rfl⟩)
    · exact ⟨_, _, h.silence_before hsplit hgap, rfl⟩
    · exact ⟨_, _, silence_after htail, rfl⟩
  · rintro ⟨startMs, endMs, hsilence, rfl⟩
    have hshort := hsilence.start_lt_end
    rcases h.gap_of_silence hsilence with ⟨before, region, after, hsplit, rfl, rfl⟩ | ⟨rfl, rfl⟩
    · exact Or.inl ⟨before, region, after, hsplit, hshort, rfl⟩
    · exact Or.inr ⟨hshort, rfl⟩

/-! ## The list of the planner -/

theorem prepared_sortedRegions (durationMs : Int) (speechRegions : List SpeechRegion) (hd : 0 ≤ durationMs) :
    Prepared durationMs (sortedRegions durationMs speechRegions) := by
  refine ⟨List.pairwise_insertionSort _ _, fun region hregion => ?_⟩
  have hmem : region ∈ clampedRegions durationMs speechRegions := (List.mem_insertionSort _).mp hregion
  obtain ⟨raw, -, hraw⟩ := List.mem_filterMap.mp hmem
  dsimp only at hraw
  split at hraw
  · next hproper =>
    cases hraw
    have hbounds : ∀ value, 0 ≤ clamp value 0 durationMs ∧ clamp value 0 durationMs ≤ durationMs := by
      intro value
      unfold clamp
      split
      · omega
      · split <;> omega
    exact ⟨(hbounds _).1, hproper, (hbounds _).2⟩
  · cases hraw

theorem IsSilence.congr {others : List SpeechRegion} (hsame : ∀ region, region ∈ regions ↔ region ∈ others)
    {startMs endMs : Int} (h : IsSilence durationMs regions startMs endMs) :
    IsSilence durationMs others startMs endMs where
  start_nonneg := h.start_nonneg
  start_lt_end := h.start_lt_end
  end_le := h.end_le
  silent region hregion := h.silent region ((hsame region).mpr hregion)
  starts := h.starts.imp_right fun ⟨region, hregion, hend⟩ => ⟨region, (hsame region).mp hregion, hend⟩
  ends := h.ends.imp_right fun ⟨region, hregion, hstart⟩ => ⟨region, (hsame region).mp hregion, hstart⟩

variable {config : ChunkPlannerConfiguration}

/-- The grid loop has collected the multiples below its boundary. -/
structure OnGrid (config : ChunkPlannerConfiguration) (durationMs : Int) (s : Int × List Int) (n : Nat) : Prop where
  boundary_eq : s.1 = (n + 1) * config.targetChunkMs
  mem_iff : ∀ m, m ∈ s.2 ↔ ∃ k : Nat, k < n ∧ m = (k + 1) * config.targetChunkMs
  below : ∀ m ∈ s.2, m < durationMs

theorem targetTurn_grid (htarget : 0 < config.targetChunkMs) (m : Int) :
    TurnKeeps (targetTurn config durationMs) (fun s => ∃ n, OnGrid config durationMs s n)
      (fun grid => m ∈ grid ↔ m < durationMs ∧ ∃ k : Nat, m = (k + 1) * config.targetChunkMs) := by
  rintro ⟨boundary, boundaries⟩ ⟨n, hboundary, hmem, hbelow⟩
  dsimp only at hboundary hmem hbelow
  by_cases hless : boundary < durationMs
  · simp only [targetTurn, if_pos hless]
    refine ⟨n + 1, ?_, fun m => ?_, fun m hm => ?_⟩
    · dsimp only
      rw [hboundary]
      push_cast
      rw [Int.add_mul (n + 1 : Int) 1, Int.one_mul]
    · rw [List.mem_append, List.mem_singleton, hmem]
      constructor
      · rintro (⟨k, hk, rfl⟩ | rfl)
        · exact ⟨k, by omega, rfl⟩
        · exact ⟨n, by omega, hboundary⟩
      · rintro ⟨k, hk, rfl⟩
        rcases Nat.lt_or_eq_of_le (Nat.le_of_lt_succ hk) with hless | rfl
        · exact Or.inl ⟨k, hless, rfl⟩
        · exact Or.inr hboundary.symm
    · rcases List.mem_append.mp hm with hm | hm
      · exact hbelow m hm
      · rw [List.mem_singleton.mp hm]
        exact hless
  · simp only [targetTurn, if_neg hless]
    constructor
    · intro hm
      obtain ⟨k, -, hk⟩ := (hmem m).mp hm
      exact ⟨hbelow m hm, k, hk⟩
    · rintro ⟨hinside, k, rfl⟩
      refine (hmem _).mpr ⟨k, ?_, rfl⟩
      by_contra hbeyond
      -- the multiples from the boundary on lie behind the end
      have hmono : ((n : Int) + 1) * config.targetChunkMs ≤ (k + 1) * config.targetChunkMs :=
        Int.mul_le_mul_of_nonneg_right (by omega) htarget.le
      omega

theorem mem_grid (htarget : 0 < config.targetChunkMs) {fuel : Nat} {grid : List Int}
    (hrun : run (targetTurn config durationMs) fuel (config.targetChunkMs, []) = some grid) (m : Int) :
    m ∈ grid ↔ m < durationMs ∧ ∃ k : Nat, m = (k + 1) * config.targetChunkMs := by
  refine run_kept (targetTurn_grid htarget m) ⟨0, ?_, fun m => ?_, fun m hm => absurd hm List.not_mem_nil⟩ hrun
  · simp
  · exact iff_of_false List.not_mem_nil fun ⟨k, hk, _⟩ => absurd hk (Nat.not_lt_zero k)

/-- **The planner collects the candidates.** -/
theorem mem_silenceBoundaries (htarget : 0 < config.targetChunkMs) (hd : 0 ≤ durationMs)
    {speechRegions : List SpeechRegion} {fuel : Nat} {silences : List Int}
    (h : silenceBoundaries fuel config durationMs (sortedRegions durationMs speechRegions) = some silences)
    (m : Int) : m ∈ silences ↔ IsCandidate config durationMs speechRegions m := by
  have hsame : ∀ region, region ∈ sortedRegions durationMs speechRegions ↔
      region ∈ clampedRegions durationMs speechRegions := fun region => List.mem_insertionSort _
  have hgaps := (prepared_sortedRegions durationMs speechRegions hd).mem_speechGaps_iff (m := m)
  have hsilence : (∃ startMs endMs, IsSilence durationMs (sortedRegions durationMs speechRegions) startMs endMs ∧
      m = startMs + (endMs - startMs) / 2) ↔ ∃ startMs endMs,
        IsSilence durationMs (clampedRegions durationMs speechRegions) startMs endMs ∧
        m = startMs + (endMs - startMs) / 2 :=
    ⟨fun ⟨a, b, hab, hm⟩ => ⟨a, b, hab.congr hsame, hm⟩,
      fun ⟨a, b, hab, hm⟩ => ⟨a, b, hab.congr fun region => (hsame region).symm, hm⟩⟩
  have hempty : (sortedRegions durationMs speechRegions).isEmpty = true ↔
      clampedRegions durationMs speechRegions = [] := by
    rw [List.isEmpty_iff, ← List.length_eq_zero_iff, ← List.length_eq_zero_iff]
    exact iff_of_eq (congrArg (· = 0) (List.perm_insertionSort _ _).length_eq)
  unfold silenceBoundaries at h
  unfold IsCandidate
  dsimp only at h ⊢
  rw [← hsilence, ← hgaps, ← hempty]
  cases hspeech : (sortedRegions durationMs speechRegions).isEmpty with
  | true =>
    rw [hspeech, if_pos rfl] at h
    obtain ⟨grid, hgrid, rfl⟩ := Option.map_eq_some_iff.mp h
    rw [List.mem_append, mem_grid htarget hgrid, and_iff_right rfl]
    exact or_comm
  | false =>
    rw [hspeech, if_neg Bool.false_ne_true] at h
    cases h
    exact ⟨Or.inl, fun hm => hm.resolve_right fun hnone => Bool.false_ne_true hnone.1⟩

/-! ## Nearest candidates -/

/-- A nearest candidate to the target among those of the window. -/
structure IsNearest (isCandidate : Int → Prop) (low high target boundary : Int) : Prop where
  candidate : isCandidate boundary
  low_le : low ≤ boundary
  le_high : boundary ≤ high
  nearest : ∀ m, isCandidate m → low ≤ m → m ≤ high → qAbs (boundary - target) ≤ qAbs (m - target)

/-- A pass over the candidates only comes closer: it ends with what it had, or with a candidate of the window,
    and no candidate of the window is closer. -/
theorem nearestBoundary_spec (low high target : Int) (candidates : List Int) : ∀ best : Int × Int,
    let result := nearestBoundary low high target candidates best
    (result = best ∨ (result.1 ∈ candidates ∧ low ≤ result.1 ∧ result.1 ≤ high ∧
        result.2 = qAbs (result.1 - target))) ∧
      result.2 ≤ best.2 ∧ ∀ m ∈ candidates, low ≤ m → m ≤ high → result.2 ≤ qAbs (m - target) := by
  induction candidates with
  | nil => exact fun best => ⟨Or.inl rfl, Int.le_refl _, fun m hm => absurd hm List.not_mem_nil⟩
  | cons candidate rest ih =>
    intro best
    have hstep : nearestBoundary low high target (candidate :: rest) best =
        nearestBoundary low high target rest
          (if candidate < low ∨ candidate > high then best
            else if qAbs (candidate - target) < best.2 then (candidate, qAbs (candidate - target)) else best) := rfl
    rw [hstep]
    by_cases houtside : candidate < low ∨ candidate > high
    · rw [if_pos houtside]
      obtain ⟨hcases, hle, hall⟩ := ih best
      refine ⟨hcases.imp_right fun ⟨hmem, hrest⟩ => ⟨List.mem_cons_of_mem _ hmem, hrest⟩, hle, fun m hm hlow hhigh => ?_⟩
      rcases List.mem_cons.mp hm with rfl | hm
      · omega
      · exact hall m hm hlow hhigh
    · rw [if_neg houtside]
      by_cases hcloser : qAbs (candidate - target) < best.2
      · rw [if_pos hcloser]
        obtain ⟨hcases, hle, hall⟩ := ih (candidate, qAbs (candidate - target))
        refine ⟨Or.inr ?_, hle.trans hcloser.le, fun m hm hlow hhigh => ?_⟩
        · rcases hcases with hsame | ⟨hmem, hrest⟩
          · rw [hsame]
            exact ⟨List.mem_cons_self .., by dsimp only; omega, by dsimp only; omega, rfl⟩
          · exact ⟨List.mem_cons_of_mem _ hmem, hrest⟩
        · rcases List.mem_cons.mp hm with rfl | hm
          · exact hle
          · exact hall m hm hlow hhigh
      · rw [if_neg hcloser]
        obtain ⟨hcases, hle, hall⟩ := ih best
        refine ⟨hcases.imp_right fun ⟨hmem, hrest⟩ => ⟨List.mem_cons_of_mem _ hmem, hrest⟩, hle, fun m hm hlow hhigh => ?_⟩
        rcases List.mem_cons.mp hm with rfl | hm
        · exact hle.trans (not_lt.mp hcloser)
        · exact hall m hm hlow hhigh

/-- A pass that starts with nothing finds a nearest candidate, or there is none in the window. -/
theorem nearestBoundary_start {low high target : Int} {candidates : List Int}
    (hnear : ∀ m ∈ candidates, low ≤ m → m ≤ high → qAbs (m - target) < maxInt64) :
    let result := nearestBoundary low high target candidates (-1, maxInt64)
    (result = (-1, maxInt64) ∧ ∀ m ∈ candidates, ¬ (low ≤ m ∧ m ≤ high)) ∨
      IsNearest (· ∈ candidates) low high target result.1 := by
  intro result
  obtain ⟨hcases, -, hall⟩ := nearestBoundary_spec low high target candidates (-1, maxInt64)
  rcases hcases with hnone | ⟨hmem, hlow, hhigh, hdistance⟩
  · refine Or.inl ⟨hnone, fun m hm hwindow => ?_⟩
    have hclose := hnear m hm hwindow.1 hwindow.2
    have hbest := hall m hm hwindow.1 hwindow.2
    rw [hnone] at hbest
    omega
  · exact Or.inr ⟨hmem, hlow, hhigh, fun m hm hlow hhigh => hdistance ▸ hall m hm hlow hhigh⟩

/-! ## The cuts of a plan -/

variable (durationMs config) (speechRegions : List SpeechRegion)

/-- The boundary fell at the hard maximum, since no candidate was in reach. -/
structure HardCut (chunk : TranscriptionChunk) : Prop where
  end_eq : chunk.endMs = chunk.startMs + config.hardMaximumChunkMs
  before_end : chunk.endMs < durationMs
  overlap_eq : chunk.overlapAfterMs = config.hardCutOverlapMs
  no_candidate : ∀ m, IsCandidate config durationMs speechRegions m →
    ¬ (chunk.startMs + config.minimumPreferredChunkMs ≤ m ∧ m ≤ chunk.startMs + config.hardMaximumChunkMs)

/-- The boundary fell into a silence: the nearest one of the preferred window, if there is one there, else the
    nearest one up to the hard maximum. -/
structure SilenceCut (chunk : TranscriptionChunk) : Prop where
  before_end : chunk.endMs < durationMs
  overlap_eq : chunk.overlapAfterMs = 0
  candidate : IsCandidate config durationMs speechRegions chunk.endMs
  outside : ∀ region ∈ speechRegions, ¬ (region.startMs < chunk.endMs ∧ chunk.endMs < region.endMs)
  nearest :
    IsNearest (IsCandidate config durationMs speechRegions) (chunk.startMs + config.minimumPreferredChunkMs)
      (chunk.startMs + config.maximumPreferredChunkMs) (chunk.startMs + config.targetChunkMs) chunk.endMs ∨
    (∀ m, IsCandidate config durationMs speechRegions m →
      ¬ (chunk.startMs + config.minimumPreferredChunkMs ≤ m ∧ m ≤ chunk.startMs + config.maximumPreferredChunkMs)) ∧
    IsNearest (IsCandidate config durationMs speechRegions) (chunk.startMs + config.minimumPreferredChunkMs)
      (chunk.startMs + config.hardMaximumChunkMs) (chunk.startMs + config.targetChunkMs) chunk.endMs

/-- The chunk reaches to the end of the audio: it is short enough, or nothing before that end is a candidate. -/
structure EndCut (chunk : TranscriptionChunk) : Prop where
  end_eq : chunk.endMs = durationMs
  overlap_eq : chunk.overlapAfterMs = 0
  no_choice : chunk.endMs - chunk.startMs ≤ max config.shortAudioThresholdMs config.maximumPreferredChunkMs ∨
    chunk.endMs ≤ chunk.startMs + config.hardMaximumChunkMs ∧
      ∀ m, IsCandidate config durationMs speechRegions m → ¬ chunk.startMs + config.minimumPreferredChunkMs ≤ m

variable {config durationMs speechRegions}

/-- A candidate behind the start of the recording lies before its end, and inside no speech. -/
theorem IsCandidate.outside {m : Int} (hm : IsCandidate config durationMs speechRegions m) (hpos : 0 < m) :
    m < durationMs ∧ ∀ region ∈ speechRegions, ¬ (region.startMs < m ∧ m < region.endMs) := by
  -- a region around `m` is still around it when it is cut to the recording
  have hclamped : m < durationMs → ∀ region ∈ speechRegions, region.startMs < m ∧ m < region.endMs →
      ∃ cut ∈ clampedRegions durationMs speechRegions, cut.startMs < m ∧ m < cut.endMs := by
    rintro hless region hregion ⟨hstart, hend⟩
    have hlow : clamp region.startMs 0 durationMs < m := by
      unfold clamp
      split
      · exact hpos
      · split <;> omega
    have hhigh : m < clamp region.endMs 0 durationMs := by
      unfold clamp
      split
      · omega
      · split <;> omega
    exact ⟨⟨_, _⟩, List.mem_filterMap.mpr ⟨region, hregion, if_pos (hlow.trans hhigh)⟩, hlow, hhigh⟩
  rcases hm with ⟨startMs, endMs, hsilence, hmiddle⟩ | ⟨hnone, hless, -⟩
  · have hshort := hsilence.start_lt_end
    have hend := hsilence.end_le
    have hless : m < durationMs := by omega
    refine ⟨hless, fun region hregion haround => ?_⟩
    obtain ⟨cut, hcut, hstart, hstop⟩ := hclamped hless region hregion haround
    have hsilent := hsilence.silent cut hcut
    omega
  · refine ⟨hless, fun region hregion haround => ?_⟩
    obtain ⟨cut, hcut, -⟩ := hclamped hless region hregion haround
    rw [hnone] at hcut
    exact absurd hcut List.not_mem_nil

/-- **Each cut** is one of the three kinds. -/
theorem cutChunk_choice (hc : Admissible config) (hmax : durationMs ≤ maxInt64) {silences : List Int}
    (hsilences : ∀ m, m ∈ silences ↔ IsCandidate config durationMs speechRegions m) {s : PlanState}
    (hcursor : 0 ≤ s.cursor) (hlong : config.maximumPreferredChunkMs < durationMs - s.cursor) :
    let chunk := cutChunk config durationMs silences s
    EndCut durationMs config speechRegions chunk ∨ HardCut durationMs config speechRegions chunk ∨
      SilenceCut durationMs config speechRegions chunk := by
  intro chunk
  obtain ⟨hov, hmin, htar, hpref, hhard⟩ := hc
  have hcandidates : (· ∈ silences) = IsCandidate config durationMs speechRegions :=
    funext fun m => propext (hsilences m)
  have hwithin : ∀ m, IsCandidate config durationMs speechRegions m → s.cursor + config.minimumPreferredChunkMs ≤ m →
      m < durationMs ∧ ∀ region ∈ speechRegions, ¬ (region.startMs < m ∧ m < region.endMs) :=
    fun m hm hlow => hm.outside (by omega)
  have hnear : ∀ high, ∀ m ∈ silences, s.cursor + config.minimumPreferredChunkMs ≤ m → m ≤ high →
      qAbs (m - (s.cursor + config.targetChunkMs)) < maxInt64 := by
    intro high m hm hlow hhigh
    have hless := (hwithin m ((hsilences m).mp hm) hlow).1
    unfold qAbs
    split <;> omega
  have htarget : min durationMs (s.cursor + config.targetChunkMs) = s.cursor + config.targetChunkMs := by omega
  have hpreferredMax : min durationMs (s.cursor + config.maximumPreferredChunkMs) =
      s.cursor + config.maximumPreferredChunkMs := by omega
  have hchunk : chunk = cutChunk config durationMs silences s := rfl
  unfold cutChunk chooseBoundary at hchunk
  dsimp only at hchunk
  rw [htarget, hpreferredMax] at hchunk
  rcases nearestBoundary_start (hnear (s.cursor + config.maximumPreferredChunkMs)) with ⟨hnone, hempty⟩ | hnearest
  · -- nothing in the preferred window: the second pass starts where the first one did
    rw [hnone, if_pos (by dsimp only; omega)] at hchunk
    have hempty : ∀ m, IsCandidate config durationMs speechRegions m →
        ¬ (s.cursor + config.minimumPreferredChunkMs ≤ m ∧ m ≤ s.cursor + config.maximumPreferredChunkMs) :=
      fun m hm => hempty m ((hsilences m).mpr hm)
    rcases nearestBoundary_start (hnear (min durationMs (s.cursor + config.hardMaximumChunkMs))) with
      ⟨hnone, hlate⟩ | hnearest
    · -- and nothing up to the hard maximum
      rw [hnone, if_pos (by dsimp only; omega)] at hchunk
      have hlate : ∀ m, IsCandidate config durationMs speechRegions m → s.cursor + config.minimumPreferredChunkMs ≤ m →
          ¬ m ≤ min durationMs (s.cursor + config.hardMaximumChunkMs) :=
        fun m hm hlow hhigh => hlate m ((hsilences m).mpr hm) ⟨hlow, hhigh⟩
      by_cases hbefore : min durationMs (s.cursor + config.hardMaximumChunkMs) < durationMs
      · refine Or.inr (Or.inl ?_)
        rw [hchunk]
        refine ⟨by dsimp only; omega, hbefore, if_pos (decide_eq_true hbefore), fun m hm hwindow => ?_⟩
        have hless := (hwithin m hm hwindow.1).1
        exact hlate m hm hwindow.1 (le_min hless.le hwindow.2)
      · refine Or.inl ?_
        rw [hchunk]
        refine ⟨by dsimp only; omega, if_neg (by rw [decide_eq_true_eq]; exact hbefore),
          Or.inr ⟨by dsimp only; omega, fun m hm hlow => ?_⟩⟩
        have hless := (hwithin m hm hlow).1
        exact hlate m hm hlow (by omega)
    · rw [if_neg (by have hlow := hnearest.low_le; omega)] at hchunk
      rw [hcandidates] at hnearest
      have hinside := hwithin _ hnearest.candidate hnearest.low_le
      refine Or.inr (Or.inr ?_)
      rw [hchunk]
      refine ⟨hinside.1, rfl, hnearest.candidate, hinside.2, Or.inr ⟨hempty, hnearest.candidate, hnearest.low_le,
        hnearest.le_high.trans (min_le_right _ _), fun m hm hlow hhigh => ?_⟩⟩
      exact hnearest.nearest m hm hlow (le_min (hwithin m hm hlow).1.le hhigh)
  · rw [if_neg (by have hlow := hnearest.low_le; omega)] at hchunk
    rw [hcandidates] at hnearest
    have hwithin := hwithin _ hnearest.candidate hnearest.low_le
    refine Or.inr (Or.inr ?_)
    rw [hchunk]
    exact ⟨hwithin.1, rfl, hnearest.candidate, hwithin.2, Or.inl hnearest⟩

/-- Each chunk of a plan ends in one of the three ways. -/
def Cut (durationMs : Int) (config : ChunkPlannerConfiguration) (speechRegions : List SpeechRegion)
    (chunk : TranscriptionChunk) : Prop :=
  EndCut durationMs config speechRegions chunk ∨ HardCut durationMs config speechRegions chunk ∨
    SilenceCut durationMs config speechRegions chunk

theorem planTurn_choice (hc : Admissible config) (hmax : durationMs ≤ maxInt64) {silences : List Int}
    (hsilences : ∀ m, m ∈ silences ↔ IsCandidate config durationMs speechRegions m) :
    TurnKeeps (planTurn config durationMs silences)
      (fun s => PlanInv config durationMs s ∧ ∀ chunk ∈ s.chunks, Cut durationMs config speechRegions chunk)
      (fun chunks => ∀ chunk ∈ chunks, Cut durationMs config speechRegions chunk) := by
  rintro s ⟨hinv, hcuts⟩
  have hsound := planTurn_sound hc silences s hinv
  have happend : ∀ last, Cut durationMs config speechRegions last →
      ∀ chunk ∈ s.chunks ++ [last], Cut durationMs config speechRegions chunk := by
    intro last hlast chunk hchunk
    rcases List.mem_append.mp hchunk with hchunk | hchunk
    · exact hcuts chunk hchunk
    · rw [List.mem_singleton.mp hchunk]
      exact hlast
  unfold planTurn at hsound ⊢
  by_cases hleft : s.cursor < durationMs
  · rw [if_pos hleft] at hsound ⊢
    by_cases hshort : durationMs - s.cursor ≤ config.maximumPreferredChunkMs
    · rw [if_pos hshort]
      exact happend _ (Or.inl ⟨rfl, rfl, Or.inl (hshort.trans (Int.le_max_right _ _))⟩)
    · rw [if_neg hshort] at hsound ⊢
      have hcut := cutChunk_choice hc hmax hsilences hinv.cursor_nonneg (by omega)
      obtain ⟨hadvance, -⟩ := cutChunk_spec hc hinv (by omega) silences
      dsimp only at hsound ⊢
      rw [if_neg (by omega)] at hsound ⊢
      exact ⟨hsound.1, happend _ hcut⟩
  · rw [if_neg hleft]
    exact hcuts

/-- Where the chunks of a plan end. -/
structure BoundaryChoice (config : ChunkPlannerConfiguration) (durationMs : Int) (speechRegions : List SpeechRegion)
    (chunks : List TranscriptionChunk) : Prop where
  cuts : ∀ chunk ∈ chunks, Cut durationMs config speechRegions chunk
  /-- Every boundary inside the audio is a hard cut or lies in a silence. -/
  inner : ∀ i (h : i + 1 < chunks.length),
    HardCut durationMs config speechRegions (getElem chunks i (Nat.lt_of_succ_lt h)) ∨
    SilenceCut durationMs config speechRegions (getElem chunks i (Nat.lt_of_succ_lt h))
  /-- Only a hard cut makes two chunks overlap. -/
  overlap : ∀ i (h : i + 1 < chunks.length),
    chunks[i + 1].startMs < (getElem chunks i (Nat.lt_of_succ_lt h)).endMs →
    HardCut durationMs config speechRegions (getElem chunks i (Nat.lt_of_succ_lt h))

theorem Covers.boundaryChoice {limit : Int} {chunks : List TranscriptionChunk} (h : Covers limit durationMs chunks)
    (hcuts : ∀ chunk ∈ chunks, Cut durationMs config speechRegions chunk) :
    BoundaryChoice config durationMs speechRegions chunks := by
  obtain ⟨-, hends⟩ := h.chain.end_le_lastEnd
  rw [h.end_eq] at hends
  have hnext := h.chain.getElem.2
  have hinner : ∀ i (hi : i + 1 < chunks.length), HardCut durationMs config speechRegions chunks[i] ∨
      SilenceCut durationMs config speechRegions chunks[i] := by
    intro i hi
    refine (hcuts _ (List.getElem_mem _)).resolve_left fun hend => ?_
    -- nothing would be left for the chunk behind it
    have hstart := (hnext i hi).1
    have hproper := (h.chain.sized _ (List.getElem_mem hi)).start_lt_end
    have hlast := hends _ (List.getElem_mem hi)
    have hend' := hend.end_eq
    have hoverlap := hend.overlap_eq
    omega
  refine ⟨hcuts, hinner, fun i hi hover => (hinner i hi).resolve_right fun hsilence => ?_⟩
  have hstart := (hnext i hi).1
  have hoverlap := hsilence.overlap_eq
  omega

end BreezeDesk.Asr
