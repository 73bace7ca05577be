/-
  What voice activity detection is meant to find, said of a whole recording at once.

  Every frame of the recording is speech or silence.  A run of speech starts at a speech frame and is closed
  at the start of the first silent stretch that lasts (`closes`), so that a short silence does not end it
  (`speechRuns`).  The runs that are long enough are padded, and those that then touch are merged
  (`offlineRegions`).

  The runs are a recursion over the recording and not a fold over its frames; `speechRuns_concat` says what
  one more frame does to them, which is all that a machine that reads the frames one by one has to match.
-/
import BreezeDesk.Asr.ChunkPlanner
import BreezeDesk.Library.Merging

namespace BreezeDesk.Asr

open Merging

/-! ## Frames -/

/-- The first frame from `start` on, of `count` frames, that passes the test. -/
def firstFrame (p : Nat → Bool) (start count : Nat) : Option Nat :=
  (List.range' start (count - start)).find? p

theorem firstFrame_eq_some {p : Nat → Bool} {start count k : Nat} (h : firstFrame p start count = some k) :
    start ≤ k ∧ k < count ∧ p k = true := by
  have hmem := List.mem_range'_1.mp (List.mem_of_find?_eq_some h)
  exact ⟨hmem.1, by omega, List.find?_some h⟩

theorem firstFrame_succ (p : Nat → Bool) {start count : Nat} (h : start ≤ count) :
    firstFrame p start (count + 1) =
      (firstFrame p start count).or (if p count = true then some count else none) := by
  have hcount : count + 1 - start = count - start + 1 := by omega
  have hlast : start + (count - start) = count := by omega
  unfold firstFrame
  rw [hcount, List.range'_concat, List.find?_append, Nat.one_mul, hlast, List.find?_singleton]

theorem firstFrame_congr {p q : Nat → Bool} {start count : Nat} (h : ∀ k, k < count → p k = q k) :
    firstFrame p start count = firstFrame q start count := by
  unfold firstFrame
  generalize hframes : List.range' start (count - start) = frames
  have hmem : ∀ k ∈ frames, p k = q k := fun k hk => h k (by
    have hbounds := List.mem_range'_1.mp (hframes ▸ hk)
    omega)
  clear hframes
  induction frames with
  | nil => rfl
  | cons k rest ih =>
    rw [List.find?_cons, List.find?_cons, hmem k (List.mem_cons_self ..),
      ih fun j hj => hmem j (List.mem_cons_of_mem k hj)]

/-! ## Runs -/

/-- Probabilities are of any type with an order: nothing is asked of it, as nothing can be of `float`. -/
structure StreamingVadConfiguration (P : Type*) where
  threshold : P
  probabilityFrameMs : Int := 32
  minimumSpeechMs : Int := 250
  minimumSilenceMs : Int := 100
  speechPaddingMs : Int := 30

variable {P : Type*} (config : StreamingVadConfiguration P)

/-- The number of silent frames directly before frame `k`. -/
def quietBefore (frames : List Bool) : Nat → Nat
  | 0 => 0
  | k + 1 => if frames[k]? = some false then quietBefore frames k + 1 else 0

def isSpeech (frames : List Bool) (k : Nat) : Bool := frames[k]? == some true

/-- Frame `k` is silent, and starts at least the minimum silence after the silent stretch it lies in. -/
def closes (frames : List Bool) (k : Nat) : Bool :=
  frames[k]? == some false &&
    decide (config.minimumSilenceMs ≤ (quietBefore frames k : Int) * config.probabilityFrameMs)

/-- **The runs of speech** from frame `start` on: the first frame of each, and the frame at which the silence
    that closed it began, or nothing when it is still open at the end. -/
def speechRuns (frames : List Bool) (start : Nat) : List (Nat × Option Nat) :=
  match hfirst : firstFrame (isSpeech frames) start frames.length with
  | none => []
  | some first =>
    match hclosing : firstFrame (closes config frames) first frames.length with
    | none => [(first, none)]
    | some k =>
      have _hlater : frames.length - (k + 1) < frames.length - start := by
        have hspeech := firstFrame_eq_some hfirst
        have hk := firstFrame_eq_some hclosing
        omega
      (first, some (k - quietBefore frames k)) :: speechRuns frames (k + 1)
  termination_by frames.length - start

/-- The milliseconds of a run in a recording of the given length. -/
def regionOfRun (durationMs : Int) (run : Nat × Option Nat) : SpeechRegion :=
  ⟨run.1 * config.probabilityFrameMs, (run.2.map fun e : Nat => (e : Int) * config.probabilityFrameMs).getD durationMs⟩

def isKept (region : SpeechRegion) : Bool := decide (config.minimumSpeechMs ≤ region.endMs - region.startMs)

def padded (region : SpeechRegion) : SpeechRegion :=
  ⟨max 0 (region.startMs - config.speechPaddingMs), region.endMs + config.speechPaddingMs⟩

/-- A region reaching at least to the given end. -/
def SpeechRegion.reach (region : SpeechRegion) (endMs : Int) : SpeechRegion :=
  { region with endMs := max region.endMs endMs }

/-- The regions of the given runs: the long ones, padded and merged. -/
def mergedRegions (durationMs : Int) (runs : List (Nat × Option Nat)) : List SpeechRegion :=
  mergeTouching SpeechRegion.startMs SpeechRegion.endMs SpeechRegion.reach
    (((runs.map (regionOfRun config durationMs)).filter (isKept config)).map (padded config))

/-- **The offline definition**: the regions of the whole recording, the last one cut at its end. -/
def offlineRegions (frames : List Bool) (durationMs : Int) : List SpeechRegion :=
  (mergedRegions config durationMs (speechRuns config frames 0)).modifyLast fun region =>
    { region with endMs := min region.endMs durationMs }

/-! ## One more frame -/

variable {config : StreamingVadConfiguration P} {frames : List Bool}

theorem quietBefore_append (b : Bool) {k : Nat} (h : k ≤ frames.length) :
    quietBefore (frames ++ [b]) k = quietBefore frames k := by
  induction k with
  | zero => rfl
  | succ k ih =>
    rw [quietBefore, quietBefore, List.getElem?_append_left (by omega), ih (by omega)]

theorem quietBefore_of_speech {i : Nat} (hi : frames[i]? = some true) {k : Nat} (h : i < k) :
    i + quietBefore frames k < k := by
  induction k with
  | zero => omega
  | succ k ih =>
    rw [quietBefore]
    split
    · next hsilent =>
      have hne : i ≠ k := fun hsame => by
        rw [hsame, hsilent] at hi
        cases hi
      have hbefore := ih (by omega)
      omega
    · omega

theorem isSpeech_append (b : Bool) {k : Nat} (h : k < frames.length) :
    isSpeech (frames ++ [b]) k = isSpeech frames k := by
  rw [isSpeech, isSpeech, List.getElem?_append_left h]

theorem closes_append (b : Bool) {k : Nat} (h : k < frames.length) :
    closes config (frames ++ [b]) k = closes config frames k := by
  rw [closes, closes, List.getElem?_append_left h, quietBefore_append b h.le]

/-- Runs closed so far, and the one that is still open, if there is one. -/
def runsOf (closed : List (Nat × Nat)) (current : Option Nat) : List (Nat × Option Nat) :=
  closed.map (fun run => (run.1, some run.2)) ++ current.toList.map fun first => (first, none)

theorem runsOf_concat (closed : List (Nat × Nat)) (run : Nat × Nat) :
    runsOf (closed ++ [run]) none = runsOf closed none ++ [(run.1, some run.2)] := by
  unfold runsOf
  rw [List.map_append, List.append_assoc, List.append_assoc]
  rfl

theorem runsOf_some (closed : List (Nat × Nat)) (first : Nat) :
    runsOf closed (some first) = runsOf closed none ++ [(first, none)] := by
  unfold runsOf
  rw [List.append_assoc]
  rfl

theorem runsOf_eq_nil {closed : List (Nat × Nat)} {current : Option Nat} (h : runsOf closed current = []) :
    closed = [] ∧ current = none := by
  cases closed with
  | nil =>
    cases current with
    | none => exact ⟨rfl, rfl⟩
    | some first => cases h
  | cons run rest => cases h

theorem runsOf_single {first : Nat} {closed : List (Nat × Nat)} {current : Option Nat}
    (h : [(first, none)] = runsOf closed current) : closed = [] ∧ current = some first := by
  cases closed with
  | nil =>
    cases current with
    | none => cases h
    | some other => cases h; exact ⟨rfl, rfl⟩
  | cons run rest => cases h

theorem runsOf_cons {first e : Nat} {runs : List (Nat × Option Nat)} {closed : List (Nat × Nat)}
    {current : Option Nat} (h : (first, some e) :: runs = runsOf closed current) :
    ∃ rest, closed = (first, e) :: rest ∧ runs = runsOf rest current := by
  cases closed with
  | nil => cases current <;> cases h
  | cons run rest =>
    cases run
    cases h
    exact ⟨rest, rfl, rfl⟩

/-- The runs from a first speech frame on. -/
theorem speechRuns_of_first {start first : Nat}
    (hfirst : firstFrame (isSpeech frames) start frames.length = some first) :
    speechRuns config frames start =
      match firstFrame (closes config frames) first frames.length with
      | none => [(first, none)]
      | some k => (first, some (k - quietBefore frames k)) :: speechRuns config frames (k + 1) := by
  rw [speechRuns]
  split
  · next hnone => rw [hfirst] at hnone; cases hnone
  · next other hother =>
    rw [hfirst] at hother
    cases hother
    split <;> next hclosing => simp only [hclosing]

theorem speechRuns_of_silence {start : Nat} (hnone : firstFrame (isSpeech frames) start frames.length = none) :
    speechRuns config frames start = [] := by
  rw [speechRuns]
  split
  · rfl
  · next first hfirst => rw [hnone] at hfirst; cases hfirst

/-- **One more frame** opens a run, closes the open one, or changes nothing. -/
theorem speechRuns_concat (config : StreamingVadConfiguration P) (b : Bool) (start : Nat)
    (hstart : start ≤ frames.length) :
    ∀ {closed : List (Nat × Nat)} {current : Option Nat},
      speechRuns config frames start = runsOf closed current →
      speechRuns config (frames ++ [b]) start = match current with
        | none => runsOf closed (if b = true then some frames.length else none)
        | some first =>
          if closes config (frames ++ [b]) frames.length = true then
            runsOf (closed ++ [(first, frames.length - quietBefore frames frames.length)]) none
          else runsOf closed (some first) := by
  have hlength : (frames ++ [b]).length = frames.length + 1 := List.length_append
  have hspeech : ∀ start, start ≤ frames.length →
      firstFrame (isSpeech (frames ++ [b])) start (frames ++ [b]).length =
        (firstFrame (isSpeech frames) start frames.length).or (if b = true then some frames.length else none) := by
    intro start hstart
    have hlast : isSpeech (frames ++ [b]) frames.length = b := by
      rw [isSpeech, List.getElem?_concat_length]
      cases b <;> rfl
    rw [hlength, firstFrame_succ _ hstart, hlast, firstFrame_congr fun k hk => isSpeech_append b hk]
  have hcloses : ∀ first, first ≤ frames.length →
      firstFrame (closes config (frames ++ [b])) first (frames ++ [b]).length =
        (firstFrame (closes config frames) first frames.length).or
          (if closes config (frames ++ [b]) frames.length = true then some frames.length else none) := by
    intro first hfirst
    rw [hlength, firstFrame_succ _ hfirst, firstFrame_congr fun k hk => closes_append b hk]
  have hbeyond : speechRuns config (frames ++ [b]) (frames.length + 1) = [] := by
    refine speechRuns_of_silence ?_
    rw [firstFrame, hlength, Nat.sub_self]
    rfl
  -- the induction is on what is left of the recording
  induction hleft : frames.length - start using Nat.strong_induction_on generalizing start with
  | _ left ih =>
  intro closed current hruns
  have hnow := hspeech start hstart
  cases hfirst : firstFrame (isSpeech frames) start frames.length with
  | none =>
    rw [speechRuns_of_silence hfirst] at hruns
    rw [hfirst, Option.none_or] at hnow
    obtain ⟨rfl, rfl⟩ := runsOf_eq_nil hruns.symm
    cases b with
    | false => exact speechRuns_of_silence hnow
    | true =>
      have hnot : closes config (frames ++ [true]) frames.length = false := by
        rw [closes, List.getElem?_concat_length]
        rfl
      have hnone : firstFrame (closes config frames) frames.length frames.length = none := by
        rw [firstFrame, Nat.sub_self]
        rfl
      simp only [if_true] at hnow
      rw [speechRuns_of_first hnow, hcloses _ le_rfl, hnot, hnone]
      rfl
  | some first =>
    obtain ⟨hle, hlt, -⟩ := firstFrame_eq_some hfirst
    rw [hfirst, Option.some_or] at hnow
    have hend := hcloses first hlt.le
    rw [speechRuns_of_first hfirst] at hruns
    rw [speechRuns_of_first hnow, hend]
    cases hclosing : firstFrame (closes config frames) first frames.length with
    | none =>
      rw [hclosing] at hruns
      obtain ⟨rfl, rfl⟩ := runsOf_single hruns
      rw [Option.none_or]
      by_cases hcloses : closes config (frames ++ [b]) frames.length = true
      · simp only [if_pos hcloses, hbeyond, quietBefore_append b le_rfl]
        rfl
      · simp only [if_neg hcloses]
        rfl
    | some k =>
      have hk := firstFrame_eq_some hclosing
      rw [hclosing] at hruns
      obtain ⟨rest, rfl, hrest⟩ := runsOf_cons hruns
      have hnext := ih (frames.length - (k + 1)) (by omega) (k + 1) (by omega) rfl hrest
      simp only [Option.some_or, quietBefore_append b hk.2.1.le, hnext]
      cases current with
      | none => rfl
      | some first =>
        dsimp only
        split <;> rfl

theorem mergedRegions_concat (durationMs : Int) (runs : List (Nat × Option Nat)) (run : Nat × Option Nat) :
    mergedRegions config durationMs (runs ++ [run]) =
      if isKept config (regionOfRun config durationMs run) = true then
        addRange SpeechRegion.startMs SpeechRegion.endMs SpeechRegion.reach
          (mergedRegions config durationMs runs) (padded config (regionOfRun config durationMs run))
      else mergedRegions config durationMs runs := by
  unfold mergedRegions
  rw [List.map_append, List.filter_append, List.map_append]
  by_cases hkept : isKept config (regionOfRun config durationMs run) = true
  · rw [if_pos hkept, List.map_singleton, List.filter_singleton, hkept]
    exact mergeTouching_concat _ _
  · rw [if_neg hkept, List.map_singleton, List.filter_singleton, Bool.eq_false_iff.mpr hkept]
    exact congrArg _ (List.append_nil _)

/-! ## Order -/

/-- Runs begin one after the other, and each ends behind the frame it begins at. -/
theorem speechRuns_ordered (config : StreamingVadConfiguration P) (frames : List Bool) (start : Nat) :
    (speechRuns config frames start).Pairwise (fun r s => r.1 < s.1) ∧
      ∀ r ∈ speechRuns config frames start, start ≤ r.1 ∧ r.1 < frames.length ∧ ∀ e ∈ r.2, r.1 ≤ e := by
  induction hleft : frames.length - start using Nat.strong_induction_on generalizing start with
  | _ left ih =>
  cases hfirst : firstFrame (isSpeech frames) start frames.length with
  | none =>
    rw [speechRuns_of_silence hfirst]
    exact ⟨List.Pairwise.nil, fun r hr => absurd hr List.not_mem_nil⟩
  | some first =>
    obtain ⟨hle, hlt, hspeech⟩ := firstFrame_eq_some hfirst
    rw [speechRuns_of_first hfirst]
    cases hclosing : firstFrame (closes config frames) first frames.length with
    | none =>
      refine ⟨List.pairwise_singleton _ _, fun r hr => ?_⟩
      rw [List.mem_singleton.mp hr]
      exact ⟨hle, hlt, fun e he => by cases he⟩
    | some k =>
      obtain ⟨hfrom, hbelow, hcloses⟩ := firstFrame_eq_some hclosing
      obtain ⟨hpairwise, hrest⟩ := ih (frames.length - (k + 1)) (by omega) (k + 1) rfl
      -- the closing frame is silent, so it is not the first one, and the silence lies between the two
      have hfirstSpeech : frames[first]? = some true := beq_iff_eq.mp hspeech
      have hsilent : frames[k]? = some false := beq_iff_eq.mp (Bool.and_eq_true_iff.mp hcloses).1
      have hne : first ≠ k := fun hsame => by
        rw [hsame, hsilent] at hfirstSpeech
        cases hfirstSpeech
      have hquiet := quietBefore_of_speech hfirstSpeech (k := k) (by omega)
      refine ⟨List.pairwise_cons.mpr ⟨fun r hr => ?_, hpairwise⟩, fun r hr => ?_⟩
      · have hbounds := (hrest r hr).1
        dsimp only
        omega
      · rcases List.mem_cons.mp hr with rfl | hr
        · refine ⟨hle, hlt, fun e he => ?_⟩
          cases he
          dsimp only
          omega
        · obtain ⟨hbegin, hend, hproper⟩ := hrest r hr
          exact ⟨by omega, hend, hproper⟩

theorem speechRegion_reaching :
    Reaching SpeechRegion.startMs SpeechRegion.endMs SpeechRegion.reach where
  lo_reach _ _ := rfl
  hi_reach _ _ := rfl

/-- What the source's users set: a frame has a length, and no length is negative. -/
structure StreamingVadConfiguration.Usable (config : StreamingVadConfiguration P) : Prop where
  frame_pos : 0 < config.probabilityFrameMs
  speech_nonneg : 0 ≤ config.minimumSpeechMs
  silence_nonneg : 0 ≤ config.minimumSilenceMs
  padding_nonneg : 0 ≤ config.speechPaddingMs

/-- The recording lasts at least to the start of its last frame. -/
def Lasts (config : StreamingVadConfiguration P) (frames : List Bool) (durationMs : Int) : Prop :=
  ∀ k : Nat, k < frames.length → (k : Int) * config.probabilityFrameMs ≤ durationMs

/-- Regions of a recording: apart, and inside it. -/
structure RegionsWithin (durationMs : Int) (regions : List SpeechRegion) : Prop where
  separated : Separated SpeechRegion.startMs SpeechRegion.endMs regions
  within : ∀ region ∈ regions, 0 ≤ region.startMs ∧ region.endMs ≤ durationMs

/-- The regions of runs before padding. -/
theorem regionOfRun_ordered (husable : config.Usable) {durationMs : Int} (hlasts : Lasts config frames durationMs) :
    let regions := (speechRuns config frames 0).map (regionOfRun config durationMs)
    (regions.Pairwise fun a b => a.startMs ≤ b.startMs) ∧
      ∀ region ∈ regions, 0 ≤ region.startMs ∧ region.startMs ≤ region.endMs ∧ region.startMs ≤ durationMs := by
  obtain ⟨hpairwise, hruns⟩ := speechRuns_ordered config frames 0
  have hframe := husable.frame_pos
  have hmono : ∀ {i j : Nat}, i ≤ j → (i : Int) * config.probabilityFrameMs ≤ j * config.probabilityFrameMs :=
    fun h => Int.mul_le_mul_of_nonneg_right (Int.ofNat_le.mpr h) hframe.le
  refine ⟨List.pairwise_map.mpr (hpairwise.imp fun h => hmono h.le), fun region hregion => ?_⟩
  obtain ⟨⟨first, last⟩, hrun, rfl⟩ := List.mem_map.mp hregion
  obtain ⟨-, hlt, hproper⟩ := hruns _ hrun
  refine ⟨Int.mul_nonneg (Int.natCast_nonneg first) hframe.le, ?_, hlasts first hlt⟩
  cases last with
  | none => exact hlasts first hlt
  | some e => exact hmono (hproper e rfl)

theorem padded_mono {a b : SpeechRegion} (h : a.startMs ≤ b.startMs) :
    (padded config a).startMs ≤ (padded config b).startMs := by
  unfold padded
  dsimp only
  omega

theorem mergedRegions_separated (husable : config.Usable) {durationMs : Int}
    (hlasts : Lasts config frames durationMs) :
    let regions := mergedRegions config durationMs (speechRuns config frames 0)
    Separated SpeechRegion.startMs SpeechRegion.endMs regions ∧
      ∀ region ∈ regions, 0 ≤ region.startMs ∧ region.startMs ≤ durationMs := by
  obtain ⟨hsorted, hproper⟩ := regionOfRun_ordered husable hlasts
  have hpadding := husable.padding_nonneg
  have hpadded : ∀ region ∈ (((speechRuns config frames 0).map (regionOfRun config durationMs)).filter
      (isKept config)).map (padded config),
      region.startMs ≤ region.endMs ∧ 0 ≤ region.startMs ∧ region.startMs ≤ durationMs := by
    intro region hregion
    obtain ⟨run, hrun, rfl⟩ := List.mem_map.mp hregion
    obtain ⟨hnonneg, hrange, hbegin⟩ := hproper run (List.mem_of_mem_filter hrun)
    unfold padded
    dsimp only
    omega
  refine ⟨mergeTouching_separated speechRegion_reaching (fun region hregion => (hpadded region hregion).1)
    (List.pairwise_map.mpr ((hsorted.filter _).imp padded_mono)), fun region hregion => ?_⟩
  obtain ⟨first, hfirst, hsame⟩ := lo_mem_mergeTouching speechRegion_reaching hregion
  rw [hsame]
  exact (hpadded first hfirst).2

/-- **The regions of a recording** are apart and inside it. -/
theorem offlineRegions_within (husable : config.Usable) {durationMs : Int}
    (hlasts : Lasts config frames durationMs) : RegionsWithin durationMs (offlineRegions config frames durationMs) := by
  obtain ⟨hseparated, hstarts⟩ := mergedRegions_separated husable hlasts
  unfold offlineRegions
  revert hseparated hstarts
  generalize mergedRegions config durationMs (speechRuns config frames 0) = merged
  intro hseparated hstarts
  rcases List.eq_nil_or_concat' merged with rfl | ⟨front, last, rfl⟩
  · exact ⟨hseparated, fun region hregion => absurd hregion List.not_mem_nil⟩
  · have hlast : last ∈ front ++ [last] := List.mem_append_right _ (List.mem_singleton_self last)
    obtain ⟨hfront, -, hbefore⟩ := List.pairwise_append.mp hseparated.pairwise
    have hbegin := hstarts last hlast
    rw [List.modifyLast_concat]
    refine ⟨⟨List.pairwise_append.mpr ⟨hfront, List.pairwise_singleton _ _, fun a ha b hb => ?_⟩,
      fun region hregion => ?_⟩, fun region hregion => ?_⟩
    · rw [List.mem_singleton.mp hb]
      exact hbefore a ha last (List.mem_singleton_self last)
    · rcases List.mem_append.mp hregion with hmem | hmem
      · exact hseparated.proper region (List.mem_append_left _ hmem)
      · rw [List.mem_singleton.mp hmem]
        exact le_min (hseparated.proper last hlast) hbegin.2
    · rcases List.mem_append.mp hregion with hmem | hmem
      · -- a region before the last ends before that one begins
        have hends := hbefore region hmem last (List.mem_singleton_self last)
        exact ⟨(hstarts region (List.mem_append_left _ hmem)).1, by omega⟩
      · rw [List.mem_singleton.mp hmem]
        exact ⟨hbegin.1, min_le_right _ _⟩

end BreezeDesk.Asr
