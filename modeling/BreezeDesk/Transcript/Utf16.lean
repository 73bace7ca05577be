/-
  Well-formed UTF-16, and texts that are cut.

  A text is well formed when a high surrogate stands exactly before a low one.  That is a condition on
  neighbours and on the two ends, so a cut keeps it exactly where it does not come between the halves of a
  pair (`wellFormed_halves`), and trimming, which takes away no surrogate, does not matter
  (`wellFormed_trimmed`).
-/
import BreezeDesk.Asr.ComparisonUnits
import Mathlib.Data.List.Chain

namespace BreezeDesk

/-- A high surrogate, then a low one, or neither. -/
def Paired (first second : QChar) : Prop := Asr.isHighSurrogate first = Asr.isLowSurrogate second

instance : DecidableRel Paired := fun _ _ => inferInstanceAs (Decidable (_ = _))

structure WellFormed (text : QString) : Prop where
  pairs : text.IsChain Paired
  head : ∀ c ∈ text.head?, Asr.isLowSurrogate c = false
  last : ∀ c ∈ text.getLast?, Asr.isHighSurrogate c = false

/-- One half of a pair ends the one text, and the other half begins the other. -/
def CutsPair (first second : QString) : Bool :=
  first.getLast?.any Asr.isHighSurrogate && second.head?.any Asr.isLowSurrogate

variable {text first second : QString} {c : QChar}

theorem not_surrogate_of_space (h : isSpace c = true) : Asr.isHighSurrogate c = false ∧ Asr.isLowSurrogate c = false := by
  have hsmall := Asr.isSpace_small h
  exact Asr.not_surrogate_of_small (by omega)

theorem cutsPair_iff : CutsPair first second = true ↔
    (∃ c ∈ first.getLast?, Asr.isHighSurrogate c = true) ∧ ∃ c ∈ second.head?, Asr.isLowSurrogate c = true := by
  unfold CutsPair
  rw [Bool.and_eq_true, Option.any_eq_true, Option.any_eq_true]
  rfl

/-- **A cut** keeps a text well formed unless it comes between the halves of a pair. -/
theorem wellFormed_halves (h : WellFormed (first ++ second)) :
    (WellFormed first ∧ WellFormed second) ↔ CutsPair first second = false := by
  obtain ⟨hfirst, hsecond, hjunction⟩ := List.isChain_append.mp h.pairs
  constructor
  · rintro ⟨hleft, -⟩
    rw [← Bool.not_eq_true, cutsPair_iff]
    rintro ⟨⟨c, hc, hhigh⟩, -⟩
    rw [hleft.last c hc] at hhigh
    cases hhigh
  · intro hcut
    rw [← Bool.not_eq_true, cutsPair_iff] at hcut
    constructor
    · refine ⟨hfirst, fun c hc => h.head c ?_, fun c hc => ?_⟩
      · rw [List.head?_append, Option.mem_def.mp hc]
        rfl
      · -- a high surrogate at the end is paired across the cut, or ends the whole text
        cases hhigh : Asr.isHighSurrogate c with
        | false => rfl
        | true =>
          cases hhead : second.head? with
          | none =>
            have hlast := h.last c
            rw [List.getLast?_append, List.head?_eq_none_iff.mp hhead] at hlast
            rw [← hhigh]
            exact hlast hc
          | some d =>
            have hpaired : Asr.isHighSurrogate c = Asr.isLowSurrogate d := hjunction c hc d hhead
            exact absurd ⟨⟨c, hc, hhigh⟩, d, hhead, hpaired ▸ hhigh⟩ hcut
    · refine ⟨hsecond, fun d hd => ?_, fun c hc => h.last c ?_⟩
      · cases hlow : Asr.isLowSurrogate d with
        | false => rfl
        | true =>
          cases hlast : first.getLast? with
          | none =>
            have hhead := h.head d
            rw [List.getLast?_eq_none_iff.mp hlast, List.nil_append, hlow] at hhead
            exact hhead hd
          | some c =>
            have hpaired : Asr.isHighSurrogate c = Asr.isLowSurrogate d := hjunction c hlast d hd
            exact absurd ⟨⟨c, hlast, hpaired.trans hlow⟩, d, hd, hlow⟩ hcut
      · rw [List.getLast?_append, Option.mem_def.mp hc]
        rfl

theorem wellFormed_append (hfirst : WellFormed first) (hsecond : WellFormed second) : WellFormed (first ++ second) where
  pairs := List.isChain_append.mpr ⟨hfirst.pairs, hsecond.pairs, fun c hc d hd =>
    (hfirst.last c hc).trans (hsecond.head d hd).symm⟩
  head c hc := by
    rw [List.head?_append] at hc
    cases hhead : first.head? with
    | none =>
      rw [hhead] at hc
      exact hsecond.head c hc
    | some d =>
      rw [hhead] at hc
      exact hfirst.head c (hhead.trans hc)
  last c hc := by
    rw [List.getLast?_append] at hc
    cases hlast : second.getLast? with
    | none =>
      rw [hlast] at hc
      exact hfirst.last c hc
    | some d =>
      rw [hlast] at hc
      exact hsecond.last c (hlast.trans hc)

theorem wellFormed_spaces (h : ∀ c ∈ text, isSpace c = true) : WellFormed text where
  pairs := by
    refine List.Pairwise.isChain (List.pairwise_of_forall_mem_list fun c hc d hd => ?_)
    exact (not_surrogate_of_space (h c hc)).1.trans (not_surrogate_of_space (h d hd)).2.symm
  head c hc := (not_surrogate_of_space (h c (List.mem_of_mem_head? hc))).2
  last c hc := (not_surrogate_of_space (h c (List.mem_of_getLast? hc))).1

/-- No surrogate is trimmed. -/
theorem wellFormed_append_spaces (h : ∀ c ∈ second, isSpace c = true) :
    WellFormed (first ++ second) ↔ WellFormed first := by
  refine ⟨fun hwhole => ?_, fun hfirst => wellFormed_append hfirst (wellFormed_spaces h)⟩
  refine ((wellFormed_halves hwhole).mpr ?_).1
  rw [← Bool.not_eq_true, cutsPair_iff]
  rintro ⟨-, c, hc, hlow⟩
  rw [(not_surrogate_of_space (h c (List.mem_of_mem_head? hc))).2] at hlow
  cases hlow

theorem wellFormed_spaces_append (h : ∀ c ∈ first, isSpace c = true) :
    WellFormed (first ++ second) ↔ WellFormed second := by
  refine ⟨fun hwhole => ?_, fun hsecond => wellFormed_append (wellFormed_spaces h) hsecond⟩
  refine ((wellFormed_halves hwhole).mpr ?_).2
  rw [← Bool.not_eq_true, cutsPair_iff]
  rintro ⟨⟨c, hc, hhigh⟩, -⟩
  rw [(not_surrogate_of_space (h c (List.mem_of_getLast? hc))).1] at hhigh
  cases hhigh

/-- A text is its trimmed text between white space. -/
theorem trimmed_between (text : QString) : ∃ before after, text = before ++ trimmed text ++ after ∧
    (∀ c ∈ before, isSpace c = true) ∧ ∀ c ∈ after, isSpace c = true := by
  have hleft : text.takeWhile isSpace ++ text.dropWhile isSpace = text := List.takeWhile_append_dropWhile
  have hright : trimmed text ++ (text.dropWhile isSpace).rtakeWhile isSpace = text.dropWhile isSpace := by
    unfold trimmed List.rdropWhile List.rtakeWhile
    rw [← List.reverse_append, List.takeWhile_append_dropWhile, List.reverse_reverse]
  refine ⟨text.takeWhile isSpace, (text.dropWhile isSpace).rtakeWhile isSpace, ?_, fun c => List.mem_takeWhile_imp,
    fun c => List.mem_rtakeWhile_imp⟩
  rw [List.append_assoc, hright, hleft]

/-- A trimmed text begins and ends with visible characters. -/
theorem trimmed_ends (text : QString) : (∀ c ∈ (trimmed text).head?, isSpace c = false) ∧
    ∀ c ∈ (trimmed text).getLast?, isSpace c = false := by
  constructor
  · intro c hc
    obtain ⟨rest, hprefix⟩ := List.rdropWhile_prefix isSpace (l := text.dropWhile isSpace)
    obtain ⟨others, htrimmed⟩ := List.head?_eq_some_iff.mp hc
    have hdrop : text.dropWhile isSpace = c :: (others ++ rest) := by
      rw [← hprefix, ← List.cons_append, ← htrimmed]
      rfl
    have hhead := List.head_dropWhile_not isSpace (l := text) (by rw [hdrop]; exact List.cons_ne_nil _ _)
    simpa only [hdrop, List.head_cons] using hhead
  · intro c hc
    obtain ⟨hne, rfl⟩ := List.mem_getLast?_eq_getLast hc
    exact Bool.eq_false_iff.mpr (List.rdropWhile_last_not isSpace (text.dropWhile isSpace) hne)

theorem wellFormed_trimmed : WellFormed (trimmed text) ↔ WellFormed text := by
  obtain ⟨before, after, htext, hbefore, hafter⟩ := trimmed_between text
  conv_rhs => rw [htext]
  rw [wellFormed_append_spaces hafter, wellFormed_spaces_append hbefore]

end BreezeDesk
