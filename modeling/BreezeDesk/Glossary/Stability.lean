/-
  Post-processing a text that has been post-processed.

  A second run changes the text only at pending occurrences, those that are acceptable where they stand and do
  not read as the canonical text already (`applyExplicitAliases_of_settled`).  So the question is whether the
  first run leaves any.  It goes through the aliases one after the other, and what it does to the text is a
  sequence of replacements, from left to right for each alias (`Reaches`).

  `Settles` says what no replacement may do: bring back an alias that has been dealt with, leave a pending
  occurrence that a replaced stretch reaches into, or make one to the left of itself.  And no pending occurrence
  may hide behind another occurrence of the alias.  Then the loop over an alias leaves none of it
  (`candidateTurn_settles`), and the whole run none at all (`foldl_settled`).

  A canonical text that its own alias is a part of breaks the second condition, and is expanded once more by
  every run.
-/
import BreezeDesk.Glossary.Occurrences

namespace BreezeDesk

open Loop

variable (t : CharTables)

/-! ## Pending occurrences -/

/-- An occurrence that the boundary rule allows. -/
def Acceptable (text : QString) (candidate : Candidate) (p : Nat) : Prop :=
  Occurs t text candidate p ∧
    boundariesAllow t text p candidate.aliasText.length candidate.aliasText = true

/-- An occurrence that is allowed, and whose replacement would change the text. -/
def Pending (text : QString) (candidate : Candidate) (p : Nat) : Prop :=
  Acceptable t text candidate p ∧ (text.drop p).take candidate.aliasText.length ≠ candidate.canonical

instance (text : QString) (candidate : Candidate) (p : Nat) : Decidable (Acceptable t text candidate p) :=
  inferInstanceAs (Decidable (_ ∧ _))

instance (text : QString) (candidate : Candidate) (p : Nat) : Decidable (Pending t text candidate p) :=
  inferInstanceAs (Decidable (_ ∧ _))

/-! ## Replacements, alias by alias -/

/-- A replacement that is allowed: no earlier one reaches into it, and nothing is pending to the left of it. -/
structure Allowed (result : GlossaryPostProcessResult) (candidate : Candidate) (p : Nat) : Prop where
  acceptable : Acceptable t result.text candidate p
  free : overlaps result candidate p = false
  leftmost : ∀ q, q < p → ¬ Pending t result.text candidate q

/-- What can be reached from a text by allowed replacements of one candidate after the other, each until none is
    pending; the first list has the candidates that have been dealt with. -/
inductive Reaches (list : List Candidate) (text : QString) :
    List Candidate → List Candidate → GlossaryPostProcessResult → Prop where
  | start : Reaches list text [] list ⟨text, []⟩
  | replace {done rest : List Candidate} {candidate : Candidate} {result : GlossaryPostProcessResult} {p : Nat} :
      Reaches list text done (candidate :: rest) result → Allowed t result candidate p →
      Reaches list text done (candidate :: rest) (replaceMatch result candidate p)
  | next {done rest : List Candidate} {candidate : Candidate} {result : GlossaryPostProcessResult} :
      Reaches list text done (candidate :: rest) result → (∀ p, ¬ Pending t result.text candidate p) →
      Reaches list text (done ++ [candidate]) rest result

/-- What a replacement may not do to the occurrences that are pending behind it. -/
structure Undisturbed (done rest : List Candidate) (candidate : Candidate) (result : GlossaryPostProcessResult)
    (p : Nat) : Prop where
  settled : ∀ earlier ∈ done, ∀ q, ¬ Pending t (replaceMatch result candidate p).text earlier q
  free : ∀ other ∈ candidate :: rest, ∀ q, Pending t (replaceMatch result candidate p).text other q →
    overlaps (replaceMatch result candidate p) other q = false
  before : ∀ q, q < p → ¬ Pending t (replaceMatch result candidate p).text candidate q

/-- A pending occurrence is the first that the search comes to, or one before it is pending. -/
def HidesNothing (text : QString) (candidate : Candidate) : Prop :=
  ∀ p q, Occurs t text candidate p → p < q → q < p + candidate.aliasText.length → Pending t text candidate q →
    Pending t text candidate p

/-- No replacement from the text on disturbs what is pending, and nothing pending is hidden. -/
def Settles (list : List Candidate) (text : QString) : Prop :=
  ∀ done rest candidate result, Reaches t list text done (candidate :: rest) result →
    HidesNothing t result.text candidate ∧
      ∀ p, Allowed t result candidate p → Undisturbed t done rest candidate result p

variable {t} {list done rest : List Candidate} {candidate : Candidate} {text : QString}
  {result : GlossaryPostProcessResult}

/-- What holds between two candidates. -/
structure SettledUpTo (t : CharTables) (list : List Candidate) (text : QString) (done rest : List Candidate)
    (result : GlossaryPostProcessResult) : Prop where
  reaches : Reaches t list text done rest result
  settled : ∀ earlier ∈ done, ∀ q, ¬ Pending t result.text earlier q
  free : ∀ other ∈ rest, ∀ q, Pending t result.text other q → overlaps result other q = false

theorem settledUpTo_start : SettledUpTo t list text [] list ⟨text, []⟩ where
  reaches := .start
  settled earlier h := by cases h
  free _ _ _ _ := rfl

/-! ## The loop over a candidate -/

theorem overlaps_replaceMatch {p q : Nat} (h : overlaps (replaceMatch result candidate p) candidate q = false) :
    q + candidate.aliasText.length ≤ p ∨ p + candidate.canonical.length ≤ q := by
  unfold overlaps replaceMatch at h
  rw [List.any_eq_false] at h
  have hnew := h _ (List.mem_append_right _ (List.mem_singleton_self _))
  rw [Bool.and_eq_true, decide_eq_true_eq, decide_eq_true_eq] at hnew
  dsimp only at hnew
  omega

/-- **One turn**: nothing is pending to the left of where the search goes on. -/
theorem candidateTurn_settles (hsettles : Settles t list text) (hpos : 0 < candidate.aliasText.length) :
    TurnKeeps (candidateTurn t candidate)
      (fun state => SettledUpTo t list text done (candidate :: rest) state.1 ∧
        ∀ q, Pending t state.1.text candidate q → state.2 ≤ q)
      (SettledUpTo t list text (done ++ [candidate]) rest) := by
  rintro ⟨result, start⟩ ⟨h, hahead⟩
  obtain ⟨hhides, hundisturbed⟩ := hsettles done rest candidate result h.reaches
  -- behind the last match the candidate is dealt with
  have hdone : (∀ r, start ≤ r → r < result.text.length →
      ¬ matchesAt t result.text candidate.aliasText candidate.caseSensitive r = true) →
      SettledUpTo t list text (done ++ [candidate]) rest result := by
    intro hnone
    have hsettled : ∀ q, ¬ Pending t result.text candidate q := by
      intro q hq
      have hinside := Occurs.inside hq.1.1 hpos
      exact hnone q (hahead q hq) (by omega) hq.1.1
    refine ⟨.next h.reaches hsettled, ?_, fun other hother => h.free other (List.mem_cons_of_mem _ hother)⟩
    intro earlier hearlier q
    rcases List.mem_append.mp hearlier with hold | hnew
    · exact h.settled earlier hold q
    · rw [List.mem_singleton.mp hnew]
      exact hsettled q
  by_cases hleft : start < result.text.length
  · cases hindex : indexOf t result.text candidate.aliasText start candidate.caseSensitive with
    | none =>
      simp only [candidateTurn, if_pos hleft, hindex]
      exact hdone (indexOf_eq_none hindex)
    | some position =>
      obtain ⟨hle, hmatch, hfirst⟩ := indexOf_eq_some hindex
      have hbefore : ∀ q, Pending t result.text candidate q → position ≤ q := by
        intro q hq
        by_contra hlt
        exact hfirst q (hahead q hq) (Nat.not_le.mp hlt) hq.1.1
      by_cases hskip : (!boundariesAllow t result.text position candidate.aliasText.length candidate.aliasText ||
          overlaps result candidate position) = true
      · simp only [candidateTurn, if_pos hleft, hindex, if_pos hskip]
        -- a rejected occurrence is not pending, so it hides none that is
        have hnot : ¬ Pending t result.text candidate position := by
          intro hpending
          rw [hpending.1.2, h.free candidate (List.mem_cons_self ..) position hpending] at hskip
          cases hskip
        refine ⟨h, fun q hq => ?_⟩
        show position + candidate.aliasText.length ≤ q
        by_contra hlt
        have hge := hbefore q hq
        rcases Nat.lt_or_eq_of_le hge with hmore | rfl
        · exact hnot (hhides position q hmatch hmore (Nat.not_le.mp hlt) hq)
        · exact hnot hq
      · simp only [candidateTurn, if_pos hleft, hindex, if_neg hskip]
        rw [Bool.not_eq_true, Bool.or_eq_false_iff, Bool.not_eq_false'] at hskip
        obtain ⟨hallow, hfree⟩ := hskip
        have hallowed : Allowed t result candidate position :=
          ⟨⟨hmatch, hallow⟩, hfree, fun q hlt hq => absurd (hbefore q hq) (Nat.not_le.mpr hlt)⟩
        have hstep := hundisturbed position hallowed
        refine ⟨⟨.replace h.reaches hallowed, hstep.settled, hstep.free⟩, fun q hq => ?_⟩
        show position + candidate.canonical.length ≤ q
        rcases overlaps_replaceMatch (hstep.free candidate (List.mem_cons_self ..) q hq) with hleft | hright
        · exact absurd hq (hstep.before q (by omega))
        · exact hright
  · simp only [candidateTurn, if_neg hleft]
    exact hdone fun r hr hlt => by omega

theorem applyCandidate_run (t : CharTables) (result : GlossaryPostProcessResult)
    (hpos : 0 < candidate.aliasText.length) :
    run (candidateTurn t candidate) (result.text.length + 1) (result, 0) =
      some (applyCandidate t result candidate) :=
  (applyCandidate_induct (I := fun _ => True) hpos (fun _ _ _ => trivial) trivial).1

/-- **The whole run** leaves nothing pending.  By induction on the candidates that are left. -/
theorem foldl_settled (hsettles : Settles t list text) (hpos : ∀ candidate ∈ rest, 0 < candidate.aliasText.length) :
    ∀ {done : List Candidate} {result : GlossaryPostProcessResult}, SettledUpTo t list text done rest result →
      SettledUpTo t list text (done ++ rest) [] (rest.foldl (applyCandidate t) result) := by
  induction rest with
  | nil =>
    intro done result h
    rw [List.append_nil]
    exact h
  | cons candidate rest ih =>
    intro done result h
    obtain ⟨hcandidate, hrest⟩ := List.forall_mem_cons.mp hpos
    have hnext : SettledUpTo t list text (done ++ [candidate]) rest (applyCandidate t result candidate) :=
      run_kept (candidateTurn_settles hsettles hcandidate) ⟨h, fun q _ => Nat.zero_le q⟩
        (applyCandidate_run t result hcandidate)
    have hall := ih hrest hnext
    rw [List.append_assoc] at hall
    exact hall

/-! ## The second run -/

/-- Replacing what already reads as the canonical text changes nothing. -/
theorem replaceRange_eq_self {p : Nat} (h : (text.drop p).take candidate.aliasText.length = candidate.canonical) :
    replaceRange text p candidate.aliasText.length candidate.canonical = text := by
  unfold replaceRange
  rw [← h, List.append_assoc, ← List.drop_drop, List.take_append_drop, List.take_append_drop]

theorem candidateTurn_of_settled (hnone : ∀ q, ¬ Pending t text candidate q) :
    TurnKeeps (candidateTurn t candidate) (fun state => state.1.text = text) (fun result => result.text = text) := by
  rintro ⟨result, start⟩ h
  replace h : result.text = text := h
  by_cases hleft : start < result.text.length
  · cases hindex : indexOf t result.text candidate.aliasText start candidate.caseSensitive with
    | none =>
      simp only [candidateTurn, if_pos hleft, hindex]
      exact h
    | some position =>
      obtain ⟨-, hmatch, -⟩ := indexOf_eq_some hindex
      by_cases hskip : (!boundariesAllow t result.text position candidate.aliasText.length candidate.aliasText ||
          overlaps result candidate position) = true
      · simp only [candidateTurn, if_pos hleft, hindex, if_pos hskip]
        exact h
      · simp only [candidateTurn, if_pos hleft, hindex, if_neg hskip]
        rw [Bool.not_eq_true, Bool.or_eq_false_iff, Bool.not_eq_false'] at hskip
        -- what is replaced once more is not pending, so it reads as the canonical text
        have hsame : (text.drop position).take candidate.aliasText.length = candidate.canonical := by
          by_contra hne
          rw [h] at hmatch hskip
          exact hnone position ⟨⟨hmatch, hskip.1⟩, hne⟩
        show replaceRange result.text position candidate.aliasText.length candidate.canonical = text
        rw [h]
        exact replaceRange_eq_self hsame
  · simp only [candidateTurn, if_neg hleft]
    exact h

theorem foldl_of_settled (hpos : ∀ candidate ∈ list, 0 < candidate.aliasText.length)
    (hnone : ∀ candidate ∈ list, ∀ q, ¬ Pending t text candidate q) :
    ∀ {result : GlossaryPostProcessResult}, result.text = text →
      (list.foldl (applyCandidate t) result).text = text := by
  induction list with
  | nil => exact fun h => h
  | cons candidate rest ih =>
    intro result h
    obtain ⟨hcandidate, hrest⟩ := List.forall_mem_cons.mp hpos
    obtain ⟨hfirst, hothers⟩ := List.forall_mem_cons.mp hnone
    apply ih hrest hothers
    exact run_kept (candidateTurn_of_settled hfirst) h (applyCandidate_run t result hcandidate)

/-- A text with nothing pending is left as it is. -/
theorem applyExplicitAliases_of_settled (terms : List GlossaryTerm)
    (hnone : ∀ candidate ∈ sortedCandidates terms, ∀ q, ¬ Pending t text candidate q) :
    (applyExplicitAliases t text terms).text = text :=
  foldl_of_settled (fun _ hcandidate => (mem_sortedCandidates hcandidate).1) hnone rfl

/-! ## Canonical texts in the text -/

/-- A match that lies inside a canonical text lies at the same place in the canonical text that is inserted. -/
theorem exists_inside {u : QString} {p s : Nat} (hp : p + candidate.aliasText.length ≤ u.length)
    (hcanonical : (u.drop s).take candidate.canonical.length = candidate.canonical) (hleft : s ≤ p)
    (hright : p + candidate.aliasText.length ≤ s + candidate.canonical.length) :
    ∃ before slice after, u.take p = u.take s ++ before ∧ candidate.canonical = before ++ (slice ++ after) ∧
      slice = (u.drop p).take candidate.aliasText.length ∧ slice.length = candidate.aliasText.length ∧
      u.drop (p + candidate.aliasText.length) = after ++ u.drop (s + candidate.canonical.length) := by
  obtain ⟨before, slice, hbefore, hslice, hdrop, htake, -⟩ := exists_window hleft hp
  have hmatched : slice = (u.drop p).take candidate.aliasText.length := by
    have hsplit : u.drop p = slice ++ u.drop (p + candidate.aliasText.length) := by
      -- the window is cut from the drop at `s`
      have hgap : u.drop p = (u.drop s).drop (p - s) := by
        rw [List.drop_drop, Nat.add_sub_cancel' hleft]
      rw [hgap, hdrop, ← hbefore, List.drop_left]
    rw [hsplit, ← hslice, List.take_left]
  generalize hlast : candidate.canonical.length - (p - s) - candidate.aliasText.length = n at *
  refine ⟨before, slice, (u.drop (p + candidate.aliasText.length)).take n, htake, ?_, hmatched, hslice, ?_⟩
  · rw [hdrop] at hcanonical
    have hlength : candidate.canonical.length = before.length + (slice.length + n) := by omega
    rw [hlength, List.take_length_add_append, List.take_length_add_append] at hcanonical
    exact hcanonical.symm
  · have hend : s + candidate.canonical.length = p + candidate.aliasText.length + n := by omega
    have hrest := List.take_append_drop n (u.drop (p + candidate.aliasText.length))
    rw [List.drop_drop, ← hend] at hrest
    exact hrest.symm

/-- **An occurrence inside the canonical text** is pending again when it has been replaced. -/
theorem pending_inside {u : QString} {p s : Nat} (hpos : 0 < candidate.aliasText.length) (h : Pending t u candidate p)
    (hcanonical : (u.drop s).take candidate.canonical.length = candidate.canonical) (hleft : s ≤ p)
    (hright : p + candidate.aliasText.length ≤ s + candidate.canonical.length) :
    Pending t (replaceRange u p candidate.aliasText.length candidate.canonical) candidate (p + (p - s)) := by
  obtain ⟨⟨hoccurs, hallow⟩, hne⟩ := h
  have hinside := Occurs.inside hoccurs hpos
  obtain ⟨before, slice, after, htake, hsplit, hmatched, hlength, hdrop⟩ :=
    exists_inside hinside hcanonical hleft hright
  obtain ⟨hfreeLeft, hfreeRight⟩ := (acceptable_iff hinside).mp hallow
  -- the occurrence has moved on by what stands before it in the canonical text
  have hposition : (u.take p ++ before).length = p + (p - s) := by
    have hboth := congrArg List.length htake
    simp only [List.length_append, List.length_take] at hboth ⊢
    omega
  have hreplaced : replaceRange u p candidate.aliasText.length candidate.canonical =
      (u.take p ++ before) ++ (slice ++ (after ++ u.drop (p + candidate.aliasText.length))) := by
    unfold replaceRange
    rw [hsplit]
    simp only [List.append_assoc]
  have hslice : ((replaceRange u p candidate.aliasText.length candidate.canonical).drop (p + (p - s))).take
      candidate.aliasText.length = (u.drop p).take candidate.aliasText.length := by
    rw [hreplaced, ← hposition, List.drop_left, ← hlength, List.take_left, hmatched]
    simp
  refine ⟨⟨?_, ?_⟩, ?_⟩
  · unfold Occurs matchesAt at hoccurs ⊢
    rw [hslice]
    exact hoccurs
  · have hrule := boundariesAllow_iff (t := t) (u.take p ++ before) slice
      (after ++ u.drop (p + candidate.aliasText.length)) candidate.aliasText
    rw [← hreplaced, hposition, hlength] at hrule
    refine hrule.mpr fun hlatin => ⟨?_, ?_⟩
    · -- the neighbour on the left is the one it was, or the one of the whole canonical text
      have hends := hfreeLeft hlatin
      by_cases hnil : before = []
      · rw [hnil, List.append_nil]
        exact hends
      · rw [htake, endsFree_append hnil] at hends
        rw [endsFree_append hnil]
        exact hends
    · have hstarts := hfreeRight hlatin
      cases after with
      | nil => exact hstarts
      | cons c rest =>
        rw [hdrop] at hstarts
        exact hstarts
  · rw [hslice]
    exact hne

/-- **A canonical text is not expanded**: where nothing is disturbed, no pending occurrence lies inside one. -/
theorem not_pending_inside (hsettles : Settles t list text) (hpos : 0 < candidate.aliasText.length) {p s : Nat}
    (hreaches : Reaches t list text done (candidate :: rest) result) (hallowed : Allowed t result candidate p)
    (hpending : Pending t result.text candidate p)
    (hcanonical : (result.text.drop s).take candidate.canonical.length = candidate.canonical) :
    ¬ (s ≤ p ∧ p + candidate.aliasText.length ≤ s + candidate.canonical.length) := by
  rintro ⟨hleft, hright⟩
  have hstep := ((hsettles done rest candidate result hreaches).2 p hallowed).free candidate
    (List.mem_cons_self ..) _ (pending_inside hpos hpending hcanonical hleft hright)
  rcases overlaps_replaceMatch hstep with hbefore | hbehind
  · omega
  · omega


/-! ## A term that settles -/

def sampleCandidate : Candidate := ⟨[], qs "qt", qs "Qt", false, 0⟩

/-- What the only replacement makes. -/
def sampleResult : GlossaryPostProcessResult := replaceMatch ⟨qs "use qt now", []⟩ sampleCandidate 4

theorem sample_occurs {u : QString} (hu : u.length = 10)
    (hmatch : ∀ p < 9, p ≠ 4 → ¬ matchesAt asciiTables u (qs "qt") false p = true) {p : Nat}
    (h : Occurs asciiTables u sampleCandidate p) : p = 4 := by
  have hinside : p + 2 ≤ 10 := by
    have hbound := Occurs.inside h (by decide)
    rw [hu] at hbound
    exact hbound
  by_contra hne
  exact hmatch p (by omega) hne h

theorem sample_reaches {done rest : List Candidate} {result : GlossaryPostProcessResult}
    (h : Reaches asciiTables [sampleCandidate] (qs "use qt now") done rest result) :
    rest = [] ∨ (done = [] ∧ rest = [sampleCandidate] ∧ (result = ⟨qs "use qt now", []⟩ ∨ result = sampleResult)) := by
  induction h with
  | start => exact Or.inr ⟨rfl, rfl, Or.inl rfl⟩
  | next _ _ ih =>
    rcases ih with hnil | ⟨-, hone, -⟩
    · cases hnil
    · exact Or.inl (List.cons.inj hone).2
  | @replace _ _ candidate result p _ hallowed ih =>
    rcases ih with hnil | ⟨hdone, hone, hresult⟩
    · cases hnil
    · obtain ⟨rfl, rfl⟩ := List.cons.inj hone
      refine Or.inr ⟨hdone, rfl, ?_⟩
      rcases hresult with rfl | rfl
      · obtain rfl := sample_occurs (by decide) (by decide) hallowed.acceptable.1
        exact Or.inr rfl
      · obtain rfl := sample_occurs (by decide) (by decide) hallowed.acceptable.1
        exact absurd hallowed.free (by decide)

theorem sample_settles : Settles asciiTables [sampleCandidate] (qs "use qt now") := by
  intro done rest candidate result hreaches
  rcases sample_reaches hreaches with hnil | ⟨rfl, hone, hresult⟩
  · cases hnil
  · obtain ⟨rfl, rfl⟩ := List.cons.inj hone
    have honly : ∀ p, Occurs asciiTables result.text sampleCandidate p → p = 4 := by
      rcases hresult with rfl | rfl
      · exact fun p hp => sample_occurs (by decide) (by decide) hp
      · exact fun p hp => sample_occurs (by decide) (by decide) hp
    have hnone : ∀ q, ¬ Pending asciiTables sampleResult.text sampleCandidate q := by
      intro q hq
      obtain rfl := sample_occurs (by decide) (by decide) hq.1.1
      revert hq
      decide
    constructor
    · intro p q hp hlt _ hq
      have hpfour := honly p hp
      have hqfour := honly q hq.1.1
      omega
    · intro p hallowed
      obtain rfl := honly p hallowed.acceptable.1
      rcases hresult with rfl | rfl
      · constructor
        · intro earlier hearlier
          cases hearlier
        · intro other hother q hq
          rw [List.mem_singleton.mp hother] at hq
          exact absurd hq (hnone q)
        · exact fun q _ hq => absurd hq (hnone q)
      · exact absurd hallowed.free (by decide)

/-! ## Two runs -/

/-- Terms that do not get into each other's way: no alias in the canonical text of another term, and no canonical
    text in another one. -/
structure SeparateTerms (t : CharTables) (terms : List GlossaryTerm) : Prop where
  enabled : ∀ term ∈ terms, term.enabled = true
  canonical_ne : ∀ term ∈ terms, term.canonicalText ≠ []
  aliases : terms.Pairwise fun left right =>
    (∀ aliasText ∈ left.aliases, ∀ p, ¬ matchesAt t right.canonicalText aliasText false p = true) ∧
      ∀ aliasText ∈ right.aliases, ∀ p, ¬ matchesAt t left.canonicalText aliasText false p = true
  canonicals : terms.Pairwise fun left right =>
    ¬ left.canonicalText <:+: right.canonicalText ∧ ¬ right.canonicalText <:+: left.canonicalText

end BreezeDesk
