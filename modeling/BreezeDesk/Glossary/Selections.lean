/-
  Switching single replacements of an audit off and on.

  An entry of the audit carries a flag, and `renderAudit` replays the entries whose flags are set.  The
  positions in the audit are those in the text with every entry applied; `renderAudit` goes back to the
  positions in the original text and does not look at the flags for that, so every choice of flags renders
  (`renderAudit_selection`).

  `revert` goes the other way.  It looks for each entry at its recorded position, which is right only while
  the entries before it that are switched off have not changed the length of the text (`InPlace`).
-/
import BreezeDesk.Glossary.PostProcessor

namespace BreezeDesk

open Patch

variable {t : CharTables}

/-! ## Flags -/

/-- The entries with the given flags, by their number from `i` on. -/
def withFlags (flags : Nat → Bool) (i : Nat) (replacements : List GlossaryReplacement) : List GlossaryReplacement :=
  (replacements.zipIdx i).map fun (replacement, index) => { replacement with applied := flags index }

/-- The text of the patched pieces for a choice of flags: the stretches that are switched on read as their
    canonical texts, the others as they were. -/
abbrev selection (flags : Nat → Bool) (P : Pieces) : QString :=
  chosen Edit.originalText Edit.canonicalText flags 0 P

theorem withFlags_cons (flags : Nat → Bool) (i : Nat) (replacement : GlossaryReplacement)
    (rest : List GlossaryReplacement) :
    withFlags flags i (replacement :: rest) =
      { replacement with applied := flags i } :: withFlags flags (i + 1) rest := rfl

/-- What does not look at the flags holds whatever they are. -/
theorem pairwise_withFlags {R : GlossaryReplacement → GlossaryReplacement → Prop}
    (hR : ∀ a b x y, R a b → R { a with applied := x } { b with applied := y }) (flags : Nat → Bool) (i : Nat)
    {replacements : List GlossaryReplacement} (h : replacements.Pairwise R) :
    (withFlags flags i replacements).Pairwise R := by
  have hfirst : ((replacements.zipIdx i).map Prod.fst).Pairwise R := by
    rw [List.zipIdx_map_fst]
    exact h
  exact List.pairwise_map.mpr ((List.pairwise_map.mp hfirst).imp fun hab => hR _ _ _ _ hab)

theorem increasing_withFlags (flags : Nat → Bool) {replacements : List GlossaryReplacement} {i : Nat}
    (h : replacements.Pairwise fun left right => left.start < right.start) :
    (withFlags flags i replacements).Pairwise fun left right => left.start < right.start :=
  pairwise_withFlags (fun _ _ _ _ hab => hab) flags i h

/-- Flags are not looked at while positions are computed. -/
theorem positionAudit_withFlags (flags : Nat → Bool) (text : QString) (replacements : List GlossaryReplacement) :
    ∀ (i : Nat) (delta previous : Int),
      positionAudit t text (withFlags flags i replacements) delta previous =
        (positionAudit t text replacements delta previous).map fun positioned =>
          (positioned.zipIdx i).map fun (entry, index) => (entry.1, { entry.2 with applied := flags index }) := by
  induction replacements with
  | nil => exact fun _ _ _ => rfl
  | cons replacement rest ih =>
    intro i delta previous
    rw [withFlags_cons, positionAudit, positionAudit]
    split
    · rfl
    · dsimp only
      split
      · rfl
      · split
        · rfl
        · rw [ih, Option.map_map, Option.map_map]
          rfl

theorem foldr_selected (flags : Nat → Bool) (P : Pieces) :
    ∀ (i k n : Nat) (text : QString),
      (((((marks Edit.originalText k P).zip (marks Edit.canonicalText n P)).map
        fun pair => ((pair.1.1 : Int), placed pair.2)).zipIdx i).map
          fun (entry, index) => (entry.1, { entry.2 with applied := flags index })).foldr renderEntry text =
      ((marks Edit.originalText k P).zipIdx i).foldr (replaceChosen Edit.originalText Edit.canonicalText flags)
        text := by
  induction P with
  | nil => exact fun _ _ _ _ => rfl
  | cons p P ih =>
    intro i k n text
    cases p with
    | inl c => exact ih i (k + 1) (n + 1) text
    | inr e =>
      simp only [marks, List.zip_cons_cons, List.map_cons, List.zipIdx_cons, List.foldr_cons, ih]
      rfl

/-- **Every choice of flags renders.** -/
theorem renderAudit_selection {text : QString} {result : GlossaryPostProcessResult} {P : Pieces}
    (hP : PatchOf text result P) (flags : Nat → Bool) :
    renderAudit t text (withFlags flags 0 ((marks Edit.canonicalText 0 P).map placed)) =
      some (selection flags P) := by
  have hsorted : sortedByStart (withFlags flags 0 ((marks Edit.canonicalText 0 P).map placed)) =
      withFlags flags 0 ((marks Edit.canonicalText 0 P).map placed) := by
    exact List.Pairwise.insertionSort_eq ((increasing_withFlags flags (placed_increasing hP.canonical_ne)).imp le_of_lt)
  unfold renderAudit
  have hpositions := positionAudit_marks (t := t) hP.original_ne [] 0 0 (Int.le_refl 0)
  have hzero : ((0 : Nat) : Int) - ([] : QString).length = 0 := rfl
  rw [List.nil_append, hP.source_eq, hzero] at hpositions
  rw [hsorted, positionAudit_withFlags, hpositions, Option.map_some, Option.map_some, foldr_selected]
  have hreplay := apply_chosen Edit.originalText Edit.canonicalText flags P 0 []
  rw [List.nil_append, List.nil_append, hP.source_eq] at hreplay
  exact congrArg some hreplay

/-! ## Reverting -/

/-- One turn of `revert`, with `QString::mid` and `QString::replace` at positions that are not negative. -/
def revertEntry (replacement : GlossaryReplacement) (result : QString) : QString :=
  if replacement.applied = true ∧
      (result.drop replacement.start.toNat).take replacement.length.toNat = replacement.canonicalText then
    replaceRange result replacement.start.toNat replacement.length.toNat replacement.originalText
  else result

def revert (text : QString) (replacements : List GlossaryReplacement) : QString :=
  (replacements.insertionSort fun left right => left.start ≥ right.start).foldl
    (fun result replacement => revertEntry replacement result) text

/-- What an entry adds to the length of the text. -/
def lengthChange (replacement : GlossaryReplacement) : Int :=
  replacement.canonicalText.length - replacement.originalText.length

/-- **Every applied entry stands at its recorded position**: the entries before it that are switched off would
    not have changed the length of the text; `offset` is what those so far would have added. -/
def InPlace : Int → List GlossaryReplacement → Prop
  | _, [] => True
  | offset, replacement :: rest =>
    (replacement.applied = true → offset = 0) ∧
      InPlace (if replacement.applied = true then offset else offset + lengthChange replacement) rest

instance decidableInPlace : ∀ offset replacements, Decidable (InPlace offset replacements)
  | _, [] => inferInstanceAs (Decidable True)
  | offset, replacement :: rest =>
    have := decidableInPlace
      (if replacement.applied = true then offset else offset + lengthChange replacement) rest
    inferInstanceAs (Decidable (_ ∧ _))

/-- Entries in order are reverted from the last one to the first. -/
theorem revert_eq {replacements : List GlossaryReplacement}
    (h : replacements.Pairwise fun left right => left.start < right.start) (text : QString) :
    revert text replacements = replacements.foldr revertEntry text := by
  have hsorted : (replacements.insertionSort fun left right => left.start ≥ right.start) = replacements.reverse := by
    have hperm := List.perm_insertionSort (fun left right : GlossaryReplacement => left.start ≥ right.start)
      replacements
    have hreverse : replacements.reverse.Pairwise fun left right => left.start > right.start :=
      List.pairwise_reverse.mpr h
    refine (hperm.trans (List.reverse_perm replacements).symm).eq_of_pairwise (fun a b ha hb hab hba => ?_)
      (List.pairwise_insertionSort _ _) (hreverse.imp le_of_lt)
    exact eq_of_start h (hperm.mem_iff.mp ha) (List.mem_reverse.mp hb) (Int.le_antisymm hba hab)
  unfold revert
  rw [hsorted, List.foldl_reverse]

/-- Entries in place are reverted one after the other, from the right. -/
theorem foldr_revertEntry (flags : Nat → Bool) (P : Pieces) :
    ∀ (i n : Nat) (offset : Int) (done : QString), (n : Int) = done.length + offset →
      InPlace offset (withFlags flags i ((marks Edit.canonicalText n P).map placed)) →
      (withFlags flags i ((marks Edit.canonicalText n P).map placed)).foldr revertEntry
          (done ++ chosen Edit.originalText Edit.canonicalText flags i P) =
        done ++ expand Edit.originalText P := by
  induction P with
  | nil => intro i n offset done _ _; rfl
  | cons p P ih =>
    intro i n offset done hn hplace
    cases p with
    | inl c =>
      have h := ih i (n + 1) offset (done ++ [c]) (by rw [List.length_append, List.length_singleton]; omega) hplace
      rw [List.append_assoc, List.append_assoc] at h
      exact h
    | inr e =>
      obtain ⟨hfirst, hrest⟩ := hplace
      dsimp only at hfirst hrest
      rw [marks, List.map_cons, withFlags_cons, List.foldr_cons, chosen, expand, ← List.append_assoc]
      cases hflag : flags i with
      | true =>
        have hzero : offset = 0 := hfirst hflag
        rw [if_pos hflag] at hrest
        rw [if_pos rfl, ih (i + 1) (n + e.canonicalText.length) offset (done ++ e.canonicalText)
          (by rw [List.length_append]; push_cast; omega) hrest]
        -- the entry stands behind what is done
        have hstart : n = done.length := by omega
        have hslice : ((done ++ e.canonicalText ++ expand Edit.originalText P).drop n).take e.canonicalText.length =
            e.canonicalText := by
          rw [hstart, List.append_assoc, List.drop_left, List.take_left]
        have hbefore : (done ++ e.canonicalText ++ expand Edit.originalText P).take n = done := by
          rw [hstart, List.append_assoc, List.take_left]
        have hbehind : (done ++ e.canonicalText ++ expand Edit.originalText P).drop (n + e.canonicalText.length) =
            expand Edit.originalText P := by
          rw [hstart, ← List.length_append, List.drop_left]
        unfold revertEntry
        rw [if_pos ⟨rfl, hslice⟩]
        show replaceRange _ n e.canonicalText.length e.originalText = _
        rw [replaceRange, hbefore, hbehind, List.append_assoc]
      | false =>
        rw [if_neg (by rw [hflag]; exact Bool.false_ne_true)] at hrest
        rw [if_neg Bool.false_ne_true, ih (i + 1) (n + e.canonicalText.length) (offset + lengthChange (placed (n, e)))
          (done ++ e.originalText) ?_ hrest]
        · unfold revertEntry
          rw [if_neg fun hboth => Bool.false_ne_true hboth.1, List.append_assoc]
        · unfold lengthChange placed
          rw [List.length_append]
          push_cast
          omega

/-! ## What is lost -/

/-- The text reads as the canonical text at the recorded position of the entry. -/
def Found (text : QString) (replacement : GlossaryReplacement) : Prop :=
  (text.drop replacement.start.toNat).take replacement.length.toNat = replacement.canonicalText

instance (text : QString) (replacement : GlossaryReplacement) : Decidable (Found text replacement) :=
  inferInstanceAs (Decidable (_ = _))

/-- What the applied entries that are not found where they are looked for have added to the text. -/
def lostLength (text : QString) (replacements : List GlossaryReplacement) : Int :=
  (replacements.map fun replacement =>
    if replacement.applied = true ∧ ¬ Found text replacement then lengthChange replacement else 0).sum

/-- Entries one behind the other, each as long as its canonical text. -/
structure Recorded (replacements : List GlossaryReplacement) : Prop where
  apart : replacements.Pairwise fun left right => left.start + left.length ≤ right.start
  sized : ∀ replacement ∈ replacements, 0 ≤ replacement.start ∧
    replacement.length = replacement.canonicalText.length ∧ replacement.canonicalText ≠ []

theorem recorded_cons {replacement : GlossaryReplacement} {rest : List GlossaryReplacement}
    (h : Recorded (replacement :: rest)) :
    (∀ other ∈ rest, replacement.start + replacement.length ≤ other.start) ∧ Recorded rest := by
  obtain ⟨hfirst, hrest⟩ := List.pairwise_cons.mp h.apart
  exact ⟨hfirst, hrest, fun other hother => h.sized other (List.mem_cons_of_mem _ hother)⟩

/-- What is found ends inside the text. -/
theorem Found.inside {text : QString} {replacement : GlossaryReplacement} (h : Found text replacement)
    (hsized : 0 ≤ replacement.start ∧ replacement.length = replacement.canonicalText.length ∧
      replacement.canonicalText ≠ []) :
    replacement.start.toNat + replacement.canonicalText.length ≤ text.length := by
  obtain ⟨-, hlength, hne⟩ := hsized
  have hpos := List.length_pos_of_ne_nil hne
  have htake := congrArg List.length h
  rw [List.length_take, List.length_drop, hlength, Int.toNat_natCast] at htake
  omega

theorem length_revertEntry {replacement : GlossaryReplacement} {text : QString}
    (hsized : 0 ≤ replacement.start ∧ replacement.length = replacement.canonicalText.length ∧
      replacement.canonicalText ≠ []) :
    ((revertEntry replacement text).length : Int) = text.length -
      (if replacement.applied = true ∧ Found text replacement then lengthChange replacement else 0) := by
  by_cases hfound : replacement.applied = true ∧ Found text replacement
  · have hinside := hfound.2.inside hsized
    have hreverted : revertEntry replacement text = replaceRange text replacement.start.toNat
        replacement.length.toNat replacement.originalText := if_pos hfound
    rw [if_pos hfound, hreverted, replaceRange, hsized.2.1, Int.toNat_natCast, List.length_append,
      List.length_append, List.length_take, List.length_drop]
    unfold lengthChange
    push_cast
    omega
  · have hkept : revertEntry replacement text = text := if_neg hfound
    rw [if_neg hfound, hkept]
    omega

/-- Reverting changes nothing before the first entry. -/
theorem take_foldr_revertEntry (text : QString) (n : Nat) : ∀ {replacements : List GlossaryReplacement},
    Recorded replacements → (∀ replacement ∈ replacements, (n : Int) ≤ replacement.start) →
    (replacements.foldr revertEntry text).take n = text.take n := by
  intro replacements
  induction replacements with
  | nil => exact fun _ _ => rfl
  | cons replacement rest ih =>
    intro hrecorded hbehind
    have hfirst := hbehind replacement (List.mem_cons_self ..)
    have hrest := ih (recorded_cons hrecorded).2 fun other hother => hbehind other (List.mem_cons_of_mem _ hother)
    rw [List.foldr_cons, ← hrest, revertEntry]
    split
    · next hfound =>
      have hinside := Found.inside hfound.2 (hrecorded.sized replacement (List.mem_cons_self ..))
      rw [replaceRange, List.append_assoc, List.take_append_of_le_length (by rw [List.length_take]; omega),
        List.take_take, Nat.min_eq_left (by omega)]
    · rfl

/-- An entry is found after the later ones are reverted when it was found before. -/
theorem found_foldr_revertEntry {replacement : GlossaryReplacement} {rest : List GlossaryReplacement}
    (h : Recorded (replacement :: rest)) (text : QString) :
    Found (rest.foldr revertEntry text) replacement ↔ Found text replacement := by
  obtain ⟨hbehind, hrest⟩ := recorded_cons h
  obtain ⟨hstart, hlength, -⟩ := h.sized replacement (List.mem_cons_self ..)
  have hsame := take_foldr_revertEntry text (replacement.start.toNat + replacement.length.toNat) hrest
    fun other hother => by
      have hnext := hbehind other hother
      omega
  unfold Found
  rw [List.take_drop, List.take_drop, hsame]

/-- What reverting takes away. -/
theorem length_foldr_revertEntry (text : QString) : ∀ {replacements : List GlossaryReplacement},
    Recorded replacements →
    ((replacements.foldr revertEntry text).length : Int) = text.length -
      (replacements.map fun replacement =>
        if replacement.applied = true ∧ Found text replacement then lengthChange replacement else 0).sum := by
  intro replacements
  induction replacements with
  | nil =>
    intro _
    exact (Int.sub_zero _).symm
  | cons replacement rest ih =>
    intro h
    rw [List.foldr_cons, length_revertEntry (h.sized replacement (List.mem_cons_self ..)),
      ih (recorded_cons h).2, List.map_cons, List.sum_cons]
    simp only [found_foldr_revertEntry h]
    omega

/-- What rendering has added. -/
theorem length_chosen (flags : Nat → Bool) (P : Pieces) : ∀ i n,
    ((chosen Edit.originalText Edit.canonicalText flags i P).length : Int) =
      (expand Edit.originalText P).length +
        ((withFlags flags i ((marks Edit.canonicalText n P).map placed)).map fun replacement =>
          if replacement.applied = true then lengthChange replacement else 0).sum := by
  induction P with
  | nil => exact fun _ _ => rfl
  | cons p P ih =>
    intro i n
    cases p with
    | inl c =>
      have h := ih i (n + 1)
      rw [chosen, expand, List.length_cons, List.length_cons]
      push_cast
      rw [h]
      show _ = _ + 1 + (List.map _ (withFlags flags i (List.map placed (marks Edit.canonicalText (n + 1) P)))).sum
      omega
    | inr e =>
      have h := ih (i + 1) (n + e.canonicalText.length)
      have hchange : lengthChange { placed (n, e) with applied := flags i } =
          (e.canonicalText.length : Int) - e.originalText.length := rfl
      rw [chosen, expand, List.length_append, List.length_append, marks, List.map_cons, withFlags_cons, List.map_cons,
        List.sum_cons, hchange]
      push_cast
      rw [h]
      cases flags i with
      | true =>
        simp only [if_true]
        omega
      | false =>
        simp only [Bool.false_eq_true, if_false]
        omega

theorem sum_lost (text : QString) (replacements : List GlossaryReplacement) :
    (replacements.map fun replacement =>
        if replacement.applied = true then lengthChange replacement else 0).sum -
      (replacements.map fun replacement =>
        if replacement.applied = true ∧ Found text replacement then lengthChange replacement else 0).sum =
      lostLength text replacements := by
  unfold lostLength
  induction replacements with
  | nil => rfl
  | cons replacement rest ih =>
    simp only [List.map_cons, List.sum_cons]
    by_cases happlied : replacement.applied = true <;> by_cases hfound : Found text replacement <;>
      simp only [happlied, hfound, and_true, and_false, not_true_eq_false, not_false_eq_true, if_true,
        if_false] <;> omega

/-! ## Reverting a selection -/

theorem recorded_placed {P : Pieces} (hne : ∀ e, .inr e ∈ P → e.canonicalText ≠ []) (flags : Nat → Bool) :
    Recorded (withFlags flags 0 ((marks Edit.canonicalText 0 P).map placed)) := by
  constructor
  · refine pairwise_withFlags (fun _ _ _ _ hab => hab) flags 0 (List.pairwise_map.mpr ?_)
    refine (marks_pairwise Edit.canonicalText hne).imp fun {a b} hab => ?_
    show (a.1 : Int) + a.2.canonicalText.length ≤ b.1
    omega
  · intro replacement hmem
    obtain ⟨⟨source, index⟩, hsource, rfl⟩ := List.mem_map.mp hmem
    obtain ⟨mark, hmark, rfl⟩ := List.mem_map.mp (List.fst_mem_of_mem_zipIdx hsource)
    exact ⟨Int.natCast_nonneg _, rfl, hne mark.2 (mem_of_mem_marks hmark)⟩

/-- **Revert undoes a selection** whose applied entries are in place; and when it undoes one, the entries that it
    does not find have not changed the length of the text. -/
theorem revert_renderAudit (text : QString) {terms : List GlossaryTerm}
    (hterms : ∀ term ∈ terms, term.canonicalText ≠ []) (flags : Nat → Bool) :
    let replacements := withFlags flags 0 (applyExplicitAliases t text terms).replacements
    ∃ rendered, renderAudit t text replacements = some rendered ∧
      (InPlace 0 replacements → revert rendered replacements = text) ∧
      (revert rendered replacements = text → lostLength rendered replacements = 0) := by
  obtain ⟨P, hP, haudit⟩ := applyExplicitAliases_patch (t := t) text hterms
  rw [haudit]
  have hrevert := revert_eq (increasing_withFlags flags (i := 0) (placed_increasing hP.canonical_ne))
  refine ⟨selection flags P, renderAudit_selection hP flags, fun hplace => ?_, fun hsame => ?_⟩
  · have hall := foldr_revertEntry flags P 0 0 0 [] (by rfl) hplace
    rw [hrevert]
    exact hall.trans hP.source_eq
  · rw [hrevert] at hsame
    have hlength := length_foldr_revertEntry (selection flags P) (recorded_placed hP.canonical_ne flags)
    rw [hsame, length_chosen flags P 0 0, hP.source_eq] at hlength
    have hlost := sum_lost (selection flags P) (withFlags flags 0 ((marks Edit.canonicalText 0 P).map placed))
    omega

/-- Two terms whose canonical texts are shorter and longer than their aliases. -/
def selectionTerms : List GlossaryTerm :=
  [{ id := qs "1", canonicalText := qs "BreezeDesk", aliases := [qs "Breeze Desk"] },
    { id := qs "2", canonicalText := qs "today", aliases := [qs "now"] }]

/-- With both entries applied, both are in place. -/
theorem revert_renderAudit_applied :
    ∃ rendered, renderAudit asciiTables (qs "Breeze Desk now") (withFlags (fun _ => true) 0
        (applyExplicitAliases asciiTables (qs "Breeze Desk now") selectionTerms).replacements) = some rendered ∧
      revert rendered (withFlags (fun _ => true) 0
        (applyExplicitAliases asciiTables (qs "Breeze Desk now") selectionTerms).replacements) =
          qs "Breeze Desk now" := by
  obtain ⟨rendered, hrendered, hrevert, -⟩ := revert_renderAudit (t := asciiTables) (qs "Breeze Desk now")
    (by decide : ∀ term ∈ selectionTerms, term.canonicalText ≠ []) (fun _ => true)
  exact ⟨rendered, hrendered, hrevert (by decide)⟩

/-- With the first entry switched off, the second one stands one place further right than it says. -/
theorem revert_firstOff :
    renderAudit asciiTables (qs "Breeze Desk now") (withFlags (fun index => index == 1) 0
        (applyExplicitAliases asciiTables (qs "Breeze Desk now") selectionTerms).replacements) =
        some (qs "Breeze Desk today") ∧
      revert (qs "Breeze Desk today") (withFlags (fun index => index == 1) 0
        (applyExplicitAliases asciiTables (qs "Breeze Desk now") selectionTerms).replacements) ≠
          qs "Breeze Desk now" := by
  decide

end BreezeDesk
