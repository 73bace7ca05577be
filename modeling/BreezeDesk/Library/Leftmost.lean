/-
  Occurrences of a width, searched from left to right.

  `Visited` are the occurrences that such a search comes to when it goes on behind each of them: the first
  occurrence, and then always the first that begins no earlier than the last one ends.  They do not overlap
  (`Visited.apart`), and every occurrence overlaps one of them (`exists_visited`).

  A search that replaces takes a visited occurrence if both its ends are free (`TakenBy`).  Whether the right
  end is free is a matter of the text; on the left the occurrence may stand directly behind one that has just
  been replaced, and then it is the replacement that decides.  So where replacements are free to the right,
  what is taken are the rows of adjacent occurrences (`InRow`); where they are not, one of two neighbours is
  always left out.  `missesNothing_iff` says when every occurrence with free ends overlaps one that is taken.

  Nothing here mentions a particular program.
-/
import Mathlib.Data.Nat.Find
import Mathlib.Order.Basic
import Mathlib.Tactic.Common

namespace BreezeDesk.Leftmost

variable {occurs : Nat → Prop} {width : Nat}

/-- The occurrences that the search comes to. -/
inductive Visited (occurs : Nat → Prop) (width : Nat) : Nat → Prop where
  | first {p : Nat} : occurs p → (∀ q, q < p → ¬ occurs q) → Visited occurs width p
  | next {p q : Nat} : Visited occurs width p → p + width ≤ q → occurs q →
      (∀ r, p + width ≤ r → r < q → ¬ occurs r) → Visited occurs width q

def Overlap (width p q : Nat) : Prop := p < q + width ∧ q < p + width

namespace Visited

theorem found {p : Nat} (h : Visited occurs width p) : occurs p := by
  cases h with
  | first hp _ => exact hp
  | next _ _ hp _ => exact hp

/-- Visited occurrences stand one behind the other. -/
theorem apart (hwidth : 0 < width) : ∀ (q : Nat) {p : Nat}, Visited occurs width q → Visited occurs width p →
    p < q → p + width ≤ q := by
  intro q
  -- by strong induction on the occurrence to the right
  induction q using Nat.strongRecOn with
  | _ q ih =>
    intro p hq hp hlt
    cases hq with
    | first _ hnone => exact absurd hp.found (hnone p hlt)
    | @next before _ hbefore hle _ hnone =>
      rcases Nat.lt_trichotomy p before with hleft | heq | hright
      · have happart := ih before (by omega) hbefore hp hleft
        omega
      · omega
      · have happart := ih p hlt hp hbefore hright
        exact absurd hp.found (hnone p happart hlt)

theorem eq_of_overlap (hwidth : 0 < width) {p q : Nat} (hp : Visited occurs width p) (hq : Visited occurs width q)
    (h : Overlap width p q) : p = q := by
  obtain ⟨hleft, hright⟩ := h
  rcases Nat.lt_trichotomy p q with hlt | heq | hgt
  · have happart := apart hwidth q hq hp hlt
    omega
  · exact heq
  · have happart := apart hwidth p hp hq hgt
    omega

end Visited

/-- Behind a point that no visited occurrence reaches over, the next occurrence is visited. -/
theorem visited_of_least {i q : Nat} (hpoint : i = 0 ∨ ∃ p, Visited occurs width p ∧ i = p + width) (hle : i ≤ q)
    (hq : occurs q) (hnone : ∀ r, i ≤ r → r < q → ¬ occurs r) : Visited occurs width q := by
  rcases hpoint with rfl | ⟨p, hp, rfl⟩
  · exact .first hq fun r hr => hnone r (Nat.zero_le r) hr
  · exact .next hp hle hq hnone

/-- **Every occurrence** overlaps a visited one. -/
theorem exists_visited [DecidablePred occurs] (hwidth : 0 < width) {q : Nat} (hq : occurs q) :
    ∃ p, Visited occurs width p ∧ Overlap width p q := by
  -- from the last point behind which the search begins again
  have hsearch : ∀ (n i : Nat), q - i ≤ n → (i = 0 ∨ ∃ p, Visited occurs width p ∧ i = p + width) → i ≤ q →
      ∃ p, Visited occurs width p ∧ Overlap width p q := by
    intro n
    induction n with
    | zero =>
      intro i hn hpoint hle
      obtain rfl : i = q := by omega
      refine ⟨i, visited_of_least hpoint hle hq (fun r hr hlt => by omega), ?_⟩
      constructor <;> omega
    | succ n ih =>
      intro i hn hpoint hle
      have hexists : ∃ r, i ≤ r ∧ occurs r := ⟨q, hle, hq⟩
      obtain ⟨hleast, hoccurs⟩ := Nat.find_spec hexists
      have hbound : Nat.find hexists ≤ q := Nat.find_min' hexists ⟨hle, hq⟩
      have hvisited : Visited occurs width (Nat.find hexists) := by
        apply visited_of_least hpoint hleast hoccurs
        intro r hr hlt hoccur
        exact Nat.find_min hexists hlt ⟨hr, hoccur⟩
      by_cases hcover : q < Nat.find hexists + width
      · refine ⟨_, hvisited, ?_, hcover⟩
        omega
      · apply ih (Nat.find hexists + width) _ (Or.inr ⟨_, hvisited, rfl⟩) (by omega)
        omega
  exact hsearch q 0 (Nat.sub_le q 0) (Or.inl rfl) (Nat.zero_le q)

/-! ## What is taken -/

variable {freeLeft freeRight taken : Nat → Prop} {freeBehind : Prop}

/-- The one before has been taken, and ends here. -/
def Behind (taken : Nat → Prop) (width p : Nat) : Prop := ∃ before, taken before ∧ before + width = p

/-- What a search that replaces takes; `freeBehind` says that a replacement leaves what stands behind it free. -/
structure TakenBy (occurs : Nat → Prop) (width : Nat) (freeLeft freeRight : Nat → Prop) (freeBehind : Prop)
    (taken : Nat → Prop) : Prop where
  visited : ∀ p, taken p → Visited occurs width p
  taken_iff : ∀ p, Visited occurs width p →
    (taken p ↔ freeRight p ∧ (Behind taken width p → freeBehind) ∧ (¬ Behind taken width p → freeLeft p))

/-- Rows of adjacent visited occurrences, all free to the right and the first one free to the left. -/
inductive InRow (occurs : Nat → Prop) (width : Nat) (freeLeft freeRight : Nat → Prop) : Nat → Prop where
  | first {p : Nat} : Visited occurs width p → freeLeft p → freeRight p → InRow occurs width freeLeft freeRight p
  | next {p : Nat} : InRow occurs width freeLeft freeRight p → Visited occurs width (p + width) →
      freeRight (p + width) → InRow occurs width freeLeft freeRight (p + width)

/-- Every occurrence with free ends overlaps one with the property. -/
def Covered (occurs : Nat → Prop) (width : Nat) (freeLeft freeRight : Nat → Prop) (property : Nat → Prop) : Prop :=
  ∀ q, occurs q → freeLeft q → freeRight q → ∃ p, property p ∧ Overlap width p q

/-- Behind free replacements, what is taken are the rows. -/
theorem taken_iff_inRow (hwidth : 0 < width) (hfree : freeBehind)
    (h : TakenBy occurs width freeLeft freeRight freeBehind taken) (p : Nat) :
    taken p ↔ InRow occurs width freeLeft freeRight p := by
  constructor
  · induction p using Nat.strongRecOn with
    | _ p ih =>
      intro htaken
      have hvisited := h.visited p htaken
      obtain ⟨hright, -, hleft⟩ := (h.taken_iff p hvisited).mp htaken
      by_cases hbehind : Behind taken width p
      · obtain ⟨before, hbefore, rfl⟩ := hbehind
        exact .next (ih before (by omega) hbefore) hvisited hright
      · exact .first hvisited (hleft hbehind) hright
  · intro hrow
    induction hrow with
    | first hvisited hleft hright => exact (h.taken_iff _ hvisited).mpr ⟨hright, fun _ => hfree, fun _ => hleft⟩
    | next _ hvisited hright ih =>
      refine (h.taken_iff _ hvisited).mpr ⟨hright, fun _ => hfree, fun hnot => ?_⟩
      exact absurd ⟨_, ih, rfl⟩ hnot

/-- Behind replacements that are not free, nothing is taken that is not free by itself. -/
theorem free_of_taken (hbound : ¬ freeBehind) (h : TakenBy occurs width freeLeft freeRight freeBehind taken) {p : Nat}
    (htaken : taken p) : Visited occurs width p ∧ freeLeft p ∧ freeRight p := by
  have hvisited := h.visited p htaken
  obtain ⟨hright, hbehind, hleft⟩ := (h.taken_iff p hvisited).mp htaken
  exact ⟨hvisited, hleft fun hadjacent => hbound (hbehind hadjacent), hright⟩

/-- What decides whether the search misses something. -/
def NothingHidden (occurs : Nat → Prop) (width : Nat) (freeLeft freeRight : Nat → Prop) (freeBehind : Prop) : Prop :=
  (freeBehind → Covered occurs width freeLeft freeRight (InRow occurs width freeLeft freeRight)) ∧
    (¬ freeBehind →
      Covered occurs width freeLeft freeRight (fun p => Visited occurs width p ∧ freeLeft p ∧ freeRight p) ∧
        ∀ p, Visited occurs width p → Visited occurs width (p + width) → freeLeft p → freeRight p →
          freeLeft (p + width) → freeRight (p + width) → False)

/-- **Nothing is missed** exactly if nothing is hidden. -/
theorem missesNothing_iff (hwidth : 0 < width) (h : TakenBy occurs width freeLeft freeRight freeBehind taken) :
    Covered occurs width freeLeft freeRight taken ↔ NothingHidden occurs width freeLeft freeRight freeBehind := by
  by_cases hfree : freeBehind
  · -- with free replacements the rows are what is taken
    have hsame : taken = InRow occurs width freeLeft freeRight := funext fun p => propext (taken_iff_inRow hwidth hfree h p)
    rw [hsame]
    exact ⟨fun hcovered => ⟨fun _ => hcovered, fun hnot => absurd hfree hnot⟩, fun hhidden => hhidden.1 hfree⟩
  · constructor
    · intro hcovered
      refine ⟨fun hyes => absurd hyes hfree, fun _ => ⟨?_, ?_⟩⟩
      · intro q hq hleft hright
        obtain ⟨p, htaken, hoverlap⟩ := hcovered q hq hleft hright
        exact ⟨p, free_of_taken hfree h htaken, hoverlap⟩
      · -- of two neighbours with free ends the second would be taken behind the first
        intro p hfirst hsecond hleft hright hleft' hright'
        have htaken : ∀ r, Visited occurs width r → freeLeft r → freeRight r → taken r := by
          intro r hr hrleft hrright
          obtain ⟨other, hother, hoverlap⟩ := hcovered r hr.found hrleft hrright
          rwa [← Visited.eq_of_overlap hwidth (h.visited other hother) hr hoverlap]
        obtain ⟨-, hbehind, -⟩ := (h.taken_iff _ hsecond).mp (htaken _ hsecond hleft' hright')
        exact hfree (hbehind ⟨p, htaken p hfirst hleft hright, rfl⟩)
    · intro hhidden q hq hleft hright
      obtain ⟨hcovered, hneighbours⟩ := hhidden.2 hfree
      obtain ⟨p, ⟨hvisited, hpleft, hpright⟩, hoverlap⟩ := hcovered q hq hleft hright
      refine ⟨p, (h.taken_iff p hvisited).mpr ⟨hpright, ?_, fun _ => hpleft⟩, hoverlap⟩
      -- a taken neighbour before it is one that the second condition excludes
      rintro ⟨before, hbefore, rfl⟩
      obtain ⟨hfirst, hfleft, hfright⟩ := free_of_taken hfree h hbefore
      exact absurd (hneighbours before hfirst hvisited hfleft hfright hpleft hpright) id

/-- Where all ends are free, nothing is hidden. -/
theorem nothingHidden_of_free [DecidablePred occurs] (hwidth : 0 < width) (hfree : freeBehind)
    (hleft : ∀ p, freeLeft p) (hright : ∀ p, freeRight p) :
    NothingHidden occurs width freeLeft freeRight freeBehind := by
  refine ⟨fun _ q hq _ _ => ?_, fun hnot => absurd hfree hnot⟩
  obtain ⟨p, hvisited, hoverlap⟩ := exists_visited hwidth hq
  exact ⟨p, .first hvisited (hleft p) (hright p), hoverlap⟩

end BreezeDesk.Leftmost
