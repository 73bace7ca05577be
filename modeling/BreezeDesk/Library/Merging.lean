/-
  Merging ranges that touch.

  A list of ranges sorted by their lower ends is merged from the left: a range that does not begin after the
  one before it ends is joined to it (`mergeTouching`).

  * `mergeTouching_concat` — the same list comes out of a loop that keeps the merged ranges and looks at the
    last of them only;
  * `mergeTouching_separated` — the merged ranges are apart, with something in between.

  Nothing here mentions a particular program.
-/
import Mathlib.Data.List.Basic
import Mathlib.Data.List.Induction
import Mathlib.Data.List.ModifyLast
import Mathlib.Order.Lattice
import Mathlib.Order.Defs.LinearOrder

namespace BreezeDesk.Merging

variable {α κ : Type*} [LinearOrder κ] {lo hi : α → κ} {reach : α → κ → α}

/-- `reach` moves the upper end of a range out, as far as it has to, and nothing else. -/
structure Reaching (lo hi : α → κ) (reach : α → κ → α) : Prop where
  lo_reach : ∀ a k, lo (reach a k) = lo a
  hi_reach : ∀ a k, hi (reach a k) = max (hi a) k

/-- Ranges, each one ending before all later ones begin; a range may be a single point. -/
structure Separated (lo hi : α → κ) (list : List α) : Prop where
  pairwise : list.Pairwise fun a b => hi a < lo b
  proper : ∀ a ∈ list, lo a ≤ hi a

/-- The ranges that begin at `a`: those which touch it are joined to it, one after the other. -/
def mergeFrom (lo hi : α → κ) (reach : α → κ → α) (a : α) : List α → List α
  | [] => [a]
  | b :: rest => if lo b ≤ hi a then mergeFrom lo hi reach (reach a (hi b)) rest
    else a :: mergeFrom lo hi reach b rest

def mergeTouching (lo hi : α → κ) (reach : α → κ → α) : List α → List α
  | [] => []
  | a :: rest => mergeFrom lo hi reach a rest

/-- One more range behind merged ones. -/
def addRange (lo hi : α → κ) (reach : α → κ → α) (merged : List α) (b : α) : List α :=
  match merged.getLast? with
  | none => [b]
  | some last => if lo b ≤ hi last then merged.modifyLast (reach · (hi b)) else merged ++ [b]

theorem addRange_concat (front : List α) (last b : α) :
    addRange lo hi reach (front ++ [last]) b =
      if lo b ≤ hi last then front ++ [reach last (hi b)] else front ++ [last, b] := by
  simp only [addRange, List.getLast?_concat, List.modifyLast_concat, List.append_assoc, List.cons_append,
    List.nil_append]

theorem addRange_cons {list : List α} (h : list ≠ []) (a b : α) :
    addRange lo hi reach (a :: list) b = a :: addRange lo hi reach list b := by
  obtain ⟨front, last, rfl⟩ := (List.eq_nil_or_concat' list).resolve_left h
  rw [addRange_concat, ← List.cons_append, addRange_concat]
  split <;> rfl

theorem mergeFrom_ne_nil (rest : List α) : ∀ a, mergeFrom lo hi reach a rest ≠ [] := by
  induction rest with
  | nil => exact fun a => List.cons_ne_nil a []
  | cons b rest ih =>
    intro a
    rw [mergeFrom]
    split
    · exact ih _
    · exact List.cons_ne_nil _ _

theorem mergeFrom_concat (rest : List α) (r : α) : ∀ a,
    mergeFrom lo hi reach a (rest ++ [r]) = addRange lo hi reach (mergeFrom lo hi reach a rest) r := by
  induction rest with
  | nil => intro a; exact (addRange_concat [] a r).symm
  | cons b rest ih =>
    intro a
    rw [List.cons_append, mergeFrom, mergeFrom]
    split
    · exact ih _
    · rw [ih b, addRange_cons (mergeFrom_ne_nil rest b)]

/-- **The loop and the definition.** -/
theorem mergeTouching_concat (list : List α) (r : α) :
    mergeTouching lo hi reach (list ++ [r]) = addRange lo hi reach (mergeTouching lo hi reach list) r := by
  cases list with
  | nil => rfl
  | cons a rest => exact mergeFrom_concat rest r a

/-- What is merged from `a` begins with `a`, and is apart. -/
theorem mergeFrom_separated (hreach : Reaching lo hi reach) (rest : List α) : ∀ a, lo a ≤ hi a →
    (∀ b ∈ rest, lo b ≤ hi b) → (a :: rest).Pairwise (fun b c => lo b ≤ lo c) →
    Separated lo hi (mergeFrom lo hi reach a rest) ∧ ∀ c ∈ mergeFrom lo hi reach a rest, lo a ≤ lo c := by
  induction rest with
  | nil =>
    intro a ha _ _
    have hmem : ∀ c ∈ [a], c = a := fun c hc => List.mem_singleton.mp hc
    exact ⟨⟨List.pairwise_singleton _ a, fun c hc => hmem c hc ▸ ha⟩, fun c hc => hmem c hc ▸ le_rfl⟩
  | cons b rest ih =>
    intro a ha hproper hsorted
    obtain ⟨hfirst, hrest⟩ := List.pairwise_cons.mp hsorted
    have hproper' : ∀ c ∈ rest, lo c ≤ hi c := fun c hc => hproper c (List.mem_cons_of_mem b hc)
    rw [mergeFrom]
    split
    · -- `a` reaches over `b` and begins where it did
      have hlo := hreach.lo_reach a (hi b)
      have hjoined := ih (reach a (hi b)) (by rw [hlo, hreach.hi_reach]; exact ha.trans (le_max_left _ _))
        hproper' (List.pairwise_cons.mpr ⟨fun c hc => hlo ▸ hfirst c (List.mem_cons_of_mem b hc),
          (List.pairwise_cons.mp hrest).2⟩)
      rwa [hlo] at hjoined
    · next hapart =>
      obtain ⟨hseparated, hbegin⟩ := ih b (hproper b (List.mem_cons_self ..)) hproper' hrest
      refine ⟨⟨List.pairwise_cons.mpr ⟨fun c hc => (not_le.mp hapart).trans_le (hbegin c hc),
        hseparated.pairwise⟩, fun c hc => ?_⟩, fun c hc => ?_⟩
      · rcases List.mem_cons.mp hc with rfl | hc
        · exact ha
        · exact hseparated.proper c hc
      · rcases List.mem_cons.mp hc with rfl | hc
        · exact le_rfl
        · exact (hfirst b (List.mem_cons_self ..)).trans (hbegin c hc)

/-- **Merged ranges are apart.** -/
theorem mergeTouching_separated (hreach : Reaching lo hi reach) {list : List α}
    (hproper : ∀ a ∈ list, lo a ≤ hi a) (hsorted : list.Pairwise fun a b => lo a ≤ lo b) :
    Separated lo hi (mergeTouching lo hi reach list) := by
  cases list with
  | nil => exact ⟨List.Pairwise.nil, fun a ha => absurd ha List.not_mem_nil⟩
  | cons a rest =>
    exact (mergeFrom_separated hreach rest a (hproper a (List.mem_cons_self ..))
      (fun b hb => hproper b (List.mem_cons_of_mem a hb)) hsorted).1

/-- No merged range begins where none began before. -/
theorem lo_mem_mergeTouching (hreach : Reaching lo hi reach) {list : List α} {c : α}
    (hc : c ∈ mergeTouching lo hi reach list) : ∃ a ∈ list, lo c = lo a := by
  induction list using List.reverseRecOn generalizing c with
  | nil => exact absurd hc List.not_mem_nil
  | append_singleton list r ih =>
    have hold : ∀ b ∈ mergeTouching lo hi reach list, ∃ a ∈ list ++ [r], lo b = lo a := fun b hb =>
      (ih hb).imp fun a ha => ⟨List.mem_append_left _ ha.1, ha.2⟩
    have hnew : r ∈ list ++ [r] := List.mem_append_right _ (List.mem_singleton_self r)
    rw [mergeTouching_concat] at hc
    rcases List.eq_nil_or_concat' (mergeTouching lo hi reach list) with hnil | ⟨front, last, hconcat⟩
    · rw [hnil] at hc
      exact ⟨r, hnew, congrArg lo (List.mem_singleton.mp hc)⟩
    · rw [hconcat] at hc hold
      rw [addRange_concat] at hc
      have hlast := hold last (List.mem_append_right _ (List.mem_singleton_self last))
      split at hc
      · rcases List.mem_append.mp hc with hc | hc
        · exact hold c (List.mem_append_left _ hc)
        · rw [List.mem_singleton.mp hc, hreach.lo_reach]
          exact hlast
      · rw [List.append_cons] at hc
        rcases List.mem_append.mp hc with hc | hc
        · exact hold c hc
        · exact ⟨r, hnew, congrArg lo (List.mem_singleton.mp hc)⟩

end BreezeDesk.Merging
