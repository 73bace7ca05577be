/-
  Lists that are made of components, with a separator before each but the first.

  The components of one list are the first components of another exactly when the lists are equal or the other
  goes on behind a separator (`splitOn_prefix_iff`).  So it is enough to compare the beginnings of texts to find
  out whether one path leads through another.

  Nothing here mentions a particular program.
-/
import Mathlib.Data.List.Basic

namespace BreezeDesk.Components

variable {α : Type*} {a : α}

def joined (a : α) (first : List α) (rest : List (List α)) : List α := first ++ rest.flatMap (a :: ·)

theorem joined_append (first : List α) (rest others : List (List α)) :
    joined a first (rest ++ others) = joined a (joined a first rest) others := by
  unfold joined
  rw [List.flatMap_append, List.append_assoc]

theorem intercalate_append {lines others : List (List α)} (hlines : lines ≠ []) (hothers : others ≠ []) :
    [a].intercalate (lines ++ others) = [a].intercalate lines ++ a :: [a].intercalate others := by
  induction lines with
  | nil => exact absurd rfl hlines
  | cons line rest ih =>
    cases rest with
    | nil =>
      rw [List.singleton_append, List.intercalate_cons_of_ne_nil hothers, List.intercalate_singleton,
        List.append_assoc, List.singleton_append]
    | cons next rest =>
      have hrest := ih (List.cons_ne_nil _ _)
      rw [List.cons_append, List.intercalate_cons_of_ne_nil (List.append_ne_nil_of_left_ne_nil (List.cons_ne_nil _ _) _),
        hrest, List.intercalate_cons_of_ne_nil (List.cons_ne_nil _ _), List.append_assoc, List.append_assoc,
        List.append_assoc]

variable [DecidableEq α]

theorem splitOn_joined {first : List α} {rest : List (List α)} (hfirst : a ∉ first) (hrest : ∀ r ∈ rest, a ∉ r) :
    (joined a first rest).splitOn a = first :: rest := by
  unfold joined
  induction rest generalizing first with
  | nil =>
    rw [List.flatMap_nil, List.append_nil]
    exact List.splitOn_eq_singleton hfirst
  | cons r others ih =>
    rw [List.flatMap_cons, List.cons_append, List.splitOn_append_cons_self_of_not_mem hfirst,
      ih (hrest r (List.mem_cons_self ..)) fun other hother => hrest other (List.mem_cons_of_mem _ hother)]

/-- **The components** of one list come first in another. -/
theorem splitOn_prefix_iff {l m : List α} : l.splitOn a <+: m.splitOn a ↔ m = l ∨ l ++ [a] <+: m := by
  constructor
  · rintro ⟨rest, hrest⟩
    have hm : [a].intercalate (l.splitOn a ++ rest) = m := by rw [hrest, List.intercalate_splitOn]
    by_cases hnil : rest = []
    · left
      rw [hnil, List.append_nil, List.intercalate_splitOn] at hm
      exact hm.symm
    · right
      rw [intercalate_append (List.splitOn_ne_nil a l) hnil, List.intercalate_splitOn] at hm
      exact ⟨[a].intercalate rest, by rw [List.append_assoc, List.singleton_append]; exact hm⟩
  · rintro (rfl | ⟨rest, rfl⟩)
    · exact List.prefix_rfl
    · rw [List.append_assoc, List.singleton_append, List.splitOn_append_cons_self]
      exact List.prefix_append _ _

/-- No component contains the separator. -/
theorem not_mem_of_mem_splitOn {l part : List α} (h : part ∈ l.splitOn a) : a ∉ part := by
  induction l generalizing part with
  | nil =>
    rw [List.splitOn_nil, List.mem_singleton] at h
    rw [h]
    exact List.not_mem_nil
  | cons x rest ih =>
    rw [List.splitOn_cons_eq_if_modifyHead] at h
    split at h
    · rcases List.mem_cons.mp h with rfl | h
      · exact List.not_mem_nil
      · exact ih h
    · rename_i hne
      cases hparts : rest.splitOn a with
      | nil => exact absurd hparts (List.splitOn_ne_nil a rest)
      | cons first others =>
        rw [hparts, List.modifyHead_cons] at h
        rcases List.mem_cons.mp h with rfl | h
        · have hfirst := ih (hparts ▸ List.mem_cons_self ..)
          intro hmem
          rcases List.mem_cons.mp hmem with rfl | hmem
          · exact hne (beq_self_eq_true _)
          · exact hfirst hmem
        · exact ih (hparts ▸ List.mem_cons_of_mem _ h)

end BreezeDesk.Components
