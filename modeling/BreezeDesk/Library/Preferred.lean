/-
  A choice that one pass makes: the first element, until the first preferred one comes.

  `preferred p list` is the place of the first element that `p` prefers, and `0` where there is none.  A pass
  that holds on to an element has to replace it exactly when it is the first one that is preferred
  (`preferred_concat`).

  Nothing here mentions a particular program.
-/
import Mathlib.Data.List.Basic

namespace BreezeDesk.Preference

variable {α : Type*} {p : α → Bool} {list : List α} {a : α}

def preferred (p : α → Bool) (list : List α) : Nat :=
  if list.any p then list.findIdx p else 0

theorem preferred_of_any (h : list.any p = true) : preferred p list = list.findIdx p := if_pos h

theorem preferred_of_not_any (h : list.any p = false) : preferred p list = 0 := by
  unfold preferred
  rw [h]
  exact if_neg Bool.false_ne_true

theorem preferred_lt (hne : list ≠ []) : preferred p list < list.length := by
  cases hany : list.any p with
  | true =>
    rw [preferred_of_any hany]
    exact List.findIdx_lt_length.mpr (List.any_eq_true.mp hany)
  | false =>
    rw [preferred_of_not_any hany]
    exact List.length_pos_iff.mpr hne

/-- One more element: it is taken if it is the only one, or the first one that is preferred. -/
theorem preferred_concat (p : α → Bool) (list : List α) (a : α) : preferred p (list ++ [a]) =
    if list = [] ∨ (list.any p = false ∧ p a = true) then list.length else preferred p list := by
  cases hany : list.any p with
  | true =>
    have hne : list ≠ [] := by
      rintro rfl
      exact absurd hany Bool.false_ne_true
    have hmore : (list ++ [a]).any p = true := by
      rw [List.any_append, hany, Bool.true_or]
    rw [preferred_of_any hmore, preferred_of_any hany, List.findIdx_append,
      if_pos (List.findIdx_lt_length.mpr (List.any_eq_true.mp hany)), if_neg]
    rintro (hnil | ⟨hfalse, -⟩)
    · exact hne hnil
    · exact absurd hfalse (by simp)
  | false =>
    cases hp : p a with
    | true =>
      have hmore : (list ++ [a]).any p = true := by
        rw [List.any_append, List.any_cons, hp, Bool.true_or, Bool.or_true]
      have hnone : list.findIdx p = list.length :=
        List.findIdx_eq_length.mpr fun x hx => Bool.eq_false_iff.mpr fun hpx =>
          absurd (List.any_eq_true.mpr ⟨x, hx, hpx⟩) (by rw [hany]; exact Bool.false_ne_true)
      rw [preferred_of_any hmore, List.findIdx_append, hnone, if_neg (Nat.lt_irrefl _),
        if_pos (Or.inr ⟨rfl, rfl⟩), List.findIdx_cons, hp, cond_true]
      omega
    | false =>
      have hmore : (list ++ [a]).any p = false := by
        rw [List.any_append, hany, List.any_cons, hp, List.any_nil]
        rfl
      rw [preferred_of_not_any hmore, preferred_of_not_any hany]
      split
      · rename_i h
        rcases h with rfl | ⟨-, hfalse⟩
        · rfl
        · exact absurd hfalse Bool.false_ne_true
      · rfl

/-- **What is chosen** is preferred to all that stand before it, or nothing is preferred and it is the first. -/
theorem preferred_spec (h : list[preferred p list]? = some a) :
    (p a = true ∧ ∀ before ∈ list.take (preferred p list), p before = false) ∨
      (preferred p list = 0 ∧ ∀ b ∈ list, p b = false) := by
  cases hany : list.any p with
  | true =>
    left
    rw [preferred_of_any hany] at h ⊢
    have hlt := List.findIdx_lt_length.mpr (List.any_eq_true.mp hany)
    refine ⟨?_, fun before hbefore => ?_⟩
    · rw [List.getElem?_eq_getElem hlt] at h
      rw [← Option.some.inj h]
      exact List.findIdx_getElem (w := hlt)
    · obtain ⟨i, hi, rfl⟩ := List.mem_take_iff_getElem.mp hbefore
      exact List.not_of_lt_findIdx (Nat.lt_of_lt_of_le hi (Nat.min_le_left ..))
  | false =>
    right
    refine ⟨preferred_of_not_any hany, fun b hb => Bool.eq_false_iff.mpr fun hp => ?_⟩
    exact absurd (List.any_eq_true.mpr ⟨b, hb, hp⟩) (by rw [hany]; exact Bool.false_ne_true)

end BreezeDesk.Preference
