/-
  Stable sorting, by what it does to a list.

  `StableOrder r list sorted`: the same elements, in an order in which `r` holds from each to all later ones,
  and elements that are equal for `r` stand as they stood.

  * `stableOrder_mergeSort` — merge sort gives a stable order;
  * `StableOrder.filter`    — it stays one when the same elements are left out on both sides.

  Nothing here mentions a particular program.
-/
import Mathlib.Data.List.Sort
import Mathlib.Order.Defs.Unbundled

namespace BreezeDesk.Sorting

variable {α : Type*} {r : α → α → Prop} [DecidableRel r]

/-- Neither of two elements has to stand before the other. -/
def Equal (r : α → α → Prop) (a b : α) : Prop := r a b ∧ r b a

instance (a : α) : DecidablePred (Equal r a) := fun b => inferInstanceAs (Decidable (r a b ∧ r b a))

structure StableOrder (r : α → α → Prop) [DecidableRel r] (list order : List α) : Prop where
  perm : order.Perm list
  sorted : order.Pairwise r
  stable : ∀ a, order.filter (Equal r a ·) = list.filter (Equal r a ·)

variable {list order : List α}

theorem stableOrder_mergeSort (htrans : ∀ a b c, r a b → r b c → r a c) (htotal : ∀ a b, r a b ∨ r b a)
    (list : List α) : StableOrder r list (list.mergeSort fun a b => decide (r a b)) := by
  have htrans' : ∀ a b c, decide (r a b) = true → decide (r b c) = true → decide (r a c) = true := by
    intro a b c hab hbc
    exact decide_eq_true (htrans a b c (of_decide_eq_true hab) (of_decide_eq_true hbc))
  have htotal' : ∀ a b, (decide (r a b) || decide (r b a)) = true := by
    intro a b
    simpa using htotal a b
  have hperm := List.mergeSort_perm list fun a b => decide (r a b)
  refine ⟨hperm, (List.pairwise_mergeSort htrans' htotal' list).imp of_decide_eq_true, fun a => ?_⟩
  -- the elements equal to `a` are sorted as they stand, so all of them keep their places among each other
  have hequal : (list.filter (Equal r a ·)).Pairwise fun b c => decide (r b c) = true := by
    refine List.pairwise_of_forall_mem_list fun b hb c hc => ?_
    have hb := of_decide_eq_true (List.mem_filter.mp hb).2
    have hc := of_decide_eq_true (List.mem_filter.mp hc).2
    exact decide_eq_true (htrans b a c hb.2 hc.1)
  have hsub := (List.sublist_mergeSort htrans' htotal' hequal List.filter_sublist).filter (Equal r a ·)
  rw [List.filter_filter] at hsub
  simp only [Bool.and_self] at hsub
  exact (hsub.eq_of_length (hperm.filter _).length_eq.symm).symm

theorem StableOrder.filter (h : StableOrder r list order) (p : α → Bool) :
    StableOrder r (list.filter p) (order.filter p) where
  perm := h.perm.filter p
  sorted := h.sorted.filter p
  stable a := by
    rw [List.filter_comm, h.stable a, List.filter_comm]

end BreezeDesk.Sorting
