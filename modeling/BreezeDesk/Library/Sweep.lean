/-
  Removing what is empty, the inner things before the outer ones.

  `sweep` goes once through a list and removes each element that is doomed and under which nothing is left.
  Where all that is below an element stands before it, one pass is enough: an element goes exactly when it is
  doomed and all that was below it is gone in the end (`mem_sweep_iff`).

  Nothing here mentions a particular program.
-/
import Mathlib.Data.List.Basic

namespace BreezeDesk.Sweeping

variable {α : Type*} [DecidableEq α] (below : α → α → Prop) [DecidableRel below] (doomed : α → Bool)

/-- One element: `below e d` says that `e` is below `d`. -/
def sweepOne (remaining : List α) (d : α) : List α :=
  if doomed d ∧ ∀ e ∈ remaining, ¬ below e d then remaining.filter (· ≠ d) else remaining

def sweep (list remaining : List α) : List α := list.foldl (sweepOne below doomed) remaining

variable {below doomed} {list remaining : List α} {d e : α}

theorem mem_sweepOne_of_ne (h : e ≠ d) : e ∈ sweepOne below doomed remaining d ↔ e ∈ remaining := by
  unfold sweepOne
  split
  · rw [List.mem_filter, decide_eq_true_eq, and_iff_left h]
  · exact Iff.rfl

theorem mem_sweepOne_self (h : d ∈ remaining) :
    d ∈ sweepOne below doomed remaining d ↔ ¬ (doomed d = true ∧ ∀ e ∈ remaining, ¬ below e d) := by
  unfold sweepOne
  split
  · rename_i hgoes
    rw [List.mem_filter, decide_eq_true_eq]
    exact ⟨fun hmem => absurd rfl hmem.2, fun hstays => absurd hgoes hstays⟩
  · rename_i hstays
    exact ⟨fun _ => hstays, fun _ => h⟩

theorem sweepOne_subset : sweepOne below doomed remaining d ⊆ remaining := by
  unfold sweepOne
  split
  · exact List.filter_sublist.subset
  · exact List.Subset.refl _

theorem sweep_subset (list : List α) : ∀ remaining : List α, sweep below doomed list remaining ⊆ remaining := by
  induction list with
  | nil => exact fun _ => List.Subset.refl _
  | cons d rest ih => exact fun remaining => List.Subset.trans (ih _) sweepOne_subset

theorem mem_sweep_of_not_mem (h : e ∉ list) : ∀ remaining : List α,
    e ∈ sweep below doomed list remaining ↔ e ∈ remaining := by
  induction list with
  | nil => exact fun _ => Iff.rfl
  | cons d rest ih =>
    intro remaining
    exact (ih (List.not_mem_of_not_mem_cons h) _).trans (mem_sweepOne_of_ne (List.ne_of_not_mem_cons h))

/-- **One pass** in which nothing stands behind what it is below. -/
theorem mem_sweep_iff (hlist : list.Nodup) (horder : list.Pairwise fun first second => ¬ below second first)
    (hself : ∀ d ∈ list, ¬ below d d) (hd : d ∈ list) : ∀ {remaining : List α}, d ∈ remaining →
    (d ∈ sweep below doomed list remaining ↔
      ¬ (doomed d = true ∧ ∀ e ∈ sweep below doomed list remaining, ¬ below e d)) := by
  induction list with
  | nil => cases hd
  | cons first rest ih =>
    intro remaining hmem
    obtain ⟨hfirst, hrest⟩ := List.nodup_cons.mp hlist
    obtain ⟨hbefore, horder'⟩ := List.pairwise_cons.mp horder
    show d ∈ sweep below doomed rest (sweepOne below doomed remaining first) ↔ _
    rcases List.mem_cons.mp hd with rfl | hd
    · -- what is below `d` is settled when its turn comes
      rw [mem_sweep_of_not_mem hfirst, mem_sweepOne_self hmem]
      have hsettled : ∀ e, below e d →
          (e ∈ sweep below doomed (d :: rest) remaining ↔ e ∈ remaining) := by
        intro e hbelow
        have hne : e ≠ d := fun heq => hself d (List.mem_cons_self ..) (heq ▸ hbelow)
        have hnot : e ∉ rest := fun he => hbefore e he hbelow
        exact mem_sweep_of_not_mem (List.not_mem_cons_of_ne_of_not_mem hne hnot) remaining
      refine not_congr (and_congr_right fun _ => forall_congr' fun e => ?_)
      refine ⟨fun h he hbelow => h ((hsettled e hbelow).mp he) hbelow,
        fun h he hbelow => h ((hsettled e hbelow).mpr he) hbelow⟩
    · have hne : d ≠ first := fun heq => hfirst (heq ▸ hd)
      exact ih hrest horder' (fun x hx => hself x (List.mem_cons_of_mem _ hx)) hd ((mem_sweepOne_of_ne hne).mpr hmem)

end BreezeDesk.Sweeping
