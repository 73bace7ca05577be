/-
  A queue in the order of arrival.

  Who waits is a list in no order; `arrive waiting order` is the order of arrival after a change: those who
  still wait keep their order, and who is new is behind them.

  * `eq_arrive`    — a list that is sorted by some relation is in the order of arrival, when the relation
    keeps those who stay in their order and puts who is new behind them, one at a time;
  * `arrive_same`  — while the same wait, the order stays;
  * `arrive_leave` — when the first leaves, the others move up;
  * `arrive_concat`, `arrive_without` — one who comes, and one who leaves from anywhere;
  * `eq_filter`    — who is sorted by the place in a given list stands as in that list.

  Nothing here mentions a particular program.
-/
import Mathlib.Data.List.Nodup
import Mathlib.Data.List.Perm.Subperm

namespace BreezeDesk.Queue

variable {α : Type*} [BEq α] [LawfulBEq α]

def arrive (waiting order : List α) : List α :=
  order.filter (· ∈ waiting) ++ waiting.filter (· ∉ order)

variable {waiting order queue : List α} {a first : α} {rest : List α}

@[simp] theorem mem_arrive : a ∈ arrive waiting order ↔ a ∈ waiting := by
  unfold arrive
  rw [List.mem_append, List.mem_filter, List.mem_filter, decide_eq_true_eq, decide_eq_true_eq]
  constructor
  · rintro (⟨-, hwaits⟩ | ⟨hwaits, -⟩)
    · exact hwaits
    · exact hwaits
  · intro hwaits
    by_cases hold : a ∈ order
    · exact Or.inl ⟨hold, hwaits⟩
    · exact Or.inr ⟨hwaits, hold⟩

theorem nodup_arrive (hwaiting : waiting.Nodup) (horder : order.Nodup) : (arrive waiting order).Nodup := by
  refine List.Nodup.append (horder.filter _) (hwaiting.filter _) fun a hold hnew => ?_
  rw [List.mem_filter, decide_eq_true_eq] at hnew
  exact hnew.2 (List.mem_filter.mp hold).1

theorem arrive_same (h : ∀ a, a ∈ waiting ↔ a ∈ order) : arrive waiting order = order := by
  unfold arrive
  have hstay : order.filter (· ∈ waiting) = order :=
    List.filter_eq_self.mpr fun a ha => decide_eq_true ((h a).mpr ha)
  have hnone : waiting.filter (· ∉ order) = [] := by
    refine List.filter_eq_nil_iff.mpr fun a ha => ?_
    rw [decide_eq_true_eq, not_not]
    exact (h a).mp ha
  rw [hstay, hnone, List.append_nil]

theorem arrive_leave (hnodup : (first :: rest).Nodup) (h : ∀ a, a ∈ waiting ↔ a ∈ rest) :
    arrive waiting (first :: rest) = rest := by
  obtain ⟨hfirst, -⟩ := List.nodup_cons.mp hnodup
  have hsame := arrive_same h
  unfold arrive at hsame ⊢
  have hleft : (first :: rest).filter (· ∈ waiting) = rest.filter (· ∈ waiting) := by
    rw [List.filter_cons_of_neg]
    rw [decide_eq_true_eq, h]
    exact hfirst
  have hnew : waiting.filter (· ∉ first :: rest) = waiting.filter (· ∉ rest) := by
    refine List.filter_congr fun a ha => ?_
    have hother : a ≠ first := fun heq => hfirst (heq ▸ (h a).mp ha)
    refine decide_eq_decide.mpr (not_congr ?_)
    rw [List.mem_cons, or_iff_right hother]
  rw [hleft, hnew, hsame]

/-- Who is new stands behind the others. -/
theorem arrive_concat (hnew : a ∉ order) : arrive (order ++ [a]) order = order ++ [a] := by
  unfold arrive
  have hstay : order.filter (· ∈ order ++ [a]) = order :=
    List.filter_eq_self.mpr fun b hb => decide_eq_true (List.mem_append_left _ hb)
  have hnone : order.filter (· ∉ order) = [] := by
    refine List.filter_eq_nil_iff.mpr fun b hb => ?_
    rw [decide_eq_true_eq, not_not]
    exact hb
  have hone : [a].filter (· ∉ order) = [a] :=
    List.filter_eq_self.mpr fun b hb => decide_eq_true (List.mem_singleton.mp hb ▸ hnew)
  rw [hstay, List.filter_append, hnone, List.nil_append, hone]

/-- When one leaves, the others stand as they stood. -/
theorem arrive_without {before behind : List α} (ha : a ∉ before ++ behind) :
    arrive (before ++ behind) (before ++ a :: behind) = before ++ behind := by
  unfold arrive
  have hstay : (before ++ a :: behind).filter (· ∈ before ++ behind) = before ++ behind := by
    rw [List.filter_append, List.filter_cons_of_neg (by simpa using ha), ← List.filter_append]
    exact List.filter_eq_self.mpr fun b hb => decide_eq_true hb
  have hnone : (before ++ behind).filter (· ∉ before ++ a :: behind) = [] := by
    refine List.filter_eq_nil_iff.mpr fun b hb => ?_
    rw [decide_eq_true_eq, not_not]
    rcases List.mem_append.mp hb with hb | hb
    · exact List.mem_append_left _ hb
    · exact List.mem_append_right _ (List.mem_cons_of_mem _ hb)
  rw [hstay, hnone, List.append_nil]

/-- **A sorted list is in the order of arrival.** -/
theorem eq_arrive {r : α → α → Prop} (hasymm : ∀ a b, r a b → ¬ r b a) (hmem : ∀ a, a ∈ queue ↔ a ∈ waiting)
    (hqueue : queue.Nodup) (hwaiting : waiting.Nodup) (horder : order.Nodup) (hsorted : queue.Pairwise r)
    (hstay : order.Pairwise fun a b => a ∈ waiting → b ∈ waiting → r a b)
    (hback : ∀ a ∈ order, a ∈ waiting → ∀ b ∈ waiting, b ∉ order → r a b)
    (hone : ∀ a ∈ waiting, a ∉ order → ∀ b ∈ waiting, b ∉ order → a = b) : queue = arrive waiting order := by
  have hperm : queue.Perm (arrive waiting order) :=
    (List.perm_ext_iff_of_nodup hqueue (nodup_arrive hwaiting horder)).mpr fun a => (hmem a).trans mem_arrive.symm
  refine hperm.eq_of_pairwise (fun a b _ _ hab hba => absurd hba (hasymm a b hab)) hsorted ?_
  refine List.pairwise_append.mpr ⟨?_, ?_, fun a ha b hb => ?_⟩
  · refine (hstay.filter _).imp_of_mem fun ha hb hr => ?_
    exact hr (of_decide_eq_true (List.mem_filter.mp ha).2) (of_decide_eq_true (List.mem_filter.mp hb).2)
  · -- one at most is new
    refine (hwaiting.filter fun a => decide (a ∉ order)).imp_of_mem fun ha hb hne => ?_
    rw [List.mem_filter, decide_eq_true_eq] at ha hb
    exact absurd (hone _ ha.1 ha.2 _ hb.1 hb.2) hne
  · rw [List.mem_filter, decide_eq_true_eq] at ha hb
    exact hback a ha.1 ha.2 b hb.1 hb.2

/-! ## A given order -/

theorem pairwise_idxOf (h : order.Nodup) : order.Pairwise fun a b => order.idxOf a < order.idxOf b := by
  refine List.pairwise_iff_getElem.mpr fun i j hi hj hlt => ?_
  rw [h.idxOf_getElem i hi, h.idxOf_getElem j hj]
  exact hlt

/-- Who is sorted by the place in a list stands as in the list. -/
theorem eq_filter (horder : order.Nodup) (hqueue : queue.Nodup) (hsub : ∀ a ∈ queue, a ∈ order)
    (hsorted : queue.Pairwise fun a b => order.idxOf a < order.idxOf b) : queue = order.filter (· ∈ queue) := by
  have hperm : queue.Perm (order.filter (· ∈ queue)) := by
    refine (List.perm_ext_iff_of_nodup hqueue (horder.filter _)).mpr fun a => ?_
    rw [List.mem_filter, decide_eq_true_eq]
    exact ⟨fun ha => ⟨hsub a ha, ha⟩, fun ha => ha.2⟩
  exact hperm.eq_of_pairwise (fun a b _ _ hab hba => absurd hba (Nat.lt_asymm hab)) hsorted
    ((pairwise_idxOf horder).filter _)

end BreezeDesk.Queue
