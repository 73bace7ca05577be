/-
  A list cut into windows, and what is kept of each of them.

  `windows n xs` are the stretches of `n` items that follow each other, the last one perhaps short.  What an
  associative operation makes of each window (`summaries`) can be computed from the summaries of smaller
  windows: `summaries_summaries`, the law behind a pyramid of ever coarser levels.  With `min` and `max` the
  summaries are the extremes of the windows (`isLeast_summary`, `isGreatest_summary`).

  Nothing here mentions a particular program.
-/
import Mathlib

namespace BreezeDesk.Windows

variable {α β : Type*} {n m : Nat}

/-! ## Windows -/

/-- How many windows of `n` items there are in `count` items. -/
def windowCount (n count : Nat) : Nat := count / n + if count % n ≠ 0 then 1 else 0

/-- The window with the number `j`. -/
def window (n : Nat) (xs : List α) (j : Nat) : List α := (xs.drop (j * n)).take n

def windows (n : Nat) (xs : List α) : List (List α) := (List.range (windowCount n xs.length)).map (window n xs)

/-- A window is there if it begins in the list. -/
theorem lt_windowCount (hn : 0 < n) (j count : Nat) : j < windowCount n count ↔ j * n < count := by
  have hdivided := Nat.div_add_mod count n
  have hrest := Nat.mod_lt count hn
  unfold windowCount
  rw [Nat.mul_comm] at hdivided
  constructor
  · intro hlt
    split at hlt
    next hne =>
      have hle : j * n ≤ count / n * n := Nat.mul_le_mul_right n (by omega)
      omega
    next hzero =>
      have hle : (j + 1) * n ≤ count / n * n := Nat.mul_le_mul_right n (by omega)
      rw [Nat.succ_mul] at hle
      omega
  · intro hlt
    by_contra hge
    split at hge
    next hne =>
      have hle : (count / n + 1) * n ≤ j * n := Nat.mul_le_mul_right n (by omega)
      rw [Nat.succ_mul] at hle
      omega
    next hzero =>
      have hle : count / n * n ≤ j * n := Nat.mul_le_mul_right n (by omega)
      omega

theorem windowCount_windowCount (hn : 0 < n) (hm : 0 < m) (count : Nat) :
    windowCount m (windowCount n count) = windowCount (n * m) count := by
  apply eq_of_forall_lt_iff
  intro j
  rw [lt_windowCount hm, lt_windowCount hn, lt_windowCount (Nat.mul_pos hn hm), Nat.mul_assoc, Nat.mul_comm m n]

theorem windowCount_pos (hn : 0 < n) {count : Nat} (hcount : 0 < count) : 0 < windowCount n count := by
  rw [lt_windowCount hn, Nat.zero_mul]
  exact hcount

@[simp] theorem length_windows (n : Nat) (xs : List α) : (windows n xs).length = windowCount n xs.length := by
  unfold windows
  rw [List.length_map, List.length_range]

theorem getElem?_windows (hn : 0 < n) (xs : List α) (j : Nat) :
    (windows n xs)[j]? = if j * n < xs.length then some (window n xs j) else none := by
  unfold windows
  rw [List.getElem?_map]
  split
  next hlt => rw [List.getElem?_range ((lt_windowCount hn j xs.length).mpr hlt), Option.map_some]
  next hge =>
    rw [List.getElem?_eq_none (by rw [List.length_range]; exact not_lt.mp (mt (lt_windowCount hn j xs.length).mp hge)),
      Option.map_none]

theorem window_ne_nil (hn : 0 < n) {xs : List α} {j : Nat} (h : j < windowCount n xs.length) : window n xs j ≠ [] := by
  have hbegins := (lt_windowCount hn j xs.length).mp h
  apply List.ne_nil_of_length_pos
  unfold window
  rw [List.length_take, List.length_drop]
  omega

theorem windows_map (f : α → β) (n : Nat) (xs : List α) : windows n (xs.map f) = (windows n xs).map (List.map f) := by
  unfold windows
  rw [List.length_map, List.map_map]
  apply List.map_congr_left
  intro j _
  show ((xs.map f).drop (j * n)).take n = ((xs.drop (j * n)).take n).map f
  rw [List.map_take, List.map_drop]

theorem drop_windows (hn : 0 < n) (xs : List α) (i : Nat) : (windows n xs).drop i = windows n (xs.drop (i * n)) := by
  apply List.ext_getElem?
  intro j
  rw [List.getElem?_drop, getElem?_windows hn, getElem?_windows hn, List.length_drop, Nat.add_mul]
  have hwindow : window n (xs.drop (i * n)) j = window n xs (i + j) := by
    unfold window
    rw [List.drop_drop, Nat.add_mul]
  rw [hwindow]
  exact if_congr (by omega) rfl rfl

theorem take_windows (hn : 0 < n) (xs : List α) (i : Nat) : (windows n xs).take i = windows n (xs.take (i * n)) := by
  apply List.ext_getElem?
  intro j
  rw [List.getElem?_take, getElem?_windows hn, getElem?_windows hn, List.length_take]
  by_cases hj : j < i
  · have hle : (j + 1) * n ≤ i * n := Nat.mul_le_mul_right n hj
    rw [Nat.succ_mul] at hle
    have hwindow : window n (xs.take (i * n)) j = window n xs j := by
      unfold window
      rw [List.drop_take, List.take_take, Nat.min_eq_left (by omega)]
    rw [if_pos hj, hwindow]
    exact if_congr (by omega) rfl rfl
  · have hle : i * n ≤ j * n := Nat.mul_le_mul_right n (not_lt.mp hj)
    rw [if_neg hj, if_neg (by omega)]

theorem windows_nil (n : Nat) : windows n ([] : List α) = [] := by
  unfold windows windowCount
  rw [List.length_nil, Nat.zero_div, Nat.zero_mod]
  rfl

theorem windows_eq_cons (hn : 0 < n) {xs : List α} (hne : xs ≠ []) :
    windows n xs = xs.take n :: windows n (xs.drop n) := by
  have hpos := windowCount_pos hn (List.length_pos_iff.mpr hne)
  rw [← length_windows] at hpos
  have hrest := drop_windows hn xs 1
  rw [Nat.one_mul] at hrest
  have hfirst : (windows n xs)[0]? = some (xs.take n) := by
    rw [getElem?_windows hn, if_pos (by rw [Nat.zero_mul]; exact List.length_pos_iff.mpr hne)]
    unfold window
    rw [Nat.zero_mul, List.drop_zero]
  rw [List.getElem?_eq_getElem hpos] at hfirst
  have hpeel := List.getElem_cons_drop hpos
  rw [Option.some.inj hfirst, Nat.zero_add, hrest, List.drop_zero] at hpeel
  exact hpeel.symm

/-- Nothing is lost between two windows. -/
theorem flatten_windows (hn : 0 < n) (xs : List α) : (windows n xs).flatten = xs := by
  induction hlength : xs.length using Nat.strongRecOn generalizing xs with
  | _ length ih =>
    by_cases hnil : xs = []
    · rw [hnil, windows_nil]
      rfl
    · have hpos := List.length_pos_iff.mpr hnil
      have hrest := ih (xs.drop n).length (by rw [List.length_drop]; omega) (xs.drop n) rfl
      rw [windows_eq_cons hn hnil, List.flatten_cons, hrest, List.take_append_drop]

/-- **Windows of windows** are windows. -/
theorem flatten_windows_windows (hn : 0 < n) (hm : 0 < m) (xs : List α) :
    (windows m (windows n xs)).map List.flatten = windows (n * m) xs := by
  unfold windows
  rw [List.length_map, List.length_range, windowCount_windowCount hn hm, List.map_map]
  apply List.map_congr_left
  intro j _
  show (((windows n xs).drop (j * m)).take m).flatten = window (n * m) xs j
  rw [drop_windows hn, take_windows hn, flatten_windows hn]
  unfold window
  rw [Nat.mul_assoc, Nat.mul_comm m n]

/-! ## Summaries -/

/-- What an operation makes of a stretch. -/
def summary (op : α → α → α) (e : α) (xs : List α) : α := xs.foldl op e

/-- What it makes of each window. -/
def summaries (op : α → α → α) (e : α) (n : Nat) (xs : List α) : List α := (windows n xs).map (summary op e)

variable {op : α → α → α} {e : α}

@[simp] theorem length_summaries (n : Nat) (xs : List α) : (summaries op e n xs).length = windowCount n xs.length := by
  unfold summaries
  rw [List.length_map, length_windows]

theorem summaries_eq_cons (hn : 0 < n) {xs : List α} (hne : xs ≠ []) :
    summaries op e n xs = summary op e (xs.take n) :: summaries op e n (xs.drop n) := by
  unfold summaries
  rw [windows_eq_cons hn hne, List.map_cons]

theorem getElem?_summaries (hn : 0 < n) {xs : List α} {j : Nat} (h : j < windowCount n xs.length) :
    (summaries op e n xs)[j]? = some (summary op e (window n xs j)) := by
  unfold summaries
  rw [List.getElem?_map, getElem?_windows hn, if_pos ((lt_windowCount hn j xs.length).mp h), Option.map_some]

section Associative

variable [Std.Associative op] [Std.LawfulIdentity op e]

theorem summary_append (xs ys : List α) : summary op e (xs ++ ys) = op (summary op e xs) (summary op e ys) := by
  have hassoc : ys.foldl op (op (xs.foldl op e) e) = op (xs.foldl op e) (ys.foldl op e) := List.foldl_assoc
  have hright : op (xs.foldl op e) e = xs.foldl op e := Std.LawfulRightIdentity.right_id _
  unfold summary
  rw [List.foldl_append, ← hassoc, hright]

/-- A summary of summaries. -/
theorem summary_flatten (xss : List (List α)) : summary op e xss.flatten = summary op e (xss.map (summary op e)) := by
  induction xss with
  | nil => rfl
  | cons xs xss ih =>
    have hsingle : summary op e [summary op e xs] = summary op e xs :=
      Std.LawfulLeftIdentity.left_id (summary op e xs)
    rw [List.flatten_cons, summary_append, ih, List.map_cons, ← List.singleton_append, summary_append, hsingle]

/-- **Coarser windows** are summarised from finer ones. -/
theorem summaries_summaries (hn : 0 < n) (hm : 0 < m) (xs : List α) :
    summaries op e m (summaries op e n xs) = summaries op e (n * m) xs := by
  have hwindow : ∀ w : List (List α), summary op e (w.map (summary op e)) = summary op e w.flatten :=
    fun w => (summary_flatten w).symm
  unfold summaries
  rw [windows_map, ← flatten_windows_windows hn hm, List.map_map, List.map_map]
  exact List.map_congr_left fun w _ => hwindow w

end Associative

/-! ## Extremes -/

section Extremes

variable [LinearOrder α]

instance lawfulIdentityMin [OrderTop α] : Std.LawfulIdentity (min : α → α → α) ⊤ where
  left_id := top_inf_eq
  right_id := inf_top_eq

instance lawfulIdentityMax [OrderBot α] : Std.LawfulIdentity (max : α → α → α) ⊥ where
  left_id := bot_sup_eq
  right_id := sup_bot_eq

theorem summary_min_le (top : α) : ∀ xs : List α, summary min top xs ≤ top ∧ ∀ x ∈ xs, summary min top xs ≤ x := by
  intro xs
  induction xs generalizing top with
  | nil => exact ⟨le_refl top, fun x hx => (by cases hx)⟩
  | cons y xs ih =>
    obtain ⟨htop, hrest⟩ := ih (min top y)
    refine ⟨htop.trans (min_le_left top y), fun x hx => ?_⟩
    rcases List.mem_cons.mp hx with rfl | hx
    · exact htop.trans (min_le_right top x)
    · exact hrest x hx

theorem summary_min_mem (top : α) : ∀ xs : List α, summary min top xs = top ∨ summary min top xs ∈ xs := by
  intro xs
  induction xs generalizing top with
  | nil => exact Or.inl rfl
  | cons y xs ih =>
    rcases ih (min top y) with heq | hmem
    · rcases min_choice top y with htop | hy
      · exact Or.inl (heq.trans htop)
      · exact Or.inr (List.mem_cons.mpr (Or.inl (heq.trans hy)))
    · exact Or.inr (List.mem_cons_of_mem y hmem)

theorem isLeast_summary [OrderTop α] {xs : List α} (hne : xs ≠ []) : IsLeast {x | x ∈ xs} (summary min ⊤ xs) := by
  obtain ⟨-, hle⟩ := summary_min_le ⊤ xs
  refine ⟨?_, hle⟩
  rcases summary_min_mem ⊤ xs with htop | hmem
  · -- everything is at the top, and something is there
    obtain ⟨x, hx⟩ := List.exists_mem_of_ne_nil xs hne
    have hx' := hle x hx
    rw [htop, top_le_iff] at hx'
    show summary min ⊤ xs ∈ xs
    rw [htop, ← hx']
    exact hx
  · exact hmem

theorem isGreatest_summary [OrderBot α] {xs : List α} (hne : xs ≠ []) :
    IsGreatest {x | x ∈ xs} (summary max ⊥ xs) :=
  @isLeast_summary (OrderDual α) _ _ xs hne

end Extremes

end BreezeDesk.Windows
