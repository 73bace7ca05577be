/-
  Rows in groups, and rows that move.

  Rows are grouped when a key never goes down from one row to the next.

  * `grouped_split`, `takeWhile_eq_filter` — a grouped list, cut behind a key;
  * `grouped_placed`, `insertIdx_placed`   — a row that is put behind its group keeps the groups, and its
    number is how many rows do not come after it;
  * `replayMove_eq`  — whoever takes a row out and puts it before another one, by the numbers of the rows as
    they were, gets what taking it out and putting it in at a place gives;
  * `insertIdx_append_left`, `insertIdx_append_right` — putting a row into a part of the list;
  * `filter_insertIdx` — all other rows keep their order.

  Nothing here mentions a particular program.
-/
import Mathlib

namespace BreezeDesk.Rows

variable {α κ : Type*}

/-! ## Groups -/

section Groups

variable [LinearOrder κ] {key : α → κ} {rows first second : List α} {a : α}

def Grouped (key : α → κ) (rows : List α) : Prop := rows.Pairwise fun a b => key a ≤ key b

/-- A row behind all others of its group. -/
def placed (key : α → κ) (rows : List α) (a : α) : List α :=
  rows.filter (key · ≤ key a) ++ a :: rows.filter (key a < key ·)

theorem grouped_split (h : Grouped key rows) (k : κ) :
    rows.filter (key · ≤ k) ++ rows.filter (k < key ·) = rows := by
  induction rows with
  | nil => rfl
  | cons a rest ih =>
    obtain ⟨hfirst, hrest⟩ := List.pairwise_cons.mp h
    by_cases ha : key a ≤ k
    · rw [List.filter_cons_of_pos (by simpa using ha), List.filter_cons_of_neg (by simpa using ha),
        List.cons_append, ih hrest]
    · -- this row is behind the cut, and so are the others
      have hnone : rest.filter (key · ≤ k) = [] := by
        refine List.filter_eq_nil_iff.mpr fun b hb => ?_
        have hlt : k < key b := (lt_of_not_ge ha).trans_le (hfirst b hb)
        simpa using hlt
      have hall : rest.filter (k < key ·) = rest := by
        refine List.filter_eq_self.mpr fun b hb => ?_
        have hlt : k < key b := (lt_of_not_ge ha).trans_le (hfirst b hb)
        simpa using hlt
      rw [List.filter_cons_of_neg (by simpa using ha),
        List.filter_cons_of_pos (by simpa using lt_of_not_ge ha), hnone, hall, List.nil_append]

theorem takeWhile_eq_filter (h : Grouped key rows) (k : κ) :
    rows.takeWhile (key · ≤ k) = rows.filter (key · ≤ k) := by
  induction rows with
  | nil => rfl
  | cons a rest ih =>
    obtain ⟨hfirst, hrest⟩ := List.pairwise_cons.mp h
    by_cases ha : key a ≤ k
    · rw [List.takeWhile_cons_of_pos (by simpa using ha), List.filter_cons_of_pos (by simpa using ha), ih hrest]
    · have hnone : rest.filter (key · ≤ k) = [] := by
        refine List.filter_eq_nil_iff.mpr fun b hb => ?_
        have hlt : k < key b := (lt_of_not_ge ha).trans_le (hfirst b hb)
        simpa using hlt
      rw [List.takeWhile_cons_of_neg (by simpa using ha), List.filter_cons_of_neg (by simpa using ha), hnone]

theorem grouped_placed (h : Grouped key rows) (a : α) : Grouped key (placed key rows a) := by
  unfold placed
  refine List.pairwise_append.mpr ⟨h.filter _, List.pairwise_cons.mpr ⟨fun b hb => ?_, h.filter _⟩, ?_⟩
  · exact (of_decide_eq_true (List.mem_filter.mp hb).2).le
  · intro b hb c hc
    have hb : key b ≤ key a := of_decide_eq_true (List.mem_filter.mp hb).2
    rcases List.mem_cons.mp hc with rfl | hc
    · exact hb
    · exact hb.trans (of_decide_eq_true (List.mem_filter.mp hc).2).le

theorem insertIdx_append_length (first second : List α) (a : α) :
    (first ++ second).insertIdx first.length a = first ++ a :: second := by
  induction first with
  | nil => exact List.insertIdx_zero
  | cons b rest ih =>
    rw [List.cons_append, List.length_cons, List.insertIdx_succ_cons, ih]
    rfl

/-- **The place of a row** is behind those that do not come after it. -/
theorem insertIdx_placed (h : Grouped key rows) (a : α) :
    rows.insertIdx (rows.filter (key · ≤ key a)).length a = placed key rows a := by
  have hinsert := insertIdx_append_length (rows.filter (key · ≤ key a)) (rows.filter (key a < key ·)) a
  rw [grouped_split h] at hinsert
  exact hinsert

/-- A group, after a row has been placed. -/
theorem filter_placed (rows : List α) (a : α) (k : κ) : (placed key rows a).filter (key · = k) =
    if key a = k then rows.filter (key · = k) ++ [a] else rows.filter (key · = k) := by
  have hbefore : (rows.filter (key · ≤ key a)).filter (key · = k) =
      if k ≤ key a then rows.filter (key · = k) else [] := by
    rw [List.filter_filter]
    split
    case isTrue hle =>
      refine List.filter_congr fun b _ => ?_
      by_cases hb : key b = k
      · simp [hb, hle]
      · simp [hb]
    case isFalse hle =>
      refine List.filter_eq_nil_iff.mpr fun b _ => ?_
      simp only [Bool.and_eq_true, decide_eq_true_eq, not_and]
      rintro rfl
      exact hle
  have hafter : (rows.filter (key a < key ·)).filter (key · = k) =
      if key a < k then rows.filter (key · = k) else [] := by
    rw [List.filter_filter]
    split
    case isTrue hlt =>
      refine List.filter_congr fun b _ => ?_
      by_cases hb : key b = k
      · simp [hb, hlt]
      · simp [hb]
    case isFalse hlt =>
      refine List.filter_eq_nil_iff.mpr fun b _ => ?_
      simp only [Bool.and_eq_true, decide_eq_true_eq, not_and]
      rintro rfl
      exact hlt
  unfold placed
  rw [List.filter_append, List.filter_cons, hbefore, hafter]
  rcases lt_trichotomy k (key a) with hlt | rfl | hlt
  · simp [hlt.le, hlt.ne', not_lt.mpr hlt.le]
  · simp
  · simp [hlt, hlt.ne, not_le.mpr hlt]

end Groups

/-! ## Moving a row -/

/-- The row is taken out and put in at its new place. -/
def moved (rows : List α) (source target : Nat) : List α :=
  match rows[source]? with
  | none => rows
  | some a => (rows.eraseIdx source).insertIdx target a

/-- The row goes before the row that has the number `destination` in the list as it is. -/
def replayMove (rows : List α) (source destination : Nat) : List α :=
  match rows[source]? with
  | none => rows
  | some a =>
    if destination ≤ source then
      rows.take destination ++ a :: (rows.drop destination).eraseIdx (source - destination)
    else (rows.take destination).eraseIdx source ++ a :: rows.drop destination

variable {rows first second : List α} {a : α} {source target : Nat}

/-- **A move, replayed.**  Moving down goes before the row behind the target. -/
theorem replayMove_eq (hsource : source < rows.length) (htarget : target < rows.length) :
    replayMove rows source (if target > source then target + 1 else target) = moved rows source target := by
  unfold replayMove moved
  rw [List.getElem?_eq_getElem hsource]
  show (if _ then _ else _) = (rows.eraseIdx source).insertIdx target rows[source]
  by_cases hdown : target > source
  · rw [if_pos hdown, if_neg (by omega)]
    have hlength : ((rows.take (target + 1)).eraseIdx source).length = target := by
      rw [List.length_eraseIdx_of_lt (by rw [List.length_take]; omega), List.length_take]
      omega
    have herase : rows.eraseIdx source = (rows.take (target + 1)).eraseIdx source ++ rows.drop (target + 1) := by
      rw [← List.eraseIdx_append_of_lt_length (by rw [List.length_take]; omega), List.take_append_drop]
    have hinsert := insertIdx_append_length ((rows.take (target + 1)).eraseIdx source) (rows.drop (target + 1))
      rows[source]
    rw [hlength] at hinsert
    rw [herase, hinsert]
  · rw [if_neg hdown, if_pos (by omega)]
    have hlength : (rows.take target).length = target := by
      rw [List.length_take]
      omega
    have herase : rows.eraseIdx source = rows.take target ++ (rows.drop target).eraseIdx (source - target) := by
      have happend := List.eraseIdx_append_of_length_le (l := rows.take target) (k := source) (by omega)
        (rows.drop target)
      rw [List.take_append_drop, hlength] at happend
      exact happend
    have hinsert := insertIdx_append_length (rows.take target) ((rows.drop target).eraseIdx (source - target))
      rows[source]
    rw [hlength] at hinsert
    rw [herase, hinsert]

/-- The row that is moved, taken out of a list by its neighbours. -/
theorem moved_of_split (first second : List α) (a : α) (target : Nat) :
    moved (first ++ a :: second) first.length target = (first ++ second).insertIdx target a := by
  unfold moved
  rw [List.getElem?_append_right (Nat.le_refl _), Nat.sub_self, List.getElem?_cons_zero,
    List.eraseIdx_append_of_length_le (Nat.le_refl _), Nat.sub_self, List.eraseIdx_cons_zero]

theorem insertIdx_append_right (first : List α) (a : α) : ∀ {second : List α} {k : Nat},
    (first ++ second).insertIdx (first.length + k) a = first ++ second.insertIdx k a := by
  induction first with
  | nil =>
    intro second k
    rw [List.nil_append, List.length_nil, Nat.zero_add, List.nil_append]
  | cons b rest ih =>
    intro second k
    rw [List.cons_append, List.length_cons, Nat.succ_add, List.insertIdx_succ_cons, ih]
    rfl

theorem insertIdx_append_left {k : Nat} (hk : k ≤ first.length) (second : List α) (a : α) :
    (first ++ second).insertIdx k a = first.insertIdx k a ++ second := by
  have hsplit := insertIdx_append_length (first.take k) (first.drop k ++ second) a
  have hfirst := insertIdx_append_length (first.take k) (first.drop k) a
  rw [List.length_take, Nat.min_eq_left hk] at hsplit hfirst
  rw [← List.append_assoc, List.take_append_drop] at hsplit
  rw [List.take_append_drop] at hfirst
  rw [hsplit, hfirst, List.append_assoc, List.cons_append]

theorem moved_map {β : Type*} (f : α → β) (rows : List α) (source target : Nat) :
    (moved rows source target).map f = moved (rows.map f) source target := by
  unfold moved
  rw [List.getElem?_map]
  cases rows[source]? with
  | none => rfl
  | some a =>
    show ((rows.eraseIdx source).insertIdx target a).map f = ((rows.map f).eraseIdx source).insertIdx target (f a)
    rw [List.map_insertIdx, List.eraseIdx_map]

/-- All other rows keep their order. -/
theorem filter_insertIdx {p : α → Bool} (hp : p a = false) (k : Nat) (rows : List α) :
    (rows.insertIdx k a).filter p = rows.filter p := by
  induction rows generalizing k with
  | nil => cases k <;> simp [hp]
  | cons b rest ih =>
    cases k with
    | zero => rw [List.insertIdx_zero, List.filter_cons_of_neg (by simp [hp])]
    | succ k => rw [List.insertIdx_succ_cons, List.filter_cons, List.filter_cons, ih]

end BreezeDesk.Rows
