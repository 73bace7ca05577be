/-
  A store and its copy in memory, row by row.

  `Behind n memory store` says that both have the same rows in the same order (the same keys), and that the
  store lags behind memory in at most `n` places: there the rows stand differently.

  A row that is put into memory alone adds one to what the store lags behind (`behind_put_ahead`).  One that is
  put into both adds nothing, whatever the two rows were before (`behind_put`).  What no row of memory has, at
  most `n` rows of the store have (`Behind.count_le`).

  Nothing here mentions a particular program.
-/
import Mathlib.Data.List.Nodup
import Mathlib.Data.List.Count

namespace BreezeDesk.Mirror

variable {α κ σ : Type*} [DecidableEq κ] [DecidableEq σ] (key : α → κ) (standing : α → σ)

/-- The row in place of the one with its key. -/
def put (row : α) (rows : List α) : List α := rows.map fun other => if key other = key row then row else other

/-- The row with that key, changed. -/
def alter (k : κ) (change : α → α) (rows : List α) : List α :=
  rows.map fun other => if key other = k then change other else other

/-- The rows stand differently in at most `n` places. -/
def Behind (n : Nat) (memory store : List α) : Prop :=
  ∃ pairs : List (α × α), memory = pairs.map Prod.fst ∧ store = pairs.map Prod.snd ∧
    (∀ pair ∈ pairs, key pair.1 = key pair.2) ∧
    pairs.countP (fun pair => decide (standing pair.1 ≠ standing pair.2)) ≤ n

variable {key standing} {n m : Nat} {memory store rows : List α} {row : α}

theorem map_key_put (row : α) (rows : List α) : (put key row rows).map key = rows.map key := by
  unfold put
  rw [List.map_map]
  refine List.map_congr_left fun other _ => ?_
  show key (if key other = key row then row else other) = key other
  split
  · exact (‹key other = key row›).symm
  · rfl

theorem mem_put {other : α} (h : other ∈ put key row rows) : other = row ∨ other ∈ rows := by
  obtain ⟨old, hold, rfl⟩ := List.mem_map.mp h
  split
  · exact Or.inl rfl
  · exact Or.inr hold

/-- A row in the middle of the list is put there. -/
theorem put_middle {before after : List α} {old : α} (hnodup : ((before ++ old :: after).map key).Nodup)
    (hkey : key row = key old) : put key row (before ++ old :: after) = before ++ row :: after := by
  have hother : ∀ other ∈ before ++ after, key other ≠ key row := by
    intro other hmem hsame
    rw [List.map_append, List.map_cons] at hnodup
    have hnot := (List.nodup_middle.mp hnodup).notMem
    refine hnot ?_
    rw [← List.map_append, ← hkey, ← hsame]
    exact List.mem_map_of_mem hmem
  have hsame : ∀ rows : List α, (∀ other ∈ rows, key other ≠ key row) → put key row rows = rows := by
    intro rows hrows
    refine (List.map_congr_left fun other hmem => ?_).trans (List.map_id rows)
    exact if_neg (hrows other hmem)
  have hsplit : put key row (before ++ old :: after) = put key row before ++ put key row (old :: after) :=
    List.map_append
  have hhead : put key row (old :: after) = row :: put key row after := by
    unfold put
    rw [List.map_cons, if_pos hkey.symm]
  rw [hsplit, hhead, hsame before fun other hmem => hother other (List.mem_append_left _ hmem),
    hsame after fun other hmem => hother other (List.mem_append_right _ hmem)]

omit [DecidableEq κ] in
theorem behind_refl (rows : List α) : Behind key standing n rows rows := by
  refine ⟨rows.map fun row => (row, row), ?_, ?_, ?_, ?_⟩
  · rw [List.map_map]
    exact (List.map_id rows).symm
  · rw [List.map_map]
    exact (List.map_id rows).symm
  · intro pair hmem
    obtain ⟨row, -, rfl⟩ := List.mem_map.mp hmem
    rfl
  · have hnone : (rows.map fun row => (row, row)).countP
        (fun pair => decide (standing pair.1 ≠ standing pair.2)) = 0 := by
      refine List.countP_eq_zero.mpr fun pair hmem => ?_
      obtain ⟨row, -, rfl⟩ := List.mem_map.mp hmem
      simp
    omega

omit [DecidableEq κ] in
theorem Behind.mono (h : Behind key standing n memory store) (hle : n ≤ m) : Behind key standing m memory store := by
  obtain ⟨pairs, hmemory, hstore, hkeys, hcount⟩ := h
  exact ⟨pairs, hmemory, hstore, hkeys, Nat.le_trans hcount hle⟩

omit [DecidableEq κ] in
theorem Behind.keys (h : Behind key standing n memory store) : memory.map key = store.map key := by
  obtain ⟨pairs, rfl, rfl, hkeys, -⟩ := h
  rw [List.map_map, List.map_map]
  exact List.map_congr_left hkeys

/-- One place more. -/
theorem behind_put_ahead (h : Behind key standing n memory store) (hnodup : (memory.map key).Nodup) (row : α) :
    Behind key standing (n + 1) (put key row memory) store := by
  obtain ⟨pairs, rfl, rfl, hkeys, hcount⟩ := h
  let place (pair : α × α) : α × α := (if key pair.1 = key row then row else pair.1, pair.2)
  refine ⟨pairs.map place, ?_, ?_, ?_, ?_⟩
  · unfold put
    rw [List.map_map, List.map_map]
    rfl
  · rw [List.map_map]
    rfl
  · intro pair hmem
    obtain ⟨old, hold, rfl⟩ := List.mem_map.mp hmem
    show key (if key old.1 = key row then row else old.1) = key old.2
    rw [← hkeys old hold]
    split
    · exact (‹key old.1 = key row›).symm
    · rfl
  · have hone : pairs.countP (fun pair => decide (key pair.1 = key row)) ≤ 1 := by
      have hat : (pairs.map fun pair => key pair.1).count (key row) ≤ 1 := by
        refine List.nodup_iff_count_le_one.mp ?_ _
        rwa [List.map_map] at hnodup
      rw [List.count, List.countP_map] at hat
      exact hat
    -- a place is behind because it was, or because of the row
    have hplaces : (pairs.map place).countP (fun pair => decide (standing pair.1 ≠ standing pair.2)) ≤
        pairs.countP (fun pair => decide (standing pair.1 ≠ standing pair.2)) +
          pairs.countP (fun pair => decide (key pair.1 = key row)) := by
      rw [List.countP_map]
      clear hcount hone hkeys hnodup
      induction pairs with
      | nil => exact Nat.le_refl 0
      | cons pair rest ih =>
        rw [List.countP_cons, List.countP_cons, List.countP_cons]
        have hpair : (if ((fun pair => decide (standing pair.1 ≠ standing pair.2)) ∘ place) pair = true then 1 else 0) ≤
            (if decide (standing pair.1 ≠ standing pair.2) = true then 1 else 0) +
              if decide (key pair.1 = key row) = true then 1 else 0 := by
          by_cases hsame : key pair.1 = key row
          · rw [if_pos (decide_eq_true hsame)]
            split <;> omega
          · have hplace : place pair = pair := by
              show (if key pair.1 = key row then row else pair.1, pair.2) = pair
              rw [if_neg hsame]
            rw [Function.comp_apply, hplace]
            omega
        omega
    omega

/-- No place more. -/
theorem behind_put (h : Behind key standing n memory store) {change : α → α}
    (hkey : ∀ other, key (change other) = key other) (hstanding : ∀ other, standing (change other) = standing row) :
    Behind key standing n (put key row memory) (alter key (key row) change store) := by
  obtain ⟨pairs, rfl, rfl, hkeys, hcount⟩ := h
  let place (pair : α × α) : α × α :=
    (if key pair.1 = key row then row else pair.1, if key pair.2 = key row then change pair.2 else pair.2)
  refine ⟨pairs.map place, ?_, ?_, ?_, ?_⟩
  · unfold put
    rw [List.map_map, List.map_map]
    rfl
  · unfold alter
    rw [List.map_map, List.map_map]
    rfl
  · intro pair hmem
    obtain ⟨old, hold, rfl⟩ := List.mem_map.mp hmem
    show key (if key old.1 = key row then row else old.1) = key (if key old.2 = key row then change old.2 else old.2)
    rw [hkeys old hold]
    split
    · rw [hkey]
      exact (‹key old.2 = key row›).symm
    · exact hkeys old hold
  · rw [List.countP_map]
    refine Nat.le_trans (List.countP_mono_left fun pair hmem hdiffers => ?_) hcount
    by_cases hsame : key pair.2 = key row
    · have hplace : place pair = (row, change pair.2) := by
        show (if key pair.1 = key row then row else pair.1, _) = _
        rw [hkeys pair hmem, if_pos hsame, if_pos hsame]
      rw [Function.comp_apply, hplace] at hdiffers
      exact absurd (hstanding pair.2).symm (of_decide_eq_true hdiffers)
    · have hplace : place pair = pair := by
        show (if key pair.1 = key row then row else pair.1, _) = _
        rw [hkeys pair hmem, if_neg hsame, if_neg hsame]
      rwa [Function.comp_apply, hplace] at hdiffers

omit [DecidableEq κ] in
/-- What no row of memory has, at most `n` rows of the store have. -/
theorem Behind.count_le (h : Behind key standing n memory store) {has : σ → Bool}
    (hnone : ∀ row ∈ memory, has (standing row) = false) : store.countP (fun row => has (standing row)) ≤ n := by
  obtain ⟨pairs, rfl, rfl, -, hcount⟩ := h
  rw [List.countP_map]
  refine Nat.le_trans (List.countP_mono_left fun pair hmem hthere => ?_) hcount
  have hnot := hnone pair.1 (List.mem_map_of_mem hmem)
  refine decide_eq_true fun hsame => ?_
  rw [hsame] at hnot
  exact absurd (hnot.symm.trans hthere) (by decide)

omit [DecidableEq κ] in
/-- Without a lag the rows stand alike. -/
theorem Behind.same (h : Behind key standing 0 memory store) :
    (memory.map fun row => (key row, standing row)) = store.map fun row => (key row, standing row) := by
  obtain ⟨pairs, rfl, rfl, hkeys, hcount⟩ := h
  rw [List.map_map, List.map_map]
  refine List.map_congr_left fun pair hmem => ?_
  have hnot := List.countP_eq_zero.mp (Nat.le_zero.mp hcount) pair hmem
  have hsame : standing pair.1 = standing pair.2 := by simpa using hnot
  show (key pair.1, standing pair.1) = (key pair.2, standing pair.2)
  rw [hkeys pair hmem, hsame]

end BreezeDesk.Mirror
