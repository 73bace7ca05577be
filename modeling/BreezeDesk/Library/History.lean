/-
  A bounded history for undo and redo.

  A history is the current value, the values before it and the values that were taken back.  `commit`
  remembers the value it replaces, forgets the oldest one beyond the bound, and drops what was taken back.

  `Above base k h` is the invariant: the last `k` remembered values lead from `h` back to `base`.  One lemma
  for each move says how `k` changes; `Above.back` takes the `k` moves back.  Undo and redo are inverse to
  each other (`redone_undone`), whatever the bound, so `k` of the one undo `k` of the other (`times_inverse`).

  Nothing here mentions a particular program.
-/
import Mathlib.Data.List.Basic

namespace BreezeDesk

structure History (α : Type*) where
  current : α
  /-- The last one is the latest. -/
  undo : List α := []
  redo : List α := []

namespace History

/-- `n` steps, each of which may be impossible. -/
def times {σ : Type*} (f : σ → Option σ) : Nat → σ → Option σ
  | 0, s => some s
  | n + 1, s => (f s).bind (times f n)

section Times

variable {σ : Type*} {f g : σ → Option σ}

/-- The last step in front. -/
theorem times_succ (n : Nat) (s : σ) : times f (n + 1) s = (times f n s).bind f := by
  induction n generalizing s with
  | zero =>
    show (f s).bind (fun t => some t) = f s
    cases f s <;> rfl
  | succ n ih =>
    show (f s).bind (times f (n + 1)) = ((f s).bind (times f n)).bind f
    rw [Option.bind_assoc]
    exact congrArg (Option.bind (f s)) (funext ih)

/-- Where every step can be taken back, so can `n` steps. -/
theorem times_inverse (h : ∀ s t, f s = some t → g t = some s) :
    ∀ (n : Nat) (s t : σ), times f n s = some t → times g n t = some s := by
  intro n
  induction n with
  | zero =>
    intro s t hst
    cases hst
    rfl
  | succ n ih =>
    intro s t hst
    obtain ⟨between, hfirst, hrest⟩ := Option.bind_eq_some_iff.mp hst
    rw [times_succ, ih between t hrest]
    exact h s between hfirst

/-- A map that turns the one step into the other turns `n` steps into `n` steps. -/
theorem times_map {τ : Type*} {f' : τ → Option τ} (e : σ → τ) (h : ∀ s, f' (e s) = (f s).map e) :
    ∀ (n : Nat) (s : σ), times f' n (e s) = (times f n s).map e := by
  intro n
  induction n with
  | zero => exact fun s => rfl
  | succ n ih =>
    intro s
    show (f' (e s)).bind (times f' n) = ((f s).bind (times f n)).map e
    rw [h s, Option.map_bind, Option.bind_map]
    exact congrArg (Option.bind (f s)) (funext ih)

end Times

variable {α : Type*} {bound k : Nat} {base next : α} {past : List α} {h h' : History α}

/-- The values before, at most `bound` of them unless there were more already. -/
def remember (bound : Nat) (past : List α) (value : α) : List α :=
  if (past ++ [value]).length > bound then (past ++ [value]).tail else past ++ [value]

def commit (bound : Nat) (h : History α) (next : α) : History α :=
  { current := next, undo := remember bound h.undo h.current, redo := [] }

def undone (h : History α) : Option (History α) :=
  h.undo.getLast?.map fun value =>
    { current := value, undo := h.undo.dropLast, redo := h.redo ++ [h.current] }

def redone (h : History α) : Option (History α) :=
  h.redo.getLast?.map fun value =>
    { current := value, undo := h.undo ++ [h.current], redo := h.redo.dropLast }

/-! ## Undo and redo -/

theorem redone_undone (h h' : History α) (hundone : undone h = some h') : redone h' = some h := by
  obtain ⟨value, hlast, rfl⟩ := Option.map_eq_some_iff.mp hundone
  have hundo : h.undo.dropLast ++ [value] = h.undo := List.dropLast_append_getLast? value hlast
  unfold redone
  rw [List.getLast?_concat, List.dropLast_concat, hundo]
  rfl

/-! ## What is remembered -/

/-- Remembering a value and dropping it again costs a full list its oldest value. -/
theorem dropLast_remember (value : α) :
    (remember bound past value).dropLast = if bound ≤ past.length then past.tail else past := by
  unfold remember
  rw [List.length_append, List.length_singleton]
  by_cases hfull : bound ≤ past.length
  · rw [if_pos (Nat.lt_succ_of_le hfull), if_pos hfull]
    cases past with
    | nil => rfl
    | cons first rest =>
      show (rest ++ [value]).dropLast = rest
      exact List.dropLast_concat
  · rw [if_neg (fun hlong => hfull (Nat.le_of_lt_succ hlong)), if_neg hfull]
    exact List.dropLast_concat

/-- So the history is as before exactly if there was room, or nothing was to be remembered. -/
theorem dropLast_remember_eq_iff (hbound : 0 < bound) (value : α) :
    (remember bound past value).dropLast = past ↔ past.length < bound := by
  rw [dropLast_remember]
  split
  next hfull =>
    refine ⟨fun hsame => ?_, fun hroom => absurd hfull (Nat.not_le_of_lt hroom)⟩
    have hlength := congrArg List.length hsame
    rw [List.length_tail] at hlength
    omega
  next hroom => exact ⟨fun _ => Nat.lt_of_not_le hroom, fun _ => rfl⟩

/-! ## The way back -/

/-- The last `k` remembered values lead back to `base`. -/
def Above (base : α) (k : Nat) (h : History α) : Prop :=
  ∃ older recent, h.undo = older ++ recent ∧ recent.length = k ∧ (recent ++ [h.current]).head? = some base

theorem Above.start (h : History α) : Above h.current 0 h :=
  ⟨h.undo, [], (List.append_nil _).symm, rfl, rfl⟩

/-- One more value on the way. -/
theorem Above.push (habove : Above base k h) (next : α) (redo : List α) :
    Above base (k + 1) { current := next, undo := h.undo ++ [h.current], redo } := by
  obtain ⟨older, recent, hundo, hlength, hbase⟩ := habove
  refine ⟨older, recent ++ [h.current], ?_, ?_, ?_⟩
  · show h.undo ++ [h.current] = _
    rw [hundo, List.append_assoc]
  · rw [List.length_append, List.length_singleton, hlength]
  · show (recent ++ [h.current] ++ [next]).head? = some base
    rw [List.head?_append, hbase]
    rfl

/-- What a commit forgets is older than the way back. -/
theorem Above.commit (hroom : k < bound) (habove : Above base k h) : Above base (k + 1) (h.commit bound next) := by
  obtain ⟨older, recent, hundo, hlength, hbase⟩ := habove.push next []
  have hkept : (h.commit bound next).undo = if (h.undo ++ [h.current]).length > bound
      then (h.undo ++ [h.current]).tail else h.undo ++ [h.current] := rfl
  by_cases hfull : (h.undo ++ [h.current]).length > bound
  · rw [if_pos hfull] at hkept
    refine ⟨older.tail, recent, ?_, hlength, hbase⟩
    rw [hkept]
    replace hundo : h.undo ++ [h.current] = older ++ recent := hundo
    rw [hundo] at hfull ⊢
    cases older with
    | nil =>
      rw [List.nil_append] at hfull
      omega
    | cons first rest => rfl
  · rw [if_neg hfull] at hkept
    exact ⟨older, recent, hkept.trans hundo, hlength, hbase⟩

theorem Above.redone (hredone : redone h = some h') (habove : Above base k h) : Above base (k + 1) h' := by
  obtain ⟨value, -, rfl⟩ := Option.map_eq_some_iff.mp hredone
  exact habove.push _ _

/-- One step back is possible, and stays on the way. -/
theorem Above.undone (habove : Above base (k + 1) h) : ∃ h', undone h = some h' ∧ Above base k h' := by
  obtain ⟨older, recent, hundo, hlength, hbase⟩ := habove
  have hne : recent ≠ [] := List.ne_nil_of_length_eq_add_one hlength
  have hsplit : recent.dropLast ++ [recent.getLast hne] = recent := List.dropLast_append_getLast hne
  refine ⟨{ current := recent.getLast hne, undo := older ++ recent.dropLast, redo := h.redo ++ [h.current] }, ?_,
    older, recent.dropLast, rfl, ?_, ?_⟩
  · unfold History.undone
    rw [hundo, List.getLast?_append_of_ne_nil _ hne, List.getLast?_eq_getLast_of_ne_nil hne,
      List.dropLast_append_of_ne_nil hne]
    rfl
  · rw [List.length_dropLast, hlength]
    rfl
  · show (recent.dropLast ++ [recent.getLast hne]).head? = some base
    rw [hsplit]
    rw [List.head?_append_of_ne_nil _ hne] at hbase
    exact hbase

/-- **The way back**: `k` steps of undo reach `base`, and `k` steps of redo return. -/
theorem Above.back : ∀ {k : Nat} {h : History α}, Above base k h →
    ∃ h', times History.undone k h = some h' ∧ h'.current = base ∧ times History.redone k h' = some h := by
  intro k h habove
  have hback : ∃ h', times History.undone k h = some h' ∧ h'.current = base := by
    induction k generalizing h with
    | zero =>
      obtain ⟨older, recent, -, hlength, hbase⟩ := habove
      rw [List.eq_nil_of_length_eq_zero hlength] at hbase
      cases hbase
      exact ⟨h, rfl, rfl⟩
    | succ k ih =>
      obtain ⟨between, hundone, hbetween⟩ := habove.undone
      obtain ⟨h', htimes, hcurrent⟩ := ih hbetween
      exact ⟨h', Option.bind_eq_some_iff.mpr ⟨between, hundone, htimes⟩, hcurrent⟩
  obtain ⟨h', htimes, hcurrent⟩ := hback
  exact ⟨h', htimes, hcurrent, times_inverse redone_undone k h h' htimes⟩

end History

end BreezeDesk
