/-
  A value observed more often than it changes.

  Two observers of one changing value write down lists in which the value is repeated.  Without the
  repetitions (`List.destutter`) the lists are the same: `Agree value left right` says so, and that both
  have seen the value last.

  * `agree_start`  — both begin with the value;
  * `Agree.stay`   — the value stays, whatever either of them repeats;
  * `Agree.change` — the value changes, and both write it down.

  Nothing here mentions a particular program.
-/
import Mathlib.Data.List.Destutter

namespace BreezeDesk.Stutter

variable {α : Type*} [DecidableEq α]

theorem destutter'_concat (start value : α) (l : List α) :
    (l ++ [value]).destutter' (· ≠ ·) start =
      if (start :: l).getLast? = some value then l.destutter' (· ≠ ·) start
      else l.destutter' (· ≠ ·) start ++ [value] := by
  induction l generalizing start with
  | nil =>
    show List.destutter' _ start [value] = if some start = some value then [start] else [start] ++ [value]
    by_cases h : start = value
    · rw [List.destutter'_cons_neg _ (not_not.mpr h), if_pos (congrArg some h)]
      rfl
    · rw [List.destutter'_cons_pos _ h, if_neg fun heq => h (Option.some.inj heq)]
      rfl
  | cons first rest ih =>
    rw [List.cons_append, List.getLast?_cons_cons]
    by_cases h : start = first
    · rw [List.destutter'_cons_neg _ (not_not.mpr h), List.destutter'_cons_neg _ (not_not.mpr h), ih, h]
    · rw [List.destutter'_cons_pos _ h, List.destutter'_cons_pos _ h, ih]
      split <;> rfl

theorem destutter_concat (value : α) (l : List α) :
    (l ++ [value]).destutter (· ≠ ·) =
      if l.getLast? = some value then l.destutter (· ≠ ·) else l.destutter (· ≠ ·) ++ [value] := by
  cases l with
  | nil => rfl
  | cons start rest => exact destutter'_concat start value rest

/-- Both lists end with the value, and are the same but for repetitions. -/
structure Agree (value : α) (left right : List α) : Prop where
  leftLast : left.getLast? = some value
  rightLast : right.getLast? = some value
  changes : left.destutter (· ≠ ·) = right.destutter (· ≠ ·)

variable {value next : α} {left right : List α}

theorem agree_start (value : α) : Agree value [value] [value] := ⟨rfl, rfl, rfl⟩

theorem Agree.symm (h : Agree value left right) : Agree value right left := ⟨h.rightLast, h.leftLast, h.changes.symm⟩

theorem Agree.stay_left (h : Agree value left right) {more : List α} (hmore : ∀ other ∈ more, other = value) :
    Agree value (left ++ more) right := by
  induction more generalizing left with
  | nil =>
    rw [List.append_nil]
    exact h
  | cons other rest ih =>
    obtain rfl := hmore other (List.mem_cons_self ..)
    rw [List.append_cons]
    refine ih ⟨List.getLast?_concat, h.rightLast, ?_⟩ fun one hone => hmore one (List.mem_cons_of_mem _ hone)
    rw [destutter_concat, if_pos h.leftLast]
    exact h.changes

/-- **The value stays**: repetitions change nothing. -/
theorem Agree.stay (h : Agree value left right) {more again : List α} (hmore : ∀ other ∈ more, other = value)
    (hagain : ∀ other ∈ again, other = value) : Agree value (left ++ more) (right ++ again) :=
  ((h.stay_left hmore).symm.stay_left hagain).symm

/-- **The value changes.** -/
theorem Agree.change (h : Agree value left right) (hne : value ≠ next) : Agree next (left ++ [next]) (right ++ [next]) where
  leftLast := List.getLast?_concat
  rightLast := List.getLast?_concat
  changes := by
    have hleft : left.getLast? ≠ some next := fun heq => hne (Option.some.inj (h.leftLast.symm.trans heq))
    have hright : right.getLast? ≠ some next := fun heq => hne (Option.some.inj (h.rightLast.symm.trans heq))
    rw [destutter_concat, destutter_concat, if_neg hleft, if_neg hright, h.changes]

end BreezeDesk.Stutter
