/-
  `while` loops with explicit fuel, and the total-correctness rule for them.

  A loop body is a function `turn : σ → Turn σ α`: one turn either goes on with a new loop state
  (`again`) or leaves the loop with a result (`done`, which is also how a `break` or the failing
  loop test is written).  `run turn fuel s` takes at most `fuel` turns; it is structurally recursive
  on the fuel, so closed runs reduce in the kernel.

  * `run_kept`  — what every turn keeps holds of the result, if there is one;
  * `run_total` — the rule every loop is verified with: an invariant kept by each turn, a natural
    number that drops on each `again`, and a postcondition established by each `done`, give a
    result for every fuel above the variant;
  * `run_early` — a loop that goes the way of another one and may leave it earlier;
  * `run_simulated` — a loop over other states that keeps step with the first one.

  Nothing here mentions a particular program.
-/
import Mathlib.Logic.Basic

namespace BreezeDesk.Loop

/-- One turn of a loop: go round again with a new state, or leave with a result. -/
inductive Turn (σ α : Type*) where
  | again (s : σ)
  | done (a : α)

variable {σ τ α β : Type*}

/-- At most `fuel` turns of the loop; `none` when the fuel is used up before the loop is left. -/
def run (turn : σ → Turn σ α) : Nat → σ → Option α
  | 0, _ => none
  | fuel + 1, s =>
    match turn s with
    | .again s' => run turn fuel s'
    | .done a => some a

theorem run_of_again {turn : σ → Turn σ α} {s s' : σ} (h : turn s = .again s') (fuel : Nat) :
    run turn (fuel + 1) s = run turn fuel s' := by
  simp only [run, h]

theorem run_of_done {turn : σ → Turn σ α} {s : σ} {a : α} (h : turn s = .done a) (fuel : Nat) :
    run turn (fuel + 1) s = some a := by
  simp only [run, h]

/-- One turn keeps the invariant `I`, or leaves with the postcondition `P`. -/
def TurnKeeps (turn : σ → Turn σ α) (I : σ → Prop) (P : α → Prop) : Prop :=
  ∀ s, I s → match turn s with
    | .again s' => I s'
    | .done a => P a

/-- **Partial correctness.**  What every turn keeps until it leaves with the postcondition. -/
theorem run_kept {turn : σ → Turn σ α} {I : σ → Prop} {P : α → Prop} (hturn : TurnKeeps turn I P) :
    ∀ {fuel : Nat} {s : σ} {a : α}, I s → run turn fuel s = some a → P a := by
  intro fuel
  induction fuel with
  | zero => intro s a _ h; cases h
  | succ fuel ih =>
    intro s a hI h
    have hs := hturn s hI
    cases hturned : turn s with
    | again s' =>
      rw [hturned] at hs
      rw [run_of_again hturned] at h
      exact ih hs h
    | done b =>
      rw [hturned] at hs
      rw [run_of_done hturned] at h
      cases h
      exact hs

/-- What one turn owes to the invariant `I`, the variant `v` and the postcondition `P`. -/
def TurnSound (turn : σ → Turn σ α) (I : σ → Prop) (v : σ → Nat) (P : α → Prop) : Prop :=
  ∀ s, I s → match turn s with
    | .again s' => I s' ∧ v s' < v s
    | .done a => P a

/-- **Total correctness.**  A loop whose every turn keeps the invariant, lowers the variant or leaves
    with the postcondition, is left with one and the same result for every fuel above the variant. -/
theorem run_total {turn : σ → Turn σ α} {I : σ → Prop} {v : σ → Nat} {P : α → Prop}
    (hturn : TurnSound turn I v P) {s : σ} (hI : I s) :
    ∃ a, P a ∧ ∀ fuel, v s < fuel → run turn fuel s = some a := by
  -- strong induction on the variant
  induction hn : v s using Nat.strongRecOn generalizing s with
  | _ n ih =>
    have ht := hturn s hI
    cases h : turn s with
    | again s' =>
      rw [h] at ht
      obtain ⟨hI', hv⟩ := ht
      obtain ⟨a, hP, ha⟩ := ih (v s') (hn ▸ hv) hI' rfl
      refine ⟨a, hP, fun fuel hfuel => ?_⟩
      obtain ⟨d, rfl⟩ : ∃ d, fuel = d + 1 := ⟨fuel - 1, by omega⟩
      rw [run_of_again h]
      exact ha d (by omega)
    | done a =>
      rw [h] at ht
      refine ⟨a, ht, fun fuel hfuel => ?_⟩
      obtain ⟨d, rfl⟩ : ∃ d, fuel = d + 1 := ⟨fuel - 1, by omega⟩
      exact run_of_done h d

/-- What one turn of a loop owes to one that goes the same way and may leave earlier: if that one leaves, the
    results `P` that the other one can still reach agree with what it leaves with. -/
def TurnFollowed (turn : σ → Turn σ α) (early : σ → Turn σ β) (I : σ → Prop) (P : α → Prop)
    (Agree : α → β → Prop) : Prop :=
  ∀ s, I s → match turn s with
    | .again s' => I s' ∧ (early s = .again s' ∨
        ∃ b, early s = .done b ∧ ∀ fuel a, run turn fuel s' = some a → P a → Agree a b)
    | .done a => P a → ∃ b, early s = .done b ∧ Agree a b

/-- **Early exit.**  By induction on the turns of the loop that is followed. -/
theorem run_early {turn : σ → Turn σ α} {early : σ → Turn σ β} {I : σ → Prop} {P : α → Prop}
    {Agree : α → β → Prop} (hturn : TurnFollowed turn early I P Agree) :
    ∀ {fuel : Nat} {s : σ} {a : α}, I s → run turn fuel s = some a → P a →
      ∃ b, run early fuel s = some b ∧ Agree a b := by
  intro fuel
  induction fuel with
  | zero => intro s a _ h; cases h
  | succ fuel ih =>
    intro s a hI h hP
    have hs := hturn s hI
    cases hturned : turn s with
    | again s' =>
      rw [hturned] at hs
      rw [run_of_again hturned] at h
      obtain ⟨hI', hagain | ⟨b, hdone, hagree⟩⟩ := hs
      · rw [run_of_again hagain]
        exact ih hI' h hP
      · exact ⟨b, run_of_done hdone fuel, hagree fuel a h hP⟩
    | done a' =>
      rw [hturned] at hs
      rw [run_of_done hturned] at h
      cases h
      obtain ⟨b, hdone, hagree⟩ := hs hP
      exact ⟨b, run_of_done hdone fuel, hagree⟩

/-- What one turn of a loop owes to a loop over other states, related by `R`: that one goes round when this one
    does, and when this one leaves with the result `P`, it leaves with a result that agrees. -/
def TurnSimulated (turn : σ → Turn σ α) (other : τ → Turn τ β) (R : σ → τ → Prop) (P : α → Prop)
    (Agree : α → β → Prop) : Prop :=
  ∀ s t, R s t → match turn s with
    | .again s' => ∃ t', other t = .again t' ∧ R s' t'
    | .done a => P a → ∃ b, other t = .done b ∧ Agree a b

/-- **Lockstep.**  By induction on the turns of the first loop. -/
theorem run_simulated {turn : σ → Turn σ α} {other : τ → Turn τ β} {R : σ → τ → Prop} {P : α → Prop}
    {Agree : α → β → Prop} (hturn : TurnSimulated turn other R P Agree) :
    ∀ {fuel : Nat} {s : σ} {t : τ} {a : α}, R s t → run turn fuel s = some a → P a →
      ∃ b, run other fuel t = some b ∧ Agree a b := by
  intro fuel
  induction fuel with
  | zero => intro s t a _ h; cases h
  | succ fuel ih =>
    intro s t a hR h hP
    have hs := hturn s t hR
    cases hturned : turn s with
    | again s' =>
      rw [hturned] at hs
      rw [run_of_again hturned] at h
      obtain ⟨t', hagain, hR'⟩ := hs
      rw [run_of_again hagain]
      exact ih hR' h hP
    | done a' =>
      rw [hturned] at hs
      rw [run_of_done hturned] at h
      cases h
      obtain ⟨b, hdone, hagree⟩ := hs hP
      exact ⟨b, run_of_done hdone fuel, hagree⟩

end BreezeDesk.Loop
