/-
  Progress along schedules.

  A schedule is an infinite sequence of labels.  In a state, things are owed to the system: a timer runs, an
  answer is outstanding.  A schedule is fair when what is owed is delivered in the end or called off.

  `ends_of_rank`: where a living state is always owed something, and every step that leaves the system alive
  either lowers a rank or delivers nothing and calls nothing off, no fair schedule keeps the system alive for
  ever.  The induction is on the rank; until it falls, what is owed first stays owed.

  Nothing here mentions a particular program.
-/
import BreezeDesk.Library.Runs
import Mathlib.Order.WellFounded

namespace BreezeDesk.Progress

open Runs

variable {σ κ δ ρ : Type*}

/-- The state after the first `n` labels of a schedule. -/
def after (step : σ → κ → σ) (s : σ) (schedule : ℕ → κ) : ℕ → σ
  | 0 => s
  | n + 1 => step (after step s schedule n) (schedule n)

/-- What is owed is delivered in the end, unless it is called off. -/
def Fair (step : σ → κ → σ) (Owed : σ → δ → Prop) (Delivers : κ → δ → Prop) (s : σ) (schedule : ℕ → κ) : Prop :=
  ∀ n due, Owed (after step s schedule n) due →
    ∃ m, n ≤ m ∧ (Delivers (schedule m) due ∨ ¬ Owed (after step s schedule m) due)

variable {step : σ → κ → σ} {s : σ} {schedule : ℕ → κ}

theorem after_invariant {I : σ → Prop} (hkeep : ∀ s label, I s → I (step s label)) (h : I s) (schedule : ℕ → κ) :
    ∀ n, I (after step s schedule n)
  | 0 => h
  | n + 1 => hkeep _ _ (after_invariant hkeep h schedule n)

section Rank

variable [Preorder ρ] {Live : σ → Prop} {rank : σ → ρ} {Owed : σ → δ → Prop} {Delivers : κ → δ → Prop}

/-- Nothing happened that matters: the rank has not grown, and what is owed stays owed. -/
def Waits (step : σ → κ → σ) (rank : σ → ρ) (Owed : σ → δ → Prop) (Delivers : κ → δ → Prop) (s : σ) (label : κ) :
    Prop :=
  rank (step s label) ≤ rank s ∧ ∀ due, Owed s due → Owed (step s label) due ∧ ¬ Delivers label due

/-- While the system only waits, the first debt stays. -/
theorem owed_of_waits {n : ℕ} {due : δ} (h : Owed (after step s schedule n) due) {m : ℕ} (hle : n ≤ m)
    (hwaits : ∀ k, n ≤ k → k < m → Waits step rank Owed Delivers (after step s schedule k) (schedule k)) :
    Owed (after step s schedule m) due ∧ rank (after step s schedule m) ≤ rank (after step s schedule n) := by
  induction hle with
  | refl => exact ⟨h, le_refl _⟩
  | step hle ih =>
    obtain ⟨howed, hrank⟩ := ih fun k hk hlt => hwaits k hk (Nat.lt_succ_of_lt hlt)
    have hlast := hwaits _ hle (Nat.lt_succ_self _)
    exact ⟨(hlast.2 due howed).1, le_trans hlast.1 hrank⟩

variable [WellFoundedLT ρ] {I : σ → Prop}

/-- **Progress**: a fair schedule does not keep the system alive for ever. -/
theorem ends_of_rank (hkeep : ∀ s label, I s → I (step s label))
    (howed : ∀ s, I s → Live s → ∃ due, Owed s due)
    (hstep : ∀ s label, I s → Live s → Live (step s label) →
      rank (step s label) < rank s ∨ Waits step rank Owed Delivers s label)
    (hI : I s) (hfair : Fair step Owed Delivers s schedule) (n : ℕ) :
    ∃ m, n ≤ m ∧ ¬ Live (after step s schedule m) := by
  -- otherwise the system lives from `n` on, and the rank falls again and again
  by_contra hnot
  have hlive : ∀ m, n ≤ m → Live (after step s schedule m) := fun m hm => by_contra fun hdead => hnot ⟨m, hm, hdead⟩
  have hfalls : ∀ r, ∀ k, n ≤ k → rank (after step s schedule k) = r → False := by
    intro r
    induction r using WellFoundedLT.induction with
    | ind r ih =>
      intro k hk hr
      have hinv := after_invariant hkeep hI schedule
      obtain ⟨due, hdue⟩ := howed _ (hinv k) (hlive k hk)
      obtain ⟨m, hkm, hm⟩ := hfair k due hdue
      have hwaits : ∀ j, k ≤ j → Waits step rank Owed Delivers (after step s schedule j) (schedule j) := by
        intro j
        induction j using Nat.strong_induction_on with
        | h j before =>
          intro hj
          have hnj := Nat.le_trans hk hj
          rcases hstep _ (schedule j) (hinv j) (hlive j hnj) (hlive (j + 1) (Nat.le_succ_of_le hnj)) with hless | h
          · have hle := (owed_of_waits hdue hj fun i hi hlt => before i hlt hi).2
            exact absurd rfl (ih _ (hr ▸ lt_of_lt_of_le hless hle) (j + 1) (Nat.le_succ_of_le hnj))
          · exact h
      have hstill := (owed_of_waits hdue hkm fun j hj _ => hwaits j hj).1
      rcases hm with hdelivers | hoff
      · exact ((hwaits m hkm).2 due hstill).2 hdelivers
      · exact hoff hstill
  exact hfalls _ n (Nat.le_refl n) rfl

end Rank

end BreezeDesk.Progress
