/-
  Bisection for the largest number that fits.

  `search` is the usual loop with a lower bound, an upper bound and the best number so far; the bounds are
  integers, since the upper one goes below zero where nothing but zero is left.  Where smaller numbers fit
  whenever larger ones do, and zero fits, the loop finds the greatest number that fits (`search_greatest`).

  Nothing here mentions a particular program.
-/
import Mathlib.Order.Bounds.Defs

namespace BreezeDesk.Bisection

def search (fits : Int → Bool) (lower upper best : Int) : Int :=
  if lower ≤ upper then
    let midpoint := lower + (upper - lower) / 2
    if fits midpoint then search fits (midpoint + 1) upper midpoint
    else search fits lower (midpoint - 1) best
  else best
termination_by (upper + 1 - lower).toNat
decreasing_by all_goals omega

variable {fits : Int → Bool} {size : Int}

/-- The loop, by its own recursion: what lies below `lower` has been tried with success, `best` last of all, and
    what lies above `upper` does not fit. -/
theorem search_spec (hsize : 0 ≤ size)
    (hdown : ∀ a b, 0 ≤ a → a ≤ b → b ≤ size → fits b = true → fits a = true) :
    ∀ lower upper best : Int, 0 ≤ lower → upper ≤ size → lower ≤ upper + 1 →
      (0 < lower → best = lower - 1 ∧ fits best = true) → (lower = 0 → best = 0 ∧ fits 0 = true) →
      (∀ m, upper < m → m ≤ size → fits m = false) →
      (0 ≤ search fits lower upper best ∧ search fits lower upper best ≤ size ∧
        fits (search fits lower upper best) = true) ∧
        ∀ m, search fits lower upper best < m → m ≤ size → fits m = false := by
  intro lower upper best
  induction lower, upper, best using search.induct fits with
  | case1 lower upper best hle midpoint hfits ih =>
    intro hlower hupper _ _ _ habove
    rw [search, if_pos hle]
    simp only
    rw [if_pos hfits]
    refine ih (by omega) hupper (by omega) (fun _ => ⟨by omega, hfits⟩) (fun hzero => ?_) habove
    omega
  | case2 lower upper best hle midpoint hfits ih =>
    intro hlower hupper _ hbest hzero habove
    rw [search, if_pos hle]
    simp only
    rw [if_neg hfits]
    refine ih hlower (by omega) (by omega) hbest hzero fun m hm hle => ?_
    cases hm' : fits m with
    | false => rfl
    | true => exact absurd (hdown midpoint m (by omega) (by omega) hle hm') hfits
  | case3 lower upper best hgt =>
    intro hlower hupper hnext hbest hzero habove
    rw [search, if_neg hgt]
    rcases Int.lt_or_eq_of_le hlower with hpos | hstart
    · obtain ⟨hlast, hfits⟩ := hbest hpos
      exact ⟨⟨by omega, by omega, hfits⟩, fun m hm hle => habove m (by omega) hle⟩
    · obtain ⟨hlast, hfits⟩ := hzero hstart.symm
      rw [hlast]
      exact ⟨⟨Int.le_refl 0, hsize, hfits⟩, fun m hm hle => habove m (by omega) hle⟩

/-- **Bisection** finds the greatest number that fits. -/
theorem search_greatest (hsize : 0 ≤ size)
    (hdown : ∀ a b, 0 ≤ a → a ≤ b → b ≤ size → fits b = true → fits a = true) (hzero : fits 0 = true) :
    IsGreatest {m | 0 ≤ m ∧ m ≤ size ∧ fits m = true} (search fits 0 size 0) := by
  obtain ⟨hmem, habove⟩ := search_spec hsize hdown 0 size 0 (Int.le_refl 0) (Int.le_refl size) (by omega)
    (fun hlt => absurd hlt (Int.lt_irrefl 0)) (fun _ => ⟨rfl, hzero⟩) fun m hm hle => absurd hm (by omega)
  refine ⟨hmem, fun m hm => ?_⟩
  obtain ⟨-, hle, hfits⟩ := hm
  by_cases hlt : search fits 0 size 0 < m
  · exact absurd (hfits.symm.trans (habove m hlt hle)) nofun
  · omega

end BreezeDesk.Bisection
