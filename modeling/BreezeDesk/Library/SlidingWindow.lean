/-
  Limiting how often something happens, with a list of the recent times.

  Times come in order.  Those that are too old are dropped from the front of the list (`prune`), and a new one
  is admitted when fewer than a number of them are left.

  * `Tracks.prune`     — after dropping, the list holds exactly the admitted times of the window that ends now;
  * `Tracks.admit`     — admitting a time keeps the list true;
  * `Limited.admit`    — when fewer than the limit are left, no window has more than the limit afterwards.

  Nothing here mentions a particular program.
-/
import Mathlib.Algebra.Order.Group.Basic
import Mathlib.Algebra.Order.Sub.Basic
import Mathlib.Data.List.Basic
import Mathlib.Data.List.TakeWhile

namespace BreezeDesk.SlidingWindow

variable {τ : Type*} [AddCommGroup τ] [LinearOrder τ]

def prune (window now : τ) (recent : List τ) : List τ := recent.dropWhile (· < now - window)

/-- `recent` is what is left of the admitted times; what was dropped is older than the window. -/
structure Tracks (window last : τ) (admitted recent : List τ) : Prop where
  sorted : admitted.Pairwise (· ≤ ·)
  le_last : ∀ t ∈ admitted, t ≤ last
  dropped : ∃ old, admitted = old ++ recent ∧ ∀ t ∈ old, t < last - window

/-- At most `limit` of the times lie in any window, its ends included. -/
def Limited (window : τ) (limit : Nat) (times : List τ) : Prop :=
  ∀ start, (times.filter fun t => start ≤ t ∧ t ≤ start + window).length ≤ limit

variable {window last now : τ} {limit : Nat} {admitted recent : List τ}

theorem tracks_nil (window last : τ) : Tracks window last [] [] :=
  ⟨List.Pairwise.nil, fun _ ht => absurd ht List.not_mem_nil, [], rfl, fun _ ht => absurd ht List.not_mem_nil⟩

theorem limited_nil (window : τ) (limit : Nat) : Limited window limit [] := fun _ => Nat.zero_le _

theorem Tracks.prune [IsOrderedAddMonoid τ] (h : Tracks window last admitted recent) (hlast : last ≤ now) :
    Tracks window now admitted (prune window now recent) := by
  obtain ⟨old, hadmitted, hold⟩ := h.dropped
  refine ⟨h.sorted, fun t ht => (h.le_last t ht).trans hlast,
    old ++ recent.takeWhile (· < now - window), ?_, fun t ht => ?_⟩
  · rw [hadmitted, List.append_assoc]
    unfold SlidingWindow.prune
    rw [List.takeWhile_append_dropWhile]
  · rcases List.mem_append.mp ht with ht | ht
    · exact (hold t ht).trans_le (sub_le_sub_right hlast window)
    · have hyoung := List.mem_takeWhile_imp (p := fun t => decide (t < now - window)) ht
      exact of_decide_eq_true hyoung

/-- **What is left** are the admitted times of the window. -/
theorem Tracks.prune_eq [IsOrderedAddMonoid τ] (h : Tracks window last admitted recent) (hlast : last ≤ now) :
    SlidingWindow.prune window now recent = admitted.filter (now - window ≤ ·) := by
  have hpruned := h.prune hlast
  obtain ⟨old, hadmitted, hold⟩ := hpruned.dropped
  have hnone : old.filter (now - window ≤ ·) = [] := by
    refine List.filter_eq_nil_iff.mpr fun t ht => ?_
    rw [decide_eq_true_eq, not_le]
    exact hold t ht
  -- the first of those that are left is young enough, and the others are not older
  have hall : (SlidingWindow.prune window now recent).filter (now - window ≤ ·) =
      SlidingWindow.prune window now recent := by
    refine List.filter_eq_self.mpr fun t ht => decide_eq_true ?_
    have hsorted := hpruned.sorted
    rw [hadmitted] at hsorted
    have hsorted := (List.pairwise_append.mp hsorted).2.1
    unfold SlidingWindow.prune at ht hsorted
    cases hleft : recent.dropWhile (· < now - window) with
    | nil =>
      rw [hleft] at ht
      cases ht
    | cons first rest =>
      rw [hleft] at ht hsorted
      have hfirst := List.head_dropWhile_not (fun t => decide (t < now - window)) (l := recent) (by simp [hleft])
      simp only [hleft, List.head_cons, decide_eq_false_iff_not, not_lt] at hfirst
      rcases List.mem_cons.mp ht with rfl | ht
      · exact hfirst
      · exact hfirst.trans ((List.pairwise_cons.mp hsorted).1 t ht)
  rw [hadmitted, List.filter_append, hnone, List.nil_append, hall]

theorem Tracks.admit (h : Tracks window now admitted recent) :
    Tracks window now (admitted ++ [now]) (recent ++ [now]) := by
  obtain ⟨old, hadmitted, hold⟩ := h.dropped
  refine ⟨?_, fun t ht => ?_, old, by rw [hadmitted, List.append_assoc], hold⟩
  · refine List.pairwise_append.mpr ⟨h.sorted, List.pairwise_singleton _ _, fun t ht last hlast => ?_⟩
    obtain rfl := List.mem_singleton.mp hlast
    exact h.le_last t ht
  · rcases List.mem_append.mp ht with ht | ht
    · exact h.le_last t ht
    · exact (List.mem_singleton.mp ht).le

/-- **Admitting a time** when fewer than the limit are left in the window that ends with it. -/
theorem Limited.admit [IsOrderedAddMonoid τ] (h : Limited window limit admitted)
    (hfew : (admitted.filter (now - window ≤ ·)).length < limit) : Limited window limit (admitted ++ [now]) := by
  intro start
  rw [List.filter_append, List.length_append]
  by_cases hin : start ≤ now ∧ now ≤ start + window
  · -- a window that reaches the new time has no others than those that were counted
    have hsub : (admitted.filter fun t => start ≤ t ∧ t ≤ start + window).length ≤
        (admitted.filter (now - window ≤ ·)).length := by
      refine (List.monotone_filter_right admitted fun t ht => ?_).length_le
      have ht := of_decide_eq_true ht
      exact decide_eq_true ((sub_le_iff_le_add.mpr hin.2).trans ht.1)
    have hone : ([now].filter fun t => start ≤ t ∧ t ≤ start + window).length = 1 := by simp [hin]
    omega
  · have hzero : ([now].filter fun t => start ≤ t ∧ t ≤ start + window).length = 0 := by
      simpa using fun hle => lt_of_not_ge fun hge => hin ⟨hle, hge⟩
    have hbefore := h start
    omega

end BreezeDesk.SlidingWindow
