/-
  Ledgers: lists that only grow at the end, where each entry is justified by those before it.

  * `justified_concat`    — an entry that is justified by the whole ledger can be added;
  * `Justified.pairwise`  — what justification says about every earlier entry holds between all pairs;
  * `count_le_one`        — a kind of entry that excludes itself occurs at most once.

  Nothing here mentions a particular program.
-/
import Mathlib.Data.List.Induction
import Mathlib.Data.List.Pairwise

namespace BreezeDesk.Ledger

variable {α : Type*} {rule : List α → α → Prop} {ledger : List α}

/-- Every entry meets the rule, given the entries before it. -/
def Justified (rule : List α → α → Prop) (ledger : List α) : Prop :=
  ∀ before entry after, ledger = before ++ entry :: after → rule before entry

theorem justified_nil : Justified rule [] := by
  intro before entry after h
  cases before <;> cases h

theorem justified_concat {entry : α} (h : Justified rule ledger) (hentry : rule ledger entry) :
    Justified rule (ledger ++ [entry]) := by
  intro before other after hsplit
  rcases List.eq_nil_or_concat after with rfl | ⟨rest, last, rfl⟩
  · obtain ⟨rfl, hlast⟩ := List.append_inj' hsplit rfl
    cases hlast
    exact hentry
  · have hassoc : ledger ++ [entry] = (before ++ other :: rest) ++ [last] := by
      rw [hsplit, List.concat_eq_append, List.append_assoc]
      rfl
    obtain ⟨hbefore, -⟩ := List.append_inj' hassoc rfl
    exact h before other rest hbefore

theorem Justified.of_concat {entry : α} (h : Justified rule (ledger ++ [entry])) : Justified rule ledger := by
  intro before other after hsplit
  refine h before other (after ++ [entry]) ?_
  rw [hsplit, List.append_assoc]
  rfl

theorem Justified.pairwise {R : α → α → Prop} (hrule : ∀ before entry, rule before entry → ∀ a ∈ before, R a entry) :
    ∀ {ledger : List α}, Justified rule ledger → ledger.Pairwise R := by
  intro ledger
  induction ledger using List.reverseRecOn with
  | nil => exact fun _ => List.Pairwise.nil
  | append_singleton before entry ih =>
    intro h
    refine List.pairwise_append.mpr ⟨ih h.of_concat, List.pairwise_singleton .., fun a ha b hb => ?_⟩
    rw [List.mem_singleton.mp hb]
    exact hrule before entry (h before entry [] rfl) a ha

/-- Two entries of the kind cannot both be there. -/
theorem count_le_one {kind : α → Bool} (h : ledger.Pairwise fun a b => ¬ (kind a = true ∧ kind b = true)) :
    ledger.countP kind ≤ 1 := by
  induction h with
  | nil => exact Nat.zero_le 1
  | cons hfirst _ ih =>
    rename_i a rest _
    cases ha : kind a with
    | false =>
      rw [List.countP_cons_of_neg (by simp [ha])]
      exact ih
    | true =>
      have hnone : rest.countP kind = 0 := List.countP_eq_zero.mpr fun b hb hkind => hfirst b hb ⟨ha, hkind⟩
      rw [List.countP_cons_of_pos ha]
      omega

end BreezeDesk.Ledger
