/-
  What is visible of a text: its characters without the white space.

  Trimming and simplifying lose nothing of it, and a text of which nothing is visible is blank.
-/
import BreezeDesk.App.BoundaryTexts

namespace BreezeDesk

open App (SplitsAtSpaces)

/-- A text without its white space. -/
def visible (text : QString) : QString := text.filter fun c => !isSpace c

def Blank (text : QString) : Prop := trimmed text = []

instance (text : QString) : Decidable (Blank text) := inferInstanceAs (Decidable (_ = _))

theorem visible_append (first second : QString) : visible (first ++ second) = visible first ++ visible second :=
  List.filter_append ..

theorem visible_splits : SplitsAtSpaces visible where
  nil := rfl
  append := by
    intro c hspace first second
    rw [visible_append]
    unfold visible
    rw [List.filter_cons_of_neg (by rw [hspace]; exact Bool.false_ne_true)]

theorem visible_trimmed (text : QString) : visible (trimmed text) = visible text := visible_splits.trimmed text

theorem visible_eq_nil {text : QString} : visible text = [] ↔ Blank text := by
  unfold Blank
  rw [trimmed_eq_nil_iff]
  unfold visible
  rw [List.filter_eq_nil_iff]
  refine forall₂_congr fun c _ => ?_
  rw [Bool.not_eq_true', Bool.not_eq_false]

theorem mem_visible {text : QString} {c : QChar} : c ∈ visible text ↔ c ∈ text ∧ isSpace c = false := by
  unfold visible
  rw [List.mem_filter, Bool.not_eq_true']

end BreezeDesk
