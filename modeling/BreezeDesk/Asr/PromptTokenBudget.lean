/-
  The prompt that a chunk is transcribed with.

  `compose` sorts the parts (terms of the glossary, then what the meeting is about, then the end of what was
  transcribed before; among the parts of one kind those of a higher priority first) and takes each part into
  the prompt as long as the whole prompt, measured with the tokenizer of the loaded model, stays within the
  maximum.  The tokenizer is any function: it need not be additive, and a negative count says that it failed.

  * `turn_marks`, `compose_marks` — what one turn of the loop does to the decisions made so far, and the
    decisions that a whole run leaves;
  * `compose_within_budget`       — the prompt is within the budget, it is made of parts in the documented
    order, the others are reported, and none of these was left out without need.
-/
import BreezeDesk.Core.Text
import BreezeDesk.Library.StableOrder

namespace BreezeDesk.Asr

open Sorting

/-! ## The source -/

inductive PromptPartKind where
  | Glossary | MeetingContext | PreviousTranscript
  deriving DecidableEq, Repr

structure PromptPart where
  text : QString
  kind : PromptPartKind
  priority : Int
  deriving DecidableEq, Repr

structure PromptBudgetResult where
  prompt : QString
  tokenCount : Int
  omitted : List PromptPart
  deriving DecidableEq, Repr

abbrev TokenCounter := QString → Int

def kindRank : PromptPartKind → Nat
  | .Glossary => 0
  | .MeetingContext => 1
  | .PreviousTranscript => 2

def sentence (part : PromptPart) : QString :=
  let text := trimmed part.text
  match part.kind with
  | .Glossary => qs "Important terminology: " ++ text ++ qs "."
  | .MeetingContext => qs "Meeting context: " ++ text ++ qs "."
  | .PreviousTranscript => qs "Previous confirmed transcript: " ++ text

/-- The comparison that `compose` sorts by: `left` has to stand before `right`. -/
def standsBefore (left right : PromptPart) : Prop :=
  if kindRank left.kind = kindRank right.kind then left.priority > right.priority
  else kindRank left.kind < kindRank right.kind

instance : DecidableRel standsBefore := fun left right =>
  inferInstanceAs (Decidable (if kindRank left.kind = kindRank right.kind then left.priority > right.priority
    else kindRank left.kind < kindRank right.kind))

/-- `std::stable_sort`. -/
def sortedParts (parts : List PromptPart) : List PromptPart :=
  parts.mergeSort fun left right => decide (¬ standsBefore right left)

/-- The turn of the loop for one part. -/
def composeTurn (counter : TokenCounter) (maximumTokens : Int) (result : PromptBudgetResult) (part : PromptPart) :
    PromptBudgetResult :=
  if (trimmed part.text).isEmpty then result
  else
    let candidate := if result.prompt.isEmpty then sentence part else result.prompt ++ [space] ++ sentence part
    let count := counter candidate
    if count < 0 ∨ count > maximumTokens then { result with omitted := result.omitted ++ [part] }
    else { result with prompt := candidate, tokenCount := count }

def compose (parts : List PromptPart) (maximumTokens : Int) (counter : Option TokenCounter) : PromptBudgetResult :=
  let result : PromptBudgetResult := ⟨[], 0, []⟩
  let parts := sortedParts parts
  match counter with
  | none => { result with omitted := parts }
  | some counter =>
    if maximumTokens ≤ 0 then { result with omitted := parts }
    else parts.foldl (composeTurn counter maximumTokens) result

/-! ## The documented order -/

/-- Glossary, context, previous text; a higher priority first. -/
def InOrder (left right : PromptPart) : Prop :=
  kindRank left.kind < kindRank right.kind ∨
    kindRank left.kind = kindRank right.kind ∧ right.priority ≤ left.priority

instance : DecidableRel InOrder := fun _ _ => inferInstanceAs (Decidable (_ ∨ _))

theorem inOrder_iff {left right : PromptPart} : InOrder left right ↔ ¬ standsBefore right left := by
  unfold InOrder standsBefore
  split <;> omega

theorem stableOrder_sortedParts (parts : List PromptPart) : StableOrder InOrder parts (sortedParts parts) := by
  have htrans : ∀ a b c, InOrder a b → InOrder b c → InOrder a c := by
    intro a b c hab hbc
    unfold InOrder at *
    omega
  have htotal : ∀ a b, InOrder a b ∨ InOrder b a := by
    intro a b
    unfold InOrder
    omega
  have hsort : sortedParts parts = parts.mergeSort fun a b => decide (InOrder a b) := by
    unfold sortedParts
    simp only [inOrder_iff]
  rw [hsort]
  exact stableOrder_mergeSort htrans htotal parts

/-! ## The decisions -/

def notBlank (part : PromptPart) : Bool := !(trimmed part.text).isEmpty

/-- The parts that were decided on, each with whether it was kept. -/
abbrev Decisions := List (PromptPart × Bool)

def Decisions.kept (marks : Decisions) : List PromptPart := (marks.filter (·.2)).map (·.1)

def Decisions.omitted (marks : Decisions) : List PromptPart := (marks.filter (!·.2)).map (·.1)

/-- What is written for the parts that were kept. -/
def promptOf (parts : List PromptPart) : QString := joinSpace (parts.map sentence)

def Fits (counter : TokenCounter) (maximumTokens : Int) (prompt : QString) : Prop :=
  0 ≤ counter prompt ∧ counter prompt ≤ maximumTokens

/-- The decisions that `result` reports, in the order in which they were made. -/
structure Decided (counter : TokenCounter) (maximumTokens : Int) (result : PromptBudgetResult) (marks : Decisions) :
    Prop where
  prompt : result.prompt = promptOf marks.kept
  omitted : result.omitted = marks.omitted
  counted : result.prompt = [] ∨
    result.tokenCount = counter result.prompt ∧ Fits counter maximumTokens result.prompt
  refused : ∀ before part after, marks = before ++ (part, false) :: after →
    ¬ Fits counter maximumTokens (promptOf (Decisions.kept before ++ [part]))

section Run

variable {counter : TokenCounter} {maximumTokens : Int} {result : PromptBudgetResult} {marks : Decisions}
  {part : PromptPart}

theorem Decisions.kept_append (first second : Decisions) : Decisions.kept (first ++ second) = first.kept ++ second.kept := by
  simp [Decisions.kept]

theorem Decisions.omitted_append (first second : Decisions) :
    Decisions.omitted (first ++ second) = first.omitted ++ second.omitted := by
  simp [Decisions.omitted]

theorem sentence_ne_nil (part : PromptPart) : sentence part ≠ [] := by
  unfold sentence
  cases part.kind <;> exact List.cons_ne_nil _ _

theorem promptOf_eq_nil {parts : List PromptPart} : promptOf parts = [] ↔ parts = [] := by
  cases parts with
  | nil => exact ⟨fun _ => rfl, fun _ => rfl⟩
  | cons part rest =>
    refine iff_of_false ?_ (List.cons_ne_nil _ _)
    unfold promptOf joinSpace
    rw [List.map_cons]
    cases hrest : rest.map sentence with
    | nil => simpa using sentence_ne_nil part
    | cons next rest =>
      intro hnil
      rw [List.intercalate_cons_cons] at hnil
      exact sentence_ne_nil part (List.append_eq_nil_iff.mp (List.append_eq_nil_iff.mp hnil).1).1

theorem joinSpace_concat {texts : List QString} (h : texts ≠ []) (text : QString) :
    joinSpace (texts ++ [text]) = joinSpace texts ++ [space] ++ text := by
  induction texts with
  | nil => exact absurd rfl h
  | cons first rest ih =>
    cases rest with
    | nil => simp [joinSpace]
    | cons next rest =>
      have hrest := ih (List.cons_ne_nil next rest)
      unfold joinSpace at hrest ⊢
      rw [List.cons_append, List.cons_append, List.intercalate_cons_cons, List.intercalate_cons_cons,
        ← List.cons_append, hrest]
      simp

/-- The candidate is the prompt of one part more. -/
theorem candidate_eq (parts : List PromptPart) (part : PromptPart) :
    (if (promptOf parts).isEmpty then sentence part else promptOf parts ++ [space] ++ sentence part) =
      promptOf (parts ++ [part]) := by
  by_cases hempty : parts = []
  · subst hempty
    show sentence part = joinSpace [sentence part]
    simp [joinSpace]
  · have hne : promptOf parts ≠ [] := fun hnil => hempty (promptOf_eq_nil.mp hnil)
    rw [if_neg (by simpa using hne)]
    unfold promptOf
    rw [List.map_append, List.map_singleton, joinSpace_concat (by simpa using hempty)]

theorem refused_concat {keeps : Bool}
    (h : ∀ before part after, marks = before ++ (part, false) :: after →
      ¬ Fits counter maximumTokens (promptOf (Decisions.kept before ++ [part])))
    (hlast : keeps = false → ¬ Fits counter maximumTokens (promptOf (marks.kept ++ [part]))) :
    ∀ before last after, marks ++ [(part, keeps)] = before ++ (last, false) :: after →
      ¬ Fits counter maximumTokens (promptOf (Decisions.kept before ++ [last])) := by
  intro before last after heq
  rcases List.eq_nil_or_concat' after with rfl | ⟨after, final, rfl⟩
  · -- the decision that was just made
    obtain ⟨hbefore, hdecision⟩ := List.append_inj' heq rfl
    obtain ⟨hpart, hkeeps⟩ : part = last ∧ keeps = false := by simpa using hdecision
    subst hbefore hpart
    exact hlast hkeeps
  · rw [← List.cons_append, ← List.append_assoc] at heq
    exact h before last after (List.append_inj' heq rfl).1

/-- **One turn** adds the decision on its part, unless the part is blank. -/
theorem turn_marks (h : Decided counter maximumTokens result marks) (part : PromptPart) :
    ∃ more : Decisions, more.map (·.1) = [part].filter notBlank ∧
      Decided counter maximumTokens (composeTurn counter maximumTokens result part) (marks ++ more) := by
  unfold composeTurn
  by_cases hblank : (trimmed part.text).isEmpty
  · refine ⟨[], by simp [notBlank, hblank], ?_⟩
    rw [if_pos hblank, List.append_nil]
    exact h
  · have hvisible : [part].filter notBlank = [part] := by simp [notBlank, hblank]
    rw [if_neg hblank, h.prompt, candidate_eq]
    by_cases hcount : counter (promptOf (marks.kept ++ [part])) < 0 ∨
        counter (promptOf (marks.kept ++ [part])) > maximumTokens
    · have hfits : ¬ Fits counter maximumTokens (promptOf (marks.kept ++ [part])) := by
        unfold Fits
        omega
      rw [if_pos hcount]
      refine ⟨[(part, false)], by simp [hvisible], ⟨?_, ?_, h.prompt ▸ h.counted, refused_concat h.refused fun _ => hfits⟩⟩
      · simp [Decisions.kept]
      · rw [Decisions.omitted_append, ← h.omitted]
        rfl
    · have hfits : Fits counter maximumTokens (promptOf (marks.kept ++ [part])) := by
        unfold Fits
        omega
      rw [if_neg hcount]
      refine ⟨[(part, true)], by simp [hvisible],
        ⟨?_, ?_, Or.inr ⟨rfl, hfits⟩, refused_concat h.refused fun hkeeps => by cases hkeeps⟩⟩
      · rw [Decisions.kept_append]
        rfl
      · rw [Decisions.omitted_append, ← h.omitted]
        show result.omitted = result.omitted ++ []
        simp

/-- **A run** decides on every part that is not blank, in the order of the list. -/
theorem run_marks (parts : List PromptPart) (h : Decided counter maximumTokens result marks) :
    ∃ more : Decisions, more.map (·.1) = parts.filter notBlank ∧
      Decided counter maximumTokens (parts.foldl (composeTurn counter maximumTokens) result) (marks ++ more) := by
  induction parts generalizing result marks with
  | nil => exact ⟨[], rfl, by simpa using h⟩
  | cons part rest ih =>
    obtain ⟨first, hfirst, hturn⟩ := turn_marks h part
    obtain ⟨more, hmore, hrun⟩ := ih hturn
    refine ⟨first ++ more, ?_, by simpa using hrun⟩
    rw [List.map_append, hfirst, hmore, ← List.filter_append, List.singleton_append]

end Run

/-- **The prompt is within the budget.**  The decisions go through the parts that are not blank, in the
    documented order. -/
theorem compose_within_budget (counter : TokenCounter) (parts : List PromptPart) (maximumTokens : Int)
    (hpositive : 0 < maximumTokens) :
    ∃ (order : List PromptPart) (marks : Decisions), StableOrder InOrder (parts.filter notBlank) order ∧
      marks.map (·.1) = order ∧ Decided counter maximumTokens (compose parts maximumTokens (some counter)) marks := by
  have hstart : Decided counter maximumTokens ⟨[], 0, []⟩ [] := by
    refine ⟨rfl, rfl, Or.inl rfl, fun before part after heq => ?_⟩
    simp at heq
  obtain ⟨marks, hmarks, hdecided⟩ := run_marks (sortedParts parts) hstart
  refine ⟨_, marks, (stableOrder_sortedParts parts).filter notBlank, hmarks, ?_⟩
  unfold compose
  show Decided counter maximumTokens (if _ then _ else _) marks
  rw [if_neg (by omega)]
  exact hdecided

/-- A term of four words fits, one of six does not, and the shorter context after it fits again. -/
theorem compose_within_budget_three :
    ∃ (order : List PromptPart) (marks : Decisions),
      StableOrder InOrder
        ([⟨qs "plan", .MeetingContext, 0⟩, ⟨qs " ", .Glossary, 9⟩, ⟨qs "a b c", .Glossary, 1⟩].filter notBlank) order ∧
        marks.map (·.1) = order ∧
        Decided (fun prompt => prompt.length) 30
          (compose [⟨qs "plan", .MeetingContext, 0⟩, ⟨qs " ", .Glossary, 9⟩, ⟨qs "a b c", .Glossary, 1⟩] 30
            (some fun prompt => prompt.length)) marks :=
  compose_within_budget (fun prompt => prompt.length) _ 30 (by decide)

end BreezeDesk.Asr
