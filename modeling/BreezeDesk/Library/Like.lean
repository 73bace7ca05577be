/-
  Patterns with wildcards, as the `LIKE` operator of SQL has them.

  A pattern is a text in which one character stands for any sequence of characters and another one for any
  single character; behind the escape character, when there is one, the next character stands for itself
  (`pieces`).  Characters are equal when a function that folds their case says so.

  * `matchPieces_lits`, `matchPieces_many` — what the pieces of a pattern match;
  * `like_contains`    — an escaped text between two sequences matches what contains the text;
  * `like_plain`       — so does a text without wildcards, when there is no escape character.

  Nothing here mentions a particular program.
-/
import Mathlib.Data.List.Infix

namespace BreezeDesk.Like

variable {α κ : Type*}

/-- The characters of a pattern that do not stand for themselves. -/
structure Wildcards (α : Type*) where
  many : α
  one : α
  escape : Option α

inductive Piece (α : Type*) where
  | many | one
  | lit (c : α)
  deriving DecidableEq, Repr

def piece [DecidableEq α] (w : Wildcards α) (c : α) : Piece α :=
  if c = w.many then .many else if c = w.one then .one else .lit c

/-- The pieces of a pattern; a pattern that ends with the escape character is no pattern. -/
def pieces [DecidableEq α] (w : Wildcards α) : List α → Option (List (Piece α))
  | [] => some []
  | c :: rest =>
    if w.escape = some c then
      match rest with
      | [] => none
      | d :: rest => (pieces w rest).map (.lit d :: ·)
    else (pieces w rest).map (piece w c :: ·)

def matchPieces [DecidableEq κ] (fold : α → κ) : List (Piece α) → List α → Bool
  | [], text => text.isEmpty
  | .many :: rest, text => text.tails.any (matchPieces fold rest)
  | .one :: rest, _ :: text => matchPieces fold rest text
  | .lit c :: rest, d :: text => fold c = fold d && matchPieces fold rest text
  | .one :: _, [] => false
  | .lit _ :: _, [] => false

/-- `text LIKE pattern`. -/
def like [DecidableEq α] [DecidableEq κ] (fold : α → κ) (w : Wildcards α) (pattern text : List α) : Bool :=
  match pieces w pattern with
  | none => false
  | some pattern => matchPieces fold pattern text

/-- `text` contains `token`, up to case. -/
def Contains (fold : α → κ) (token text : List α) : Prop := token.map fold <:+: text.map fold

instance [DecidableEq κ] (fold : α → κ) (token text : List α) : Decidable (Contains fold token text) :=
  inferInstanceAs (Decidable (_ <:+: _))

theorem contains_iff {fold : α → κ} {token text : List α} : Contains fold token text ↔
    ∃ before middle after, text = before ++ (middle ++ after) ∧ middle.map fold = token.map fold := by
  unfold Contains
  constructor
  · rintro ⟨before, after, heq⟩
    obtain ⟨front, after', rfl, hfront, -⟩ := List.map_eq_append_iff.mp heq.symm
    obtain ⟨before', middle, rfl, -, hmiddle⟩ := List.map_eq_append_iff.mp hfront
    exact ⟨before', middle, after', by simp, hmiddle⟩
  · rintro ⟨before, middle, after, rfl, hmiddle⟩
    exact ⟨before.map fold, after.map fold, by simp [hmiddle]⟩

/-! ## Matching -/

variable [DecidableEq κ] {fold : α → κ}

theorem matchPieces_many {rest : List (Piece α)} {text : List α} : matchPieces fold (.many :: rest) text = true ↔
    ∃ before after, text = before ++ after ∧ matchPieces fold rest after = true := by
  show text.tails.any (matchPieces fold rest) = true ↔ _
  rw [List.any_eq_true]
  constructor
  · rintro ⟨after, hsuffix, hmatch⟩
    obtain ⟨before, rfl⟩ := (List.mem_tails _ _).mp hsuffix
    exact ⟨before, after, rfl, hmatch⟩
  · rintro ⟨before, after, rfl, hmatch⟩
    exact ⟨after, (List.mem_tails _ _).mpr (List.suffix_append before after), hmatch⟩

theorem matchPieces_lits {rest : List (Piece α)} (token : List α) : ∀ {text : List α},
    matchPieces fold (token.map .lit ++ rest) text = true ↔
      ∃ middle after, text = middle ++ after ∧ middle.map fold = token.map fold ∧
        matchPieces fold rest after = true := by
  induction token with
  | nil =>
    intro text
    constructor
    · intro hmatch
      exact ⟨[], text, rfl, rfl, hmatch⟩
    · rintro ⟨middle, after, rfl, hmiddle, hmatch⟩
      obtain rfl := List.map_eq_nil_iff.mp hmiddle
      exact hmatch
  | cons c token ih =>
    intro text
    cases text with
    | nil =>
      refine iff_of_false (fun hmatch => by cases hmatch) ?_
      rintro ⟨middle, after, heq, hmiddle, -⟩
      obtain ⟨rfl, -⟩ := List.append_eq_nil_iff.mp heq.symm
      cases hmiddle
    | cons d text =>
      show (fold c = fold d && matchPieces fold (token.map .lit ++ rest) text) = true ↔ _
      rw [Bool.and_eq_true, decide_eq_true_eq, ih]
      constructor
      · rintro ⟨hfold, middle, after, rfl, hmiddle, hmatch⟩
        exact ⟨d :: middle, after, rfl, by simp [hfold, hmiddle], hmatch⟩
      · rintro ⟨middle, after, heq, hmiddle, hmatch⟩
        cases middle with
        | nil => cases hmiddle
        | cons e middle =>
          obtain ⟨rfl, rfl⟩ : d = e ∧ text = middle ++ after := by simpa using heq
          obtain ⟨hfold, hmiddle⟩ : fold d = fold c ∧ middle.map fold = token.map fold := by simpa using hmiddle
          exact ⟨hfold.symm, middle, after, rfl, hmiddle, hmatch⟩

theorem matchPieces_all (text : List α) : matchPieces fold [.many] text = true :=
  matchPieces_many.mpr ⟨text, [], (List.append_nil text).symm, rfl⟩

theorem matchPieces_between (token text : List α) :
    matchPieces fold (.many :: (token.map .lit ++ [.many])) text = true ↔ Contains fold token text := by
  rw [matchPieces_many, contains_iff]
  constructor
  · rintro ⟨before, rest, rfl, hmatch⟩
    obtain ⟨middle, after, rfl, hmiddle, -⟩ := (matchPieces_lits token).mp hmatch
    exact ⟨before, middle, after, rfl, hmiddle⟩
  · rintro ⟨before, middle, after, rfl, hmiddle⟩
    exact ⟨before, _, rfl, (matchPieces_lits token).mpr ⟨middle, after, rfl, hmiddle, matchPieces_all after⟩⟩

/-! ## Texts in patterns -/

variable [DecidableEq α] {w : Wildcards α}

/-- A character of a text that is to stand for itself. -/
def escaped (w : Wildcards α) (escape : α) (c : α) : List α :=
  if c = escape ∨ c = w.many ∨ c = w.one then [escape, c] else [c]

theorem pieces_escaped {escape : α} (hescape : w.escape = some escape) (token rest : List α) :
    pieces w (token.flatMap (escaped w escape) ++ rest) = (pieces w rest).map (token.map .lit ++ ·) := by
  induction token with
  | nil => simp
  | cons c token ih =>
    have hescaped : escaped w escape c =
        if c = escape ∨ c = w.many ∨ c = w.one then [escape, c] else [c] := rfl
    rw [List.flatMap_cons, List.append_assoc, hescaped]
    by_cases hspecial : c = escape ∨ c = w.many ∨ c = w.one
    · rw [if_pos hspecial, List.cons_append, List.singleton_append, pieces, if_pos hescape, ih]
      simp [Function.comp_def]
    · obtain ⟨hnotEscape, hnotMany, hnotOne⟩ : c ≠ escape ∧ c ≠ w.many ∧ c ≠ w.one := by simpa using hspecial
      have hlit : piece w c = .lit c := by
        unfold piece
        rw [if_neg hnotMany, if_neg hnotOne]
      rw [if_neg hspecial, List.singleton_append, pieces.eq_def]
      show (if w.escape = some c then _ else _) = _
      rw [if_neg (by simp [hescape, Ne.symm hnotEscape]), ih, hlit]
      simp [Function.comp_def]

theorem pieces_cons (hescape : w.escape = none) (c : α) (rest : List α) :
    pieces w (c :: rest) = (pieces w rest).map (piece w c :: ·) := by
  rw [pieces.eq_def]
  simp [hescape]

/-- Without an escape character each character is a piece. -/
theorem pieces_none (hescape : w.escape = none) (pattern : List α) :
    pieces w pattern = some (pattern.map (piece w)) := by
  induction pattern with
  | nil => rfl
  | cons c rest ih =>
    rw [pieces_cons hescape, ih]
    rfl

/-- **An escaped text** between two sequences. -/
theorem like_contains {escape : α} (hescape : w.escape = some escape) (hmany : w.many ≠ escape) (token text : List α) :
    like fold w (w.many :: (token.flatMap (escaped w escape) ++ [w.many])) text = true ↔
      Contains fold token text := by
  have hother : w.escape ≠ some w.many := by simpa [hescape] using hmany.symm
  have hsequence : piece w w.many = .many := by simp [piece]
  have hend : pieces w [w.many] = some [.many] := by
    rw [pieces.eq_def]
    show (if w.escape = some w.many then _ else _) = _
    rw [if_neg hother, hsequence]
    rfl
  have hpieces : pieces w (w.many :: (token.flatMap (escaped w escape) ++ [w.many])) =
      some (.many :: (token.map .lit ++ [.many])) := by
    rw [pieces.eq_def]
    show (if w.escape = some w.many then _ else _) = _
    rw [if_neg hother, hsequence, pieces_escaped hescape, hend]
    rfl
  unfold like
  rw [hpieces]
  exact matchPieces_between token text

/-- **A text without wildcards**, when there is no escape character. -/
theorem like_plain (hescape : w.escape = none) {token : List α} (hplain : ∀ c ∈ token, c ≠ w.many ∧ c ≠ w.one)
    (text : List α) :
    like fold w (w.many :: (token ++ [w.many])) text = true ↔ Contains fold token text := by
  have hlits : token.map (piece w) = token.map .lit := by
    refine List.map_congr_left fun c hc => ?_
    unfold piece
    rw [if_neg (hplain c hc).1, if_neg (hplain c hc).2]
  have hsequence : piece w w.many = .many := by simp [piece]
  unfold like
  rw [pieces_none hescape, List.map_cons, List.map_append, List.map_singleton, hlits, hsequence]
  exact matchPieces_between token text

end BreezeDesk.Like
