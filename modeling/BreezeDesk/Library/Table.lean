/-
  Tables as text: rows between line ends, fields between separators, and quotes around what would be misread.

  A field is written plainly, if it has none of the three marks, or between quotes, with its own quotes doubled
  (`Writes`).  `parse` goes through the text once; what it has read of the field and of the row is carried
  along.  A row whose fields are written in either way is read back (`parse_row`), and so is a table
  (`parse_rows`).

  Nothing here mentions a particular program.
-/
import Mathlib.Data.List.Basic
import Mathlib.Data.List.Forall2

namespace BreezeDesk.Table

/-- The three marks of a table. -/
structure Marks (α : Type*) where
  quote : α
  separator : α
  lineEnd : α
  quote_ne_separator : quote ≠ separator
  quote_ne_lineEnd : quote ≠ lineEnd
  separator_ne_lineEnd : separator ≠ lineEnd

/-- Where the reader is: before a field, in a plain one, between quotes, or behind the second of two quotes. -/
inductive Mode where
  | start | plain | quoted | closed

variable {α : Type*} [DecidableEq α] (m : Marks α)

/-- The rows of a text; `field` and `row` are what has been read of the field and of the row. -/
def parse : Mode → List α → List (List α) → List α → Option (List (List (List α)))
  | .start, _, [], [] => some []
  | .quoted, _, _, [] => none
  | _, field, row, [] => some [row ++ [field]]
  | .start, field, row, c :: rest =>
    if c = m.quote then parse .quoted field row rest
    else if c = m.separator then parse .start [] (row ++ [field]) rest
    else if c = m.lineEnd then (parse .start [] [] rest).map ((row ++ [field]) :: ·)
    else parse .plain (field ++ [c]) row rest
  | .plain, field, row, c :: rest =>
    if c = m.quote then none
    else if c = m.separator then parse .start [] (row ++ [field]) rest
    else if c = m.lineEnd then (parse .start [] [] rest).map ((row ++ [field]) :: ·)
    else parse .plain (field ++ [c]) row rest
  | .quoted, field, row, c :: rest =>
    if c = m.quote then parse .closed field row rest
    else parse .quoted (field ++ [c]) row rest
  | .closed, field, row, c :: rest =>
    if c = m.quote then parse .quoted (field ++ [c]) row rest
    else if c = m.separator then parse .start [] (row ++ [field]) rest
    else if c = m.lineEnd then (parse .start [] [] rest).map ((row ++ [field]) :: ·)
    else none

/-- A field that can be written as it is. -/
def Plain (field : List α) : Prop := ∀ c ∈ field, c ≠ m.quote ∧ c ≠ m.separator ∧ c ≠ m.lineEnd

/-- The quotes of a field are doubled. -/
def doubled (field : List α) : List α := field.flatMap fun c => if c = m.quote then [m.quote, m.quote] else [c]

/-- `Writes text field`: the text stands for the field. -/
inductive Writes : List α → List α → Prop where
  | plain {field : List α} : Plain m field → Writes field field
  | quoted (field : List α) : Writes (m.quote :: doubled m field ++ [m.quote]) field

variable {m} {field text : List α} {row : List (List α)}

/-- What comes behind a field: the row goes on, or it ends. -/
def behind (m : Marks α) (row : List (List α)) : List α → Option (List (List (List α)))
  | [] => none
  | c :: rest =>
    if c = m.separator then parse m .start [] row rest else (parse m .start [] [] rest).map (row :: ·)

theorem parse_plain (hfield : Plain m field) : ∀ (read : List α) {c : α}, c = m.separator ∨ c = m.lineEnd →
    ∀ rest, parse m .plain read row (field ++ c :: rest) = behind m (row ++ [read ++ field]) (c :: rest) := by
  induction field with
  | nil =>
    intro read c hc rest
    have hquote : c ≠ m.quote := by
      rcases hc with rfl | rfl
      · exact m.quote_ne_separator.symm
      · exact m.quote_ne_lineEnd.symm
    rw [List.nil_append, List.append_nil, parse, if_neg hquote, behind]
    split
    · rfl
    next hne => rw [if_pos (hc.resolve_left hne)]
  | cons d others ih =>
    intro read c hc rest
    obtain ⟨⟨hquote, hseparator, hend⟩, hothers⟩ := List.forall_mem_cons.mp hfield
    rw [List.cons_append, parse, if_neg hquote, if_neg hseparator, if_neg hend, ih hothers (read ++ [d]) hc rest,
      List.append_assoc, List.singleton_append]

theorem parse_quoted (field : List α) : ∀ (read : List α) {c : α}, c = m.separator ∨ c = m.lineEnd →
    ∀ rest, parse m .quoted read row (doubled m field ++ m.quote :: c :: rest) =
      behind m (row ++ [read ++ field]) (c :: rest) := by
  induction field with
  | nil =>
    intro read c hc rest
    have hquote : c ≠ m.quote := by
      rcases hc with rfl | rfl
      · exact m.quote_ne_separator.symm
      · exact m.quote_ne_lineEnd.symm
    show parse m .quoted read row (m.quote :: c :: rest) = _
    rw [parse, if_pos rfl, parse, if_neg hquote, List.append_nil, behind]
    split
    · rfl
    next hne => rw [if_pos (hc.resolve_left hne)]
  | cons d others ih =>
    intro read c hc rest
    have hread : read ++ [d] ++ others = read ++ d :: others := by simp
    by_cases hquote : d = m.quote
    · -- a quote of the field is closed and opened again
      have hdoubled : doubled m (d :: others) = d :: d :: doubled m others := by
        simp [doubled, hquote]
      rw [hdoubled, List.cons_append, List.cons_append, parse, if_pos hquote, parse, if_pos hquote, ih _ hc, hread]
    · have hdoubled : doubled m (d :: others) = d :: doubled m others := by
        simp [doubled, hquote]
      rw [hdoubled, List.cons_append, parse, if_neg hquote, ih _ hc, hread]

/-- **A field** is read, however it is written. -/
theorem parse_field (h : Writes m text field) (row : List (List α)) {c : α} (hc : c = m.separator ∨ c = m.lineEnd)
    (rest : List α) : parse m .start [] row (text ++ c :: rest) = behind m (row ++ [field]) (c :: rest) := by
  cases h with
  | plain hplain =>
    -- an empty field ends at once, any other leaves the start with its first character
    cases field with
    | nil =>
      have hquote : c ≠ m.quote := by
        rcases hc with rfl | rfl
        · exact m.quote_ne_separator.symm
        · exact m.quote_ne_lineEnd.symm
      rw [List.nil_append, parse, if_neg hquote, behind]
      split
      · rfl
      next hne => rw [if_pos (hc.resolve_left hne)]
    | cons d others =>
      obtain ⟨⟨hquote, hseparator, hend⟩, hothers⟩ := List.forall_mem_cons.mp hplain
      rw [List.cons_append, parse, if_neg hquote, if_neg hseparator, if_neg hend]
      exact parse_plain hothers [d] hc rest
  | quoted =>
    have htext : m.quote :: doubled m field ++ [m.quote] ++ c :: rest =
        m.quote :: (doubled m field ++ m.quote :: c :: rest) := by simp
    rw [htext, parse, if_pos rfl]
    exact parse_quoted field [] hc rest

/-- **A row** is read. -/
theorem parse_row {texts fields : List (List α)} (h : List.Forall₂ (Writes m) texts fields) (hne : texts ≠ [])
    (rest : List α) : ∀ row, parse m .start [] row ([m.separator].intercalate texts ++ m.lineEnd :: rest) =
      (parse m .start [] [] rest).map ((row ++ fields) :: ·) := by
  induction h with
  | nil => exact absurd rfl hne
  | @cons text field others fields hfield hothers ih =>
    intro row
    cases hothers with
    | nil =>
      rw [List.intercalate_singleton, parse_field hfield row (Or.inr rfl), behind,
        if_neg m.separator_ne_lineEnd.symm]
    | @cons next nextField others' fields' hnext hrest =>
      have hjoin : [m.separator].intercalate (text :: next :: others') ++ m.lineEnd :: rest =
          text ++ m.separator :: ([m.separator].intercalate (next :: others') ++ m.lineEnd :: rest) := by
        rw [List.intercalate_cons_cons]
        simp
      rw [hjoin, parse_field hfield row (Or.inl rfl), behind, if_pos rfl, ih (List.cons_ne_nil _ _)]
      simp

/-- **A table** is read row by row. -/
theorem parse_rows {β : Type*} (write : β → List (List α)) (fields : β → List (List α)) (rows : List β)
    (h : ∀ row ∈ rows, List.Forall₂ (Writes m) (write row) (fields row) ∧ write row ≠ []) :
    parse m .start [] [] (rows.flatMap fun row => [m.separator].intercalate (write row) ++ [m.lineEnd]) =
      some (rows.map fields) := by
  induction rows with
  | nil => rfl
  | cons row rest ih =>
    obtain ⟨⟨hrow, hne⟩, hrest⟩ := List.forall_mem_cons.mp h
    rw [List.flatMap_cons, List.append_assoc, List.singleton_append, parse_row hrow hne, ih hrest]
    rfl

end BreezeDesk.Table
