/-
  `GlossarySerializer` — the glossary as a table of comma-separated values.

  A term is a row of eight fields, and its aliases are one of them, with vertical bars between them.  The
  reader of the table has a grammar of its own: it skips carriage returns, and takes a quote as an opening
  one only where its field is still empty.  On what the writer makes it agrees with the reader of
  `Library.Table` (`parseCsv_of_table`), so that the rows come back (`parseCsv_wireText_csvText`).

  A field is not escaped before it becomes one: an alias with a vertical bar is split in two.
  `roundTrips_iff` says which glossaries come back.
-/
import BreezeDesk.Glossary.PostProcessor
import BreezeDesk.Transcript.ExportSyntax
import BreezeDesk.Transcript.Utf8

namespace BreezeDesk

/-! ## Lists -/

/-- `QString::split` with `Qt::SkipEmptyParts`. -/
def QString.split (separator : QChar) (text : QString) : List QString :=
  (text.splitOn separator).filter fun part => !part.isEmpty

/-! ## The term -/

/-- A `GlossaryTerm` with the fields that only the glossary itself reads. -/
structure GlossaryEntry extends GlossaryTerm where
  profileId : QString := []
  category : QString := []
  language : QString := []
  notes : QString := []
  deriving DecidableEq, Repr

namespace GlossarySerializer

/-! ## The reader of tables -/

/-- The variables of the loop in `parseCsv`. -/
structure CsvReader where
  rows : List (List QString) := []
  row : List QString := []
  field : QString := []
  quoted : Bool := false

/-- One turn of the loop, but for a doubled quote. -/
def CsvReader.step (s : CsvReader) (c : QChar) : CsvReader :=
  if s.quoted then
    if c = quotationMark then { s with quoted := false } else { s with field := s.field ++ [c] }
  else if c = quotationMark ∧ s.field = [] then { s with quoted := true }
  else if c = comma then { s with row := s.row ++ [s.field], field := [] }
  else if c = lineFeed then { s with rows := s.rows ++ [s.row ++ [s.field]], row := [], field := [] }
  else if c ≠ carriageReturn then { s with field := s.field ++ [c] }
  else s

/-- The loop; a doubled quote inside quotes takes two characters. -/
def CsvReader.read : CsvReader → QString → CsvReader
  | s, [] => s
  | s, [c] => s.step c
  | s, c :: d :: rest =>
    if s.quoted = true ∧ c = quotationMark ∧ d = quotationMark then
      CsvReader.read { s with field := s.field ++ [c] } rest
    else CsvReader.read (s.step c) (d :: rest)

/-- The last row, if the text does not end with a line feed, and `valid`. -/
def CsvReader.finish (s : CsvReader) : List (List QString) × Bool :=
  (if !s.field.isEmpty || !s.row.isEmpty then s.rows ++ [s.row ++ [s.field]] else s.rows, !s.quoted)

def parseCsv (text : QString) : List (List QString) × Bool := (CsvReader.read {} text).finish

/-! ## Writing -/

def verticalBar : QChar := 0x7C

def expectedHeader : List QString :=
  [qs "canonical_text", qs "aliases", qs "category", qs "language", qs "priority", qs "case_sensitive",
    qs "enabled", qs "notes"]

def flagText (flag : Bool) : QString := if flag then qs "true" else qs "false"

def termRow (term : GlossaryEntry) : List QString :=
  [csvField term.canonicalText, csvField ([verticalBar].intercalate term.aliases), csvField term.category,
    csvField term.language, signedDecimal term.priority, flagText term.caseSensitive, flagText term.enabled,
    csvField term.notes]

/-- `output`. -/
def csvText (terms : List GlossaryEntry) : QString :=
  qs "canonical_text,aliases,category,language,priority,case_sensitive,enabled,notes\n" ++
    terms.flatMap fun term => [comma].intercalate (termRow term) ++ [lineFeed]

def termsToCsv (terms : List GlossaryEntry) (withBom : Bool) : QByteArray :=
  (if withBom then byteOrderMark else []) ++ toUtf8 (csvText terms)

/-! ## Reading -/

def malformedError : UserFacingError :=
  .validation .serializationFailed (qs "The glossary CSV is malformed.")

def headerError : UserFacingError :=
  .validation .serializationFailed (qs "The glossary CSV header is not recognized.")

def columnsError (number : Nat) : UserFacingError :=
  .validation .serializationFailed
    (qs "Glossary CSV row " ++ decimal number ++ qs " has the wrong number of columns.")

def dataError (number : Nat) : UserFacingError :=
  .validation .serializationFailed (qs "Glossary CSV row " ++ decimal number ++ qs " contains invalid data.")

/-- The term of one row, which has a number in the messages. -/
def readTerm (profileId : QString) (number : Nat) : List QString → Result GlossaryEntry
  | [canonicalText, aliases, category, language, priority, caseSensitive, enabled, notes] =>
    match priority.toInt with
    | none => .error (dataError number)
    | some value =>
      if (trimmed canonicalText).isEmpty then .error (dataError number)
      else .ok { profileId, category, language, notes
                 canonicalText := trimmed canonicalText
                 aliases := QString.split verticalBar aliases
                 priority := value
                 caseSensitive := equalsAscii (qs "true") caseSensitive
                 enabled := !equalsAscii (qs "false") enabled }
  | _ => .error (columnsError number)

/-- The loop over the rows; a row of one empty field is skipped. -/
def readTerms (profileId : QString) : Nat → List (List QString) → Result (List GlossaryEntry)
  | _, [] => .ok []
  | number, row :: rest =>
    if row = [[]] then readTerms profileId (number + 1) rest
    else do
      let term ← readTerm profileId number row
      let terms ← readTerms profileId (number + 1) rest
      return term :: terms

def termsFromCsv (data : QByteArray) (profileId : QString) : Result (List GlossaryEntry) :=
  let text := QString.fromUtf8 data
  let text := if text.head? = some 0xFEFF then text.tail else text
  match parseCsv text with
  | ([], _) => .error malformedError
  | (header :: rows, valid) =>
    if !valid then .error malformedError
    else if header ≠ expectedHeader then .error headerError
    else readTerms profileId 2 rows

/-! ## The two readers -/

/-- Where the reader of tables is, seen from the source's loop. -/
inductive Reads : Table.Mode → CsvReader → QString → Prop where
  | start {s : CsvReader} {text : QString} (hquoted : s.quoted = false) (hfield : s.field = []) : Reads .start s text
  | plain {s : CsvReader} {text : QString} (hquoted : s.quoted = false) (hfield : s.field ≠ []) : Reads .plain s text
  | quoted {s : CsvReader} {text : QString} (hquoted : s.quoted = true) : Reads .quoted s text
  | closed {s : CsvReader} {c : QChar} {rest : QString} (hquoted : s.quoted = false) (hnext : c ≠ quotationMark) :
      Reads .closed s (c :: rest)

variable {s : CsvReader} {c : QChar} {text rest : QString} {mode : Table.Mode} {table : List (List QString)}

/-- The end of a field, which may have been quoted. -/
theorem step_behind (hquoted : s.quoted = false) (hc : c = comma ∨ c = lineFeed)
    (htable : (if c = comma then Table.parse csvMarks .start [] (s.row ++ [s.field]) rest
      else (Table.parse csvMarks .start [] [] rest).map ((s.row ++ [s.field]) :: ·)) = some table) :
    ∃ mode' table', Reads mode' (s.step c) rest ∧
      Table.parse csvMarks mode' (s.step c).field (s.step c).row rest = some table' ∧
      s.rows ++ table = (s.step c).rows ++ table' := by
  rcases hc with rfl | rfl
  · rw [if_pos rfl] at htable
    have hstep : s.step comma = { s with row := s.row ++ [s.field], field := [] } := by
      unfold CsvReader.step
      rw [hquoted, if_neg Bool.false_ne_true, if_neg (fun h => absurd h.1 (by decide)), if_pos rfl]
    rw [hstep]
    exact ⟨.start, table, .start hquoted rfl, htable, rfl⟩
  · rw [if_neg (by decide), Option.map_eq_some_iff] at htable
    obtain ⟨others, hothers, rfl⟩ := htable
    have hstep : s.step lineFeed = { s with rows := s.rows ++ [s.row ++ [s.field]], row := [], field := [] } := by
      unfold CsvReader.step
      rw [hquoted, if_neg Bool.false_ne_true, if_neg (fun h => absurd h.1 (by decide)), if_neg (by decide), if_pos rfl]
    rw [hstep]
    exact ⟨.start, others, .start hquoted rfl, hothers, by simp⟩

/-- A character outside quotes, and no quote. -/
theorem step_outside (hquoted : s.quoted = false) (hquote : c ≠ quotationMark) (hreturn : c ≠ carriageReturn)
    (htable : (if c = comma then Table.parse csvMarks .start [] (s.row ++ [s.field]) rest
      else if c = lineFeed then (Table.parse csvMarks .start [] [] rest).map ((s.row ++ [s.field]) :: ·)
      else Table.parse csvMarks .plain (s.field ++ [c]) s.row rest) = some table) :
    ∃ mode' table', Reads mode' (s.step c) rest ∧
      Table.parse csvMarks mode' (s.step c).field (s.step c).row rest = some table' ∧
      s.rows ++ table = (s.step c).rows ++ table' := by
  by_cases hcomma : c = comma
  · exact step_behind hquoted (Or.inl hcomma) (by rwa [if_pos hcomma] at htable ⊢)
  by_cases hend : c = lineFeed
  · exact step_behind hquoted (Or.inr hend) (by rw [if_neg hcomma, if_pos hend] at htable; rwa [if_neg hcomma])
  · have hstep : s.step c = { s with field := s.field ++ [c] } := by
      unfold CsvReader.step
      rw [hquoted, if_neg Bool.false_ne_true, if_neg fun h => hquote h.1, if_neg hcomma, if_neg hend, if_pos hreturn]
    rw [if_neg hcomma, if_neg hend] at htable
    rw [hstep]
    exact ⟨.plain, table, .plain hquoted (List.append_ne_nil_of_right_ne_nil _ (List.cons_ne_nil _ _)), htable, rfl⟩

/-- **One turn** of the loop does what the reader of tables does, one case for each place. -/
theorem step_reads (hreads : Reads mode s (c :: rest)) (hreturn : c ≠ carriageReturn)
    (hdoubled : ¬ (s.quoted = true ∧ c = quotationMark ∧ rest.head? = some quotationMark))
    (hrest : rest = [] → c ≠ quotationMark)
    (htable : Table.parse csvMarks mode s.field s.row (c :: rest) = some table) :
    ∃ mode' table', Reads mode' (s.step c) rest ∧
      Table.parse csvMarks mode' (s.step c).field (s.step c).row rest = some table' ∧
      s.rows ++ table = (s.step c).rows ++ table' := by
  have hopening : csvMarks.quote = quotationMark := rfl
  have hseparator : csvMarks.separator = comma := rfl
  have hlineEnd : csvMarks.lineEnd = lineFeed := rfl
  cases hreads with
  | start hquoted hfield =>
    rw [Table.parse, hopening, hseparator, hlineEnd] at htable
    by_cases hquote : c = quotationMark
    · rw [if_pos hquote] at htable
      have hstep : s.step c = { s with quoted := true } := by
        unfold CsvReader.step
        rw [hquoted, if_neg Bool.false_ne_true, if_pos ⟨hquote, hfield⟩]
      rw [hstep]
      exact ⟨.quoted, table, .quoted rfl, htable, rfl⟩
    · rw [if_neg hquote] at htable
      exact step_outside hquoted hquote hreturn htable
  | plain hquoted hfield =>
    rw [Table.parse, hopening, hseparator, hlineEnd] at htable
    by_cases hquote : c = quotationMark
    · rw [if_pos hquote] at htable
      cases htable
    · rw [if_neg hquote] at htable
      exact step_outside hquoted hquote hreturn htable
  | quoted hquoted =>
    rw [Table.parse, hopening] at htable
    by_cases hquote : c = quotationMark
    · rw [if_pos hquote] at htable
      have hstep : s.step c = { s with quoted := false } := by
        unfold CsvReader.step
        rw [hquoted, if_pos rfl, if_pos hquote]
      rw [hstep]
      cases rest with
      | nil => exact absurd hquote (hrest rfl)
      | cons d others =>
        exact ⟨.closed, table, .closed rfl fun hd => hdoubled ⟨hquoted, hquote, congrArg some hd⟩, htable, rfl⟩
    · rw [if_neg hquote] at htable
      have hstep : s.step c = { s with field := s.field ++ [c] } := by
        unfold CsvReader.step
        rw [hquoted, if_pos rfl, if_neg hquote]
      rw [hstep]
      exact ⟨.quoted, table, .quoted hquoted, htable, rfl⟩
  | closed hquoted hnext =>
    rw [Table.parse, hopening, hseparator, hlineEnd, if_neg hnext] at htable
    by_cases hcomma : c = comma
    · exact step_behind hquoted (Or.inl hcomma) (by rwa [if_pos hcomma] at htable ⊢)
    · rw [if_neg hcomma] at htable
      by_cases hend : c = lineFeed
      · exact step_behind hquoted (Or.inr hend) (by rw [if_pos hend] at htable; rwa [if_neg hcomma])
      · rw [if_neg hend] at htable
        cases htable

/-- The last row, at the end of the text. -/
theorem finish_of_table (hreads : Reads mode s [])
    (htable : Table.parse csvMarks mode s.field s.row [] = some table) : s.finish = (s.rows ++ table, true) := by
  unfold CsvReader.finish
  cases hreads with
  | start hquoted hfield =>
    rw [hquoted, hfield]
    rw [hfield] at htable
    cases hrow : s.row with
    | nil =>
      rw [hrow, Table.parse] at htable
      cases htable
      simp
    | cons first others =>
      rw [hrow] at htable
      cases htable
      simp
  | plain hquoted hfield =>
    rw [hquoted]
    cases htable
    simp [hfield]
  | quoted hquoted =>
    rw [Table.parse] at htable
    cases htable

/-- **The loop** follows the reader of tables, by induction on the text; the last row has its line feed. -/
theorem read_of_table {text : QString} (hreturn : carriageReturn ∉ text) (hlast : ∀ c ∈ text.getLast?, c = lineFeed)
    (hreads : Reads mode s text) (htable : Table.parse csvMarks mode s.field s.row text = some table) :
    (s.read text).finish = (s.rows ++ table, true) := by
  fun_induction CsvReader.read s text generalizing mode table with
  | case1 s => exact finish_of_table hreads htable
  | case2 s c =>
    have hquote : c ≠ quotationMark := by
      rw [hlast c rfl]
      decide
    obtain ⟨mode', table', hreads', htable', hrows⟩ := step_reads hreads
      (fun h => hreturn (h ▸ List.mem_singleton_self _)) (fun h => hquote h.2.1) (fun _ => hquote) htable
    rw [hrows]
    exact finish_of_table hreads' htable'
  | case3 s c d rest hdoubled ih =>
    -- a doubled quote is closed and opened again
    obtain ⟨hquoted, rfl, rfl⟩ := hdoubled
    cases hreads with
    | quoted _ =>
      refine @ih .quoted table (fun h => hreturn (List.mem_cons_of_mem _ (List.mem_cons_of_mem _ h)))
        (fun c hc => hlast c ?_) (.quoted hquoted) ?_
      · cases rest with
        | nil => cases hc
        | cons e others => exact hc
      · have hopening : csvMarks.quote = quotationMark := rfl
        rw [Table.parse, if_pos hopening.symm, Table.parse, if_pos hopening.symm] at htable
        exact htable
    | start hplain | plain hplain | closed hplain =>
      rw [hquoted] at hplain
      cases hplain
  | case4 s c d rest hother ih =>
    obtain ⟨mode', table', hreads', htable', hrows⟩ := step_reads hreads (fun h => hreturn (h ▸ List.mem_cons_self ..))
      (fun h => hother ⟨h.1, h.2.1, Option.some.inj h.2.2⟩) (fun hnone => (by cases hnone)) htable
    rw [hrows]
    exact ih (fun h => hreturn (List.mem_cons_of_mem _ h)) hlast hreads' htable'

/-- **The readers agree** on a table that ends with a line feed and has no carriage return. -/
theorem parseCsv_of_table {text : QString} (hreturn : carriageReturn ∉ text)
    (hlast : ∀ c ∈ text.getLast?, c = lineFeed) (htable : readCsv text = some table) :
    parseCsv text = (table, true) :=
  read_of_table (s := {}) hreturn hlast (.start rfl rfl) htable

/-! ## What the table becomes on its way -/

/-- A mark of the table: no half of a pair. -/
def IsMark (c : QChar) : Prop := isHighSurrogate c = false ∧ isLowSurrogate c = false

instance (c : QChar) : Decidable (IsMark c) := inferInstanceAs (Decidable (_ ∧ _))

theorem wireText_append_cons (hc : IsMark c) (first rest : QString) :
    wireText (first ++ c :: rest) = wireText first ++ c :: wireText rest := by
  rw [wireText_append, wireText_cons hc.1 hc.2]
  rintro d ⟨⟩
  exact hc.2

theorem wireText_intercalate (hc : IsMark c) (texts : List QString) :
    wireText ([c].intercalate texts) = [c].intercalate (texts.map wireText) := by
  induction texts with
  | nil => rfl
  | cons text rest ih =>
    cases rest with
    | nil => rw [List.map_singleton, List.intercalate_singleton, List.intercalate_singleton]
    | cons next others =>
      rw [List.map_cons, List.map_cons, List.intercalate_cons_cons, List.intercalate_cons_cons, List.append_assoc,
        List.append_assoc, List.singleton_append, List.singleton_append, wireText_append_cons hc, ih, List.map_cons]

theorem wireText_of_marks (h : ∀ c ∈ text, IsMark c) : wireText text = text := by
  induction text with
  | nil => rfl
  | cons c rest ih =>
    obtain ⟨hc, hrest⟩ := List.forall_mem_cons.mp h
    rw [wireText_cons hc.1 hc.2, ih hrest]

theorem doubled_of_none (h : quotationMark ∉ text) : Table.doubled csvMarks text = text := by
  have hsame : ∀ c ∈ text, (if c = csvMarks.quote then [csvMarks.quote, csvMarks.quote] else [c]) = [c] := by
    intro c hc
    refine if_neg fun hquote => h ?_
    rw [hquote] at hc
    exact hc
  unfold Table.doubled
  rw [List.flatMap_congr hsame]
  exact List.flatMap_singleton' text

/-- Doubling quotes does not matter to the pairs, by induction on the text from quote to quote. -/
theorem wireText_doubled (text : QString) :
    wireText (Table.doubled csvMarks text) = Table.doubled csvMarks (wireText text) := by
  have hmark : IsMark quotationMark := by decide
  have hdoubled : ∀ first rest, Table.doubled csvMarks (first ++ quotationMark :: rest) =
      Table.doubled csvMarks first ++ quotationMark :: quotationMark :: Table.doubled csvMarks rest := by
    intro first rest
    unfold Table.doubled
    rw [List.flatMap_append, List.flatMap_cons]
    rfl
  induction hlength : text.length using Nat.strongRecOn generalizing text with
  | ind n ih =>
    by_cases hquote : quotationMark ∈ text
    · obtain ⟨first, rest, rfl⟩ := List.append_of_mem hquote
      rw [List.length_append, List.length_cons] at hlength
      rw [hdoubled, wireText_append_cons hmark, wireText_cons hmark.1 hmark.2, ih first.length (by omega) first rfl,
        ih rest.length (by omega) rest rfl, wireText_append_cons hmark, hdoubled]
    · rw [doubled_of_none hquote, doubled_of_none fun h => ?_]
      rcases mem_wireText h with hmem | hmark
      · exact hquote hmem
      · revert hmark
        decide

/-- A text field on its way. -/
theorem wireText_csvField (text : QString) : wireText (csvField text) =
    quotationMark :: Table.doubled csvMarks (wireText (normalizedLineEndings text)) ++ [quotationMark] := by
  have hmark : IsMark quotationMark := by decide
  have hfield : csvField text =
      quotationMark :: (Table.doubled csvMarks (normalizedLineEndings text) ++ quotationMark :: []) := rfl
  rw [hfield, wireText_cons hmark.1 hmark.2, wireText_append_cons hmark, wireText_doubled]
  rfl

/-- A term as it is read. -/
def readRow (term : GlossaryEntry) : List QString :=
  [wireText (normalizedLineEndings term.canonicalText),
    wireText (normalizedLineEndings ([verticalBar].intercalate term.aliases)),
    wireText (normalizedLineEndings term.category), wireText (normalizedLineEndings term.language),
    signedDecimal term.priority, flagText term.caseSensitive, flagText term.enabled,
    wireText (normalizedLineEndings term.notes)]

theorem writes_wireText_csvField (text : QString) :
    Table.Writes csvMarks (wireText (csvField text)) (wireText (normalizedLineEndings text)) := by
  rw [wireText_csvField]
  exact .quoted _

theorem isMark_of_small {c : QChar} (h : c.toNat < 0xD800) : IsMark c := by
  obtain ⟨hhigh, hlow⟩ := Asr.not_surrogate_of_small h
  exact ⟨(isSurrogate_eq c).1.trans hhigh, (isSurrogate_eq c).2.trans hlow⟩

theorem wireText_signedDecimal (value : Int) : wireText (signedDecimal value) = signedDecimal value := by
  refine wireText_of_marks fun c hc => ?_
  rcases mem_signedDecimal hc with hdigit | rfl
  · obtain ⟨-, hsmall⟩ := isDigit_iff.mp hdigit
    exact isMark_of_small (by omega)
  · decide

theorem writes_flagText (flag : Bool) : Table.Writes csvMarks (flagText flag) (flagText flag) := by
  have hplain : (flagText flag).all (fun c => c ≠ quotationMark ∧ c ≠ comma ∧ c ≠ lineFeed) = true := by
    cases flag <;> rfl
  exact .plain fun c hc => of_decide_eq_true (List.all_eq_true.mp hplain c hc)

theorem wireText_flagText (flag : Bool) : wireText (flagText flag) = flagText flag := by
  cases flag <;> rfl

theorem writes_termRow (term : GlossaryEntry) :
    List.Forall₂ (Table.Writes csvMarks) ((termRow term).map wireText) (readRow term) := by
  refine .cons ?_ (.cons ?_ (.cons ?_ (.cons ?_ (.cons ?_ (.cons ?_ (.cons ?_ (.cons ?_ .nil)))))))
  · exact writes_wireText_csvField _
  · exact writes_wireText_csvField _
  · exact writes_wireText_csvField _
  · exact writes_wireText_csvField _
  · rw [wireText_signedDecimal]
    exact writes_number (number_signedDecimal _)
  · rw [wireText_flagText]
    exact writes_flagText _
  · rw [wireText_flagText]
    exact writes_flagText _
  · exact writes_wireText_csvField _

theorem wireText_flatMap (hc : IsMark c) (line : GlossaryEntry → QString) (terms : List GlossaryEntry) :
    wireText (terms.flatMap fun term => line term ++ [c]) = terms.flatMap fun term => wireText (line term) ++ [c] := by
  induction terms with
  | nil => rfl
  | cons term rest ih =>
    rw [List.flatMap_cons, List.flatMap_cons, List.append_assoc, List.singleton_append, wireText_append_cons hc, ih,
      List.append_assoc, List.singleton_append]

/-- **The text that arrives**: every field on its own. -/
theorem wireText_csvText (terms : List GlossaryEntry) : wireText (csvText terms) =
    [comma].intercalate expectedHeader ++ lineFeed ::
      terms.flatMap fun term => [comma].intercalate ((termRow term).map wireText) ++ [lineFeed] := by
  have hmark : IsMark lineFeed := by decide
  have hcomma : IsMark comma := by decide
  have hheader : csvText terms = [comma].intercalate expectedHeader ++ lineFeed ::
      terms.flatMap fun term => [comma].intercalate (termRow term) ++ [lineFeed] := by
    have hfirst : qs "canonical_text,aliases,category,language,priority,case_sensitive,enabled,notes\n" =
      [comma].intercalate expectedHeader ++ [lineFeed] := rfl
    unfold csvText
    rw [hfirst, List.append_assoc, List.singleton_append]
  have hall : ([comma].intercalate expectedHeader).all (IsMark ·) = true := by rfl
  have hplain : ∀ c ∈ [comma].intercalate expectedHeader, IsMark c := fun c hc =>
    of_decide_eq_true (List.all_eq_true.mp hall c hc)
  rw [hheader, wireText_append_cons hmark, wireText_of_marks hplain, wireText_flatMap hmark]
  refine congrArg (_ ++ lineFeed :: ·) (congrArg (fun line => terms.flatMap line) (funext fun term => ?_))
  rw [wireText_intercalate hcomma]

theorem writes_expectedHeader : List.Forall₂ (Table.Writes csvMarks) expectedHeader expectedHeader := by
  have hall : (expectedHeader.all fun field =>
      field.all fun c => c ≠ quotationMark ∧ c ≠ comma ∧ c ≠ lineFeed) = true := by rfl
  have hplain : ∀ field ∈ expectedHeader, Table.Plain csvMarks field := fun field hfield c hc =>
    of_decide_eq_true (List.all_eq_true.mp (List.all_eq_true.mp hall field hfield) c hc)
  exact List.forall₂_same.mpr fun field hfield => .plain (hplain field hfield)

/-- The table that arrives is read row by row. -/
theorem readCsv_wireText_csvText (terms : List GlossaryEntry) :
    readCsv (wireText (csvText terms)) = some (expectedHeader :: terms.map readRow) := by
  have hrows := Table.parse_rows (m := csvMarks) (fun term => (termRow term).map wireText) readRow terms
    fun term _ => ⟨writes_termRow term, List.cons_ne_nil _ _⟩
  have hread := Table.parse_row writes_expectedHeader (List.cons_ne_nil _ _)
    (terms.flatMap fun term => [comma].intercalate ((termRow term).map wireText) ++ [lineFeed]) []
  unfold readCsv
  rw [wireText_csvText]
  refine hread.trans ?_
  show (Table.parse csvMarks .start [] [] (terms.flatMap fun term =>
    [csvMarks.separator].intercalate ((termRow term).map wireText) ++ [csvMarks.lineEnd])).map _ = _
  rw [hrows]
  rfl

theorem carriageReturn_not_mem_termRow (term : GlossaryEntry) : ∀ text ∈ termRow term, carriageReturn ∉ text := by
  have hflag : ∀ flag, carriageReturn ∉ flagText flag := by decide
  intro text htext
  simp only [termRow, List.mem_cons, List.not_mem_nil, or_false] at htext
  rcases htext with rfl | rfl | rfl | rfl | rfl | rfl | rfl | rfl
  case inr.inr.inr.inr.inl => exact fun hmem => (number_plain (number_signedDecimal _ _ hmem)).2 rfl
  case inr.inr.inr.inr.inr.inl => exact hflag _
  case inr.inr.inr.inr.inr.inr.inl => exact hflag _
  all_goals exact carriageReturn_not_mem_csvField _

/-- Lines end with their line feed. -/
theorem getLast?_lines (line : GlossaryEntry → QString) (terms : List GlossaryEntry) : ∀ front : QString,
    (front ++ c :: terms.flatMap fun term => line term ++ [c]).getLast? = some c := by
  induction terms with
  | nil =>
    intro front
    rw [List.flatMap_nil, List.getLast?_concat]
  | cons term rest ih =>
    intro front
    have hlines : front ++ c :: (term :: rest).flatMap (fun term => line term ++ [c]) =
        (front ++ c :: line term) ++ c :: rest.flatMap fun term => line term ++ [c] := by
      rw [List.flatMap_cons, List.append_assoc, List.singleton_append, List.append_assoc, List.cons_append]
    rw [hlines, ih]

/-- **The rows** come back through the reader of the source. -/
theorem parseCsv_wireText_csvText (terms : List GlossaryEntry) :
    parseCsv (wireText (csvText terms)) = (expectedHeader :: terms.map readRow, true) := by
  refine parseCsv_of_table (fun hmem => ?_) (fun c hc => ?_) (readCsv_wireText_csvText terms)
  · have hwritten : carriageReturn ∈ csvText terms := (mem_wireText hmem).resolve_right (by decide)
    unfold csvText at hwritten
    rcases List.mem_append.mp hwritten with hheader | hrows
    · revert hheader
      decide
    · obtain ⟨term, -, hrow⟩ := List.mem_flatMap.mp hrows
      rcases List.mem_append.mp hrow with hfields | hend
      · rcases mem_intercalate hfields with h | ⟨text, htext, hc⟩
        · revert h
          decide
        · exact carriageReturn_not_mem_termRow term text htext hc
      · revert hend
        decide
  · rw [wireText_csvText, getLast?_lines] at hc
    exact (Option.some.inj hc).symm

/-! ## Reading the rows -/

/-- **A number** is read back. -/
theorem toInt_signedDecimal {value : Int} (h : IsInt value) : (signedDecimal value).toInt = some value := by
  cases value with
  | ofNat n => exact toInt_decimal h
  | negSucc n =>
    have htrimmed : trimmed (signedDecimal (Int.negSucc n)) = signedDecimal (Int.negSucc n) := by
      refine trimmed_of_visible fun c hc => ?_
      rcases mem_signedDecimal hc with hdigit | rfl
      · exact isSpace_of_isDigit hdigit
      · decide
    unfold QString.toInt toSigned
    rw [htrimmed, signedDecimal_negSucc]
    simp only [minusSign, if_true, toNumber_decimal, Option.map_some]
    exact Option.filter_some_pos (decide_eq_true h)

/-- A term as it comes back. -/
def readBack (profileId : QString) (term : GlossaryEntry) : GlossaryEntry where
  profileId := profileId
  canonicalText := trimmed (wireText (normalizedLineEndings term.canonicalText))
  aliases := QString.split verticalBar (wireText (normalizedLineEndings ([verticalBar].intercalate term.aliases)))
  category := wireText (normalizedLineEndings term.category)
  language := wireText (normalizedLineEndings term.language)
  priority := term.priority
  caseSensitive := term.caseSensitive
  enabled := term.enabled
  notes := wireText (normalizedLineEndings term.notes)

variable {term : GlossaryEntry} {terms back : List GlossaryEntry} {profileId : QString}

theorem readTerm_readRow (hpriority : IsInt term.priority) (number : Nat) :
    readTerm profileId number (readRow term) =
      if (readBack profileId term).canonicalText.isEmpty then .error (dataError number)
      else .ok (readBack profileId term) := by
  have hcase : ∀ flag, equalsAscii (qs "true") (flagText flag) = flag := by decide
  have henabled : ∀ flag, (!equalsAscii (qs "false") (flagText flag)) = flag := by decide
  unfold readRow readTerm
  dsimp only
  rw [toInt_signedDecimal hpriority]
  dsimp only
  rw [hcase, henabled]
  rfl

/-- **The loop** over the rows of terms: it succeeds where every term has a canonical text. -/
theorem readTerms_eq_ok_iff (hpriority : ∀ term ∈ terms, IsInt term.priority) (number : Nat) :
    readTerms profileId number (terms.map readRow) = .ok back ↔
      back = terms.map (readBack profileId) ∧
        ∀ term ∈ terms, (readBack profileId term).canonicalText ≠ [] := by
  induction terms generalizing number back with
  | nil =>
    refine ⟨fun h => ?_, fun h => ?_⟩
    · cases h
      exact ⟨rfl, fun _ hmem => (by cases hmem)⟩
    · rw [h.1]
      rfl
  | cons term rest ih =>
    obtain ⟨hfirst, hrest⟩ := List.forall_mem_cons.mp hpriority
    have hrow : readRow term ≠ [[]] := fun h => absurd (congrArg List.length h) (show (8 : Nat) ≠ 1 by decide)
    rw [List.map_cons, readTerms, if_neg hrow, readTerm_readRow hfirst]
    cases hcanonical : (readBack profileId term).canonicalText with
    | nil =>
      refine ⟨fun h => (by cases h), fun h => ?_⟩
      exact absurd hcanonical (h.2 term (List.mem_cons_self ..))
    | cons c others =>
      have hne : (readBack profileId term).canonicalText ≠ [] := hcanonical ▸ List.cons_ne_nil _ _
      show (readTerms profileId (number + 1) (rest.map readRow)).bind _ = _ ↔ _
      cases hothers : readTerms profileId (number + 1) (rest.map readRow) with
      | error error =>
        refine ⟨fun h => (by cases h), fun h => ?_⟩
        have hok := (ih hrest (number + 1)).mpr ⟨rfl, fun term hmem => h.2 term (List.mem_cons_of_mem _ hmem)⟩
        rw [hothers] at hok
        cases hok
      | ok found =>
        obtain ⟨rfl, hall⟩ := (ih hrest (number + 1)).mp hothers
        refine ⟨fun h => ?_, fun h => ?_⟩
        · cases h
          exact ⟨rfl, List.forall_mem_cons.mpr ⟨hne, hall⟩⟩
        · rw [h.1]
          rfl

/-- The document begins with a letter. -/
theorem csvText_eq (terms : List GlossaryEntry) : ∃ rest, csvText terms = 0x63 :: rest := by
  have hheader : ∃ rest, qs "canonical_text,aliases,category,language,priority,case_sensitive,enabled,notes\n" =
    0x63 :: rest := ⟨_, rfl⟩
  obtain ⟨rest, hrest⟩ := hheader
  unfold csvText
  rw [hrest]
  exact ⟨_, rfl⟩

/-- **The document** is read back, with or without a byte order mark. -/
theorem termsFromCsv_termsToCsv (terms : List GlossaryEntry) (withBom : Bool) (profileId : QString) :
    termsFromCsv (termsToCsv terms withBom) profileId = readTerms profileId 2 (terms.map readRow) := by
  obtain ⟨rest, hfirst⟩ := csvText_eq terms
  have htext : QString.fromUtf8 (termsToCsv terms withBom) = wireText (csvText terms) := by
    rw [← unitsFrom_toUtf8]
    unfold QString.fromUtf8 termsToCsv
    cases withBom with
    | true => rfl
    | false =>
      -- the document begins with a letter, and so with no mark
      have hbytes : toUtf8 (csvText terms) = 0x63 :: toUtf8 rest := by
        rw [hfirst, toUtf8_cons (by decide)]
        rfl
      refine congrArg (unitsFrom 0) (if_neg fun hmark => ?_)
      have hhead := congrArg List.head? (beq_iff_eq.mp hmark)
      rw [hbytes] at hhead
      exact absurd (Option.some.inj (show some (0x63 : UInt8) = some 0xEF from hhead)) (by decide)
  have hhead : (wireText (csvText terms)).head? ≠ some 0xFEFF := by
    rw [hfirst, wireText_cons (by decide) (by decide)]
    exact fun h => absurd (Option.some.inj h) (by decide)
  unfold termsFromCsv
  dsimp only
  rw [htext, if_neg hhead, parseCsv_wireText_csvText]
  dsimp only
  rw [if_neg (show ¬ (!true) = true from Bool.false_ne_true), if_neg (not_not_intro rfl)]

/-! ## Which glossaries come back -/

/-- What the repository stores. -/
structure Stored (term : GlossaryEntry) : Prop where
  canonicalText : trimmed term.canonicalText = term.canonicalText ∧ term.canonicalText ≠ [] ∧
    carriageReturn ∉ term.canonicalText
  aliases : ∀ text ∈ term.aliases, trimmed text = text ∧ text ≠ [] ∧ carriageReturn ∉ text
  priority : IsInt term.priority

/-- The term without its id and its profile, which the table does not have. -/
def content (term : GlossaryEntry) : GlossaryEntry := { term with id := [], profileId := [] }

/-- **The round trip**: reading succeeds, and the terms have the same content. -/
def RoundTrips (terms : List GlossaryEntry) (withBom : Bool) (profileId : QString) : Prop :=
  ∃ back, termsFromCsv (termsToCsv terms withBom) profileId = .ok back ∧ back.map content = terms.map content

def termTexts (term : GlossaryEntry) : List QString :=
  term.canonicalText :: term.category :: term.language :: term.notes :: term.aliases

/-- What the table does not lose: an alias without a vertical bar, texts whose line ends are line feeds, and
    pairs of surrogates. -/
structure Tabular (term : GlossaryEntry) : Prop where
  bars : ∀ text ∈ term.aliases, verticalBar ∉ text
  lines : carriageReturn ∉ term.category ∧ carriageReturn ∉ term.language ∧ carriageReturn ∉ term.notes
  pairs : ∀ text ∈ termTexts term, PairedSurrogates text = true

/-- A text field comes back exactly if it has line feeds and pairs alone. -/
theorem wireText_normalized_iff : wireText (normalizedLineEndings text) = text ↔
    carriageReturn ∉ text ∧ PairedSurrogates text = true := by
  constructor
  · intro h
    have hreturn : carriageReturn ∉ text := by
      intro hmem
      rw [← h] at hmem
      exact carriageReturn_not_mem_normalized text ((mem_wireText hmem).resolve_right (by decide))
    rw [normalizedLineEndings_of_none hreturn] at h
    exact ⟨hreturn, wireText_eq_self_iff.mp h⟩
  · rintro ⟨hreturn, hpairs⟩
    rw [normalizedLineEndings_of_none hreturn, wireText_of_paired hpairs]

theorem length_wireText (text : QString) : (wireText text).length = text.length := by
  fun_induction wireText text with
  | case1 => rfl
  | case2 c => rfl
  | case3 c d rest hpair ih => rw [List.length_cons, List.length_cons, List.length_cons, List.length_cons, ih]
  | case4 c d rest hpair ih => rw [List.length_cons, List.length_cons, ih]

/-- The canonical text, which is trimmed. -/
theorem canonical_back_iff (htrimmed : trimmed text = text) (hreturn : carriageReturn ∉ text) :
    trimmed (wireText (normalizedLineEndings text)) = text ↔ PairedSurrogates text = true := by
  rw [normalizedLineEndings_of_none hreturn, ← wireText_eq_self_iff]
  constructor
  · intro h
    -- trimming can only have shortened it
    refine ((trimmed_part _).eq_of_length ?_).symm.trans h
    rw [h, length_wireText]
  · intro h
    rw [h, htrimmed]

theorem split_intercalate {separator : QChar} {parts : List QString} (h : ∀ part ∈ parts, separator ∉ part ∧ part ≠ []) :
    QString.split separator ([separator].intercalate parts) = parts := by
  cases parts with
  | nil => rfl
  | cons part rest =>
    unfold QString.split
    rw [List.splitOn_intercalate separator (fun part hpart => (h part hpart).1) (List.cons_ne_nil _ _),
      List.filter_eq_self.mpr fun part hpart => by simpa using (h part hpart).2]

/-- The parts of a list have no separator. -/
theorem not_mem_split {separator : QChar} {part : QString} (h : part ∈ QString.split separator text) :
    separator ∉ part := by
  have hmem : part ∈ text.splitOn separator := (List.mem_filter.mp h).1
  clear h
  induction text generalizing part with
  | nil =>
    rw [List.splitOn_nil, List.mem_singleton] at hmem
    rw [hmem]
    exact List.not_mem_nil
  | cons c rest ih =>
    rw [List.splitOn_cons_eq_if_modifyHead] at hmem
    split at hmem
    · rcases List.mem_cons.mp hmem with rfl | hrest
      · exact List.not_mem_nil
      · exact ih hrest
    next hc =>
      cases hparts : rest.splitOn separator with
      | nil => exact absurd hparts (List.splitOn_ne_nil _ _)
      | cons first others =>
        rw [hparts] at hmem ih
        rcases List.mem_cons.mp hmem with rfl | hothers
        · rw [List.mem_cons, not_or]
          exact ⟨fun hsame => hc (beq_iff_eq.mpr hsame.symm), ih (List.mem_cons_self ..)⟩
        · exact ih (List.mem_cons_of_mem _ hothers)

theorem aliases_back_iff {parts : List QString} (h : ∀ part ∈ parts, part ≠ [] ∧ carriageReturn ∉ part) :
    QString.split verticalBar (wireText (normalizedLineEndings ([verticalBar].intercalate parts))) = parts ↔
      (∀ part ∈ parts, verticalBar ∉ part) ∧ ∀ part ∈ parts, PairedSurrogates part = true := by
  have hmark : IsMark verticalBar := by decide
  have hreturn : carriageReturn ∉ [verticalBar].intercalate parts := by
    intro hmem
    rcases mem_intercalate hmem with hbar | ⟨part, hpart, hc⟩
    · exact absurd hbar (by decide)
    · exact (h part hpart).2 hc
  rw [normalizedLineEndings_of_none hreturn, wireText_intercalate hmark]
  have hsplit : (∀ part ∈ parts, verticalBar ∉ part) →
      QString.split verticalBar ([verticalBar].intercalate (parts.map wireText)) = parts.map wireText := by
    intro hbars
    refine split_intercalate fun part hpart => ?_
    obtain ⟨before, hbefore, rfl⟩ := List.mem_map.mp hpart
    refine ⟨fun hbar => ?_, fun hnil => ?_⟩
    · exact hbars before hbefore ((mem_wireText hbar).resolve_right (by decide))
    · refine (h before hbefore).1 (List.length_eq_zero_iff.mp ?_)
      rw [← length_wireText, hnil, List.length_nil]
  constructor
  · intro hback
    have hbars : ∀ part ∈ parts, verticalBar ∉ part := fun part hpart => not_mem_split (hback ▸ hpart)
    rw [hsplit hbars] at hback
    refine ⟨hbars, fun part hpart => wireText_eq_self_iff.mp ?_⟩
    exact List.map_inj_left.mp (hback.trans (List.map_id _).symm) part hpart
  · rintro ⟨hbars, hpairs⟩
    rw [hsplit hbars]
    exact (List.map_congr_left fun part hpart => wireText_of_paired (hpairs part hpart)).trans (List.map_id _)

/-- **One term** comes back exactly if the table loses nothing of it. -/
theorem content_readBack_iff (h : Stored term) :
    content (readBack profileId term) = content term ↔ Tabular term := by
  have hcanonical := canonical_back_iff h.canonicalText.1 h.canonicalText.2.2
  have haliases := aliases_back_iff fun part hpart => (h.aliases part hpart).2
  have hfields : content (readBack profileId term) = content term ↔
      trimmed (wireText (normalizedLineEndings term.canonicalText)) = term.canonicalText ∧
        QString.split verticalBar (wireText (normalizedLineEndings ([verticalBar].intercalate term.aliases))) =
          term.aliases ∧
        wireText (normalizedLineEndings term.category) = term.category ∧
        wireText (normalizedLineEndings term.language) = term.language ∧
        wireText (normalizedLineEndings term.notes) = term.notes := by
    simp [content, readBack, and_assoc]
  rw [hfields, hcanonical, haliases, wireText_normalized_iff, wireText_normalized_iff, wireText_normalized_iff]
  constructor
  · rintro ⟨hc, ⟨hbars, ha⟩, ⟨hcr, hcp⟩, ⟨hlr, hlp⟩, hnr, hnp⟩
    refine ⟨hbars, ⟨hcr, hlr, hnr⟩, ?_⟩
    rintro text (_ | ⟨_, _ | ⟨_, _ | ⟨_, _ | ⟨_, hmem⟩⟩⟩⟩)
    · exact hc
    · exact hcp
    · exact hlp
    · exact hnp
    · exact ha text hmem
  · rintro ⟨hbars, ⟨hcr, hlr, hnr⟩, hpairs⟩
    obtain ⟨hc, hcp, hlp, hnp, ha⟩ : PairedSurrogates term.canonicalText = true ∧ _ ∧ _ ∧ _ ∧ _ := by
      simpa only [termTexts, List.forall_mem_cons] using hpairs
    exact ⟨hc, ⟨hbars, ha⟩, ⟨hcr, hcp⟩, ⟨hlr, hlp⟩, hnr, hnp⟩

theorem canonicalText_readBack_ne_nil (h : Stored term) (hcanonical : PairedSurrogates term.canonicalText = true) :
    (readBack profileId term).canonicalText ≠ [] := by
  have hback := (canonical_back_iff h.canonicalText.1 h.canonicalText.2.2).mpr hcanonical
  exact fun hnil => h.canonicalText.2.1 (hback.symm.trans hnil)

/-- Reading what has been written, where the terms are stored ones. -/
theorem termsFromCsv_eq_ok_iff (hstored : ∀ term ∈ terms, Stored term) (withBom : Bool) (profileId : QString) :
    termsFromCsv (termsToCsv terms withBom) profileId = .ok back ↔
      back = terms.map (readBack profileId) ∧ ∀ term ∈ terms, (readBack profileId term).canonicalText ≠ [] := by
  rw [termsFromCsv_termsToCsv]
  exact readTerms_eq_ok_iff (fun term hmem => (hstored term hmem).priority) 2

theorem tabular_of_roundTrips {withBom : Bool} (hstored : ∀ term ∈ terms, Stored term)
    (h : RoundTrips terms withBom profileId) : ∀ term ∈ terms, Tabular term := by
  obtain ⟨back, hback, hcontent⟩ := h
  intro term hmem
  rw [((termsFromCsv_eq_ok_iff hstored withBom profileId).mp hback).1, List.map_map] at hcontent
  exact (content_readBack_iff (hstored term hmem)).mp (List.map_inj_left.mp hcontent term hmem)

/-- **The round trip of a glossary.**  Stored terms come back from the table, with or without a byte order
    mark, exactly if no alias has a vertical bar, no category, language or note has a carriage return, and
    every surrogate has its other half. -/
theorem roundTrips_iff (terms : List GlossaryEntry) (hstored : ∀ term ∈ terms, Stored term) (withBom : Bool)
    (profileId : QString) : RoundTrips terms withBom profileId ↔ ∀ term ∈ terms, Tabular term := by
  refine ⟨tabular_of_roundTrips hstored, fun htabular => ?_⟩
  refine ⟨terms.map (readBack profileId), (termsFromCsv_eq_ok_iff hstored withBom profileId).mpr ⟨rfl, ?_⟩, ?_⟩
  · exact fun term hmem =>
      canonicalText_readBack_ne_nil (hstored term hmem) ((htabular term hmem).pairs _ (List.mem_cons_self ..))
  · rw [List.map_map]
    exact List.map_congr_left fun term hmem => (content_readBack_iff (hstored term hmem)).mpr (htabular term hmem)

/-- Quotes, commas and line feeds are no matter. -/
def quotedTerm : GlossaryEntry :=
  { canonicalText := qs "\"Breeze\", Desk", aliases := [qs "breeze,\ndesk", qs "\""], notes := qs "a\n\nb," }

theorem stored_quotedTerm : ∀ term ∈ [quotedTerm], Stored term := by
  intro term hmem
  rw [List.mem_singleton.mp hmem]
  exact ⟨by decide, by decide, by decide⟩

theorem roundTrips_quoted : (∀ term ∈ [quotedTerm], Stored term) ∧
    (RoundTrips [quotedTerm] true [] ↔ ∀ term ∈ [quotedTerm], Tabular term) :=
  ⟨stored_quotedTerm, roundTrips_iff [quotedTerm] stored_quotedTerm true []⟩

/-- The bar of the one alias separates two. -/
def barTerm : GlossaryEntry := { canonicalText := qs "I/O", aliases := [qs "I|O"] }

theorem not_roundTrips_bar : (∀ term ∈ [barTerm], Stored term) ∧ ¬ RoundTrips [barTerm] false [] := by
  have hstored : ∀ term ∈ [barTerm], Stored term := by
    intro term hmem
    rw [List.mem_singleton.mp hmem]
    exact ⟨by decide, by decide, by decide⟩
  refine ⟨hstored, fun hback => ?_⟩
  have hbars := (tabular_of_roundTrips hstored hback barTerm (List.mem_singleton_self _)).bars
  revert hbars
  decide

end GlossarySerializer

end BreezeDesk
