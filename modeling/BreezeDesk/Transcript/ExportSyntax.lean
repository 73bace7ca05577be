/-
  What other programs read in an export: the reserved sequences of the four formats.

  A table is read back whatever its texts are, since every text is quoted (`readCsv_renderText`).  Nothing is
  escaped in the other formats.  A cue is read back if its text is not blank and has no arrow, and in WebVTT
  neither `<` nor `&`; lines of one character show that these conditions are exact (`readableCue_iff`).  The
  title of a Markdown export is read back if it is plain.
-/
import BreezeDesk.Library.Table
import BreezeDesk.Transcript.CueTimes
import BreezeDesk.Transcript.FrontMatter

namespace BreezeDesk

/-! ## Subtitles -/

def arrow : QString := qs "-->"

def lessThan : QChar := 0x3C

def ampersand : QChar := 0x26

def semicolon : QChar := 0x3B

/-- A character of the name of a character reference, which may be a number. -/
def isReferenceChar (c : QChar) : Bool := isDigit c || (0x41 ≤ c && c ≤ 0x5A) || (0x61 ≤ c && c ≤ 0x7A) || c == 0x23

/-- What follows an ampersand is a character reference. -/
def startsReference (text : QString) : Bool :=
  text.head?.any isReferenceChar && (text.dropWhile isReferenceChar).head? == some semicolon

/-- Every `<` and every `&` of a line is escaped: there is none, or it begins a character reference. -/
def Escaped (line : QString) : Prop :=
  lessThan ∉ line ∧ ∀ before after, line = before ++ ampersand :: after → startsReference after = true

/-- A cue that is read back, in lines of any length. -/
def ReadableCue (display : QString) : Prop :=
  ∀ maximum, ∀ line ∈ payloadLines display maximum, ¬ Blank line ∧ ¬ arrow <:+: line ∧ Escaped line

/-- A text in which nothing means anything in a cue. -/
def PlainCue (display : QString) : Prop :=
  ¬ Blank display ∧ ¬ arrow <:+: simplified display ∧ lessThan ∉ display ∧ ampersand ∉ display

variable {display : QString}

theorem not_blank_payload (h : ¬ Blank display) (maximum : Int) :
    ∀ line ∈ payloadLines display maximum, ¬ Blank line := by
  intro line hline hblank
  have hlines := linesOf_payloadLines display maximum
  have hempty : line = [] := (hlines.lines line hline).eq_nil_of_blank hblank
  rcases payloadLines_ne_nil display maximum with hone | hall
  · -- the only line shows the whole text
    have hshown := hlines.shown
    rw [hone, visible_splits.simplified] at hshown
    exact h (visible_eq_nil.mp hshown.symm)
  · exact hall line hline hempty

/-- Lines of one character. -/
theorem payloadLines_one {line : QString} (hline : line ∈ payloadLines display 1) : line.length ≤ 1 := by
  rcases payloadLines_cases display 1 with ⟨hshort, hlines⟩ | ⟨-, -, hlines⟩
  · rw [hlines] at hline
    rw [List.mem_singleton.mp hline]
    omega
  · rw [hlines] at hline
    exact (wrapped_wrapLines (by decide) display).short line hline

/-- **A cue** is read back in lines of any length exactly if its text is plain. -/
theorem readableCue_iff (display : QString) : ReadableCue display ↔ PlainCue display := by
  constructor
  · intro h
    -- without a maximum the payload is one line
    have hwhole := h 0 (simplified display) (by
      rw [payloadLines_of_unwrapped display le_rfl]
      exact List.mem_singleton_self _)
    refine ⟨?_, hwhole.2.1, ?_, ?_⟩
    · intro hblank
      apply hwhole.1
      rw [← visible_eq_nil, visible_splits.simplified]
      exact visible_eq_nil.mpr hblank
    · intro hmem
      obtain ⟨line, hline, hc⟩ := (mem_payloadLines display 0 (by decide)).mpr hmem
      exact (h 0 line hline).2.2.1 hc
    · -- on a line of its own the ampersand begins no reference
      intro hmem
      obtain ⟨line, hline, hc⟩ := (mem_payloadLines display 1 (by decide)).mpr hmem
      obtain ⟨before, after, rfl⟩ := List.append_of_mem hc
      have hlength := payloadLines_one hline
      have hreference := (h 1 _ hline).2.2.2 before after rfl
      have hafter : after = [] := by
        simp only [List.length_append, List.length_cons] at hlength
        apply List.eq_nil_of_length_eq_zero
        omega
      rw [hafter] at hreference
      cases hreference
  · rintro ⟨hblank, harrow, hless, hampersand⟩ maximum line hline
    refine ⟨not_blank_payload hblank maximum line hline, ?_, ?_, ?_⟩
    · intro hmem
      exact harrow (hmem.trans (payloadLines_part display maximum line hline))
    · intro hmem
      exact hless ((mem_payloadLines display maximum (by decide)).mp ⟨line, hline, hmem⟩)
    · intro before after hsplit
      refine absurd ((mem_payloadLines display maximum (by decide)).mp ⟨line, hline, ?_⟩) hampersand
      rw [hsplit]
      simp

/-! ## Tables -/

def comma : QChar := 0x2C

def csvMarks : Table.Marks QChar where
  quote := quotationMark
  separator := comma
  lineEnd := lineFeed
  quote_ne_separator := by decide
  quote_ne_lineEnd := by decide
  separator_ne_lineEnd := by decide

/-- The rows of a table. -/
def readCsv (text : QString) : Option (List (List QString)) := Table.parse csvMarks .start [] [] text

variable (platform : ExportPlatform) (input : List TranscriptSegment)

def csvHeader : List QString :=
  [qs "start", qs "end", qs "original_text", qs "edited_text", qs "confidence"]

/-- The five fields of a segment. -/
def csvRow (segment : TranscriptSegment) : List QString :=
  [signedDecimal segment.startMs, signedDecimal segment.endMs, normalizedLineEndings segment.originalText,
    normalizedLineEndings segment.editedText, platform.fixedSix segment.averageProbability]

theorem signedDecimal_negSucc (n : Nat) : signedDecimal (Int.negSucc n) = 0x2D :: decimal (n + 1) := by
  unfold signedDecimal decimal qs
  show (("-" ++ toString (n + 1) : String).toList.map _) = _
  rw [String.toList_append]
  rfl

theorem mem_signedDecimal {value : Int} {c : QChar} (h : c ∈ signedDecimal value) : isDigit c = true ∨ c = 0x2D := by
  cases value with
  | ofNat n => exact Or.inl (isDigit_of_mem_decimal h)
  | negSucc n =>
    rw [signedDecimal_negSucc] at h
    rcases List.mem_cons.mp h with hsign | hdigit
    · exact Or.inr hsign
    · exact Or.inl (isDigit_of_mem_decimal hdigit)

/-- Numbers have none of the marks of a table, and no carriage return. -/
theorem number_plain {c : QChar} (h : isDigit c = true ∨ c = 0x2E ∨ c = 0x2D) :
    (c ≠ quotationMark ∧ c ≠ comma ∧ c ≠ lineFeed) ∧ c ≠ carriageReturn := by
  have hfree : ∀ d : QChar, isDigit d = false ∧ d ≠ 0x2E ∧ d ≠ 0x2D → c ≠ d := by
    rintro d ⟨hdigit, hdot, hminus⟩ rfl
    rcases h with h | h | h
    · rw [hdigit] at h
      cases h
    · exact hdot h
    · exact hminus h
  exact ⟨⟨hfree _ (by decide), hfree _ (by decide), hfree _ (by decide)⟩, hfree _ (by decide)⟩

theorem number_signedDecimal (value : Int) : ∀ c ∈ signedDecimal value, isDigit c = true ∨ c = 0x2E ∨ c = 0x2D :=
  fun _ hc => (mem_signedDecimal hc).imp_right Or.inr

theorem writes_number {text : QString} (h : ∀ c ∈ text, isDigit c = true ∨ c = 0x2E ∨ c = 0x2D) :
    Table.Writes csvMarks text text :=
  .plain fun c hc => (number_plain (h c hc)).1

/-- A text is quoted, whatever it is. -/
theorem writes_csvField (text : QString) : Table.Writes csvMarks (csvField text) (normalizedLineEndings text) :=
  .quoted (normalizedLineEndings text)

/-- How the fields of a segment are written. -/
def rowTexts (segment : TranscriptSegment) : List QString :=
  [signedDecimal segment.startMs, signedDecimal segment.endMs, csvField segment.originalText,
    csvField segment.editedText, platform.fixedSix segment.averageProbability]

theorem writes_rowTexts (segment : TranscriptSegment) :
    List.Forall₂ (Table.Writes csvMarks) (rowTexts platform segment) (csvRow platform segment) := by
  refine .cons ?_ (.cons ?_ (.cons ?_ (.cons ?_ (.cons ?_ .nil))))
  · exact writes_number (number_signedDecimal _)
  · exact writes_number (number_signedDecimal _)
  · exact writes_csvField _
  · exact writes_csvField _
  · exact writes_number (platform.fixedSix_plain _)

theorem writes_header : List.Forall₂ (Table.Writes csvMarks) csvHeader csvHeader := by
  have hplain : ∀ field ∈ csvHeader, Table.Plain csvMarks field := by
    have hall : (csvHeader.all fun field =>
        field.all fun c => c != quotationMark && c != comma && c != lineFeed) = true := rfl
    intro field hfield c hc
    have hmarks := List.all_eq_true.mp (List.all_eq_true.mp hall field hfield) c hc
    simp only [Bool.and_eq_true, bne_iff_ne] at hmarks
    exact ⟨hmarks.1.1, hmarks.1.2, hmarks.2⟩
  exact List.forall₂_same.mpr fun field hfield => .plain (hplain field hfield)

/-- **The table** is read back, whatever the texts are. -/
theorem readCsv_renderCsv (segments : List TranscriptSegment) :
    readCsv (renderCsv platform segments) = some (csvHeader :: segments.map (csvRow platform)) := by
  have hheader : qs "start,end,original_text,edited_text,confidence\n" = [comma].intercalate csvHeader ++ [lineFeed] :=
    rfl
  have hrow : renderRow platform = fun segment => [comma].intercalate (rowTexts platform segment) ++ [lineFeed] := rfl
  unfold readCsv renderCsv
  rw [hheader, hrow, List.append_assoc, List.singleton_append]
  have hread := Table.parse_row writes_header (by decide : csvHeader ≠ [])
    (segments.flatMap fun segment => [comma].intercalate (rowTexts platform segment) ++ [lineFeed]) []
  have hrows := Table.parse_rows (m := csvMarks) (rowTexts platform) (csvRow platform) segments
    fun segment _ => ⟨writes_rowTexts platform segment, List.cons_ne_nil _ _⟩
  refine hread.trans ?_
  show (Table.parse csvMarks .start [] [] (segments.flatMap fun segment =>
    [csvMarks.separator].intercalate (rowTexts platform segment) ++ [csvMarks.lineEnd])).map _ = _
  rw [hrows]
  rfl

theorem carriageReturn_not_mem_csvField (text : QString) : carriageReturn ∉ csvField text := by
  intro hmem
  unfold csvField at hmem
  simp only [List.cons_append, List.mem_cons, List.mem_append, List.mem_flatMap, List.not_mem_nil, or_false] at hmem
  rcases hmem with h | ⟨c, hc, h⟩ | h
  · revert h
    decide
  · split at h
    · revert h
      decide
    · rw [← List.mem_singleton.mp h] at hc
      exact carriageReturn_not_mem_normalized text hc
  · revert h
    decide

theorem carriageReturn_not_mem_renderCsv (segments : List TranscriptSegment) :
    carriageReturn ∉ renderCsv platform segments := by
  have hnumber : ∀ text : QString, (∀ c ∈ text, isDigit c = true ∨ c = 0x2E ∨ c = 0x2D) → carriageReturn ∉ text :=
    fun text htext hmem => (number_plain (htext _ hmem)).2 rfl
  have htexts : ∀ segment, ∀ text ∈ rowTexts platform segment, carriageReturn ∉ text := by
    intro segment text htext
    -- numbers have no carriage return, and texts have been normalized
    simp only [rowTexts, List.mem_cons, List.not_mem_nil, or_false] at htext
    rcases htext with rfl | rfl | rfl | rfl | rfl
    · exact hnumber _ (number_signedDecimal _)
    · exact hnumber _ (number_signedDecimal _)
    · exact carriageReturn_not_mem_csvField _
    · exact carriageReturn_not_mem_csvField _
    · exact hnumber _ (platform.fixedSix_plain _)
  intro hmem
  unfold renderCsv at hmem
  rcases List.mem_append.mp hmem with hheader | hrows
  · revert hheader
    decide
  · obtain ⟨segment, -, hrow⟩ := List.mem_flatMap.mp hrows
    rcases List.mem_append.mp hrow with hfields | hend
    · rcases mem_intercalate hfields with h | ⟨text, htext, hc⟩
      · revert h
        decide
      · exact htexts segment text htext hc
    · revert hend
      decide

theorem map_displayText_orderedValidSegments :
    (orderedValidSegments platform input).map (·.displayText) = (platform.sort input).map (·.displayText) := by
  have huntimed := congrArg (List.map TranscriptSegment.displayText) (untimed_repairTimes (platform.sort input) 0)
  rw [List.map_map, List.map_map] at huntimed
  exact huntimed

/-- Every cue is read back exactly if every text is plain. -/
theorem readableCues_iff : (∀ segment ∈ orderedValidSegments platform input, ReadableCue segment.displayText) ↔
    ∀ segment ∈ input, PlainCue segment.displayText := by
  have hsame : ∀ display, display ∈ (orderedValidSegments platform input).map (·.displayText) ↔
      display ∈ input.map (·.displayText) := by
    intro display
    rw [map_displayText_orderedValidSegments]
    exact ((platform.sort_perm input).map _).mem_iff
  simp only [readableCue_iff]
  constructor
  · intro h segment hsegment
    obtain ⟨cue, hcue, hdisplay⟩ := List.mem_map.mp ((hsame _).mpr (List.mem_map_of_mem hsegment))
    rw [← hdisplay]
    exact h cue hcue
  · intro h cue hcue
    obtain ⟨segment, hsegment, hdisplay⟩ := List.mem_map.mp ((hsame _).mp (List.mem_map_of_mem hcue))
    rw [← hdisplay]
    exact h segment hsegment

/-! ## The export -/

variable (metadata : TranscriptExportMetadata)

/-- An export that its readers can read, in every format and with any options. -/
structure ReadsBack : Prop where
  cues : ∀ segment ∈ orderedValidSegments platform input, ReadableCue segment.displayText
  table : ∀ options, readCsv (renderText platform .csv metadata input options) =
    some (csvHeader :: (orderedValidSegments platform input).map (csvRow platform))
  title : ∀ options, readTitle (renderText platform .markdown metadata input options) = some metadata.title

def sortsBefore (left right : TranscriptSegment) : Bool := decide ¬ ExportsBefore right left

theorem sortsBefore_iff {left right : TranscriptSegment} :
    sortsBefore left right = true ↔ ¬ ExportsBefore right left := decide_eq_true_iff

theorem sortsBefore_trans (a b c : TranscriptSegment) (hab : sortsBefore a b = true) (hbc : sortsBefore b c = true) :
    sortsBefore a c = true := by
  rw [sortsBefore_iff] at hab hbc ⊢
  unfold ExportsBefore at hab hbc ⊢
  omega

theorem sortsBefore_total (a b : TranscriptSegment) : (sortsBefore a b || sortsBefore b a) = true := by
  rw [Bool.or_eq_true, sortsBefore_iff, sortsBefore_iff]
  unfold ExportsBefore
  omega

/-- A platform that sorts by merging and rounds half up. -/
def samplePlatform : ExportPlatform where
  sort segments := segments.mergeSort sortsBefore
  sort_perm segments := List.mergeSort_perm _ _
  sort_ordered segments :=
    (List.pairwise_mergeSort sortsBefore_trans sortsBefore_total segments).imp fun h => sortsBefore_iff.mp h
  fixedSix value :=
    let scaled := ((if value < 0 then -value else value) * 1000000 + 1 / 2).floor.toNat
    (if value < 0 then [0x2D] else []) ++ decimal (scaled / 1000000) ++ [0x2E] ++ zeroPadded 6 (scaled % 1000000)
  fixedSix_plain value := by
    intro c hc
    simp only [List.mem_append, List.mem_singleton] at hc
    rcases hc with ((hsign | hwhole) | hdot) | hfraction
    · split at hsign
      · exact Or.inr (Or.inr (List.mem_singleton.mp hsign))
      · cases hsign
    · exact Or.inl (isDigit_of_mem_decimal hwhole)
    · exact Or.inr (Or.inl hdot)
    · exact Or.inl (isDigit_of_mem_zeroPadded hfraction)

end BreezeDesk
