/-
  Splitting a segment and merging two, in `TranscriptEditor` and in `TranscriptSegmentModel`.

  What a segment shows is its edited text, or its original text while there is no edited one.  Both splits
  cut the shown text and, somewhere in proportion, the original text, and trim the four parts.  A half that
  is blank is stored as no edit, and so it shows its part of the original text again (`splitKeeps_iff`).
  The merge of the segment model joins the shown texts; the one of the editor joins the original texts first
  and then takes the joined text for what an unedited left segment shows (`merged_keeps_iff`).

  Texts are compared by what is visible of them, and where words count, by their words.  The join puts a
  space between two letters of Latin script and nothing between any others (`words_joinText_iff`).
-/
import BreezeDesk.Transcript.Editor
import BreezeDesk.Transcript.Utf16
import BreezeDesk.Transcript.VisibleText

namespace BreezeDesk

open App (SplitsAtSpaces words_splits)

/-! ## Splitting -/

section Split

variable (platform : EditorPlatform)

/-- Where `TranscriptEditor::split` cuts the original text. -/
def TranscriptEditor.originalOffset (source : TranscriptSegment) (textOffset : Nat) : Nat :=
  (max 1 (min (platform.roundedShare textOffset source.displayText.length source.originalText.length)
    (max 1 (source.originalText.length - 1 : Int)))).toNat

/-- Where `TranscriptSegmentModel::split` cuts the original text. -/
def TranscriptSegmentModel.originalOffset (source : TranscriptSegment) (positionMs : Int) : Nat :=
  let displayText := source.displayText
  let share :=
    if displayText.isEmpty then
      platform.roundedShare (positionMs - source.startMs) (source.endMs - source.startMs)
        source.originalText.length
    else platform.roundedShare (preferredSplitOffset displayText) displayText.length source.originalText.length
  (max 0 (min (source.originalText.length : Int) share)).toNat

end Split

def TextsWellFormed (segment : TranscriptSegment) : Prop :=
  WellFormed segment.originalText ∧ WellFormed segment.editedText

/-- The two parts of a segment show its text, are well formed if it is, and share its time. -/
def SplitKeeps (source left right : TranscriptSegment) : Prop :=
  visible (left.displayText ++ right.displayText) = visible source.displayText ∧
    (TextsWellFormed source → TextsWellFormed left ∧ TextsWellFormed right) ∧
    left.startMs = source.startMs ∧ left.endMs = right.startMs ∧ right.endMs = source.endMs ∧
    left.startMs < left.endMs ∧ right.startMs < right.endMs

/-- No half of the shown text is blank while its part of the original text is not, and neither of the two
    cuts comes between the halves of a surrogate pair. -/
def CleanCut (source : TranscriptSegment) (displayOffset originalOffset : Nat) : Prop :=
  let display := source.displayText
  let original := source.originalText
  (Blank (display.take displayOffset) → Blank (original.take originalOffset)) ∧
    (Blank (display.drop displayOffset) → Blank (original.drop originalOffset)) ∧
    (TextsWellFormed source →
      CutsPair (display.take displayOffset) (display.drop displayOffset) = false ∧
      CutsPair (original.take originalOffset) (original.drop originalOffset) = false)

/-- A segment that was cut to these parts of the two texts. -/
structure IsPart (part : TranscriptSegment) (display original : QString) : Prop where
  edited : part.editedText = trimmed display
  original : part.originalText = trimmed original

theorem wellFormed_displayText {segment : TranscriptSegment} (h : TextsWellFormed segment) :
    WellFormed segment.displayText := by
  unfold TranscriptSegment.displayText
  split
  · exact h.1
  · exact h.2

namespace IsPart

variable {part : TranscriptSegment} {display original : QString}

/-- Beside its part of the shown text, a part shows its part of the original text if the former is blank. -/
theorem visible_displayText (h : IsPart part display original) :
    visible part.displayText = visible display ++ if Blank display then visible original else [] := by
  unfold TranscriptSegment.displayText
  rw [h.edited, h.original]
  by_cases hblank : Blank display
  · rw [if_pos hblank, visible_eq_nil.mpr hblank, List.nil_append, if_pos (List.isEmpty_iff.mpr hblank),
      visible_trimmed]
  · rw [if_neg hblank, List.append_nil, if_neg (fun hempty => hblank (List.isEmpty_iff.mp hempty)), visible_trimmed]

theorem textsWellFormed_iff (h : IsPart part display original) :
    TextsWellFormed part ↔ WellFormed original ∧ WellFormed display := by
  unfold TextsWellFormed
  rw [h.edited, h.original, wellFormed_trimmed, wellFormed_trimmed]

end IsPart

/-- What a blank part adds is nothing. -/
theorem ite_blank_eq_nil {display original : QString} :
    (if Blank display then visible original else []) = [] ↔ (Blank display → Blank original) := by
  by_cases hblank : Blank display
  · rw [if_pos hblank, visible_eq_nil]
    exact ⟨fun h _ => h, fun h => h hblank⟩
  · rw [if_neg hblank]
    exact ⟨fun _ h => absurd h hblank, fun _ => rfl⟩

theorem append_four_eq_iff {α : Type} (first second more others : List α) :
    first ++ more ++ (second ++ others) = first ++ second ↔ more = [] ∧ others = [] := by
  constructor
  · intro h
    have hlength := congrArg List.length h
    simp only [List.length_append] at hlength
    constructor
    · exact List.eq_nil_of_length_eq_zero (by omega)
    · exact List.eq_nil_of_length_eq_zero (by omega)
  · rintro ⟨rfl, rfl⟩
    rw [List.append_nil, List.append_nil]

/-- **The parts show the text of the segment** exactly behind a clean cut. -/
theorem splitKeeps_iff {source left right : TranscriptSegment} {displayOffset originalOffset : Nat}
    (hleft : IsPart left (source.displayText.take displayOffset) (source.originalText.take originalOffset))
    (hright : IsPart right (source.displayText.drop displayOffset) (source.originalText.drop originalOffset))
    (htimes : left.startMs = source.startMs ∧ left.endMs = right.startMs ∧ right.endMs = source.endMs ∧
      left.startMs < left.endMs ∧ right.startMs < right.endMs) :
    SplitKeeps source left right ↔ CleanCut source displayOffset originalOffset := by
  -- a part with blank edited text shows its original text instead
  have hshown : visible (left.displayText ++ right.displayText) = visible source.displayText ↔
      (Blank (source.displayText.take displayOffset) → Blank (source.originalText.take originalOffset)) ∧
      (Blank (source.displayText.drop displayOffset) → Blank (source.originalText.drop originalOffset)) := by
    conv_lhs => rhs; rw [← List.take_append_drop displayOffset source.displayText]
    rw [visible_append, visible_append, hleft.visible_displayText, hright.visible_displayText, append_four_eq_iff,
      ite_blank_eq_nil, ite_blank_eq_nil]
  -- the texts are cut at different offsets, so there are two cuts that may come inside a pair
  have hformed : (TextsWellFormed source → TextsWellFormed left ∧ TextsWellFormed right) ↔
      (TextsWellFormed source →
        CutsPair (source.displayText.take displayOffset) (source.displayText.drop displayOffset) = false ∧
        CutsPair (source.originalText.take originalOffset) (source.originalText.drop originalOffset) = false) := by
    refine imp_congr_right fun hsource => ?_
    have hdisplay := wellFormed_displayText hsource
    have horiginal := hsource.1
    rw [← List.take_append_drop displayOffset source.displayText] at hdisplay
    rw [← List.take_append_drop originalOffset source.originalText] at horiginal
    rw [hleft.textsWellFormed_iff, hright.textsWellFormed_iff, ← wellFormed_halves hdisplay,
      ← wellFormed_halves horiginal]
    exact ⟨fun h => ⟨⟨h.1.2, h.2.2⟩, h.1.1, h.2.1⟩, fun h => ⟨⟨h.2.1, h.1.1⟩, h.2.2, h.1.2⟩⟩
  unfold SplitKeeps CleanCut
  rw [hshown, hformed, and_assoc]
  exact ⟨fun h => ⟨h.1, h.2.1, h.2.2.1⟩, fun h => ⟨h.1, h.2.1, h.2.2, htimes⟩⟩

/-- A row of a list became two. -/
def RowSplit (rows rows' : EditorRows) (row : Int) (source left right : TranscriptSegment) : Prop :=
  ∃ before behind, (before.length : Int) = row ∧ rows = before ++ source :: behind ∧
    rows' = TranscriptSegmentModel.normalizeOrdinals (before ++ left :: right :: behind)

variable {platform : EditorPlatform} {rows rows' before after : EditorRows} {now row : Int} {newId : QString}
  {source : TranscriptSegment} {moment : EditorMoment} {s t : TranscriptEditor} {index : Int}

theorem length_before_of_rowAt (h : TranscriptSegmentModel.rowAt rows row = some (before, source, after)) :
    (before.length : Int) = row := by
  unfold TranscriptSegmentModel.rowAt at h
  split at h
  · cases h
  next hnonneg =>
    split at h
    · cases h
    next item rest hdrop =>
      cases h
      have hlength : row.toNat < rows.length := by
        by_contra hbeyond
        rw [List.drop_eq_nil_of_le (Nat.not_lt.mp hbeyond)] at hdrop
        cases hdrop
      rw [List.length_take, Nat.min_eq_left hlength.le]
      omega

theorem TranscriptEditor.split_spec {splitMs textOffset : Int}
    (h : TranscriptEditor.split platform moment index splitMs textOffset s = (.ok (), t)) :
    ∃ source, RowSplit s.segments t.segments index source
        (TranscriptEditor.halves platform moment source splitMs textOffset.toNat).1
        (TranscriptEditor.halves platform moment source splitMs textOffset.toNat).2 ∧
      source.startMs < splitMs ∧ splitMs < source.endMs := by
  unfold TranscriptEditor.split at h
  split at h
  · cases h
  next before source behind hrow =>
    split at h
    · cases h
    next hinside =>
      obtain ⟨hstart, hrest⟩ := not_or.mp hinside
      obtain ⟨hend, -⟩ := not_or.mp hrest
      cases h
      exact ⟨source, ⟨before, behind, length_before_of_rowAt hrow, TranscriptSegmentModel.rowAt_eq_some hrow, rfl⟩,
        not_le.mp hstart, not_le.mp hend⟩

theorem TranscriptSegmentModel.split_spec {positionMs : Int}
    (h : TranscriptSegmentModel.split platform now newId rows row positionMs = some rows') :
    ∃ source, RowSplit rows rows' row source
        (TranscriptSegmentModel.halves platform now newId source positionMs).1
        (TranscriptSegmentModel.halves platform now newId source positionMs).2 ∧
      source.startMs < positionMs ∧ positionMs < source.endMs := by
  obtain ⟨⟨before, source, behind⟩, hrow, hedit⟩ := Option.bind_eq_some_iff.mp h
  dsimp only at hedit
  split at hedit
  · cases hedit
  next hinside =>
    obtain ⟨hstart, hend⟩ := not_or.mp hinside
    cases hedit
    exact ⟨source, ⟨before, behind, length_before_of_rowAt hrow, rowAt_eq_some hrow, rfl⟩, not_le.mp hstart,
      not_le.mp hend⟩

/-- **Splitting** keeps what is shown, well-formed texts and the time exactly behind a clean cut, in the editor
    and in the segment model. -/
theorem split_conserves (platform : EditorPlatform) :
    (∀ moment index splitMs textOffset s t,
      TranscriptEditor.split platform moment index splitMs textOffset s = (.ok (), t) →
        ∃ source left right, RowSplit s.segments t.segments index source left right ∧
          (SplitKeeps source left right ↔ CleanCut source textOffset.toNat
            (TranscriptEditor.originalOffset platform source textOffset.toNat))) ∧
    ∀ now newId rows row positionMs rows',
      TranscriptSegmentModel.split platform now newId rows row positionMs = some rows' →
        ∃ source left right, RowSplit rows rows' row source left right ∧
          (SplitKeeps source left right ↔ CleanCut source
            (TranscriptSegmentModel.preferredSplitOffset source.displayText)
            (TranscriptSegmentModel.originalOffset platform source positionMs)) := by
  constructor
  · intro moment index splitMs textOffset s t h
    obtain ⟨source, hrows, hstart, hend⟩ := TranscriptEditor.split_spec h
    exact ⟨source, _, _, hrows, splitKeeps_iff ⟨rfl, rfl⟩ ⟨rfl, rfl⟩ ⟨rfl, rfl, rfl, hstart, hend⟩⟩
  · intro now newId rows row positionMs rows' h
    obtain ⟨source, hrows, hstart, hend⟩ := TranscriptSegmentModel.split_spec h
    exact ⟨source, _, _, hrows, splitKeeps_iff ⟨rfl, rfl⟩ ⟨rfl, rfl⟩ ⟨rfl, rfl, rfl, hstart, hend⟩⟩

/-- A segment whose edited text begins with a space. -/
def spacedSegment : TranscriptSegment :=
  { endMs := 1000, originalText := qs "good morning", editedText := qs " hi" }

/-- **A blank half shows the original text**: `" hi"` is cut behind the space, and the parts show `good` and
    `hi`. -/
theorem split_conserves_blank :
    ¬ ∀ (s t : TranscriptEditor) (index splitMs textOffset : Int),
      TranscriptEditor.split asciiPlatform {} index splitMs textOffset s = (.ok (), t) →
        visible (t.segments.flatMap (·.displayText)) = visible (s.segments.flatMap (·.displayText)) := by
  intro h
  have hshown := h { segments := [spacedSegment] } _ 0 500 1 rfl
  revert hshown
  decide

/-! ## Merging -/

/-- The merged segment shows both texts and spans both times. -/
def MergeKeeps (left right merged : TranscriptSegment) : Prop :=
  visible merged.displayText = visible (left.displayText ++ right.displayText) ∧
    merged.startMs = left.startMs ∧ merged.endMs = right.endMs

/-- Two neighbours of a list, the right one in `row`, became one. -/
def RowsMerged (rows rows' : EditorRows) (row : Int) (left right merged : TranscriptSegment) : Prop :=
  ∃ before behind, (before.length : Int) + 1 = row ∧ rows = before ++ left :: right :: behind ∧
    rows' = TranscriptSegmentModel.normalizeOrdinals (before ++ merged :: behind)

variable {left right : TranscriptSegment} {first second : QString}

theorem visible_joinText (platform : EditorPlatform) (first second : QString) :
    visible (TranscriptSegmentModel.joinText platform first second) = visible first ++ visible second := by
  unfold TranscriptSegmentModel.joinText
  split
  next hfirst =>
    rw [List.getLast?_eq_none_iff.mp hfirst]
    rfl
  next _ hsecond _ =>
    rw [List.head?_eq_none_iff.mp hsecond]
    exact (List.append_nil _).symm
  next =>
    dsimp only
    rw [visible_append, visible_append]
    split
    · exact congrArg (· ++ visible second) (List.append_nil _)
    · exact congrArg (· ++ visible second) (List.append_nil _)

theorem joinText_eq_nil : TranscriptSegmentModel.joinText platform first second = [] ↔ first = [] ∧ second = [] := by
  unfold TranscriptSegmentModel.joinText
  split
  next hfirst =>
    rw [List.getLast?_eq_none_iff.mp hfirst]
    exact ⟨fun h => ⟨rfl, h⟩, fun h => h.2⟩
  next _ hsecond _ =>
    rw [List.head?_eq_none_iff.mp hsecond]
    exact ⟨fun h => ⟨h, rfl⟩, fun h => h.1⟩
  next hlast hhead =>
    constructor
    · intro h
      obtain ⟨h, hsecond⟩ := List.append_eq_nil_iff.mp h
      exact ⟨(List.append_eq_nil_iff.mp h).1, hsecond⟩
    · rintro ⟨rfl, rfl⟩
      cases hlast

theorem displayText_of_nonempty {segment : TranscriptSegment} (h : segment.editedText ≠ []) :
    segment.displayText = segment.editedText :=
  if_neg fun hempty => h (List.isEmpty_iff.mp hempty)

theorem displayText_of_empty {segment : TranscriptSegment} (h : segment.editedText = []) :
    segment.displayText = segment.originalText :=
  if_pos (List.isEmpty_iff.mpr h)

theorem displayText_eq_nil {segment : TranscriptSegment} :
    segment.displayText = [] ↔ segment.editedText = [] ∧ segment.originalText = [] := by
  unfold TranscriptSegment.displayText
  split
  next hempty => exact ⟨fun h => ⟨List.isEmpty_iff.mp hempty, h⟩, fun h => h.2⟩
  next hedited => exact ⟨fun h => absurd (List.isEmpty_iff.mpr h) hedited, fun h => h.1⟩

/-- A merge that joins the shown texts, and the original ones, shows both. -/
theorem visible_of_joined {merged : TranscriptSegment} {shown : QString}
    (hedited : merged.editedText = TranscriptSegmentModel.joinText platform shown right.displayText)
    (horiginal : merged.originalText =
      TranscriptSegmentModel.joinText platform left.originalText right.originalText)
    (hshown : shown = [] → left.originalText = []) :
    visible merged.displayText = visible shown ++ visible right.displayText := by
  by_cases hempty : merged.editedText = []
  · obtain ⟨hleft, hright⟩ := joinText_eq_nil.mp (hedited.symm.trans hempty)
    have hdisplay : merged.displayText = [] := by
      rw [displayText_eq_nil, horiginal, joinText_eq_nil]
      exact ⟨hempty, hshown hleft, (displayText_eq_nil.mp hright).2⟩
    rw [hdisplay, hleft, hright]
    rfl
  · rw [displayText_of_nonempty hempty, hedited, visible_joinText]

theorem TranscriptSegmentModel.merged_keeps :
    MergeKeeps left right (TranscriptSegmentModel.merged platform now left right) := by
  refine ⟨?_, rfl, rfl⟩
  rw [visible_append]
  exact visible_of_joined rfl rfl fun hshown => (displayText_eq_nil.mp hshown).2

/-- **The editor's merge** shows an unedited left segment together with the original text of the right one. -/
theorem TranscriptEditor.merged_keeps_iff :
    MergeKeeps left right (TranscriptEditor.merged platform moment left right) ↔
      left.editedText ≠ [] ∨ Blank right.originalText := by
  unfold MergeKeeps
  rw [and_iff_left ⟨rfl, rfl⟩, visible_append]
  by_cases hedited : left.editedText = []
  · have hshown : visible (TranscriptEditor.merged platform moment left right).displayText =
        visible left.originalText ++ visible right.originalText ++ visible right.displayText := by
      rw [← visible_joinText platform]
      -- `displayText` is read when the original texts are joined already
      have hjoined : (TranscriptEditor.merged platform moment left right).editedText =
          TranscriptSegmentModel.joinText platform
            (TranscriptSegmentModel.joinText platform left.originalText right.originalText) right.displayText := by
        show TranscriptSegmentModel.joinText platform (if left.editedText.isEmpty then _ else _) _ = _
        rw [if_pos (List.isEmpty_iff.mpr hedited)]
        rfl
      exact visible_of_joined hjoined rfl fun h => (joinText_eq_nil.mp h).1
    rw [hshown, displayText_of_empty hedited]
    -- so the right original text is shown once more, unless it is blank
    have hmore : visible left.originalText ++ visible right.originalText ++ visible right.displayText =
        visible left.originalText ++ visible right.displayText ↔ visible right.originalText = [] := by
      have hfour := append_four_eq_iff (visible left.originalText) (visible right.displayText)
        (visible right.originalText) []
      rw [List.append_nil] at hfour
      rw [hfour, and_iff_left rfl]
    rw [hmore, visible_eq_nil]
    exact ⟨Or.inr, fun h => h.resolve_left fun hne => hne hedited⟩
  · refine ⟨fun _ => Or.inl hedited, fun _ => ?_⟩
    rw [displayText_of_nonempty hedited]
    refine visible_of_joined ?_ rfl fun h => absurd h hedited
    show TranscriptSegmentModel.joinText platform (if left.editedText.isEmpty then _ else _) _ = _
    rw [if_neg fun h => hedited (List.isEmpty_iff.mp h)]

/-- A row that has one before it stands behind that one. -/
theorem rowsMerged_of_rowAt {left right : TranscriptSegment} (merged : TranscriptSegment)
    (hrow : TranscriptSegmentModel.rowAt rows row = some (before, right, after))
    (hleft : before.getLast? = some left) :
    RowsMerged rows (TranscriptSegmentModel.normalizeOrdinals (before.dropLast ++ merged :: after)) row
      left right merged := by
  have hbefore : before.dropLast ++ [left] = before := List.dropLast_append_getLast? left hleft
  have hlength := congrArg List.length hbefore
  rw [List.length_append, List.length_singleton] at hlength
  have hindex := length_before_of_rowAt hrow
  refine ⟨before.dropLast, after, by omega, ?_, rfl⟩
  rw [TranscriptSegmentModel.rowAt_eq_some hrow]
  conv_lhs => rw [← hbefore]
  exact List.append_assoc ..

theorem TranscriptEditor.mergeWithPrevious_spec
    (h : TranscriptEditor.mergeWithPrevious platform moment index s = (.ok (), t)) :
    ∃ left right, RowsMerged s.segments t.segments index left right
      (TranscriptEditor.merged platform moment left right) := by
  unfold TranscriptEditor.mergeWithPrevious at h
  split at h
  · cases h
  next before right behind hrow =>
    split at h
    · cases h
    next left hleft =>
      cases h
      exact ⟨left, right, rowsMerged_of_rowAt _ hrow hleft⟩

theorem TranscriptEditor.mergeWithNext_spec
    (h : TranscriptEditor.mergeWithNext platform moment index s = (.ok (), t)) :
    ∃ left right, RowsMerged s.segments t.segments (index + 1) left right
      (TranscriptEditor.merged platform moment left right) := by
  unfold TranscriptEditor.mergeWithNext at h
  split at h
  · cases h
  · exact TranscriptEditor.mergeWithPrevious_spec h

theorem TranscriptSegmentModel.mergePrevious_spec
    (h : TranscriptSegmentModel.mergePrevious platform now rows row = some rows') :
    ∃ left right, RowsMerged rows rows' row left right (TranscriptSegmentModel.merged platform now left right) := by
  obtain ⟨⟨before, right, behind⟩, hrow, hedit⟩ := Option.bind_eq_some_iff.mp h
  obtain ⟨left, hleft, hedit⟩ := Option.bind_eq_some_iff.mp hedit
  cases hedit
  exact ⟨left, right, rowsMerged_of_rowAt _ hrow hleft⟩

theorem TranscriptSegmentModel.mergeNext_spec
    (h : TranscriptSegmentModel.mergeNext platform now rows row = some rows') :
    ∃ left right, RowsMerged rows rows' (row + 1) left right
      (TranscriptSegmentModel.merged platform now left right) := by
  unfold TranscriptSegmentModel.mergeNext at h
  split at h
  · exact TranscriptSegmentModel.mergePrevious_spec h
  · cases h

/-- **Merging** shows each text once and spans both times: always in the segment model, and in the editor exactly
    if the left segment carries an edit or the right one has no original text. -/
theorem merge_conserves (platform : EditorPlatform) :
    (∀ moment index s t, TranscriptEditor.mergeWithPrevious platform moment index s = (.ok (), t) →
      ∃ left right merged, RowsMerged s.segments t.segments index left right merged ∧
        (MergeKeeps left right merged ↔ left.editedText ≠ [] ∨ Blank right.originalText)) ∧
    (∀ moment index s t, TranscriptEditor.mergeWithNext platform moment index s = (.ok (), t) →
      ∃ left right merged, RowsMerged s.segments t.segments (index + 1) left right merged ∧
        (MergeKeeps left right merged ↔ left.editedText ≠ [] ∨ Blank right.originalText)) ∧
    (∀ now rows row rows', TranscriptSegmentModel.mergePrevious platform now rows row = some rows' →
      ∃ left right merged, RowsMerged rows rows' row left right merged ∧ MergeKeeps left right merged) ∧
    ∀ now rows row rows', TranscriptSegmentModel.mergeNext platform now rows row = some rows' →
      ∃ left right merged, RowsMerged rows rows' (row + 1) left right merged ∧ MergeKeeps left right merged := by
  refine ⟨fun moment index s t h => ?_, fun moment index s t h => ?_, fun now rows row rows' h => ?_,
    fun now rows row rows' h => ?_⟩
  · obtain ⟨left, right, hrows⟩ := TranscriptEditor.mergeWithPrevious_spec h
    exact ⟨left, right, _, hrows, TranscriptEditor.merged_keeps_iff⟩
  · obtain ⟨left, right, hrows⟩ := TranscriptEditor.mergeWithNext_spec h
    exact ⟨left, right, _, hrows, TranscriptEditor.merged_keeps_iff⟩
  · obtain ⟨left, right, hrows⟩ := TranscriptSegmentModel.mergePrevious_spec h
    exact ⟨left, right, _, hrows, TranscriptSegmentModel.merged_keeps⟩
  · obtain ⟨left, right, hrows⟩ := TranscriptSegmentModel.mergeNext_spec h
    exact ⟨left, right, _, hrows, TranscriptSegmentModel.merged_keeps⟩

/-- Two unedited segments. -/
def uneditedSegments : List TranscriptSegment :=
  [{ endMs := 1000, originalText := qs "good" }, { startMs := 1000, endMs := 2000, originalText := qs "morning" }]

/-- **The right text twice**: two unedited segments become `good morning morning`. -/
theorem merge_conserves_unedited :
    ¬ ∀ (s t : TranscriptEditor) (index : Int),
      TranscriptEditor.mergeWithPrevious asciiPlatform {} index s = (.ok (), t) →
        visible (t.segments.flatMap (·.displayText)) = visible (s.segments.flatMap (·.displayText)) := by
  intro h
  have hshown := h { segments := uneditedSegments } _ 1 rfl
  revert hshown
  decide

/-! ## Words -/

/-- How many words follow on one that is begun does not depend on that one. -/
theorem length_words_begun (text : QString) : ∀ {word other : QString}, word ≠ [] → other ≠ [] →
    (words text word).length = (words text other).length := by
  have hfalse : ∀ {word : QString}, word ≠ [] → word.isEmpty = false := fun hword =>
    Bool.eq_false_iff.mpr fun h => hword (List.isEmpty_iff.mp h)
  induction text with
  | nil =>
    intro word other hword hother
    rw [words, words, hfalse hword, hfalse hother]
    rfl
  | cons c rest ih =>
    intro word other hword hother
    rw [words, words, hfalse hword, hfalse hother]
    split
    · rfl
    · exact ih (List.append_ne_nil_of_right_ne_nil _ (List.cons_ne_nil c []))
        (List.append_ne_nil_of_right_ne_nil _ (List.cons_ne_nil c []))

/-- **A visible character on a visible one** makes one word of two. -/
theorem length_words_append {second : QString} (hsecond : ∀ c ∈ second.head?, isSpace c = false)
    (hne : second ≠ []) : ∀ {first : QString} (word : QString), first ≠ [] →
      (∀ c ∈ first.getLast?, isSpace c = false) →
      (words (first ++ second) word).length + 1 = (words first word).length + (words second []).length := by
  intro first
  induction first with
  | nil => exact fun word hfirst => absurd rfl hfirst
  | cons c rest ih =>
    intro word _ hlast
    rw [List.cons_append, words, words]
    cases rest with
    | nil =>
      -- the last character of the first text and the first of the second are in one word
      have hc : isSpace c = false := hlast c rfl
      obtain ⟨d, others, rfl⟩ := List.exists_cons_of_ne_nil hne
      have hd : isSpace d = false := hsecond d rfl
      have hbegun : (words (d :: others) (word ++ [c])).length = (words (d :: others) []).length := by
        rw [words, words, if_neg (by rw [hd]; exact Bool.false_ne_true),
          if_neg (by rw [hd]; exact Bool.false_ne_true)]
        exact length_words_begun others (List.append_ne_nil_of_right_ne_nil _ (List.cons_ne_nil d []))
          (List.append_ne_nil_of_right_ne_nil _ (List.cons_ne_nil d []))
      have hone : words [] (word ++ [c]) = [word ++ [c]] := by
        rw [words, if_neg fun h => List.append_ne_nil_of_right_ne_nil word (List.cons_ne_nil c [])
          (List.isEmpty_iff.mp h)]
      rw [if_neg (by rw [hc]; exact Bool.false_ne_true), if_neg (by rw [hc]; exact Bool.false_ne_true),
        List.nil_append, hbegun, hone, List.length_singleton, Nat.add_comm]
    | cons d others =>
      have hrest := fun word => ih word (List.cons_ne_nil d others) hlast
      split
      · split
        · exact hrest []
        · rw [List.length_cons, List.length_cons, hrest []]
          omega
      · exact hrest _

/-- The two characters at which the texts meet are of Latin script. -/
def BothLatin (platform : EditorPlatform) (first second : QString) : Prop :=
  first.getLast?.any platform.isLatin = true ∧ second.head?.any platform.isLatin = true

/-- **Joining keeps the words** exactly between two letters of Latin script. -/
theorem words_joinText_iff (hfirst : first ≠ []) (hsecond : second ≠ [])
    (hlast : ∀ c ∈ first.getLast?, isSpace c = false) (hhead : ∀ c ∈ second.head?, isSpace c = false) :
    words (TranscriptSegmentModel.joinText platform first second) [] = words first [] ++ words second [] ↔
      BothLatin platform first second := by
  obtain ⟨c, hc⟩ : ∃ c, first.getLast? = some c := ⟨_, List.getLast?_eq_getLast_of_ne_nil hfirst⟩
  obtain ⟨d, hd⟩ : ∃ d, second.head? = some d := ⟨_, List.head?_eq_some_head hsecond⟩
  -- neither end is white space, so only the script decides about the blank
  have hjoin : TranscriptSegmentModel.joinText platform first second =
      first ++ (if platform.isLatin c && platform.isLatin d then qs " " else []) ++ second := by
    unfold TranscriptSegmentModel.joinText
    rw [hc, hd]
    dsimp only
    rw [hlast c hc, hhead d hd, Bool.not_false, Bool.and_true, Bool.and_true]
  have hlatin : BothLatin platform first second ↔ (platform.isLatin c && platform.isLatin d) = true := by
    unfold BothLatin
    rw [hc, hd, Bool.and_eq_true]
    exact Iff.rfl
  rw [hjoin, hlatin]
  by_cases hspace : (platform.isLatin c && platform.isLatin d) = true
  · rw [if_pos hspace]
    refine ⟨fun _ => hspace, fun _ => ?_⟩
    rw [List.append_assoc]
    exact words_splits.append (by decide) first second
  · rw [if_neg hspace, List.append_nil]
    refine ⟨fun hwords => ?_, fun h => absurd h hspace⟩
    -- glued texts have one word too few
    have hlength := length_words_append hhead hsecond [] hfirst hlast
    rw [hwords, List.length_append] at hlength
    omega

/-- A cut beside white space is one between words. -/
theorem words_append_of_space
    (h : (∃ c ∈ first.getLast?, isSpace c = true) ∨ ∃ c ∈ second.head?, isSpace c = true) :
    words (first ++ second) [] = words first [] ++ words second [] := by
  rcases h with ⟨c, hlast, hspace⟩ | ⟨c, hhead, hspace⟩
  · have hfirst : first.dropLast ++ [c] = first := List.dropLast_append_getLast? c hlast
    have happend := words_splits.append hspace first.dropLast second
    have hbefore := words_splits.append hspace first.dropLast []
    rw [hfirst, words_splits.nil, List.append_nil] at hbefore
    rw [hbefore, ← happend]
    conv_lhs => rw [← hfirst, List.append_assoc, List.singleton_append]
  · obtain ⟨rest, rfl⟩ := List.head?_eq_some_iff.mp hhead
    have happend := words_splits.append hspace first rest
    have hbehind := words_splits.append hspace [] rest
    rw [words_splits.nil, List.nil_append] at hbehind
    rw [happend, hbehind, List.nil_append]

/-! ## Splitting and merging again -/

/-- A split of a row by the editor or the segment model, with the place where the shown text is cut. -/
inductive Splits (platform : EditorPlatform) : EditorRows → Int → TranscriptSegment → Nat → EditorRows → Prop where
  | editor {moment : EditorMoment} {index splitMs textOffset : Int} {source : TranscriptSegment}
      {s t : TranscriptEditor} : s.segments[index.toNat]? = some source →
      TranscriptEditor.split platform moment index splitMs textOffset s = (.ok (), t) →
      Splits platform s.segments index source textOffset.toNat t.segments
  | model {now row positionMs : Int} {newId : QString} {source : TranscriptSegment} {rows rows' : EditorRows} :
      rows[row.toNat]? = some source →
      TranscriptSegmentModel.split platform now newId rows row positionMs = some rows' →
      Splits platform rows row source (TranscriptSegmentModel.preferredSplitOffset source.displayText) rows'

/-- A merge of a row with the next one, by the editor or the segment model. -/
inductive Merges (platform : EditorPlatform) : EditorRows → Int → EditorRows → Prop where
  | editorPrevious {moment : EditorMoment} {index : Int} {s t : TranscriptEditor} :
      TranscriptEditor.mergeWithPrevious platform moment (index + 1) s = (.ok (), t) →
      Merges platform s.segments index t.segments
  | editorNext {moment : EditorMoment} {index : Int} {s t : TranscriptEditor} :
      TranscriptEditor.mergeWithNext platform moment index s = (.ok (), t) →
      Merges platform s.segments index t.segments
  | modelPrevious {now row : Int} {rows rows' : EditorRows} :
      TranscriptSegmentModel.mergePrevious platform now rows (row + 1) = some rows' → Merges platform rows row rows'
  | modelNext {now row : Int} {rows rows' : EditorRows} :
      TranscriptSegmentModel.mergeNext platform now rows row = some rows' → Merges platform rows row rows'

theorem getElem?_normalizeOrdinals (rows : EditorRows) (i : Nat) :
    (TranscriptSegmentModel.normalizeOrdinals rows)[i]? =
      rows[i]?.map fun item => { item with ordinal := (i : Int) } := by
  unfold TranscriptSegmentModel.normalizeOrdinals
  rw [List.getElem?_map, List.getElem?_zipIdx, Option.map_map, Nat.zero_add]
  rfl

theorem getElem?_append_length (before behind : EditorRows) (item : TranscriptSegment) :
    (before ++ item :: behind)[before.length]? = some item := by
  rw [List.getElem?_append_right (Nat.le_refl _), Nat.sub_self]
  rfl

/-- What every split makes of a row. -/
theorem Splits.spec {offset : Nat} (h : Splits platform rows row source offset rows') :
    ∃ left right original others, RowSplit rows rows' row source left right ∧
      IsPart left (source.displayText.take offset) original ∧ IsPart right (source.displayText.drop offset) others ∧
      left.startMs = source.startMs ∧ right.endMs = source.endMs := by
  have hunique : ∀ {rows rows' : EditorRows} {row : Int} {source other left right : TranscriptSegment},
      rows[row.toNat]? = some source → RowSplit rows rows' row other left right → other = source := by
    rintro rows rows' row source other left right hsource ⟨before, behind, hlength, rfl, -⟩
    rw [← hlength, Int.toNat_natCast, getElem?_append_length] at hsource
    exact Option.some.inj hsource
  cases h with
  | editor hsource hsplit =>
    obtain ⟨other, hrows, -⟩ := TranscriptEditor.split_spec hsplit
    obtain rfl := hunique hsource hrows
    exact ⟨_, _, _, _, hrows, ⟨rfl, rfl⟩, ⟨rfl, rfl⟩, rfl, rfl⟩
  | model hsource hsplit =>
    obtain ⟨other, hrows, -⟩ := TranscriptSegmentModel.split_spec hsplit
    obtain rfl := hunique hsource hrows
    exact ⟨_, _, _, _, hrows, ⟨rfl, rfl⟩, ⟨rfl, rfl⟩, rfl, rfl⟩

/-- What every merge makes of an edited row and the next one. -/
theorem Merges.spec (h : Merges platform rows row rows') :
    ∃ left right merged, RowsMerged rows rows' (row + 1) left right merged ∧
      merged.startMs = left.startMs ∧ merged.endMs = right.endMs ∧
      (left.editedText ≠ [] →
        merged.editedText = TranscriptSegmentModel.joinText platform left.editedText right.displayText) := by
  -- The two merges differ in the original text they fall back to.
  have hjoined : ∀ {left right : TranscriptSegment} {original : QString}, left.editedText ≠ [] →
      TranscriptSegmentModel.joinText platform
          (if left.editedText.isEmpty then original else left.editedText) right.displayText =
        TranscriptSegmentModel.joinText platform left.editedText right.displayText := by
    intro left right original hedited
    rw [if_neg fun h => hedited (List.isEmpty_iff.mp h)]
  cases h with
  | editorPrevious hmerge =>
    obtain ⟨left, right, hrows⟩ := TranscriptEditor.mergeWithPrevious_spec hmerge
    exact ⟨left, right, _, hrows, rfl, rfl, hjoined⟩
  | editorNext hmerge =>
    obtain ⟨left, right, hrows⟩ := TranscriptEditor.mergeWithNext_spec hmerge
    exact ⟨left, right, _, hrows, rfl, rfl, hjoined⟩
  | modelPrevious hmerge =>
    obtain ⟨left, right, hrows⟩ := TranscriptSegmentModel.mergePrevious_spec hmerge
    exact ⟨left, right, _, hrows, rfl, rfl, hjoined⟩
  | modelNext hmerge =>
    obtain ⟨left, right, hrows⟩ := TranscriptSegmentModel.mergeNext_spec hmerge
    exact ⟨left, right, _, hrows, rfl, rfl, hjoined⟩

/-- The parts stand where they are merged, but for their ordinals. -/
theorem parts_of_merged {rows'' : EditorRows} {left right first second merged : TranscriptSegment}
    (hsplit : RowSplit rows rows' row source left right)
    (hmerge : RowsMerged rows' rows'' (row + 1) first second merged) :
    ∃ ordinal next, first = { left with ordinal := ordinal } ∧ second = { right with ordinal := next } ∧
      rows''[row.toNat]? = some { merged with ordinal } := by
  obtain ⟨before, behind, hrow, -, hparts⟩ := hsplit
  obtain ⟨front, rest, hfront, hmerged, rfl⟩ := hmerge
  have hlength : front.length = before.length := by omega
  have hrownat : row.toNat = front.length := by omega
  have hfirst := congrArg (fun rows => rows[before.length]?) (hparts.symm.trans hmerged)
  have hsecond := congrArg (fun rows => rows[before.length + 1]?) (hparts.symm.trans hmerged)
  rw [getElem?_normalizeOrdinals, getElem?_append_length, ← hlength, getElem?_append_length] at hfirst
  rw [getElem?_normalizeOrdinals, List.getElem?_append_right (Nat.le_add_right _ 1), ← hlength,
    List.getElem?_append_right (Nat.le_add_right _ 1), Nat.add_sub_cancel_left] at hsecond
  refine ⟨_, _, (Option.some.inj hfirst).symm, (Option.some.inj hsecond).symm, ?_⟩
  · rw [hrownat, getElem?_normalizeOrdinals, getElem?_append_length]
    rfl

/-- **Split and merged again**, a segment keeps its words exactly if the characters that meet are of Latin
    script; it always keeps its time. -/
theorem split_merge_words {rows'' : EditorRows} {offset : Nat}
    (hsplit : Splits platform rows row source offset rows') (hmerge : Merges platform rows' row rows'')
    (hcut : (∃ c ∈ (source.displayText.take offset).getLast?, isSpace c = true) ∨
      ∃ c ∈ (source.displayText.drop offset).head?, isSpace c = true)
    (hleft : ¬ Blank (source.displayText.take offset)) (hright : ¬ Blank (source.displayText.drop offset)) :
    ∃ merged, rows''[row.toNat]? = some merged ∧ merged.startMs = source.startMs ∧ merged.endMs = source.endMs ∧
      (words merged.displayText [] = words source.displayText [] ↔
        BothLatin platform (trimmed (source.displayText.take offset)) (trimmed (source.displayText.drop offset))) := by
  obtain ⟨left, right, original, others, hrows, hpart, hother, hstart, hend⟩ := hsplit.spec
  obtain ⟨first, second, merged, hmerged, hmstart, hmend, hedited⟩ := hmerge.spec
  obtain ⟨ordinal, next, hfirst, hsecond, hat⟩ := parts_of_merged hrows hmerged
  refine ⟨_, hat, ?_, ?_, ?_⟩
  · show merged.startMs = source.startMs
    rw [hmstart, hfirst]
    exact hstart
  · show merged.endMs = source.endMs
    rw [hmend, hsecond]
    exact hend
  · have hfirstEdited : first.editedText = trimmed (source.displayText.take offset) := by
      rw [hfirst]
      exact hpart.edited
    have hsecondShown : second.displayText = trimmed (source.displayText.drop offset) := by
      have hsecondEdited : second.editedText = trimmed (source.displayText.drop offset) := by
        rw [hsecond]
        exact hother.edited
      rw [displayText_of_nonempty (by rw [hsecondEdited]; exact hright), hsecondEdited]
    have hjoined := hedited (by rw [hfirstEdited]; exact hleft)
    rw [hfirstEdited, hsecondShown] at hjoined
    have hne : merged.editedText ≠ [] := by
      rw [hjoined]
      exact fun h => hleft (joinText_eq_nil.mp h).1
    have hshown : merged.displayText = TranscriptSegmentModel.joinText platform
        (trimmed (source.displayText.take offset)) (trimmed (source.displayText.drop offset)) :=
      (displayText_of_nonempty hne).trans hjoined
    -- trimming the parts drops no word, and the cut falls between two
    have hwords : words source.displayText [] = words (trimmed (source.displayText.take offset)) [] ++
        words (trimmed (source.displayText.drop offset)) [] := by
      rw [words_splits.trimmed, words_splits.trimmed, ← words_append_of_space hcut, List.take_append_drop]
    show words merged.displayText [] = _ ↔ _
    rw [hshown, hwords]
    exact words_joinText_iff hleft hright (trimmed_ends _).2 (trimmed_ends _).1

/-- A segment of one second. -/
def oneSecond (text : QString) : TranscriptSegment := { endMs := 1000, originalText := text }

/-- The segment cut in two by the segment model. -/
def cutRows (text : QString) : EditorRows :=
  (TranscriptSegmentModel.split asciiPlatform 0 [] [oneSecond text] 0 500).getD []

/-- The two merged again. -/
def mergedRows (text : QString) : EditorRows :=
  (TranscriptSegmentModel.mergeNext asciiPlatform 0 (cutRows text) 0).getD []

theorem split_merge_words_letters :
    ∃ merged, (mergedRows (qs "good morning"))[(0 : Int).toNat]? = some merged ∧
      merged.startMs = 0 ∧ merged.endMs = 1000 ∧
      (words merged.displayText [] = words (qs "good morning") [] ↔
        BothLatin asciiPlatform (trimmed (qs "good")) (trimmed (qs " morning"))) := by
  have hsplit : Splits asciiPlatform [oneSecond (qs "good morning")] 0 (oneSecond (qs "good morning")) 4
      (cutRows (qs "good morning")) := @Splits.model _ 0 0 500 [] _ _ _ rfl rfl
  have hmerge : Merges asciiPlatform (cutRows (qs "good morning")) 0 (mergedRows (qs "good morning")) :=
    @Merges.modelNext _ 0 0 _ _ rfl
  exact split_merge_words hsplit hmerge (.inr ⟨0x20, rfl, by decide⟩) (by decide) (by decide)

/-- **Digits are glued**: `12 34` becomes `1234`. -/
theorem split_merge_words_digits :
    ¬ ∀ (rows rows' rows'' : EditorRows) (row : Int) (source : TranscriptSegment) (offset : Nat),
      Splits asciiPlatform rows row source offset rows' → Merges asciiPlatform rows' row rows'' →
      (∃ c ∈ (source.displayText.drop offset).head?, isSpace c = true) →
      ¬ Blank (source.displayText.take offset) → ¬ Blank (source.displayText.drop offset) →
      ∀ merged, rows''[row.toNat]? = some merged → words merged.displayText [] = words source.displayText [] := by
  intro h
  have hsplit : Splits asciiPlatform [oneSecond (qs "12 34")] 0 (oneSecond (qs "12 34")) 2 (cutRows (qs "12 34")) :=
    @Splits.model _ 0 0 500 [] _ _ _ rfl rfl
  have hmerge : Merges asciiPlatform (cutRows (qs "12 34")) 0 (mergedRows (qs "12 34")) :=
    @Merges.modelNext _ 0 0 _ _ rfl
  have hglued := h _ _ _ 0 _ 2 hsplit hmerge ⟨0x20, rfl, by decide⟩ (by decide) (by decide) _ rfl
  revert hglued
  decide

end BreezeDesk
