/-
  `TranscriptSegmentModel` and `TranscriptViewModel` — the transcript as it is edited.

  The model holds the rows; a row has the fields of a segment, and its `editedText` is the text the user
  sees.  Every edit either refuses or returns the new rows.  The view model remembers the rows before
  each edit, for `undo` and `redo`.

  Rows are 0-based and may be any number; the row of the filtered list that the user sees is mapped to one
  of these, or to `-1`.  Three results of floating point are parameters.

  An edit changes the times of a row within the extent of the rows it replaces, or fits a row in between
  its neighbours (`Library.Ranges`), so the rows stay a list that the repository accepts
  (`editor_validity`).
-/
import BreezeDesk.Library.Runs
import BreezeDesk.Transcript.Repository

namespace BreezeDesk

open Runs

/-- What an edit takes from outside: the character tables and floating point. -/
structure EditorPlatform extends CharTables where
  /-- `qRound64` of a share of a length: `numerator / denominator * size`. -/
  roundedShare : Int → Int → Nat → Int
  /-- The mean of two probabilities, weighted by durations. -/
  weightedMean : Rat → Int → Rat → Int → Rat

/-- The rows of the editor. -/
abbrev EditorRows := List TranscriptSegment

namespace TranscriptSegmentModel

variable (platform : EditorPlatform)

/-! ## Texts -/

def joinText (left right : QString) : QString :=
  match left.getLast?, right.head? with
  | none, _ => right
  | _, none => left
  | some last, some first =>
    let needsSpace := platform.isLatin last && platform.isLatin first && !isSpace last && !isSpace first
    left ++ (if needsSpace then qs " " else []) ++ right

/-- `QString::lastIndexOf(QLatin1Char(' '), midpoint)`. -/
def previousSpace (text : QString) (midpoint : Nat) : Option Nat :=
  (List.range (midpoint + 1)).reverse.find? fun i => text[i]? == some 0x20

/-- `QString::indexOf(QLatin1Char(' '), midpoint)`. -/
def nextSpace (text : QString) (midpoint : Nat) : Option Nat :=
  (List.range' midpoint (text.length - midpoint)).find? fun i => text[i]? == some 0x20

def preferredSplitOffset (text : QString) : Nat :=
  if text.length < 2 then text.length
  else
    let midpoint := text.length / 2
    match (previousSpace text midpoint).filter (0 < ·), nextSpace text midpoint with
    | some previous, none => previous
    | some previous, some next => if midpoint - previous ≤ next - midpoint then previous else next
    | none, some next => if 0 < next then next else midpoint
    | none, none => midpoint

/-! ## Rows -/

/-- The rows before a row, the row itself, and the rows behind it. -/
def rowAt (rows : EditorRows) (row : Int) : Option (EditorRows × TranscriptSegment × EditorRows) :=
  if row < 0 then none
  else
    match rows.drop row.toNat with
    | [] => none
    | item :: after => some (rows.take row.toNat, item, after)

def normalizeOrdinals (rows : EditorRows) : EditorRows :=
  rows.zipIdx.map fun (item, index) => { item with ordinal := (index : Int) }

/-! ## Edits -/

def editText (now : Int) (rows : EditorRows) (row : Int) (text : QString) : Option EditorRows := do
  let (before, item, after) ← rowAt rows row
  if item.editedText = text then none
  else some (before ++ { item with editedText := text, updatedAt := some now } :: after)

/-- The two halves of a row. -/
def halves (now : Int) (newId : QString) (source : TranscriptSegment) (positionMs : Int) :
    TranscriptSegment × TranscriptSegment :=
  let displayText := source.displayText
  let displayOffset := preferredSplitOffset displayText
  let share :=
    if displayText.isEmpty then
      platform.roundedShare (positionMs - source.startMs) (source.endMs - source.startMs)
        source.originalText.length
    else platform.roundedShare displayOffset displayText.length source.originalText.length
  let originalOffset := (max 0 (min (source.originalText.length : Int) share)).toNat
  let first :=
    { source with
      endMs := positionMs
      originalText := trimmed (source.originalText.take originalOffset)
      editedText := trimmed (displayText.take displayOffset)
      replacementAudit := []
      reviewed := false
      updatedAt := some now }
  let second :=
    { source with
      id := newId
      startMs := positionMs
      originalText := trimmed (source.originalText.drop originalOffset)
      editedText := trimmed (displayText.drop displayOffset)
      replacementAudit := []
      reviewed := false
      createdAt := some now
      updatedAt := some now }
  (first, second)

def split (now : Int) (newId : QString) (rows : EditorRows) (row positionMs : Int) : Option EditorRows := do
  let (before, source, after) ← rowAt rows row
  if positionMs ≤ source.startMs ∨ positionMs ≥ source.endMs then none
  else
    let (first, second) := halves platform now newId source positionMs
    some (normalizeOrdinals (before ++ first :: second :: after))

/-- The earlier of two times of creation; an invalid one gives way. -/
def mergedCreatedAt : QDateTime → QDateTime → QDateTime
  | none, current => current
  | some previous, some current => if current < previous then some current else some previous
  | some previous, none => some previous

def merged (now : Int) (previous current : TranscriptSegment) : TranscriptSegment :=
  let previousDuration := max 1 (previous.endMs - previous.startMs)
  let currentDuration := max 1 (current.endMs - current.startMs)
  { previous with
    endMs := current.endMs
    editedText := joinText platform previous.displayText current.displayText
    originalText := joinText platform previous.originalText current.originalText
    averageProbability := platform.weightedMean previous.averageProbability previousDuration
      current.averageProbability currentDuration
    minimumProbability := min previous.minimumProbability current.minimumProbability
    noSpeechProbability := max previous.noSpeechProbability current.noSpeechProbability
    lowConfidence := previous.lowConfidence || current.lowConfidence
    reviewed := previous.reviewed && current.reviewed
    replacementAudit := []
    provisional := previous.provisional || current.provisional
    attempt := max previous.attempt current.attempt
    chunkId := if previous.chunkId = current.chunkId then previous.chunkId else []
    createdAt := mergedCreatedAt previous.createdAt current.createdAt
    updatedAt := some now }

def mergePrevious (now : Int) (rows : EditorRows) (row : Int) : Option EditorRows := do
  let (before, current, after) ← rowAt rows row
  let previous ← before.getLast?
  some (normalizeOrdinals (before.dropLast ++ merged platform now previous current :: after))

def mergeNext (now : Int) (rows : EditorRows) (row : Int) : Option EditorRows :=
  if row ≥ 0 ∧ row + 1 < rows.length then mergePrevious platform now rows (row + 1) else none

def insertAfter (now : Int) (newId : QString) (rows : EditorRows) (row startMs endMs : Int) (text : QString) :
    Option EditorRows :=
  let insertionRow := (max 0 (min (rows.length : Int) (row + 1))).toNat
  let before := rows.take insertionRow
  let after := rows.drop insertionRow
  if startMs < 0 ∨ endMs ≤ startMs then none
  else if before.getLast?.any (·.endMs > startMs) then none
  else if after.head?.any (·.startMs < endMs) then none
  else
    let item : TranscriptSegment :=
      { id := newId, startMs, endMs, originalText := text, editedText := text, createdAt := some now
        updatedAt := some now }
    some (normalizeOrdinals (before ++ item :: after))

def removeSegment (rows : EditorRows) (row : Int) : Option EditorRows := do
  let (before, _, after) ← rowAt rows row
  some (normalizeOrdinals (before ++ after))

/-- `validTimesForRow`, for the row between its neighbours. -/
def validTimes (before after : EditorRows) (startMs endMs : Int) : Bool :=
  !(startMs < 0 || endMs ≤ startMs) && !before.getLast?.any (startMs < ·.endMs) &&
    after.head?.all (endMs ≤ ·.startMs)

def setTimes (now : Int) (rows : EditorRows) (row startMs endMs : Int) : Option EditorRows := do
  let (before, item, after) ← rowAt rows row
  if !validTimes before after startMs endMs then none
  else if item.startMs = startMs ∧ item.endMs = endMs then none
  else some (before ++ { item with startMs, endMs, updatedAt := some now } :: after)

def setReviewed (now : Int) (rows : EditorRows) (row : Int) (reviewed : Bool) : Option EditorRows := do
  let (before, item, after) ← rowAt rows row
  if item.reviewed = reviewed then none
  else some (before ++ { item with reviewed, updatedAt := some now } :: after)

/-- A replacement is switched only while the text is what the audit renders to. -/
def setGlossaryReplacementApplied (now : Int) (rows : EditorRows) (row replacementIndex : Int) (applied : Bool) :
    Option EditorRows := do
  let (before, item, after) ← rowAt rows row
  let replacements := auditFromJson item.replacementAudit
  if replacementIndex < 0 then none
  else
    let replacement ← replacements[replacementIndex.toNat]?
    if replacement.applied = applied then none
    else
      let currentRendering ← renderAudit platform.toCharTables item.originalText replacements
      if currentRendering ≠ item.displayText then none
      else
        let updated := replacements.set replacementIndex.toNat { replacement with applied }
        let updatedRendering ← renderAudit platform.toCharTables item.originalText updated
        some (before ++ { item with
          editedText := updatedRendering
          replacementAudit := auditToJson updated
          updatedAt := some now } :: after)

end TranscriptSegmentModel

/-! ## The view model -/

inductive SegmentEdit where
  | editText (row : Int) (text : QString)
  | split (row positionMs : Int)
  | mergePrevious (row : Int)
  | mergeNext (row : Int)
  | insertAfter (row startMs endMs : Int) (text : QString)
  | remove (row : Int)
  | setTimes (row startMs endMs : Int)
  | markReviewed (row : Int) (reviewed : Bool)
  | setGlossaryReplacementApplied (row replacementIndex : Int) (applied : Bool)

structure TranscriptViewModel where
  rows : EditorRows
  /-- The last one is the latest. -/
  undo : List EditorRows := []
  redo : List EditorRows := []
  dirty : Bool := false
  editingLocked : Bool := false

inductive EditorAction where
  | edit (now : Int) (newId : QString) (edit : SegmentEdit)
  | undo
  | redo
  | markSaved
  | setEditingLocked (locked : Bool)

section

variable (platform : EditorPlatform)

/-- The new rows, or nothing where the model refuses. -/
def SegmentEdit.apply (now : Int) (newId : QString) (rows : EditorRows) : SegmentEdit → Option EditorRows
  | .editText row text => TranscriptSegmentModel.editText now rows row text
  | .split row positionMs => TranscriptSegmentModel.split platform now newId rows row positionMs
  | .mergePrevious row => TranscriptSegmentModel.mergePrevious platform now rows row
  | .mergeNext row => TranscriptSegmentModel.mergeNext platform now rows row
  | .insertAfter row startMs endMs text => TranscriptSegmentModel.insertAfter now newId rows row startMs endMs text
  | .remove row => TranscriptSegmentModel.removeSegment rows row
  | .setTimes row startMs endMs => TranscriptSegmentModel.setTimes now rows row startMs endMs
  | .markReviewed row reviewed => TranscriptSegmentModel.setReviewed now rows row reviewed
  | .setGlossaryReplacementApplied row index applied =>
    TranscriptSegmentModel.setGlossaryReplacementApplied platform now rows row index applied

/-- `beforeMutation`: the rows are remembered, at most a hundred times. -/
def remembered (undo : List EditorRows) (rows : EditorRows) : List EditorRows :=
  if (undo ++ [rows]).length > 100 then (undo ++ [rows]).tail else undo ++ [rows]

def TranscriptViewModel.mutate (s : TranscriptViewModel) : Option EditorRows → TranscriptViewModel
  | none => { s with undo := (remembered s.undo s.rows).dropLast }
  | some rows => { s with rows, undo := remembered s.undo s.rows, redo := [], dirty := true }

def TranscriptViewModel.undone (s : TranscriptViewModel) : TranscriptViewModel :=
  match s.undo.getLast? with
  | none => s
  | some rows => { s with rows, undo := s.undo.dropLast, redo := s.redo ++ [s.rows], dirty := true }

def TranscriptViewModel.redone (s : TranscriptViewModel) : TranscriptViewModel :=
  match s.redo.getLast? with
  | none => s
  | some rows => { s with rows, redo := s.redo.dropLast, undo := s.undo ++ [s.rows], dirty := true }

def TranscriptViewModel.step (s : TranscriptViewModel) : EditorAction → TranscriptViewModel
  | .edit now newId edit => if s.editingLocked then s else s.mutate (edit.apply platform now newId s.rows)
  | .undo => if s.editingLocked then s else s.undone
  | .redo => if s.editingLocked then s else s.redone
  | .markSaved => { s with dirty := false }
  | .setEditingLocked editingLocked => { s with editingLocked }

end

/-- The segment that `saveActiveTranscript` makes of a row. -/
def savedSegment (recordingId jobId : QString) (row : TranscriptSegment) (ordinal : Nat) : TranscriptSegment :=
  { row with
    recordingId
    jobId
    ordinal := (ordinal : Int)
    editedText := if row.editedText = row.originalText then [] else row.editedText }

def savedSegments (recordingId jobId : QString) (rows : EditorRows) : List TranscriptSegment :=
  rows.zipIdx.map fun (row, index) => savedSegment recordingId jobId row index

/-! ## Valid rows -/

/-- Every row has a positive length and begins at `0` or later, and no two overlap. -/
structure EditorValid (rows : EditorRows) : Prop where
  nonneg : ∀ row ∈ rows, 0 ≤ row.startMs
  ordered : TimeOrdered rows

def times (rows : EditorRows) : List (Int × Int) := rows.map fun row => (row.startMs, row.endMs)

def ordinals (rows : EditorRows) : List Int := rows.map (·.ordinal)

/-- The ordinals are the row numbers. -/
def Numbered (rows : EditorRows) : Prop := ordinals rows = (List.range rows.length).map Int.ofNat

variable {platform : EditorPlatform} {rows rows' before after : EditorRows} {item : TranscriptSegment}
  {now row : Int} {newId : QString}

theorem editorValid_congr (h : times rows = times rows') : EditorValid rows ↔ EditorValid rows' := by
  have hstarts : rows.map (·.startMs) = rows'.map (·.startMs) := by
    have hmap := congrArg (List.map Prod.fst) h
    unfold times at hmap
    rwa [List.map_map, List.map_map] at hmap
  have hnonneg : ∀ {list : EditorRows}, (∀ row ∈ list, 0 ≤ row.startMs) ↔ ∀ start ∈ list.map (·.startMs), 0 ≤ start :=
    List.forall_mem_map.symm
  constructor
  · rintro ⟨hstart, hordered⟩
    exact ⟨hnonneg.mpr (hstarts ▸ hnonneg.mp hstart), (Ranges.ordered_congr h).mp hordered⟩
  · rintro ⟨hstart, hordered⟩
    exact ⟨hnonneg.mpr (hstarts ▸ hnonneg.mp hstart), (Ranges.ordered_congr h).mpr hordered⟩

/-- Rows replaced by others within their extent. -/
theorem EditorValid.replace {middle others : EditorRows} (h : EditorValid (before ++ middle ++ after))
    (hothers : TimeOrdered others) (hstart : ∀ b ∈ others, ∃ a ∈ middle, a.startMs ≤ b.startMs)
    (hend : ∀ b ∈ others, ∃ a ∈ middle, b.endMs ≤ a.endMs) : EditorValid (before ++ others ++ after) where
  nonneg row hrow := by
    rw [List.append_assoc, List.mem_append, List.mem_append] at hrow
    rcases hrow with hrow | hrow | hrow
    · exact h.nonneg row (List.mem_append_left _ (List.mem_append_left _ hrow))
    · obtain ⟨a, ha, hle⟩ := hstart row hrow
      exact (h.nonneg a (List.mem_append_left _ (List.mem_append_right _ ha))).trans hle
    · exact h.nonneg row (List.mem_append_right _ hrow)
  ordered := h.ordered.replace hothers hstart hend

/-- A row in between two others. -/
theorem EditorValid.insert (h : EditorValid (before ++ after)) (hstart : 0 ≤ item.startMs)
    (hpos : item.startMs < item.endMs) (hbefore : ∀ b ∈ before.getLast?, b.endMs ≤ item.startMs)
    (hafter : ∀ b ∈ after.head?, item.endMs ≤ b.startMs) : EditorValid (before ++ item :: after) where
  nonneg row hrow := by
    rw [List.mem_append, List.mem_cons] at hrow
    rcases hrow with hrow | rfl | hrow
    · exact h.nonneg row (List.mem_append_left _ hrow)
    · exact hstart
    · exact h.nonneg row (List.mem_append_right _ hrow)
  ordered := h.ordered.insert hpos hbefore hafter

/-- **The repository accepts valid rows.** -/
theorem validateSegments_savedSegments {recordingId jobId : QString} (h : EditorValid rows) :
    validateSegments (savedSegments recordingId jobId rows) = .ok () := by
  have htimes : times rows = times (savedSegments recordingId jobId rows) := by
    unfold times savedSegments
    rw [List.map_map]
    conv_lhs => rw [← List.zipIdx_map_fst 0 rows, List.map_map]
    rfl
  obtain ⟨hnonneg, hordered⟩ := (editorValid_congr htimes).mp h
  exact validateSegments_eq_ok.mpr ⟨hnonneg, hordered⟩

/-! ## One edit -/

/-- What every edit does to the rows: they stay valid, and are numbered unless their number is left. -/
structure Edits (rows rows' : EditorRows) : Prop where
  valid : EditorValid rows → EditorValid rows'
  numbered : Numbered rows' ∨ ordinals rows' = ordinals rows

theorem numbered_normalizeOrdinals (rows : EditorRows) :
    Numbered (TranscriptSegmentModel.normalizeOrdinals rows) := by
  unfold Numbered ordinals TranscriptSegmentModel.normalizeOrdinals
  rw [List.map_map, List.length_map, List.length_zipIdx, List.range_eq_range', ← List.zipIdx_map_snd 0 rows,
    List.map_map]
  rfl

theorem times_normalizeOrdinals (rows : EditorRows) :
    times (TranscriptSegmentModel.normalizeOrdinals rows) = times rows := by
  unfold times TranscriptSegmentModel.normalizeOrdinals
  conv_rhs => rw [← List.zipIdx_map_fst 0 rows, List.map_map]
  rw [List.map_map]
  rfl

/-- An edit that numbers the rows anew. -/
theorem edits_normalized (h : EditorValid rows → EditorValid rows') :
    Edits rows (TranscriptSegmentModel.normalizeOrdinals rows') where
  valid hrows := (editorValid_congr (times_normalizeOrdinals rows')).mpr (h hrows)
  numbered := Or.inl (numbered_normalizeOrdinals rows')

/-- A row in place of another with its times and its number. -/
theorem edits_row {new : TranscriptSegment} (hrows : rows = before ++ item :: after)
    (htimes : (new.startMs, new.endMs) = (item.startMs, item.endMs)) (hordinal : new.ordinal = item.ordinal) :
    Edits rows (before ++ new :: after) where
  valid h := by
    refine (editorValid_congr ?_).mp h
    rw [hrows]
    unfold times
    rw [List.map_append, List.map_append, List.map_cons, List.map_cons, htimes]
  numbered := by
    right
    rw [hrows]
    unfold ordinals
    rw [List.map_append, List.map_append, List.map_cons, List.map_cons, hordinal]

namespace TranscriptSegmentModel

theorem rowAt_eq_some (h : rowAt rows row = some (before, item, after)) : rows = before ++ item :: after := by
  unfold rowAt at h
  split at h
  · cases h
  · split at h
    · cases h
    next found rest hdrop =>
      cases h
      rw [← hdrop, List.take_append_drop]

theorem editText_edits {text : QString} (h : editText now rows row text = some rows') : Edits rows rows' := by
  obtain ⟨⟨before, item, after⟩, hrow, hedit⟩ := Option.bind_eq_some_iff.mp h
  dsimp only at hedit
  split at hedit
  · cases hedit
  · cases hedit
    exact edits_row (rowAt_eq_some hrow) rfl rfl

theorem setReviewed_edits {reviewed : Bool} (h : setReviewed now rows row reviewed = some rows') :
    Edits rows rows' := by
  obtain ⟨⟨before, item, after⟩, hrow, hedit⟩ := Option.bind_eq_some_iff.mp h
  dsimp only at hedit
  split at hedit
  · cases hedit
  · cases hedit
    exact edits_row (rowAt_eq_some hrow) rfl rfl

theorem setGlossaryReplacementApplied_edits {index : Int} {applied : Bool}
    (h : setGlossaryReplacementApplied platform now rows row index applied = some rows') : Edits rows rows' := by
  obtain ⟨⟨before, item, after⟩, hrow, hedit⟩ := Option.bind_eq_some_iff.mp h
  dsimp only at hedit
  split at hedit
  · cases hedit
  · obtain ⟨replacement, -, hedit⟩ := Option.bind_eq_some_iff.mp hedit
    split at hedit
    · cases hedit
    · obtain ⟨current, -, hedit⟩ := Option.bind_eq_some_iff.mp hedit
      split at hedit
      · cases hedit
      · obtain ⟨updated, -, hedit⟩ := Option.bind_eq_some_iff.mp hedit
        cases hedit
        exact edits_row (rowAt_eq_some hrow) rfl rfl

/-- **Split**: the halves share the extent of the row. -/
theorem split_edits {positionMs : Int} (h : split platform now newId rows row positionMs = some rows') :
    Edits rows rows' := by
  obtain ⟨⟨before, source, after⟩, hrow, hedit⟩ := Option.bind_eq_some_iff.mp h
  dsimp only at hedit
  split at hedit
  · cases hedit
  next hinside =>
    cases hedit
    obtain ⟨hleft, hright⟩ := not_or.mp hinside
    refine edits_normalized fun hvalid => ?_
    rw [rowAt_eq_some hrow, ← List.singleton_append, ← List.append_assoc] at hvalid
    have hhalves : TimeOrdered [(halves platform now newId source positionMs).1,
        (halves platform now newId source positionMs).2] := by
      refine ⟨List.pairwise_pair.mpr le_rfl, fun half hhalf => ?_⟩
      rcases List.mem_pair.mp hhalf with rfl | rfl
      · exact not_le.mp hleft
      · exact not_le.mp hright
    have hextent := hvalid.replace hhalves (fun half hhalf => ⟨source, List.mem_singleton_self _, ?_⟩)
      (fun half hhalf => ⟨source, List.mem_singleton_self _, ?_⟩)
    · rwa [List.append_assoc] at hextent
    · rcases List.mem_pair.mp hhalf with rfl | rfl
      · exact le_rfl
      · exact (not_le.mp hleft).le
    · rcases List.mem_pair.mp hhalf with rfl | rfl
      · exact (not_le.mp hright).le
      · exact le_rfl

/-- **Merge**: from the begin of one row to the end of the next. -/
theorem mergePrevious_edits (h : mergePrevious platform now rows row = some rows') : Edits rows rows' := by
  obtain ⟨⟨before, current, after⟩, hrow, hedit⟩ := Option.bind_eq_some_iff.mp h
  obtain ⟨previous, hprevious, hedit⟩ := Option.bind_eq_some_iff.mp hedit
  cases hedit
  have hbefore : before.dropLast ++ [previous] = before := List.dropLast_append_getLast? previous hprevious
  have hrows : rows = before.dropLast ++ [previous, current] ++ after := by
    rw [rowAt_eq_some hrow, ← List.singleton_append, ← List.append_assoc, ← hbefore, List.append_assoc _ [previous],
      List.dropLast_concat]
    rfl
  refine edits_normalized fun hvalid => ?_
  rw [hrows] at hvalid
  have hpair : TimeOrdered [previous, current] :=
    hvalid.ordered.sublist ((List.sublist_append_right _ _).trans (List.sublist_append_left _ _))
  have hone : TimeOrdered [merged platform now previous current] := by
    refine ⟨List.pairwise_singleton _ _, fun new hnew => ?_⟩
    rw [List.mem_singleton.mp hnew]
    have hfirst := hpair.positive previous (List.mem_cons_self ..)
    have hsecond := hpair.positive current (List.mem_cons_of_mem _ (List.mem_singleton_self _))
    exact hfirst.trans ((List.pairwise_pair.mp hpair.pairwise).trans_lt hsecond)
  have hextent := hvalid.replace hone (fun new hnew => ⟨previous, List.mem_cons_self .., ?_⟩)
    (fun new hnew => ⟨current, List.mem_cons_of_mem _ (List.mem_singleton_self _), ?_⟩)
  · rwa [List.append_assoc, List.singleton_append] at hextent
  · rw [List.mem_singleton.mp hnew]
    exact le_rfl
  · rw [List.mem_singleton.mp hnew]
    exact le_rfl

theorem mergeNext_edits (h : mergeNext platform now rows row = some rows') : Edits rows rows' := by
  unfold mergeNext at h
  split at h
  · exact mergePrevious_edits h
  · cases h

theorem removeSegment_edits (h : removeSegment rows row = some rows') : Edits rows rows' := by
  obtain ⟨⟨before, item, after⟩, hrow, hedit⟩ := Option.bind_eq_some_iff.mp h
  cases hedit
  refine edits_normalized fun hvalid => ?_
  rw [rowAt_eq_some hrow] at hvalid
  have hsub : (before ++ after).Sublist (before ++ item :: after) :=
    (List.sublist_cons_self item after).append_left before
  exact ⟨fun other hother => hvalid.nonneg other (hsub.subset hother), hvalid.ordered.sublist hsub⟩

/-- **Insert**: between two neighbours. -/
theorem insertAfter_edits {startMs endMs : Int} {text : QString}
    (h : insertAfter now newId rows row startMs endMs text = some rows') : Edits rows rows' := by
  unfold insertAfter at h
  dsimp only at h
  split at h
  · cases h
  next htimes =>
    split at h
    · cases h
    next hbefore =>
      split at h
      · cases h
      next hafter =>
        cases h
        obtain ⟨hstart, hpos⟩ := not_or.mp htimes
        refine edits_normalized fun hvalid => ?_
        rw [← List.take_append_drop (max 0 (min (rows.length : Int) (row + 1))).toNat rows] at hvalid
        refine hvalid.insert (not_lt.mp hstart) (not_le.mp hpos) (fun other hother => ?_) fun other hother => ?_
        · by_contra hover
          refine hbefore ((Option.any_eq_true _ _).mpr ⟨other, hother, ?_⟩)
          exact decide_eq_true (not_le.mp hover)
        · by_contra hover
          refine hafter ((Option.any_eq_true _ _).mpr ⟨other, hother, ?_⟩)
          exact decide_eq_true (not_le.mp hover)

/-- **New times**: between the neighbours of the row. -/
theorem setTimes_edits {startMs endMs : Int} (h : setTimes now rows row startMs endMs = some rows') :
    Edits rows rows' := by
  obtain ⟨⟨before, item, after⟩, hrow, hedit⟩ := Option.bind_eq_some_iff.mp h
  dsimp only at hedit
  split at hedit
  · cases hedit
  next hfits =>
    split at hedit
    · cases hedit
    · cases hedit
      refine ⟨fun hvalid => ?_, Or.inr ?_⟩
      · rw [rowAt_eq_some hrow] at hvalid
        unfold validTimes at hfits
        rw [Bool.not_eq_true, Bool.not_eq_false'] at hfits
        simp only [Bool.and_eq_true, Bool.not_eq_true', Bool.or_eq_false_iff, decide_eq_false_iff_not, not_lt,
          not_le] at hfits
        obtain ⟨⟨⟨hstart, hpos⟩, hbefore⟩, hafter⟩ := hfits
        have hsub : (before ++ after).Sublist (before ++ item :: after) :=
          (List.sublist_cons_self item after).append_left before
        have hothers : EditorValid (before ++ after) :=
          ⟨fun other hother => hvalid.nonneg other (hsub.subset hother), hvalid.ordered.sublist hsub⟩
        refine hothers.insert hstart hpos (fun other hother => ?_) fun other hother => ?_
        · exact not_lt.mp (of_decide_eq_false ((Option.any_eq_false _ _).mp hbefore other hother))
        · exact of_decide_eq_true ((Option.all_eq_true _ _).mp hafter other hother)
      · rw [rowAt_eq_some hrow]
        unfold ordinals
        rw [List.map_append, List.map_append, List.map_cons, List.map_cons]

end TranscriptSegmentModel

/-- **One edit.** -/
theorem apply_edits {edit : SegmentEdit} (h : edit.apply platform now newId rows = some rows') :
    Edits rows rows' := by
  cases edit with
  | editText row text => exact TranscriptSegmentModel.editText_edits h
  | split row positionMs => exact TranscriptSegmentModel.split_edits h
  | mergePrevious row => exact TranscriptSegmentModel.mergePrevious_edits h
  | mergeNext row => exact TranscriptSegmentModel.mergeNext_edits h
  | insertAfter row startMs endMs text => exact TranscriptSegmentModel.insertAfter_edits h
  | remove row => exact TranscriptSegmentModel.removeSegment_edits h
  | setTimes row startMs endMs => exact TranscriptSegmentModel.setTimes_edits h
  | markReviewed row reviewed => exact TranscriptSegmentModel.setReviewed_edits h
  | setGlossaryReplacementApplied row index applied =>
    exact TranscriptSegmentModel.setGlossaryReplacementApplied_edits h

/-! ## Every run -/

/-- The rows and all rows that are remembered. -/
def TranscriptViewModel.Everywhere (P : EditorRows → Prop) (s : TranscriptViewModel) : Prop :=
  P s.rows ∧ (∀ rows ∈ s.undo, P rows) ∧ ∀ rows ∈ s.redo, P rows

theorem mem_remembered {undo : List EditorRows} {remembering : EditorRows}
    (h : remembering ∈ remembered undo rows) : remembering ∈ undo ∨ remembering = rows := by
  have hmem : remembering ∈ undo ++ [rows] := by
    unfold remembered at h
    split at h
    · exact List.mem_of_mem_tail h
    · exact h
  rcases List.mem_append.mp hmem with hold | hnew
  · exact Or.inl hold
  · exact Or.inr (List.mem_singleton.mp hnew)

/-- What every edit keeps is kept everywhere, by `undo` and `redo` too. -/
theorem step_everywhere {P : EditorRows → Prop} (hedit : ∀ rows rows', Edits rows rows' → P rows → P rows') :
    StepKeeps (TranscriptViewModel.step platform) (fun _ _ => True) (TranscriptViewModel.Everywhere P) := by
  rintro s action ⟨hrows, hundo, hredo⟩ -
  have hlocked : TranscriptViewModel.Everywhere P s := ⟨hrows, hundo, hredo⟩
  have hremembered : ∀ rows ∈ remembered s.undo s.rows, P rows := fun rows hmem =>
    (mem_remembered hmem).elim (hundo rows) fun h => h ▸ hrows
  have happend : ∀ list : List EditorRows, (∀ rows ∈ list, P rows) → ∀ rows ∈ list ++ [s.rows], P rows :=
    fun list hlist rows hmem => (List.mem_append.mp hmem).elim (hlist rows)
      fun hnew => List.mem_singleton.mp hnew ▸ hrows
  cases action with
  | edit now newId edit =>
    show TranscriptViewModel.Everywhere P (if s.editingLocked then s else _)
    split
    · exact hlocked
    · cases happly : edit.apply platform now newId s.rows with
      | none => exact ⟨hrows, fun rows hmem => hremembered rows (List.dropLast_subset _ hmem), hredo⟩
      | some rows =>
        exact ⟨hedit s.rows rows (apply_edits happly) hrows, hremembered, fun _ hmem => (by cases hmem)⟩
  | undo =>
    show TranscriptViewModel.Everywhere P (if s.editingLocked then s else s.undone)
    unfold TranscriptViewModel.undone
    split
    · exact hlocked
    · split
      · exact hlocked
      next rows hlast =>
        exact ⟨hundo rows (List.mem_of_getLast? hlast), fun rows hmem => hundo rows (List.dropLast_subset _ hmem),
          happend s.redo hredo⟩
  | redo =>
    show TranscriptViewModel.Everywhere P (if s.editingLocked then s else s.redone)
    unfold TranscriptViewModel.redone
    split
    · exact hlocked
    · split
      · exact hlocked
      next rows hlast =>
        exact ⟨hredo rows (List.mem_of_getLast? hlast), happend s.undo hundo,
          fun rows hmem => hredo rows (List.dropLast_subset _ hmem)⟩
  | markSaved => exact hlocked
  | setEditingLocked locked => exact hlocked

/-- **Editor validity.**  Whatever is done to valid rows, they stay valid, so that the repository accepts
    them; and they are numbered, unless their numbers are still those of the start. -/
theorem editor_validity (platform : EditorPlatform) {rows : EditorRows} (hvalid : EditorValid rows)
    (actions : List EditorAction) :
    let s := run (TranscriptViewModel.step platform) { rows } actions
    EditorValid s.rows ∧ (Numbered s.rows ∨ ordinals s.rows = ordinals rows) ∧
      ∀ recordingId jobId, validateSegments (savedSegments recordingId jobId s.rows) = .ok () := by
  intro s
  have hkept : TranscriptViewModel.Everywhere
      (fun list => EditorValid list ∧ (Numbered list ∨ ordinals list = ordinals rows)) s := by
    refine run_invariant (step_everywhere fun list list' hedits h => ?_) ⟨⟨hvalid, Or.inr rfl⟩,
      fun _ hmem => (by cases hmem), fun _ hmem => (by cases hmem)⟩ (guarded_true _ _)
    refine ⟨hedits.valid h.1, ?_⟩
    rcases hedits.numbered with hnew | hsame
    · exact Or.inl hnew
    · -- a row was replaced, and the numbers are those of before
      refine h.2.imp (fun hnumbered => ?_) hsame.trans
      have hlength : list'.length = list.length := by
        have hlengths := congrArg List.length hsame
        unfold ordinals at hlengths
        rwa [List.length_map, List.length_map] at hlengths
      unfold Numbered
      rw [hsame, hlength]
      exact hnumbered
  obtain ⟨hrows, hnumbered⟩ := hkept.1
  exact ⟨hrows, hnumbered, fun _ _ => validateSegments_savedSegments hrows⟩

/-- ASCII tables and exact arithmetic. -/
def asciiPlatform : EditorPlatform where
  toCharTables := asciiTables
  roundedShare numerator denominator size := numerator * size / denominator
  weightedMean left leftWeight right rightWeight :=
    (left * leftWeight + right * rightWeight) / (leftWeight + rightWeight)

/-- A row of one second that is the sixth of its transcript. -/
def sixthRow : TranscriptSegment :=
  { id := qs "segment", ordinal := 5, endMs := 1000, originalText := qs "good morning" }

theorem editorValid_sixthRow : EditorValid [sixthRow] where
  nonneg := by decide
  ordered := ⟨List.pairwise_singleton _ _, by decide⟩

/-- A row is split, and the split is undone. -/
theorem editor_validity_split :
    let s := run (TranscriptViewModel.step asciiPlatform) { rows := [sixthRow] }
      [.edit 0 (qs "second half") (.split 0 500), .undo]
    EditorValid s.rows ∧ (Numbered s.rows ∨ ordinals s.rows = ordinals [sixthRow]) ∧
      ∀ recordingId jobId, validateSegments (savedSegments recordingId jobId s.rows) = .ok () :=
  editor_validity asciiPlatform editorValid_sixthRow _

/-- **Numbers are kept** by an edit that replaces a row: valid rows need not be numbered. -/
theorem editor_validity_unnumbered :
    ¬ ∀ (rows : EditorRows) (actions : List EditorAction), EditorValid rows →
      Numbered (run (TranscriptViewModel.step asciiPlatform) { rows } actions).rows := by
  intro h
  have hnumbered := h [sixthRow] [.edit 0 [] (.setTimes 0 0 900)] editorValid_sixthRow
  revert hnumbered
  unfold Numbered
  decide

end BreezeDesk
