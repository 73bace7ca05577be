/-
  The undo stack of `TranscriptViewModel` and the requests that change nothing.

  `beforeMutation` pushes the rows before the segment model has decided, and trims the stack to a hundred;
  `afterMutation` takes the rows off again where the model refused.  In between, a full stack has lost its
  oldest entry, which nothing brings back.  So a refused request leaves no trace exactly if it never came to
  the push, or there was room (`request_history`).

  A request that the model accepts does change the rows (`apply_ne`), so "refused" can be read off the rows.
-/
import BreezeDesk.Library.History
import BreezeDesk.Ui.TranscriptEditor

namespace BreezeDesk

/-- What the user asks for: an edit of a row, whatever row of the model that is, or of the text under an id. -/
inductive EditRequest where
  | ofRow (edit : SegmentEdit)
  | editTextById (segmentId text : QString)

def sourceRowForSegmentId (rows : EditorRows) (segmentId : QString) : Int :=
  if segmentId.isEmpty then -1
  else
    match rows.findIdx? fun item => item.id == segmentId with
    | some row => row
    | none => -1

section

variable (platform : EditorPlatform) (now : Int) (newId : QString)

def TranscriptViewModel.request (s : TranscriptViewModel) : EditRequest → TranscriptViewModel
  | .ofRow edit => s.step platform (.edit now newId edit)
  | .editTextById segmentId text =>
    if s.editingLocked then s
    else
      let sourceRow := sourceRowForSegmentId s.rows segmentId
      if sourceRow < 0 then s else s.mutate (TranscriptSegmentModel.editText now s.rows sourceRow text)

end

/-- Requests that are turned down before the rows are remembered. -/
def TurnedDown (s : TranscriptViewModel) : EditRequest → Prop
  | .ofRow _ => s.editingLocked = true
  | .editTextById segmentId _ => s.editingLocked = true ∨ sourceRowForSegmentId s.rows segmentId < 0

variable {platform : EditorPlatform} {rows rows' before after : EditorRows} {item : TranscriptSegment}
  {now row : Int} {newId : QString} {s : TranscriptViewModel}

/-! ## Accepted edits change the rows -/

theorem row_ne {new : TranscriptSegment} (hrows : rows = before ++ item :: after) (hne : new ≠ item) :
    before ++ new :: after ≠ rows := by
  intro h
  rw [hrows] at h
  exact hne (List.cons.inj (List.append_cancel_left h)).1

theorem length_ne (h : rows'.length ≠ rows.length) : TranscriptSegmentModel.normalizeOrdinals rows' ≠ rows := by
  intro hsame
  have hlength : (TranscriptSegmentModel.normalizeOrdinals rows').length = rows'.length := by
    unfold TranscriptSegmentModel.normalizeOrdinals
    rw [List.length_map, List.length_zipIdx]
  exact h (hlength.symm.trans (congrArg List.length hsame))

theorem length_of_rowAt (h : TranscriptSegmentModel.rowAt rows row = some (before, item, after)) :
    rows.length = before.length + (after.length + 1) := by
  rw [TranscriptSegmentModel.rowAt_eq_some h, List.length_append, List.length_cons]

namespace TranscriptSegmentModel

theorem editText_ne {text : QString} (h : editText now rows row text = some rows') : rows' ≠ rows := by
  obtain ⟨⟨before, item, after⟩, hrow, hedit⟩ := Option.bind_eq_some_iff.mp h
  dsimp only at hedit
  split at hedit
  · cases hedit
  next hchanged =>
    cases hedit
    exact row_ne (rowAt_eq_some hrow) fun hsame => hchanged (congrArg TranscriptSegment.editedText hsame).symm

theorem setReviewed_ne {reviewed : Bool} (h : setReviewed now rows row reviewed = some rows') : rows' ≠ rows := by
  obtain ⟨⟨before, item, after⟩, hrow, hedit⟩ := Option.bind_eq_some_iff.mp h
  dsimp only at hedit
  split at hedit
  · cases hedit
  next hchanged =>
    cases hedit
    exact row_ne (rowAt_eq_some hrow) fun hsame => hchanged (congrArg TranscriptSegment.reviewed hsame).symm

theorem setTimes_ne {startMs endMs : Int} (h : setTimes now rows row startMs endMs = some rows') : rows' ≠ rows := by
  obtain ⟨⟨before, item, after⟩, hrow, hedit⟩ := Option.bind_eq_some_iff.mp h
  dsimp only at hedit
  split at hedit
  · cases hedit
  · split at hedit
    · cases hedit
    next hchanged =>
      cases hedit
      refine row_ne (rowAt_eq_some hrow) fun hsame => hchanged ⟨?_, ?_⟩
      · exact (congrArg TranscriptSegment.startMs hsame).symm
      · exact (congrArg TranscriptSegment.endMs hsame).symm

/-- The audit is stored in full, so that switching one replacement changes it. -/
theorem setGlossaryReplacementApplied_ne {index : Int} {applied : Bool}
    (h : setGlossaryReplacementApplied platform now rows row index applied = some rows') : rows' ≠ rows := by
  obtain ⟨⟨before, item, after⟩, hrow, hedit⟩ := Option.bind_eq_some_iff.mp h
  dsimp only at hedit
  split at hedit
  · cases hedit
  · obtain ⟨replacement, hreplacement, hedit⟩ := Option.bind_eq_some_iff.mp hedit
    split at hedit
    · cases hedit
    next hchanged =>
      obtain ⟨current, -, hedit⟩ := Option.bind_eq_some_iff.mp hedit
      split at hedit
      · cases hedit
      · obtain ⟨updated, -, hedit⟩ := Option.bind_eq_some_iff.mp hedit
        cases hedit
        refine row_ne (rowAt_eq_some hrow) fun hsame => hchanged ?_
        have haudit := congrArg auditFromJson (congrArg TranscriptSegment.replacementAudit hsame)
        rw [auditFromJson_auditToJson] at haudit
        -- the switched replacement stands where the stored one stood
        have hswitched := congrArg (fun replacements => replacements[index.toNat]?) haudit
        obtain ⟨hindex, -⟩ := List.getElem?_eq_some_iff.mp hreplacement
        rw [List.getElem?_set_self hindex, hreplacement] at hswitched
        exact (congrArg GlossaryReplacement.applied (Option.some.inj hswitched)).symm

theorem split_ne {positionMs : Int} (h : split platform now newId rows row positionMs = some rows') :
    rows' ≠ rows := by
  obtain ⟨⟨before, source, after⟩, hrow, hedit⟩ := Option.bind_eq_some_iff.mp h
  dsimp only at hedit
  split at hedit
  · cases hedit
  · cases hedit
    refine length_ne ?_
    rw [length_of_rowAt hrow, List.length_append, List.length_cons, List.length_cons]
    omega

theorem mergePrevious_ne (h : mergePrevious platform now rows row = some rows') : rows' ≠ rows := by
  obtain ⟨⟨before, current, after⟩, hrow, hedit⟩ := Option.bind_eq_some_iff.mp h
  obtain ⟨previous, hprevious, hedit⟩ := Option.bind_eq_some_iff.mp hedit
  cases hedit
  have hpos : 0 < before.length := List.length_pos_of_mem (List.mem_of_getLast? hprevious)
  refine length_ne ?_
  rw [length_of_rowAt hrow, List.length_append, List.length_cons, List.length_dropLast]
  omega

theorem mergeNext_ne (h : mergeNext platform now rows row = some rows') : rows' ≠ rows := by
  unfold mergeNext at h
  split at h
  · exact mergePrevious_ne h
  · cases h

theorem removeSegment_ne (h : removeSegment rows row = some rows') : rows' ≠ rows := by
  obtain ⟨⟨before, item, after⟩, hrow, hedit⟩ := Option.bind_eq_some_iff.mp h
  cases hedit
  refine length_ne ?_
  rw [length_of_rowAt hrow, List.length_append]
  omega

theorem insertAfter_ne {startMs endMs : Int} {text : QString}
    (h : insertAfter now newId rows row startMs endMs text = some rows') : rows' ≠ rows := by
  unfold insertAfter at h
  dsimp only at h
  split at h
  · cases h
  · split at h
    · cases h
    · split at h
      · cases h
      · cases h
        refine length_ne ?_
        rw [List.length_append, List.length_cons, List.length_take, List.length_drop]
        omega

end TranscriptSegmentModel

/-- **Accepted edits change the rows.** -/
theorem apply_ne {edit : SegmentEdit} (h : edit.apply platform now newId rows = some rows') : rows' ≠ rows := by
  cases edit with
  | editText row text => exact TranscriptSegmentModel.editText_ne h
  | split row positionMs => exact TranscriptSegmentModel.split_ne h
  | mergePrevious row => exact TranscriptSegmentModel.mergePrevious_ne h
  | mergeNext row => exact TranscriptSegmentModel.mergeNext_ne h
  | insertAfter row startMs endMs text => exact TranscriptSegmentModel.insertAfter_ne h
  | remove row => exact TranscriptSegmentModel.removeSegment_ne h
  | setTimes row startMs endMs => exact TranscriptSegmentModel.setTimes_ne h
  | markReviewed row reviewed => exact TranscriptSegmentModel.setReviewed_ne h
  | setGlossaryReplacementApplied row index applied => exact TranscriptSegmentModel.setGlossaryReplacementApplied_ne h

/-! ## The undo stack -/

theorem mutate_none : s.mutate none = s ↔ s.undo.length < 100 := by
  rw [← History.dropLast_remember_eq_iff (by decide : 0 < 100) s.rows]
  constructor
  · exact fun h => congrArg TranscriptViewModel.undo h
  · intro h
    show { s with undo := (remembered s.undo s.rows).dropLast } = s
    replace h : (remembered s.undo s.rows).dropLast = s.undo := h
    rw [h]

theorem mutate_some_undone (hunlocked : s.editingLocked = false) :
    ((s.mutate (some rows)).step platform .undo).rows = s.rows := by
  have hway : History.Above s.rows 1
      ({ current := s.rows, undo := s.undo, redo := s.redo : History EditorRows }.commit 100 rows) :=
    (History.Above.start _).commit (by decide)
  obtain ⟨back, hback, older, recent, -, hlength, hcurrent⟩ := hway.undone
  rw [List.eq_nil_of_length_eq_zero hlength] at hcurrent
  obtain ⟨value, hlast, rfl⟩ := Option.map_eq_some_iff.mp hback
  replace hlast : (s.mutate (some rows)).undo.getLast? = some value := hlast
  cases hcurrent
  show (if s.editingLocked then _ else (s.mutate (some rows)).undone : TranscriptViewModel).rows = s.rows
  rw [if_neg (Bool.eq_false_iff.mp hunlocked)]
  unfold TranscriptViewModel.undone
  rw [hlast]

/-- A request is turned down, or the segment model decides. -/
theorem request_cases (platform : EditorPlatform) (now : Int) (newId : QString) (s : TranscriptViewModel)
    (request : EditRequest) :
    (TurnedDown s request ∧ s.request platform now newId request = s) ∨
      (¬ TurnedDown s request ∧ s.editingLocked = false ∧ ∃ outcome : Option EditorRows,
        (∀ rows, outcome = some rows → rows ≠ s.rows) ∧ s.request platform now newId request = s.mutate outcome) := by
  cases request with
  | ofRow edit =>
    cases hlocked : s.editingLocked with
    | true => exact Or.inl ⟨hlocked, if_pos hlocked⟩
    | false =>
      refine Or.inr ⟨Bool.eq_false_iff.mp hlocked, rfl, edit.apply platform now newId s.rows, fun rows => apply_ne, ?_⟩
      exact if_neg (Bool.eq_false_iff.mp hlocked)
  | editTextById segmentId text =>
    cases hlocked : s.editingLocked with
    | true => exact Or.inl ⟨Or.inl hlocked, if_pos hlocked⟩
    | false =>
      have hrequest : s.request platform now newId (.editTextById segmentId text) =
          if sourceRowForSegmentId s.rows segmentId < 0 then s else
            s.mutate (TranscriptSegmentModel.editText now s.rows (sourceRowForSegmentId s.rows segmentId) text) :=
        if_neg (Bool.eq_false_iff.mp hlocked)
      rw [hrequest]
      -- an unknown identifier is turned down before anything is remembered
      by_cases hunknown : sourceRowForSegmentId s.rows segmentId < 0
      · exact Or.inl ⟨Or.inr hunknown, if_pos hunknown⟩
      · refine Or.inr ⟨?_, rfl, _, fun rows => TranscriptSegmentModel.editText_ne, if_neg hunknown⟩
        rintro (h | h)
        · rw [hlocked] at h
          cases h
        · exact hunknown h

/-- **Requests and the history.**  A request that does not change the rows leaves the view model as it was
    exactly if it was turned down at once, or fewer than a hundred steps were remembered.  After a request that
    does, undo shows the rows of before. -/
theorem request_history (platform : EditorPlatform) (now : Int) (newId : QString) (s : TranscriptViewModel)
    (request : EditRequest) :
    let after := s.request platform now newId request
    (after.rows = s.rows → (after = s ↔ TurnedDown s request ∨ s.undo.length < 100)) ∧
      (after.rows ≠ s.rows → (after.step platform .undo).rows = s.rows) := by
  intro after
  rcases request_cases platform now newId s request with
    ⟨hdown, hsame⟩ | ⟨hup, hunlocked, outcome, hchanges, hmutated⟩
  · exact ⟨fun _ => ⟨fun _ => Or.inl hdown, fun _ => hsame⟩, fun hne => absurd (congrArg _ hsame) hne⟩
  · cases outcome with
    -- the rows stay, but a full stack has lost its oldest entry by then
    | none =>
      have hiff : after = s ↔ s.undo.length < 100 := by
        rw [show after = s.mutate none from hmutated]
        exact mutate_none
      have hrows : after.rows = s.rows := (congrArg TranscriptViewModel.rows hmutated).trans rfl
      refine ⟨fun _ => ?_, fun hne => absurd hrows hne⟩
      rw [hiff]
      exact ⟨Or.inr, fun h => h.resolve_left hup⟩
    | some rows =>
      have hrows : after.rows = rows := (congrArg TranscriptViewModel.rows hmutated).trans rfl
      refine ⟨fun hsame => absurd (hrows.symm.trans hsame) (hchanges rows rfl), fun _ => ?_⟩
      rw [show after = s.mutate (some rows) from hmutated]
      exact mutate_some_undone hunlocked

/-- **A full stack loses its oldest entry** to a request to merge the first row with the one before. -/
theorem request_history_full :
    ¬ ∀ (s : TranscriptViewModel) (request : EditRequest),
      (s.request asciiPlatform 0 [] request).rows = s.rows → s.request asciiPlatform 0 [] request = s := by
  intro h
  have hsame := h { rows := [sixthRow], undo := List.replicate 100 [] } (.ofRow (.mergePrevious 0)) rfl
  have hlength := congrArg (fun s => s.undo.length) hsame
  revert hlength
  decide

end BreezeDesk
