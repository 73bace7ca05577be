/-
  `TranscriptEditor` — the editor of a list of segments, with its own undo and redo.

  Every operation checks its arguments first and calls `beginChange` only behind the last check, so an
  operation that fails leaves the editor as it was.  What succeeds is one move of a `Library.History`
  (`performed_ok`): an edit commits, and undo and redo are the ones of the library.

  A run may mix edits, undos, redos and failures.  `standing` counts how far it is ahead of its start: as
  long as it never goes back behind the start and never gets more than 200 operations ahead, that many
  undos return to the start (`editor_undo_redo`).
-/
import BreezeDesk.Library.History
import BreezeDesk.Ui.TranscriptEditor

namespace BreezeDesk

open Runs

structure TranscriptEditor where
  segments : List TranscriptSegment := []
  /-- The last one is the latest. -/
  undoSteps : List (List TranscriptSegment) := []
  redoSteps : List (List TranscriptSegment) := []

/-- What an operation takes from outside: the clock, and two new ids. -/
structure EditorMoment where
  now : Int := 0
  leftId : QString := []
  rightId : QString := []

namespace TranscriptEditor

open TranscriptSegmentModel (rowAt)

def maximumUndoSteps : Nat := 200

def canUndo (s : TranscriptEditor) : Bool := !s.undoSteps.isEmpty

def canRedo (s : TranscriptEditor) : Bool := !s.redoSteps.isEmpty

def normalizeOrdinals (segments : List TranscriptSegment) : List TranscriptSegment :=
  TranscriptSegmentModel.normalizeOrdinals segments

def setSegments (segments : List TranscriptSegment) : TranscriptEditor :=
  { segments := normalizeOrdinals segments }

def beginChange (s : TranscriptEditor) : TranscriptEditor :=
  let undoSteps := s.undoSteps ++ [s.segments]
  { s with undoSteps := if undoSteps.length > maximumUndoSteps then undoSteps.tail else undoSteps, redoSteps := [] }

/-! ## Failures -/

def notFound : UserFacingError :=
  .validation .notFound (qs "The selected segment does not exist.")

def invalidSplit : UserFacingError :=
  .validation .invalidArgument (qs "Choose a split point inside both the segment time and text.")

def noPrevious : UserFacingError :=
  .validation .invalidArgument (qs "There is no previous segment to merge.")

def noNext : UserFacingError :=
  .validation .invalidArgument (qs "There is no next segment to merge.")

def invalidPosition : UserFacingError :=
  .validation .invalidArgument (qs "The insertion position is invalid.")

def nothingToUndo : UserFacingError :=
  .validation .invalidStateTransition (qs "There is no transcript edit to undo.")

def nothingToRedo : UserFacingError :=
  .validation .invalidStateTransition (qs "There is no transcript edit to redo.")

def invalidRange (index : Nat) : UserFacingError :=
  .validation .invalidArgument
    (qs ("Segment " ++ toString (index + 1) ++ " has an invalid or overlapping time range."))

/-- The loop of `validateCandidate`. -/
def validateFrom : Nat → Int → List TranscriptSegment → Result Unit
  | _, _, [] => .ok ()
  | index, previousEnd, segment :: rest =>
    if segment.startMs < 0 ∨ segment.endMs ≤ segment.startMs ∨ segment.startMs < previousEnd then
      .error (invalidRange index)
    else validateFrom (index + 1) segment.endMs rest

def validateCandidate (candidate : List TranscriptSegment) : Result Unit := validateFrom 0 (-1) candidate

/-! ## Operations -/

variable (platform : EditorPlatform) (moment : EditorMoment)

def joinText (left right : QString) : QString := TranscriptSegmentModel.joinText platform left right

def editText (index : Int) (text : QString) (s : TranscriptEditor) : Result Unit × TranscriptEditor :=
  match rowAt s.segments index with
  | none => (.error notFound, s)
  | some (before, segment, after) =>
    (.ok (), { s.beginChange with
      segments := before ++ { segment with editedText := text, updatedAt := some moment.now } :: after })

/-- The two halves of a segment. -/
def halves (source : TranscriptSegment) (splitMs : Int) (textOffset : Nat) : TranscriptSegment × TranscriptSegment :=
  let display := source.displayText
  let estimatedOffset := platform.roundedShare textOffset display.length source.originalText.length
  let originalOffset := (max 1 (min estimatedOffset (max 1 (source.originalText.length - 1 : Int)))).toNat
  let left :=
    { source with
      id := moment.leftId
      endMs := splitMs
      editedText := trimmed (display.take textOffset)
      originalText := trimmed (source.originalText.take originalOffset)
      replacementAudit := []
      reviewed := false
      updatedAt := some moment.now }
  let right :=
    { source with
      id := moment.rightId
      startMs := splitMs
      editedText := trimmed (display.drop textOffset)
      originalText := trimmed (source.originalText.drop originalOffset)
      replacementAudit := []
      reviewed := false
      updatedAt := some moment.now }
  (left, right)

def split (index splitMs textOffset : Int) (s : TranscriptEditor) : Result Unit × TranscriptEditor :=
  match rowAt s.segments index with
  | none => (.error notFound, s)
  | some (before, source, after) =>
    if splitMs ≤ source.startMs ∨ splitMs ≥ source.endMs ∨ textOffset ≤ 0 ∨
        textOffset ≥ source.displayText.length then (.error invalidSplit, s)
    else
      let (left, right) := halves platform moment source splitMs textOffset.toNat
      (.ok (), { s.beginChange with segments := normalizeOrdinals (before ++ left :: right :: after) })

/-- The merged segment.  Its display text is read when the original text is joined already. -/
def merged (previous current : TranscriptSegment) : TranscriptSegment :=
  let mergedDuration := max 1 (previous.endMs - previous.startMs)
  let currentDuration := max 1 (current.endMs - current.startMs)
  let joined :=
    { previous with
      endMs := current.endMs
      originalText := joinText platform previous.originalText current.originalText }
  { joined with
    editedText := joinText platform joined.displayText current.displayText
    replacementAudit := []
    averageProbability := platform.weightedMean previous.averageProbability mergedDuration
      current.averageProbability currentDuration
    minimumProbability := min previous.minimumProbability current.minimumProbability
    noSpeechProbability := max previous.noSpeechProbability current.noSpeechProbability
    lowConfidence := previous.lowConfidence || current.lowConfidence
    reviewed := previous.reviewed && current.reviewed
    provisional := previous.provisional || current.provisional
    attempt := max previous.attempt current.attempt
    chunkId := if previous.chunkId = current.chunkId then previous.chunkId else []
    updatedAt := some moment.now }

def mergeWithPrevious (index : Int) (s : TranscriptEditor) : Result Unit × TranscriptEditor :=
  match rowAt s.segments index with
  | none => (.error noPrevious, s)
  | some (before, current, after) =>
    match before.getLast? with
    | none => (.error noPrevious, s)
    | some previous =>
      (.ok (), { s.beginChange with
        segments := normalizeOrdinals (before.dropLast ++ merged platform moment previous current :: after) })

def mergeWithNext (index : Int) (s : TranscriptEditor) : Result Unit × TranscriptEditor :=
  if index < 0 ∨ index + 1 ≥ s.segments.length then (.error noNext, s)
  else mergeWithPrevious platform moment (index + 1) s

def insert (index : Int) (segment : TranscriptSegment) (s : TranscriptEditor) : Result Unit × TranscriptEditor :=
  if index < 0 ∨ index > s.segments.length then (.error invalidPosition, s)
  else
    let segment := if segment.id.isEmpty then { segment with id := moment.leftId } else segment
    let candidate := s.segments.take index.toNat ++ segment :: s.segments.drop index.toNat
    match validateCandidate candidate with
    | .error error => (.error error, s)
    | .ok () => (.ok (), { s.beginChange with segments := normalizeOrdinals candidate })

def remove (index : Int) (s : TranscriptEditor) : Result Unit × TranscriptEditor :=
  match rowAt s.segments index with
  | none => (.error notFound, s)
  | some (before, _, after) => (.ok (), { s.beginChange with segments := normalizeOrdinals (before ++ after) })

def setTimeRange (index startMs endMs : Int) (s : TranscriptEditor) : Result Unit × TranscriptEditor :=
  match rowAt s.segments index with
  | none => (.error notFound, s)
  | some (before, segment, after) =>
    let candidate := before ++ { segment with startMs, endMs } :: after
    match validateCandidate candidate with
    | .error error => (.error error, s)
    | .ok () => (.ok (), { s.beginChange with segments := candidate })

def undo (s : TranscriptEditor) : Result Unit × TranscriptEditor :=
  match s.undoSteps.getLast? with
  | none => (.error nothingToUndo, s)
  | some segments =>
    (.ok (), { segments, undoSteps := s.undoSteps.dropLast, redoSteps := s.redoSteps ++ [s.segments] })

def redo (s : TranscriptEditor) : Result Unit × TranscriptEditor :=
  match s.redoSteps.getLast? with
  | none => (.error nothingToRedo, s)
  | some segments =>
    (.ok (), { segments, undoSteps := s.undoSteps ++ [s.segments], redoSteps := s.redoSteps.dropLast })

end TranscriptEditor

inductive EditorOperation where
  | editText (index : Int) (text : QString)
  | split (index splitMs textOffset : Int)
  | mergeWithPrevious (index : Int)
  | mergeWithNext (index : Int)
  | insert (index : Int) (segment : TranscriptSegment)
  | remove (index : Int)
  | setTimeRange (index startMs endMs : Int)
  | undo
  | redo

namespace TranscriptEditor

variable (platform : EditorPlatform)

def perform (moment : EditorMoment) : EditorOperation → TranscriptEditor → Result Unit × TranscriptEditor
  | .editText index text => editText moment index text
  | .split index splitMs textOffset => split platform moment index splitMs textOffset
  | .mergeWithPrevious index => mergeWithPrevious platform moment index
  | .mergeWithNext index => mergeWithNext platform moment index
  | .insert index segment => insert moment index segment
  | .remove index => remove index
  | .setTimeRange index startMs endMs => setTimeRange index startMs endMs
  | .undo => undo
  | .redo => redo

/-! ## Runs -/

abbrev EditorCall := EditorMoment × EditorOperation

def step (s : TranscriptEditor) (call : EditorCall) : TranscriptEditor := (perform platform call.1 call.2 s).2

def succeeds (s : TranscriptEditor) (call : EditorCall) : Bool := (perform platform call.1 call.2 s).1.isOk

/-- Neither undo nor redo. -/
def IsEdit : EditorOperation → Prop
  | .undo | .redo => False
  | _ => True

/-- How many calls of a run succeed. -/
def successes : TranscriptEditor → List EditorCall → Nat
  | _, [] => 0
  | s, call :: rest => (succeeds platform s call).toNat + successes (step platform s call) rest

/-- How far the editor is ahead of the start after a call, if it is not behind it and not too far. -/
def aheadAfter (s : TranscriptEditor) (ahead : Nat) (call : EditorCall) : Option Nat :=
  if !succeeds platform s call then some ahead
  else
    match call.2 with
    | .undo => if 0 < ahead then some (ahead - 1) else none
    | _ => if ahead < maximumUndoSteps then some (ahead + 1) else none

/-- How many operations of a run stand at its end. -/
def standing : TranscriptEditor → Nat → List EditorCall → Option Nat
  | _, ahead, [] => some ahead
  | s, ahead, call :: rest =>
    (aheadAfter platform s ahead call).bind fun ahead => standing (step platform s call) ahead rest

/-- What an operation that must succeed leaves. -/
def successful (operation : TranscriptEditor → Result Unit × TranscriptEditor) (s : TranscriptEditor) :
    Option TranscriptEditor :=
  match operation s with
  | (.ok (), after) => some after
  | (.error _, _) => none

/-- `k` undos lead to the segments of `start`, and `k` redos lead back. -/
def BackAndForth (start : TranscriptEditor) (k : Nat) (s : TranscriptEditor) : Prop :=
  ∃ back, History.times (successful undo) k s = some back ∧ back.segments = start.segments ∧
    History.times (successful redo) k back = some s

/-! ## One operation -/

def history (s : TranscriptEditor) : History (List TranscriptSegment) :=
  { current := s.segments, undo := s.undoSteps, redo := s.redoSteps }

def ofHistory (h : History (List TranscriptSegment)) : TranscriptEditor :=
  { segments := h.current, undoSteps := h.undo, redoSteps := h.redo }

/-- The call failed and left the editor as it was, or it committed new segments. -/
def FailedOrCommitted (s : TranscriptEditor) (outcome : Result Unit × TranscriptEditor) : Prop :=
  (∃ error, outcome = (.error error, s)) ∨ ∃ segments, outcome = (.ok (), { s.beginChange with segments })

variable {platform} {moment : EditorMoment} {s : TranscriptEditor} {index : Int}

theorem history_beginChange (segments : List TranscriptSegment) :
    history { s.beginChange with segments } = s.history.commit maximumUndoSteps segments := rfl

theorem editText_outcome {text : QString} : FailedOrCommitted s (editText moment index text s) := by
  unfold editText
  split
  · exact Or.inl ⟨_, rfl⟩
  · exact Or.inr ⟨_, rfl⟩

theorem split_outcome {splitMs textOffset : Int} :
    FailedOrCommitted s (split platform moment index splitMs textOffset s) := by
  unfold split
  split
  · exact Or.inl ⟨_, rfl⟩
  · split
    · exact Or.inl ⟨_, rfl⟩
    · exact Or.inr ⟨_, rfl⟩

theorem mergeWithPrevious_outcome : FailedOrCommitted s (mergeWithPrevious platform moment index s) := by
  unfold mergeWithPrevious
  split
  · exact Or.inl ⟨_, rfl⟩
  · split
    · exact Or.inl ⟨_, rfl⟩
    · exact Or.inr ⟨_, rfl⟩

theorem mergeWithNext_outcome : FailedOrCommitted s (mergeWithNext platform moment index s) := by
  unfold mergeWithNext
  split
  · exact Or.inl ⟨_, rfl⟩
  · exact mergeWithPrevious_outcome

theorem insert_outcome {segment : TranscriptSegment} : FailedOrCommitted s (insert moment index segment s) := by
  unfold insert
  split
  · exact Or.inl ⟨_, rfl⟩
  · dsimp only
    split
    · exact Or.inl ⟨_, rfl⟩
    · exact Or.inr ⟨_, rfl⟩

theorem remove_outcome : FailedOrCommitted s (remove index s) := by
  unfold remove
  split
  · exact Or.inl ⟨_, rfl⟩
  · exact Or.inr ⟨_, rfl⟩

theorem setTimeRange_outcome {startMs endMs : Int} : FailedOrCommitted s (setTimeRange index startMs endMs s) := by
  unfold setTimeRange
  split
  · exact Or.inl ⟨_, rfl⟩
  · dsimp only
    split
    · exact Or.inl ⟨_, rfl⟩
    · exact Or.inr ⟨_, rfl⟩

/-- **An edit** fails and changes nothing, or commits. -/
theorem perform_edit {operation : EditorOperation} (hedit : IsEdit operation) :
    FailedOrCommitted s (perform platform moment operation s) := by
  cases operation with
  | editText index text => exact editText_outcome
  | split index splitMs textOffset => exact split_outcome
  | mergeWithPrevious index => exact mergeWithPrevious_outcome
  | mergeWithNext index => exact mergeWithNext_outcome
  | insert index segment => exact insert_outcome
  | remove index => exact remove_outcome
  | setTimeRange index startMs endMs => exact setTimeRange_outcome
  | undo => exact hedit.elim
  | redo => exact hedit.elim

/-- **Undo** is the undo of the history. -/
theorem successful_undo (h : History (List TranscriptSegment)) :
    successful undo (ofHistory h) = h.undone.map ofHistory := by
  unfold successful undo History.undone
  show (match (match h.undo.getLast? with | none => _ | some segments => _ : Result Unit × TranscriptEditor) with
    | (.ok (), after) => some after
    | (.error _, _) => none) = _
  cases h.undo.getLast? <;> rfl

theorem successful_redo (h : History (List TranscriptSegment)) :
    successful redo (ofHistory h) = h.redone.map ofHistory := by
  unfold successful redo History.redone
  show (match (match h.redo.getLast? with | none => _ | some segments => _ : Result Unit × TranscriptEditor) with
    | (.ok (), after) => some after
    | (.error _, _) => none) = _
  cases h.redo.getLast? <;> rfl

theorem undo_cases (s : TranscriptEditor) :
    undo s = (.error nothingToUndo, s) ∨
      ∃ after, undo s = (.ok (), after) ∧ s.history.undone = some after.history := by
  unfold undo
  split
  · exact Or.inl rfl
  next segments hlast => exact Or.inr ⟨_, rfl, Option.map_eq_some_iff.mpr ⟨segments, hlast, rfl⟩⟩

theorem redo_cases (s : TranscriptEditor) :
    redo s = (.error nothingToRedo, s) ∨
      ∃ after, redo s = (.ok (), after) ∧ s.history.redone = some after.history := by
  unfold redo
  split
  · exact Or.inl rfl
  next segments hlast => exact Or.inr ⟨_, rfl, Option.map_eq_some_iff.mpr ⟨segments, hlast, rfl⟩⟩

/-- The move of the history that an operation makes when it succeeds. -/
def Moved (operation : EditorOperation) (s after : TranscriptEditor) : Prop :=
  match operation with
  | .undo => s.history.undone = some after.history
  | .redo => s.history.redone = some after.history
  | _ => ∃ segments, after.history = s.history.commit maximumUndoSteps segments

/-- **One operation** fails and changes nothing, or makes its move. -/
theorem perform_cases (platform : EditorPlatform) (moment : EditorMoment) (s : TranscriptEditor)
    (operation : EditorOperation) :
    (∃ error, perform platform moment operation s = (.error error, s)) ∨
      ∃ after, perform platform moment operation s = (.ok (), after) ∧ Moved operation s after := by
  have hcommitted : ∀ {outcome : Result Unit × TranscriptEditor}, FailedOrCommitted s outcome →
      (∃ error, outcome = (.error error, s)) ∨
        ∃ after, outcome = (.ok (), after) ∧
          ∃ segments, after.history = s.history.commit maximumUndoSteps segments := by
    rintro outcome (hfailed | ⟨segments, houtcome⟩)
    · exact Or.inl hfailed
    · exact Or.inr ⟨_, houtcome, segments, history_beginChange segments⟩
  -- undo and redo fail on an empty stack only; every edit goes through `commit`
  cases operation with
  | undo =>
    rcases undo_cases s with hundo | hundo
    · exact Or.inl ⟨nothingToUndo, hundo⟩
    · exact Or.inr hundo
  | redo =>
    rcases redo_cases s with hredo | hredo
    · exact Or.inl ⟨nothingToRedo, hredo⟩
    · exact Or.inr hredo
  | editText index text => exact hcommitted (perform_edit trivial)
  | split index splitMs textOffset => exact hcommitted (perform_edit trivial)
  | mergeWithPrevious index => exact hcommitted (perform_edit trivial)
  | mergeWithNext index => exact hcommitted (perform_edit trivial)
  | insert index segment => exact hcommitted (perform_edit trivial)
  | remove index => exact hcommitted (perform_edit trivial)
  | setTimeRange index startMs endMs => exact hcommitted (perform_edit trivial)

theorem step_of_failure {call : EditorCall} (h : succeeds platform s call = false) : step platform s call = s := by
  unfold succeeds at h
  unfold step
  rcases perform_cases platform call.1 s call.2 with ⟨error, herror⟩ | ⟨after, hok, -⟩
  · rw [herror]
  · rw [hok] at h
    cases h

theorem step_of_success {call : EditorCall} (h : succeeds platform s call = true) :
    Moved call.2 s (step platform s call) := by
  unfold succeeds at h
  unfold step
  rcases perform_cases platform call.1 s call.2 with ⟨error, herror⟩ | ⟨after, hok, hmoved⟩
  · rw [herror] at h
    cases h
  · rw [hok]
    exact hmoved

/-- A successful edit commits. -/
theorem edit_of_success {call : EditorCall} (hedit : IsEdit call.2) (h : succeeds platform s call = true) :
    ∃ segments, (step platform s call).history = s.history.commit maximumUndoSteps segments := by
  have hmoved := step_of_success h
  obtain ⟨moment, operation⟩ := call
  cases operation with
  | undo => exact hedit.elim
  | redo => exact hedit.elim
  | _ => exact hmoved

/-! ## A run -/

/-- **One call** of a run keeps the way back. -/
theorem above_step {start : List TranscriptSegment} {ahead ahead' : Nat} {call : EditorCall}
    (h : aheadAfter platform s ahead call = some ahead') (habove : History.Above start ahead s.history) :
    History.Above start ahead' (step platform s call).history := by
  unfold aheadAfter at h
  split at h
  next hfailed =>
    cases h
    -- a failed call leaves the editor, and the count, as they are
    rw [step_of_failure ((Bool.not_eq_true' _).mp hfailed)]
    exact habove
  next hsucceeded =>
    have hsuccess : succeeds platform s call = true := by
      cases hs : succeeds platform s call with
      | true => rfl
      | false => exact absurd ((Bool.not_eq_true' _).mpr hs) hsucceeded
    have hmoved := step_of_success hsuccess
    obtain ⟨moment, operation⟩ := call
    cases operation with
    | undo =>
      dsimp only at h
      split at h
      -- an undo stands only on an edit of this run
      next hpos =>
        cases h
        rw [← Nat.sub_add_cancel hpos] at habove
        obtain ⟨after, hundone, hafter⟩ := habove.undone
        replace hmoved : s.history.undone = some _ := hmoved
        rw [hmoved] at hundone
        cases hundone
        exact hafter
      · cases h
    | redo =>
      dsimp only at h
      split at h
      · cases h
        exact habove.redone hmoved
      · cases h
    | _ =>
      dsimp only at h
      split at h
      -- an edit stands only while the oldest snapshot of the run is not dropped
      next hroom =>
        cases h
        obtain ⟨segments, hcommit⟩ := hmoved
        rw [hcommit]
        exact habove.commit hroom
      · cases h

/-- **A run** keeps the way back, by induction on its calls. -/
theorem above_run {start : List TranscriptSegment} {calls : List EditorCall} :
    ∀ {s : TranscriptEditor} {ahead ahead' : Nat}, standing platform s ahead calls = some ahead' →
      History.Above start ahead s.history → History.Above start ahead' (run (step platform) s calls).history := by
  induction calls with
  | nil =>
    intro s ahead ahead' h habove
    cases h
    exact habove
  | cons call rest ih =>
    intro s ahead ahead' h habove
    obtain ⟨between, hcall, hrest⟩ := Option.bind_eq_some_iff.mp h
    exact ih hrest (above_step hcall habove)

theorem backAndForth_of_above {start : TranscriptEditor} {k : Nat} (h : History.Above start.segments k s.history) :
    BackAndForth start k s := by
  obtain ⟨back, hundos, hcurrent, hredos⟩ := h.back
  have hstart : ofHistory s.history = s := rfl
  refine ⟨ofHistory back, ?_, hcurrent, ?_⟩
  · rw [← hstart, History.times_map ofHistory successful_undo, hundos]
    rfl
  · rw [History.times_map ofHistory successful_redo, hredos]
    rfl

/-- A run of edits stands with every call that succeeds. -/
theorem standing_edits (platform : EditorPlatform) {calls : List EditorCall}
    (hedits : ∀ call ∈ calls, IsEdit call.2) :
    ∀ (s : TranscriptEditor) (ahead : Nat), ahead + successes platform s calls ≤ maximumUndoSteps →
      standing platform s ahead calls = some (ahead + successes platform s calls) := by
  induction calls with
  | nil => exact fun _ _ _ => rfl
  | cons call rest ih =>
    intro s ahead hroom
    have hrest := ih fun other hmem => hedits other (List.mem_cons_of_mem _ hmem)
    have hedit := hedits call (List.mem_cons_self ..)
    have hcount : successes platform s (call :: rest) =
        (succeeds platform s call).toNat + successes platform (step platform s call) rest := rfl
    show (aheadAfter platform s ahead call).bind _ = _
    rw [hcount, ← Nat.add_assoc] at hroom ⊢
    have hahead : aheadAfter platform s ahead call = some (ahead + (succeeds platform s call).toNat) := by
      unfold aheadAfter
      cases hs : succeeds platform s call with
      | false => rfl
      | true =>
        -- the calls still to come are counted in `hroom`
        have hlt : ahead < maximumUndoSteps := by
          rw [hs] at hroom
          simp only [Bool.toNat_true] at hroom
          omega
        obtain ⟨moment, operation⟩ := call
        cases operation with
        | undo => exact hedit.elim
        | redo => exact hedit.elim
        | _ => exact if_pos hlt
    rw [hahead]
    exact hrest _ _ hroom

/-- **Undo and redo.**  In every state of the editor:
    * a call that fails leaves it as it was;
    * an edit that succeeds leaves nothing to redo;
    * behind a run of edits, at most 200 of them successful, as many undos restore the segments of the start,
      and as many redos those of the end;
    * and so it is behind a run that mixes edits, undos and redos, with the operations that stand. -/
theorem editor_undo_redo (platform : EditorPlatform) (s : TranscriptEditor) :
    (∀ call, succeeds platform s call = false → step platform s call = s) ∧
    (∀ call, IsEdit call.2 → succeeds platform s call = true → (step platform s call).canRedo = false) ∧
    (∀ calls : List EditorCall, (∀ call ∈ calls, IsEdit call.2) → successes platform s calls ≤ maximumUndoSteps →
      BackAndForth s (successes platform s calls) (run (step platform) s calls)) ∧
    ∀ (calls : List EditorCall) (ahead : Nat), standing platform s 0 calls = some ahead →
      BackAndForth s ahead (run (step platform) s calls) := by
  have hmixed : ∀ (calls : List EditorCall) (ahead : Nat), standing platform s 0 calls = some ahead →
      BackAndForth s ahead (run (step platform) s calls) :=
    fun calls ahead h => backAndForth_of_above (above_run h (History.Above.start s.history))
  refine ⟨fun call => step_of_failure, fun call hedit hsuccess => ?_, fun calls hedits hroom => ?_, hmixed⟩
  · obtain ⟨segments, hcommit⟩ := edit_of_success hedit hsuccess
    have hredo : (step platform s call).redoSteps = [] := congrArg History.redo hcommit
    unfold canRedo
    rw [hredo]
    rfl
  · have hstanding := standing_edits platform hedits s 0
    rw [Nat.zero_add] at hstanding
    exact hmixed calls _ (hstanding hroom)

end TranscriptEditor

end BreezeDesk
