/-
  `saveActiveTranscript` and `reloadActiveTranscript` — the editor's rows and the stored segments.

  The editor holds the text the user sees; the store holds the original text and an edit, and an empty
  edit stands for none.  So a row that the user has emptied is stored as unedited and shows its original
  text after the next reload.  These rows are the only ones that a save loses (`save_and_reload`).
-/
import BreezeDesk.Transcript.Rewriting
import BreezeDesk.Ui.TranscriptEditor

namespace BreezeDesk

/-- Whether the transcript was saved. -/
def saveActiveTranscript (now : Int) (newId : Nat → QString) (activeRecordingId activeTranscriptJobId : QString)
    (rows : EditorRows) (db : Database) : Bool × Database :=
  if activeRecordingId.isEmpty || activeTranscriptJobId.isEmpty then (false, db)
  else
    match saveEditedTranscript now newId activeRecordingId activeTranscriptJobId
        (savedSegments activeRecordingId activeTranscriptJobId rows) db with
    | (.ok (), after) => (true, after)
    | (.error _, after) => (false, after)

/-- The row that shows a stored segment. -/
def editorRow (segment : TranscriptSegment) : TranscriptSegment :=
  { segment with editedText := segment.displayText }

def reloadActiveTranscript (activeTranscriptJobId : QString) (db : Database) : EditorRows :=
  if activeTranscriptJobId.isEmpty then []
  else (segmentsForJob db activeTranscriptJobId true).map editorRow

/-- What the user sees of a row. -/
def shown (row : TranscriptSegment) : Int × Int × QString × Bool × QJsonArray :=
  (row.startMs, row.endMs, row.editedText, row.reviewed, row.replacementAudit)

/-- The user has emptied the row. -/
def Emptied (row : TranscriptSegment) : Prop := row.editedText = [] ∧ row.originalText ≠ []

instance (row : TranscriptSegment) : Decidable (Emptied row) := inferInstanceAs (Decidable (_ ∧ _))

variable {now : Int} {newId : Nat → QString} {recordingId jobId : QString} {rows : EditorRows} {db db' : Database}
  {row : TranscriptSegment}

/-- **One row** comes back unless it was emptied. -/
theorem shown_storedSegment (index ordinal : Nat) :
    shown (editorRow (storedSegment now newId recordingId jobId index (savedSegment recordingId jobId row ordinal))) =
      shown row ↔ ¬ Emptied row := by
  have hshown : shown (editorRow (storedSegment now newId recordingId jobId index
      (savedSegment recordingId jobId row ordinal))) =
      shown { row with editedText := (savedSegment recordingId jobId row ordinal).displayText } := rfl
  have htext : (savedSegment recordingId jobId row ordinal).displayText = row.editedText ↔ ¬ Emptied row := by
    unfold TranscriptSegment.displayText Emptied
    show (if (if row.editedText = row.originalText then ([] : QString) else row.editedText).isEmpty
      then row.originalText else if row.editedText = row.originalText then [] else row.editedText) = _ ↔ _
    by_cases hsame : row.editedText = row.originalText
    · rw [if_pos hsame]
      exact ⟨fun _ h => h.2 (hsame.symm.trans h.1), fun _ => hsame.symm⟩
    · rw [if_neg hsame]
      by_cases hempty : row.editedText = []
      · rw [hempty]
        exact ⟨fun h hboth => hboth.2 h, fun h => not_not.mp fun horiginal => h ⟨rfl, horiginal⟩⟩
      · rw [if_neg (List.isEmpty_iff.not.mpr hempty)]
        exact ⟨fun _ h => hempty h.1, fun _ => rfl⟩
  rw [hshown, ← htext]
  unfold shown
  simp only [Prod.mk.injEq, true_and, and_true]

/-- All rows, from any row number on. -/
theorem shown_storedRows (rows : EditorRows) : ∀ index : Nat,
    ((storedRows now newId recordingId jobId index
        ((rows.zipIdx index).map fun (row, ordinal) => savedSegment recordingId jobId row ordinal)).map
      editorRow).map shown = rows.map shown ↔ ∀ row ∈ rows, ¬ Emptied row := by
  induction rows with
  | nil => exact fun _ => ⟨fun _ _ hmem => (by cases hmem), fun _ => rfl⟩
  | cons row rest ih =>
    intro index
    rw [List.zipIdx_cons, List.map_cons, storedRows, List.map_cons, List.map_cons, List.map_cons, List.cons.injEq,
      shown_storedSegment, ih, List.forall_mem_cons]

/-- **Save and reload.**  After a save the same rows come back exactly when no row was emptied. -/
theorem save_and_reload (h : saveActiveTranscript now newId recordingId jobId rows db = (true, db')) :
    (reloadActiveTranscript jobId db').map shown = rows.map shown ↔ ∀ row ∈ rows, ¬ Emptied row := by
  unfold saveActiveTranscript at h
  split at h
  · cases h
  next hnamed =>
    split at h
    next after hsaved =>
      cases h
      have hrewritten := (saveEditedTranscript_ok hsaved).2
      have hjob : jobId.isEmpty = false := by
        cases hid : jobId.isEmpty with
        | false => rfl
        | true => exact absurd (by rw [hid, Bool.or_true]) hnamed
      have hstored := hrewritten.segmentsForJob_eq true
      simp only [Bool.true_or, List.filter_true] at hstored
      unfold reloadActiveTranscript
      rw [hjob, if_neg Bool.false_ne_true, hstored]
      exact shown_storedRows rows 0
    · cases h

/-- A recording whose transcript is complete. -/
def transcribedRecording : Database :=
  { recordings := [{ id := qs "recording" }]
    jobs := [{ id := qs "job", recordingId := qs "recording", state := .completed }] }

/-- A row with its text corrected, and the same row with the text taken out. -/
def correctedRow : TranscriptSegment :=
  { id := qs "segment", endMs := 1000, originalText := qs "um", editedText := qs "hum", reviewed := true }

def emptiedRow : TranscriptSegment := { correctedRow with editedText := [] }

theorem save_and_reload_corrected :
    (reloadActiveTranscript (qs "job") (saveActiveTranscript 0 (fun _ => []) (qs "recording") (qs "job")
      [correctedRow] transcribedRecording).2).map shown = [correctedRow].map shown :=
  (save_and_reload (Prod.ext (by decide) rfl)).mpr (by decide)

/-- **An emptied row** shows its original text after the reload. -/
theorem save_and_reload_emptied :
    (saveActiveTranscript 0 (fun _ => []) (qs "recording") (qs "job") [emptiedRow] transcribedRecording).1 = true ∧
      (reloadActiveTranscript (qs "job") (saveActiveTranscript 0 (fun _ => []) (qs "recording") (qs "job")
        [emptiedRow] transcribedRecording).2).map (·.editedText) = [qs "um"] ∧
      (reloadActiveTranscript (qs "job") (saveActiveTranscript 0 (fun _ => []) (qs "recording") (qs "job")
        [emptiedRow] transcribedRecording).2).map shown ≠ [emptiedRow].map shown := by
  have hreloaded : (reloadActiveTranscript (qs "job") (saveActiveTranscript 0 (fun _ => []) (qs "recording")
      (qs "job") [emptiedRow] transcribedRecording).2).map (·.editedText) = [qs "um"] := by
    decide
  refine ⟨by decide, hreloaded, fun hsame => ?_⟩
  have htexts := congrArg (List.map fun row : Int × Int × QString × Bool × QJsonArray => row.2.2.1) hsame
  rw [List.map_map, List.map_map] at htexts
  have hempty : [qs "um"] = [[]] := hreloaded.symm.trans htexts
  revert hempty
  decide

end BreezeDesk
