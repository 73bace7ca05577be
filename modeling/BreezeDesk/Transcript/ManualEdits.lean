/-
  Manual edits: what they are, which of them the guards see, and what replacing a chunk keeps.

  A stored segment is hand-edited (`HandEdited`) when the text it shows is not what its original text
  and its stored audit render to.  The guard of `replaceChunk` is `hasManualTextEdit`, the one of
  `replaceTranscript` compares two columns; both take a segment that shows its original text for
  unedited.  So they miss exactly one kind of edit, `RevertedEdit`: back to the original text, under
  an audit that renders to something else.

  A segment that only the glossary has changed is no manual edit, because audits render
  (`GlossaryOnly.not_manual`).  The segments of other chunks come out of a replacement as they were,
  `core` by `core`.
-/
import BreezeDesk.Transcript.Rewriting

namespace BreezeDesk

open Transaction

variable {t : CharTables} {segment : TranscriptSegment}

/-! ## Hand-edited segments -/

/-- What the stored audit makes of the original text. -/
def renderedText (t : CharTables) (segment : TranscriptSegment) : Option QString :=
  if segment.replacementAudit.isEmpty then some segment.originalText
  else renderAudit t segment.originalText (auditFromJson segment.replacementAudit)

def HandEdited (t : CharTables) (segment : TranscriptSegment) : Prop :=
  renderedText t segment ≠ some segment.displayText

instance : Decidable (HandEdited t segment) := inferInstanceAs (Decidable (¬ _))

/-- An edit back to the original text, under an audit that renders to something else. -/
def RevertedEdit (t : CharTables) (segment : TranscriptSegment) : Prop :=
  segment.isEdited = false ∧ renderedText t segment ≠ some segment.originalText

instance : Decidable (RevertedEdit t segment) := inferInstanceAs (Decidable (_ ∧ _))

theorem displayText_of_unedited (h : segment.isEdited = false) :
    segment.displayText = segment.originalText := by
  unfold TranscriptSegment.displayText
  unfold TranscriptSegment.isEdited at h
  by_cases hempty : segment.editedText.isEmpty = true
  · rw [if_pos hempty]
  · rw [if_neg hempty]
    simpa [hempty] using h

theorem displayText_of_edited (h : segment.isEdited = true) :
    segment.displayText = segment.editedText ∧ segment.editedText ≠ segment.originalText := by
  unfold TranscriptSegment.isEdited at h
  simp only [Bool.and_eq_true, Bool.not_eq_true', bne_iff_ne] at h
  unfold TranscriptSegment.displayText
  rw [h.1]
  exact ⟨rfl, h.2⟩

theorem auditFromJson_isEmpty (audit : QJsonArray) : (auditFromJson audit).isEmpty = audit.isEmpty := by
  unfold auditFromJson
  cases audit <;> rfl

/-- An edited segment is a manual edit when the audit does not explain its text. -/
theorem hasManualTextEdit_of_edited (h : segment.isEdited = true) :
    hasManualTextEdit t segment = true ↔ renderedText t segment ≠ some segment.editedText := by
  obtain ⟨-, hne⟩ := displayText_of_edited h
  unfold hasManualTextEdit renderedText
  rw [h, Bool.not_true, if_neg Bool.false_ne_true]
  dsimp only
  rw [auditFromJson_isEmpty]
  by_cases hempty : segment.replacementAudit.isEmpty = true
  · rw [if_pos hempty, if_pos hempty]
    exact ⟨fun _ hsame => hne (Option.some.inj hsame).symm, fun _ => rfl⟩
  · rw [if_neg hempty, if_neg hempty]
    cases renderAudit t segment.originalText (auditFromJson segment.replacementAudit) with
    | none => exact ⟨fun _ hsame => (by cases hsame), fun _ => rfl⟩
    | some rendered =>
      rw [bne_iff_ne, ne_eq, ne_eq, Option.some.injEq]

theorem hasManualTextEdit_of_unedited (h : segment.isEdited = false) :
    hasManualTextEdit t segment = false := by
  unfold hasManualTextEdit
  rw [h]
  rfl

/-- **What the guard misses**: the edits back to the original text, and no others. -/
theorem handEdited_iff :
    HandEdited t segment ↔ hasManualTextEdit t segment = true ∨ RevertedEdit t segment := by
  unfold HandEdited RevertedEdit
  cases h : segment.isEdited with
  | true =>
    rw [(displayText_of_edited h).1, hasManualTextEdit_of_edited h]
    exact ⟨Or.inl, fun h => h.resolve_right fun h => by cases h.1⟩
  | false =>
    rw [displayText_of_unedited h, hasManualTextEdit_of_unedited h]
    exact ⟨fun hne => Or.inr ⟨rfl, hne⟩, fun h => (h.resolve_left Bool.false_ne_true).2⟩

/-! ## Segments that only the glossary has changed -/

/-- The edited text and the audit are what the post-processor stores. -/
structure GlossaryOnly (t : CharTables) (terms : List GlossaryTerm) (segment : TranscriptSegment) :
    Prop where
  text : segment.editedText =
    if (applyExplicitAliases t segment.originalText terms).replacements.isEmpty then []
    else (applyExplicitAliases t segment.originalText terms).text
  audit : segment.replacementAudit =
    auditToJson (applyExplicitAliases t segment.originalText terms).replacements

/-- **The glossary is no manual edit**, provided that no term replaces by nothing. -/
theorem GlossaryOnly.not_manual {terms : List GlossaryTerm} (h : GlossaryOnly t terms segment)
    (hterms : ∀ term ∈ terms, term.canonicalText ≠ []) : hasManualTextEdit t segment = false := by
  have hround := renderAudit_applyExplicitAliases (t := t) segment.originalText hterms
  rw [← h.audit] at hround
  cases hedited : segment.isEdited with
  | false => exact hasManualTextEdit_of_unedited hedited
  | true =>
    have hfull : (applyExplicitAliases t segment.originalText terms).replacements.isEmpty = false := by
      by_contra hempty
      rw [Bool.not_eq_false] at hempty
      have htext := h.text
      rw [if_pos hempty] at htext
      unfold TranscriptSegment.isEdited at hedited
      rw [htext] at hedited
      cases hedited
    have haudit : segment.replacementAudit.isEmpty = false := by
      rw [← auditFromJson_isEmpty, h.audit, auditFromJson_auditToJson, hfull]
    have htext := h.text
    rw [hfull, if_neg Bool.false_ne_true] at htext
    rw [Bool.eq_false_iff, ne_eq, hasManualTextEdit_of_edited hedited, not_ne_iff]
    unfold renderedText
    rw [haudit, if_neg Bool.false_ne_true, hround, htext]

/-! ## What a rewritten row keeps -/

namespace TranscriptSegment

/-- A segment without what storing it in a list sets anew: owner, number, attempt and times of writing.
    Id, chunk, range, texts, audit, marks and probabilities are left. -/
def core (segment : TranscriptSegment) : TranscriptSegment :=
  { segment with recordingId := [], jobId := [], ordinal := 0, attempt := 0, createdAt := none,
                 updatedAt := none }

end TranscriptSegment

variable {db db' : Database} {recordingId jobId chunkId ownerToken : QString} {now : Int}
  {newId : Nat → QString} {list segments existing : List TranscriptSegment}
  {provisional allowOverlap : Bool} {attempt : Int}

theorem core_storedSegment {index : Nat} (h : segment.id ≠ []) :
    (storedSegment now newId recordingId jobId index segment).core = segment.core := by
  have hne : segment.id.isEmpty = false := List.isEmpty_eq_false_iff.mpr h
  simp only [storedSegment, TranscriptSegment.core, hne, Bool.false_eq_true, if_false]

/-- The stored rows of the other chunks are their segments. -/
theorem map_core_storedRows (hdrawn : ∀ segment ∈ list, segment.chunkId ≠ chunkId → segment.id ≠ []) :
    ∀ index : Nat, ((storedRows now newId recordingId jobId index list).filter
        fun row => row.chunkId != chunkId).map TranscriptSegment.core =
      (list.filter fun row => row.chunkId != chunkId).map TranscriptSegment.core := by
  induction list with
  | nil => intro index; rfl
  | cons segment rest ih =>
    intro index
    have hrest := ih (fun other hmem => hdrawn other (List.mem_cons_of_mem _ hmem)) (index + 1)
    have hchunk : (storedSegment now newId recordingId jobId index segment).chunkId = segment.chunkId := rfl
    rw [storedRows, List.filter_cons, List.filter_cons, hchunk]
    by_cases hother : segment.chunkId = chunkId
    · rw [bne_eq_false_iff_eq.mpr hother, if_neg Bool.false_ne_true, if_neg Bool.false_ne_true, hrest]
    · rw [bne_iff_ne.mpr hother, if_pos rfl, if_pos rfl, List.map_cons, List.map_cons, hrest,
        core_storedSegment (hdrawn segment (List.mem_cons_self ..) hother)]

/-- **The other chunks** keep their segments, in order of time. -/
theorem others_kept
    (h : Rewritten now newId recordingId jobId
      (combinedSegments (segmentsForJob db jobId true) chunkId provisional attempt segments)
      allowOverlap db db')
    (hdrawn : ∀ row ∈ combinedSegments (segmentsForJob db jobId true) chunkId provisional attempt segments,
      row.chunkId ≠ chunkId → row.id ≠ [])
    (hsorted : ((segmentsForJob db jobId true).filter fun row => row.chunkId != chunkId).Pairwise
      fun a b => ¬ earlier b a) :
    ((segmentsForJob db' jobId true).filter fun row => row.chunkId != chunkId).map
        TranscriptSegment.core =
      ((segmentsForJob db jobId true).filter fun row => row.chunkId != chunkId).map
        TranscriptSegment.core := by
  have hread := h.segmentsForJob_eq true
  simp only [Bool.true_or, List.filter_true] at hread
  rw [hread, map_core_storedRows hdrawn, filter_combinedSegments hsorted]

end BreezeDesk
