/-
  Manual edits survive retries.

  Over every run of the repositories:
  * a `replaceTranscript` or `replaceChunk` that would replace a hand-edited segment fails and changes
    nothing — but for edits that the guards do not see (`RevertedEdit`);
  * segments that only the glossary has changed never make `replaceChunk` refuse;
  * a `replaceChunk` that succeeds leaves the segments of the other chunks as they were.

  `edits_survive` puts the three together.  The last one needs rows with ids, which is the invariant
  `SegmentsNamed`.
-/
import BreezeDesk.Database.Operations
import BreezeDesk.Transcript.ManualEdits

namespace BreezeDesk

open Transaction Runs

variable {t : CharTables} {db db' : Database} {step : Step} {now : Int} {newId : Nat → QString}
  {recordingId jobId chunkId ownerToken : QString} {segments : List TranscriptSegment}
  {provisional : Bool} {attempt : Int}

/-! ## Rows have ids -/

def SegmentsNamed (db : Database) : Prop := ∀ row ∈ db.segments, row.id ≠ []

/-- UUIDs are not empty. -/
def UuidsDrawn (step : Step) : Prop := ∀ index, step.newId index ≠ []

theorem segmentsNamed_detachChunks {which : JobChunk → Bool} (h : SegmentsNamed db) :
    SegmentsNamed (detachChunks which db) := by
  intro row hmem
  obtain ⟨old, hold, hsame⟩ := mem_detachChunks hmem
  rw [hsame]
  exact h old hold

theorem segmentsNamed_statements : StatementsKeep (fun _ => True) SegmentsNamed where
  jobs _ _ _ _ hI _ := hI
  newJob _ _ hI _ _ := hI
  claim _ _ _ _ hI _ _ _ _ := hI
  chunks _ _ hI := hI
  detach _ _ hI := segmentsNamed_detachChunks hI
  events _ _ _ hI := hI
  index _ _ hI := hI
  leases _ _ hI _ _ := hI
  cascade _ _ hI := fun row hmem => segmentsNamed_detachChunks hI row (List.mem_filter.mp hmem).1

theorem segmentsNamed_completion : CompletionKeeps SegmentsNamed where
  recordings _ _ _ hI := hI
  segments _ _ hI := fun row hmem => hI row (List.mem_filter.mp hmem).1

theorem SegmentsNamed.rewritten {list : List TranscriptSegment} {allowOverlap : Bool}
    (hI : SegmentsNamed db) (hdrawn : ∀ index, newId index ≠ [])
    (h : Rewritten now newId recordingId jobId list allowOverlap db db') : SegmentsNamed db' := by
  intro row hmem
  rcases h.mem_segments.mp hmem with ⟨hold, -⟩ | hnew
  · exact hI row hold
  · obtain ⟨k, segment, -, rfl⟩ := mem_storedRows.mp hnew
    show (if segment.id.isEmpty then newId (0 + k) else segment.id) ≠ []
    by_cases hempty : segment.id.isEmpty = true
    · rw [if_pos hempty]
      exact hdrawn _
    · rw [if_neg hempty]
      exact fun hnil => hempty (List.isEmpty_iff.mpr hnil)

/-- One step keeps the ids. -/
theorem performed_segmentsNamed (step : Step) (hI : SegmentsNamed db) (hdrawn : UuidsDrawn step) :
    SegmentsNamed (performed t db step) := by
  rcases accepted_or_unchanged t db step with haccepted | hsame
  · cases htranscript : step.operation.isTranscript with
    | false =>
      exact performed_anyJob segmentsNamed_statements (fun _ _ => trivial) segmentsNamed_completion htranscript hI
    | true =>
      have hok : perform t db step = (.ok (), performed t db step) := accepted_eq haccepted
      unfold perform at hok
      cases hop : step.operation <;> rw [hop] at htranscript hok
      case replaceTranscript =>
        obtain ⟨-, -, hrewritten⟩ := replaceTranscript_ok hok
        exact hI.rewritten hdrawn hrewritten
      case saveEditedTranscript =>
        obtain ⟨-, hrewritten⟩ := saveEditedTranscript_ok hok
        exact hI.rewritten hdrawn hrewritten
      case replaceChunk =>
        obtain ⟨-, -, -, -, hrewritten⟩ := replaceChunk_ok hok
        exact hI.rewritten hdrawn hrewritten
      case saveEditedSegment =>
        obtain ⟨durable, -, hresult⟩ := saveEditedSegment_ok hok
        rw [hresult]
        intro row hmem
        obtain ⟨old, hold, rfl⟩ := mem_updateRows.mp hmem
        have hid := hI old hold
        split
        · exact hid
        · exact hid
      case deleteSegment =>
        rcases deleteSegment_ok hok with hsame | ⟨durable, -, -, hresult⟩
        · rw [hsame]
          exact hI
        · rw [hresult]
          exact fun row hmem => hI row (List.mem_filter.mp hmem).1
      all_goals cases htranscript
  · rw [hsame]
    exact hI

/-! ## Hand-edited segments -/

/-- The rows that a replacement puts others in place of. -/
def Operation.replaced? : Operation → Option (TranscriptSegment → Bool)
  | .replaceTranscript _ jobId _ => some fun row => row.jobId == jobId
  | .replaceChunk _ jobId chunkId _ _ _ _ => some fun row => row.jobId == jobId && row.chunkId == chunkId
  | _ => none

/-- One of the rows is an edit back to the original text that the guards do not see. -/
def ReplacesReverted (t : CharTables) (db : Database) (step : Step) : Prop :=
  ∃ replaced, step.operation.replaced? = some replaced ∧
    ∃ row ∈ db.segments, replaced row = true ∧ RevertedEdit t row

theorem editedInSql_eq (segment : TranscriptSegment) : editedInSql segment = segment.isEdited := by
  unfold editedInSql TranscriptSegment.isEdited
  cases segment.editedText <;> rfl

/-- What the guard of `replaceChunk` refuses, the SQL test refuses as well. -/
theorem editedInSql_of_manual {segment : TranscriptSegment} (h : hasManualTextEdit t segment = true) :
    editedInSql segment = true := by
  rw [editedInSql_eq]
  by_contra hnot
  rw [hasManualTextEdit_of_unedited (Bool.not_eq_true _ ▸ hnot)] at h
  cases h

/-- **Accepted replacements** replace no hand-edited segment, but for the defect. -/
theorem accepted_replacement {replaced : TranscriptSegment → Bool}
    (hreplaced : step.operation.replaced? = some replaced) (hnot : ¬ ReplacesReverted t db step)
    (haccepted : Accepted t db step) : ∀ row ∈ db.segments, replaced row = true → ¬ HandEdited t row := by
  intro row hrow hwhich hedited
  have hmanual : hasManualTextEdit t row = true :=
    (handEdited_iff.mp hedited).resolve_right fun hreverted =>
      hnot ⟨replaced, hreplaced, row, hrow, hwhich, hreverted⟩
  have hok : perform t db step = (.ok (), performed t db step) := accepted_eq haccepted
  unfold perform at hok
  cases hop : step.operation <;> rw [hop] at hreplaced hok <;> cases hreplaced
  case replaceTranscript =>
    obtain ⟨-, hguard, -⟩ := replaceTranscript_ok hok
    have hunedited := hguard row hrow (beq_iff_eq.mp hwhich)
    rw [editedInSql_of_manual hmanual] at hunedited
    cases hunedited
  case replaceChunk =>
    obtain ⟨-, -, -, hguard, -⟩ := replaceChunk_ok hok
    rw [Bool.and_eq_true, beq_iff_eq, beq_iff_eq] at hwhich
    rw [hguard row hrow hwhich.1 hwhich.2] at hmanual
    cases hmanual

/-! ## Segments of the glossary -/

/-- An error that is not about a state. -/
def NoStateError (error : UserFacingError) : Prop := error.code ≠ .invalidStateTransition

theorem raises_validateJobRecording :
    Raises NoStateError (validateJobRecording recordingId jobId) := by
  refine raises_bind (raises_bind (raises_command _ _) fun _ => ?_) fun _ => raises_bind ?_ fun _ =>
    raises_pure _
  · exact raises_requireSome (fun h => by cases h)
  · exact raises_require (fun h => by cases h)

theorem raises_validateChunkJob : Raises NoStateError (validateChunkJob chunkId jobId) := by
  refine raises_bind (raises_command _ _) fun _ => raises_bind ?_ fun _ => ?_
  · exact raises_requireSome (fun h => by cases h)
  · exact raises_require (fun h => by cases h)

theorem validateFrom_error {allowOverlap : Bool} :
    ∀ {index : Nat} {previousEnd : Int} {error : UserFacingError},
      validateFrom allowOverlap index previousEnd segments = .error error → NoStateError error := by
  induction segments with
  | nil =>
    intro index previousEnd error h
    cases h
  | cons segment rest ih =>
    intro index previousEnd error h
    unfold validateFrom at h
    split at h
    · cases h
      exact fun h => by cases h
    · exact ih h

theorem raises_insertRows :
    ∀ index, Raises NoStateError (insertRows now newId recordingId jobId index segments) := by
  induction segments with
  | nil => exact fun index => raises_pure _
  | cons segment rest ih =>
    intro index
    refine raises_bind (raises_bind ?_ fun _ => raises_bind ?_ fun _ => ?_) fun _ => ih (index + 1)
    · exact raises_require (fun h => by cases h)
    · exact raises_ite (raises_pure _) raises_validateChunkJob
    · exact raises_statement (fun h => by cases h)

theorem raises_insertSegments {allowOverlap : Bool} :
    Raises NoStateError (insertSegments now newId recordingId jobId segments allowOverlap) :=
  raises_bind (raises_liftResult fun _ h => validateFrom_error h) fun _ => raises_insertRows 0

/-- **The guard is the only one to refuse an edit**: where it sees none, `replaceChunk` does not fail
    for manual edits. -/
theorem replaceChunk_not_manual (hmanual : NoManualEdit t jobId chunkId db.segments) :
    (replaceChunk t now newId recordingId jobId chunkId segments provisional attempt ownerToken db).1 ≠
      .error manualEditError := by
  have hstate : ¬ NoStateError manualEditError := fun h => h rfl
  intro hfail
  unfold replaceChunk executionLeaseTransaction at hfail
  split at hfail
  · cases hfail
  have hprogram := atomically_failed hfail
  rcases bind_eq_error.mp hprogram with hlease | ⟨_, _, hlease, hop⟩
  · exact hstate (raises_statement (fun h => by cases h) _ _ hlease)
  obtain ⟨-, -, rfl⟩ := statement_eq_ok.mp hlease
  rcases bind_eq_error.mp hop with hjob | ⟨_, _, hjob, hop1⟩
  · exact hstate (raises_validateJobRecording _ _ hjob)
  obtain ⟨rfl, -⟩ := validateJobRecording_eq_ok.mp hjob
  rcases bind_eq_error.mp hop1 with hchunk | ⟨_, _, hchunk, hop2⟩
  · exact hstate (raises_validateChunkJob _ _ hchunk)
  obtain ⟨rfl, -⟩ := validateChunkJob_eq_ok.mp hchunk
  rcases bind_eq_error.mp hop2 with hload | ⟨_, _, hload, hop3⟩
  · cases hload
  obtain ⟨rfl, rfl⟩ := command_eq_ok.mp hload
  rcases bind_eq_error.mp hop3 with hguard | ⟨_, _, -, hop4⟩
  · -- the guard passes
    rw [require, if_pos] at hguard
    · cases hguard
    · rintro row hmem ⟨hchunkId, hedit⟩
      obtain ⟨hrow, hjobId, -⟩ := mem_segmentsForJob.mp hmem
      rw [hmanual row hrow hjobId hchunkId] at hedit
      cases hedit
  · refine hstate (raises_bind (raises_command _ _) (fun _ => raises_bind raises_insertSegments fun _ => ?_)
      _ _ hop4)
    exact raises_ite (raises_pure _) (raises_command _ _)

/-- Everything in the chunk is the work of the glossary. -/
def GlossaryChunk (t : CharTables) (jobId chunkId : QString) (rows : List TranscriptSegment) : Prop :=
  ∀ row ∈ rows, row.jobId = jobId → row.chunkId = chunkId →
    ∃ terms, (∀ term ∈ terms, term.canonicalText ≠ []) ∧ GlossaryOnly t terms row

theorem GlossaryChunk.noManualEdit {rows : List TranscriptSegment}
    (h : GlossaryChunk t jobId chunkId rows) : NoManualEdit t jobId chunkId rows := by
  intro row hrow hjobId hchunkId
  obtain ⟨terms, hterms, hglossary⟩ := h row hrow hjobId hchunkId
  exact hglossary.not_manual hterms

/-! ## Other chunks -/

/-- The segments of the other chunks of a job, without what storing them sets anew. -/
def otherChunks (db : Database) (jobId chunkId : QString) : List TranscriptSegment :=
  ((segmentsForJob db jobId true).filter fun row => row.chunkId != chunkId).map TranscriptSegment.core

/-- **Other chunks keep their segments**, and so do other jobs. -/
theorem replaceChunk_others (hnamed : SegmentsNamed db)
    (hok : replaceChunk t now newId recordingId jobId chunkId segments provisional attempt ownerToken db =
      (.ok (), db')) :
    (otherChunks db' jobId chunkId).Perm (otherChunks db jobId chunkId) ∧
      ∀ row, row.jobId ≠ jobId → (row ∈ db'.segments ↔ row ∈ db.segments) := by
  obtain ⟨-, -, -, -, hrewritten⟩ := replaceChunk_ok hok
  have hperm := combinedSegments_perm (segmentsForJob db jobId true) chunkId provisional attempt segments
  constructor
  · have hread := hrewritten.segmentsForJob_eq true
    simp only [Bool.true_or, List.filter_true] at hread
    have hdrawn : ∀ row ∈ combinedSegments (segmentsForJob db jobId true) chunkId provisional attempt
        segments, row.chunkId ≠ chunkId → row.id ≠ [] := by
      intro row hmem hother
      rcases List.mem_append.mp (hperm.mem_iff.mp hmem) with hold | hnew
      · exact hnamed row (mem_segmentsForJob.mp (List.mem_filter.mp hold).1).1
      · obtain ⟨segment, -, rfl⟩ := mem_chunkSegments.mp hnew
        exact absurd rfl hother
    unfold otherChunks
    rw [hread, map_core_storedRows hdrawn]
    refine List.Perm.map _ ((hperm.filter _).trans (List.Perm.of_eq ?_))
    have hnew : (chunkSegments chunkId provisional attempt segments).filter
        (fun row => row.chunkId != chunkId) = [] := by
      refine List.filter_eq_nil_iff.mpr fun row hmem => ?_
      obtain ⟨segment, -, rfl⟩ := mem_chunkSegments.mp hmem
      simp
    rw [List.filter_append, hnew, List.append_nil, List.filter_filter]
    simp only [Bool.and_self]
  · intro row hother
    rw [hrewritten.mem_segments]
    constructor
    · rintro (⟨hold, -⟩ | hnew)
      · exact hold
      · exact absurd (storedRows_jobId hnew) hother
    · exact fun hold => Or.inl ⟨hold, hother⟩

/-! ## Every run -/

/-- **Manual edits survive retries**: in every state of every run,
    * a replacement of a hand-edited segment fails and changes nothing, unless one of the replaced
      segments is an edit back to the original text that the guards do not see;
    * `replaceChunk` never refuses a chunk because of what the glossary did;
    * after a `replaceChunk` that succeeds the segments of the other chunks are as they were. -/
theorem edits_survive (t : CharTables) (db : Database) (steps : List Step) (hstart : SegmentsNamed db)
    (hdrawn : ∀ step ∈ steps, UuidsDrawn step) :
    ∀ s ∈ states (performed t) db steps, ∀ step : Step,
      (∀ replaced, step.operation.replaced? = some replaced → ¬ ReplacesReverted t s step →
        (∃ row ∈ s.segments, replaced row = true ∧ HandEdited t row) →
        (∃ error, (perform t s step).1 = .error error) ∧ performed t s step = s) ∧
      (∀ recordingId jobId chunkId segments provisional attempt ownerToken,
        step.operation =
          .replaceChunk recordingId jobId chunkId segments provisional attempt ownerToken →
        (GlossaryChunk t jobId chunkId s.segments →
          (perform t s step).1 ≠ .error manualEditError) ∧
        (Accepted t s step →
          (otherChunks (performed t s step) jobId chunkId).Perm (otherChunks s jobId chunkId) ∧
          ∀ row, row.jobId ≠ jobId → (row ∈ (performed t s step).segments ↔ row ∈ s.segments))) := by
  have hkeeps : StepKeeps (performed t) (fun _ step => UuidsDrawn step) SegmentsNamed :=
    fun s step hI hdrawn => performed_segmentsNamed step hI hdrawn
  intro s hs step
  have hnamed : SegmentsNamed s :=
    states_invariant hkeeps hstart (guarded_of_forall (fun step hmem _ => hdrawn step hmem) db) s hs
  refine ⟨fun replaced hreplaced hnot hedited => ?_, ?_⟩
  · obtain ⟨row, hrow, hwhich, hedit⟩ := hedited
    cases hresult : (perform t s step).1 with
    | error error => exact ⟨⟨error, rfl⟩, performed_of_error hresult⟩
    | ok => exact absurd hedit (accepted_replacement hreplaced hnot hresult row hrow hwhich)
  · intro recordingId jobId chunkId segments provisional attempt ownerToken hop
    have hperform : perform t s step = replaceChunk t step.now step.newId recordingId jobId chunkId
        segments provisional attempt ownerToken s := by
      unfold perform
      rw [hop]
    constructor
    · intro hglossary
      rw [hperform]
      exact replaceChunk_not_manual hglossary.noManualEdit
    · intro haccepted
      exact replaceChunk_others hnamed (hperform ▸ accepted_eq haccepted)

/-! ## An edit back to the original text -/

def deskTerm : GlossaryTerm :=
  { id := qs "term", canonicalText := qs "BreezeDesk", aliases := [qs "Breeze Desk"] }

/-- A segment as the glossary has left it. -/
def deskSegment : TranscriptSegment :=
  { id := qs "segment", recordingId := qs "recording", jobId := qs "job", chunkId := qs "chunk",
    startMs := 0, endMs := 1000, originalText := qs "Breeze Desk",
    editedText := (applyExplicitAliases asciiTables (qs "Breeze Desk") [deskTerm]).text,
    replacementAudit :=
      auditToJson (applyExplicitAliases asciiTables (qs "Breeze Desk") [deskTerm]).replacements }

/-- A job that was interrupted after its first chunk. -/
def interruptedJob : Database :=
  { recordings := [{ id := qs "recording" }]
    jobs := [{ id := qs "job", recordingId := qs "recording", state := .interrupted }]
    chunks := [{ id := qs "chunk", jobId := qs "job", startMs := 0, endMs := 1000 }]
    segments := [deskSegment] }

def stepOf (operation : Operation) : Step := { now := 0, newId := fun _ => qs "uuid", operation }

/-- The user edits the text, and the job is resumed.  An edit back to the original text is stored as an
    empty one. -/
def editAndResume (editedText : QString) : List Step :=
  [stepOf (.saveEditedSegment { deskSegment with editedText }),
    stepOf (.transition (qs "job") .queued [] [] []),
    stepOf (.claimQueued (qs "job") (qs "owner") 60000)]

/-- The chunk is transcribed again. -/
def retryChunk : Step :=
  stepOf (.replaceChunk (qs "recording") (qs "job") (qs "chunk") [deskSegment] false 2 (qs "owner"))


theorem edits_survive_interruptedJob :
    performed asciiTables (run (performed asciiTables) interruptedJob (editAndResume (qs "Breeze")))
        retryChunk =
      run (performed asciiTables) interruptedJob (editAndResume (qs "Breeze")) := by
  have hnamed : SegmentsNamed interruptedJob := by
    intro row hrow
    rw [List.mem_singleton.mp hrow]
    decide
  have hdrawn : ∀ step ∈ editAndResume (qs "Breeze"), UuidsDrawn step := by
    intro step hmem index
    have huuid : step.newId index = qs "uuid" := by
      simp only [editAndResume, List.mem_cons, List.not_mem_nil, or_false] at hmem
      rcases hmem with rfl | rfl | rfl <;> rfl
    rw [huuid]
    decide
  refine ((edits_survive asciiTables interruptedJob (editAndResume (qs "Breeze")) hnamed hdrawn _
    (run_mem_states _ _) retryChunk).1 _ rfl ?_ ?_).2
  · have hseen : ∀ row ∈ (run (performed asciiTables) interruptedJob
        (editAndResume (qs "Breeze"))).segments, ¬ RevertedEdit asciiTables row := by decide
    rintro ⟨replaced, -, row, hrow, -, hreverted⟩
    exact hseen row hrow hreverted
  · decide

/-- **A lost edit.**  The hand-edited segment is replaced by what the glossary makes of it. -/
theorem replaceChunk_revertedEdit :
    (∃ row ∈ (run (performed asciiTables) interruptedJob (editAndResume [])).segments,
      (row.jobId, row.chunkId, row.displayText) = (qs "job", qs "chunk", qs "Breeze Desk") ∧
        HandEdited asciiTables row) ∧
      Accepted asciiTables (run (performed asciiTables) interruptedJob (editAndResume [])) retryChunk ∧
      (run (performed asciiTables) interruptedJob (editAndResume [] ++ [retryChunk])).segments.map
        (·.displayText) = [qs "BreezeDesk"] := by
  decide

end BreezeDesk
