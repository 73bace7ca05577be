/-
  `SqliteTranscriptRepository` — the writes on transcript segments.

  A chunk is replaced by the executor of the job, under its lease (`replaceChunk`); everything else is an
  edit of a job that nobody executes (`replaceTranscript`, `saveEditedTranscript`, `saveEditedSegment`,
  `deleteSegment`).  Whole lists are validated and renumbered; a single segment is checked against the
  others for overlap and keeps its number.

  Each operation is a program in the order of the source.  What the checks establish is said here; what
  the operations leave behind is in `Transcript.Rewriting`.
-/
import BreezeDesk.Database.Transactions
import BreezeDesk.Glossary.PostProcessor

namespace BreezeDesk

open Transaction

variable (t : CharTables)

/-! ## Checks -/

def invalidRangeError (index : Nat) : UserFacingError :=
  .validation .invalidArgument
    (qs ("Transcript segment " ++ toString (index + 1) ++ " has an invalid or overlapping time range."))

/-- The loop of `validateSegments`. -/
def validateFrom (allowOverlap : Bool) : Nat → Int → List TranscriptSegment → Result Unit
  | _, _, [] => .ok ()
  | index, previousEnd, segment :: rest =>
    if segment.startMs < 0 ∨ segment.endMs ≤ segment.startMs ∨
        (!allowOverlap ∧ segment.startMs < previousEnd) then .error (invalidRangeError index)
    else validateFrom allowOverlap (index + 1) segment.endMs rest

def validateSegments (segments : List TranscriptSegment) (allowOverlap : Bool := false) : Result Unit :=
  validateFrom allowOverlap 0 (-1) segments

/-- A text is a manual edit unless it is what the stored audit renders to. -/
def hasManualTextEdit (segment : TranscriptSegment) : Bool :=
  if !segment.isEdited then false
  else
    let replacements := auditFromJson segment.replacementAudit
    if replacements.isEmpty then true
    else
      match renderAudit t segment.originalText replacements with
      | none => true
      | some rendered => rendered != segment.editedText

def belongsError : UserFacingError :=
  .validation .invalidArgument
    (qs "The transcript segment does not belong to the requested job and recording.")

/-! ## Reading -/

def orderedByOrdinal (segments : List TranscriptSegment) : List TranscriptSegment :=
  segments.insertionSort fun left right => left.ordinal ≤ right.ordinal

/-- `segmentsForJob` and `loadSegments`. -/
def segmentsForJob (db : Database) (jobId : QString) (includeProvisional : Bool) :
    List TranscriptSegment :=
  orderedByOrdinal (db.segments.filter fun segment =>
    segment.jobId == jobId && (includeProvisional || !segment.provisional))

def loadSegments (jobId : QString) (includeProvisional : Bool) : Db (List TranscriptSegment) :=
  command (fun db => db) (segmentsForJob · jobId includeProvisional)

/-- `validateJobRecording`: the state of the job, which belongs to the recording. -/
def validateJobRecording (recordingId jobId : QString) : Db JobState := do
  let job ← requireJob jobId
    (.validation .notFound (qs "The transcription job no longer exists."))
  require (job.recordingId = recordingId) (.validation .invalidArgument
    (qs "The transcription job does not belong to the requested recording."))
  return job.state

def validateChunkJob (chunkId jobId : QString) : Db Unit := do
  let chunk? ← command (fun db => db) (Database.chunk? · chunkId)
  let chunk ← requireSome chunk?
    (.validation .notFound (qs "The transcript chunk no longer exists."))
  require (chunk.jobId = jobId) (.validation .invalidArgument
    (qs "The transcript chunk does not belong to the requested job."))

/-- The states in which a transcript may be edited without a lease. -/
def editableStates : List JobState := [.queued, .completed, .cancelled, .failed, .interrupted]

/-- Another process owns the job when its lease is damaged or has not expired. -/
def leaseBlocksEdit (db : Database) (now : Int) (jobId : QString) : Bool :=
  (db.leases.find? fun lease => lease.jobId == jobId).any fun lease =>
    !lease.expiresAt.any (· ≤ now)

def validateOwnerlessEdit (now : Int) (recordingId jobId : QString) : Db Unit := do
  let state ← validateJobRecording recordingId jobId
  require (state ∈ editableStates) (.validation .invalidStateTransition
    (qs "A transcript cannot be edited while its transcription job is running."))
  statement (fun db => leaseBlocksEdit db now jobId = false)
    (.validation .invalidStateTransition
      (qs "A transcript cannot be edited while another process owns its job."))
    (fun db => db) (fun _ => ())

/-! ## Inserting a list -/

/-- The row that is stored for the segment at an index of the list. -/
def storedSegment (now : Int) (newId : Nat → QString) (recordingId jobId : QString) (index : Nat)
    (segment : TranscriptSegment) : TranscriptSegment :=
  { segment with
    id := if segment.id.isEmpty then newId index else segment.id
    recordingId
    jobId
    ordinal := index
    attempt := max 1 segment.attempt
    createdAt := storedTime (if segment.createdAt.isSome then segment.createdAt else some now)
    updatedAt := storedTime (some now) }

/-- A segment without a chunk belongs to the job as it is.  (The source remembers the chunks it has
    validated; nothing changes between two validations of one chunk.) -/
def validateSegmentChunk (chunkId jobId : QString) : Db Unit :=
  if chunkId.isEmpty then pure () else validateChunkJob chunkId jobId

def insertRow (now : Int) (newId : Nat → QString) (recordingId jobId : QString) (index : Nat)
    (segment : TranscriptSegment) : Db Unit := do
  require ((segment.recordingId = [] ∨ segment.recordingId = recordingId) ∧
      (segment.jobId = [] ∨ segment.jobId = jobId))
    (.validation .invalidArgument
      (qs "A transcript segment does not belong to the requested job and recording."))
  validateSegmentChunk segment.chunkId jobId
  insertSegment (storedSegment now newId recordingId jobId index segment)
    "A transcript segment could not be saved."

def insertRows (now : Int) (newId : Nat → QString) (recordingId jobId : QString) :
    Nat → List TranscriptSegment → Db Unit
  | _, [] => pure ()
  | index, segment :: rest => do
    insertRow now newId recordingId jobId index segment
    insertRows now newId recordingId jobId (index + 1) rest

/-- `insertSegments`; `newId index` is the UUID drawn for a segment without an id. -/
def insertSegments (now : Int) (newId : Nat → QString) (recordingId jobId : QString)
    (segments : List TranscriptSegment) (allowOverlap : Bool := false) : Db Unit := do
  liftResult (validateSegments segments allowOverlap)
  insertRows now newId recordingId jobId 0 segments

/-! ## The operations -/

/-- The SQL test of `replaceTranscript` for manual edits. -/
def editedInSql (segment : TranscriptSegment) : Bool :=
  segment.editedText != [] && segment.editedText != segment.originalText

def replaceTranscript (now : Int) (newId : Nat → QString) (recordingId jobId : QString)
    (segments : List TranscriptSegment) : Transacted Unit :=
  match validateSegments segments with
  | .error error => fun db => (.error error, db)
  | .ok () => immediateTransaction do
    validateOwnerlessEdit now recordingId jobId
    statement (fun db => ∀ segment ∈ db.segments, ¬ (segment.jobId = jobId ∧ editedInSql segment))
      (.validation .invalidStateTransition
        (qs "A transcript with manual edits cannot be overwritten.")) (fun db => db) (fun _ => ())
    let _ ← deleteSegments fun segment => segment.jobId == jobId
    insertSegments now newId recordingId jobId segments
    rebuildRecording recordingId

def saveEditedTranscript (now : Int) (newId : Nat → QString) (recordingId jobId : QString)
    (segments : List TranscriptSegment) : Transacted Unit :=
  match validateSegments segments with
  | .error error => fun db => (.error error, db)
  | .ok () => immediateTransaction do
    validateOwnerlessEdit now recordingId jobId
    let _ ← deleteSegments fun segment => segment.jobId == jobId
    insertSegments now newId recordingId jobId segments
    rebuildRecording recordingId

/-- The comparison of `replaceChunk`'s stable sort. -/
def earlier (left right : TranscriptSegment) : Prop :=
  left.startMs < right.startMs ∨ (left.startMs = right.startMs ∧ left.ordinal < right.ordinal)

instance : DecidableRel earlier := fun _ _ => inferInstanceAs (Decidable (_ ∨ _))

def sortedByTime (segments : List TranscriptSegment) : List TranscriptSegment :=
  segments.insertionSort fun left right => ¬ earlier right left

/-- The segments of a chunk as `replaceChunk` stamps them. -/
def chunkSegments (chunkId : QString) (provisional : Bool) (attempt : Int)
    (segments : List TranscriptSegment) : List TranscriptSegment :=
  segments.map fun segment => { segment with chunkId, provisional, attempt }

/-- What `replaceChunk` makes of the rows of the job: everything but the chunk stays, the new segments
    join it, in order of time. -/
def combinedSegments (existing : List TranscriptSegment) (chunkId : QString) (provisional : Bool)
    (attempt : Int) (segments : List TranscriptSegment) : List TranscriptSegment :=
  sortedByTime ((existing.filter fun segment => segment.chunkId != chunkId) ++
    chunkSegments chunkId provisional attempt segments)

def manualEditError : UserFacingError :=
  .validation .invalidStateTransition (qs "A chunk containing manual edits cannot be overwritten.")

/-- The `operation` of `replaceChunk`. -/
def replaceChunkOperation (now : Int) (newId : Nat → QString) (recordingId jobId chunkId : QString)
    (segments : List TranscriptSegment) (provisional : Bool) (attempt : Int) : Db Unit := do
  let _ ← validateJobRecording recordingId jobId
  validateChunkJob chunkId jobId
  let existing ← loadSegments jobId true
  require (∀ segment ∈ existing, ¬ (segment.chunkId = chunkId ∧ hasManualTextEdit t segment = true))
    manualEditError
  let _ ← deleteSegments fun segment => segment.jobId == jobId
  insertSegments now newId recordingId jobId
    (combinedSegments existing chunkId provisional attempt segments) provisional
  if provisional then pure () else rebuildRecording recordingId

def replaceChunk (now : Int) (newId : Nat → QString) (recordingId jobId chunkId : QString)
    (segments : List TranscriptSegment) (provisional : Bool) (attempt : Int) (ownerToken : QString) :
    Transacted Unit :=
  executionLeaseTransaction now jobId ownerToken
    (replaceChunkOperation t now newId recordingId jobId chunkId segments provisional attempt)

/-- What `saveEditedSegment` writes into the row. -/
def editedRow (now : Int) (segment row : TranscriptSegment) : TranscriptSegment :=
  { row with
    startMs := segment.startMs
    endMs := segment.endMs
    editedText := segment.editedText
    replacementAudit := segment.replacementAudit
    reviewed := segment.reviewed
    updatedAt := storedTime (some now) }

def segmentGoneError : UserFacingError :=
  .validation .notFound (qs "The transcript segment no longer exists.")

def saveEditedSegment (now : Int) (segment : TranscriptSegment) : Transacted Unit :=
  if segment.startMs < 0 ∨ segment.endMs ≤ segment.startMs then fun db =>
    (.error (.validation .invalidArgument (qs "The segment time range is invalid.")), db)
  else immediateTransaction do
    let current ← command (fun db => db) (Database.segment? · segment.id)
    let durable ← requireSome current segmentGoneError
    require (durable.recordingId = segment.recordingId ∧ durable.jobId = segment.jobId) belongsError
    validateOwnerlessEdit now durable.recordingId durable.jobId
    statement (fun db => ∀ other ∈ db.segments, ¬ (other.jobId = durable.jobId ∧ other.id ≠ durable.id ∧
        other.startMs < segment.endMs ∧ segment.startMs < other.endMs))
      (.validation .invalidArgument (qs "Transcript segments cannot overlap."))
      (fun db => db) (fun _ => ())
    let affected ← updateSegments
      (fun row => row.id == durable.id && row.jobId == durable.jobId &&
        row.recordingId == durable.recordingId)
      (editedRow now segment) "The transcript edit could not be saved."
    require (affected ≠ 0) segmentGoneError
    rebuildRecording durable.recordingId

def deleteSegment (now : Int) (segmentId : QString) : Transacted Unit :=
  immediateTransaction do
    let current ← command (fun db => db) (Database.segment? · segmentId)
    match current with
    | none => pure ()
    | some durable =>
      validateOwnerlessEdit now durable.recordingId durable.jobId
      let affected ← deleteSegments fun row =>
        row.id == durable.id && row.jobId == durable.jobId && row.recordingId == durable.recordingId
      require (affected ≠ 0) segmentGoneError
      rebuildRecording durable.recordingId

/-! ## What the checks establish -/

section Checks

variable {db db' : Database} {recordingId jobId chunkId : QString} {now : Int}

theorem validateFrom_eq_ok {list : List TranscriptSegment} :
    ∀ {index : Nat} {previousEnd : Int}, validateFrom false index previousEnd list = .ok () ↔
      (∀ segment ∈ list, 0 ≤ segment.startMs) ∧
        Ranges.Chain TranscriptSegment.startMs TranscriptSegment.endMs (some previousEnd) list := by
  induction list with
  | nil =>
    intro index previousEnd
    exact ⟨fun _ => ⟨fun segment hmem => (by cases hmem), trivial⟩, fun _ => rfl⟩
  | cons segment rest ih =>
    intro index previousEnd
    unfold validateFrom
    by_cases hbad : segment.startMs < 0 ∨ segment.endMs ≤ segment.startMs ∨
        (!false ∧ segment.startMs < previousEnd)
    · rw [if_pos hbad]
      constructor
      · intro h
        cases h
      · rintro ⟨hnonneg, hprev, hpos, -⟩
        have h0 := hnonneg segment (List.mem_cons_self ..)
        have hp := hprev previousEnd rfl
        rcases hbad with hbad | hbad | ⟨-, hbad⟩ <;> omega
    · rw [if_neg hbad, ih]
      simp only [Bool.not_false, true_and, not_or, not_lt, not_le] at hbad
      obtain ⟨h0, hpos, hp⟩ := hbad
      constructor
      · rintro ⟨hnonneg, hchain⟩
        refine ⟨fun other hmem => ?_, fun q hq => ?_, hpos, hchain⟩
        · rcases List.mem_cons.mp hmem with rfl | hmem
          · exact h0
          · exact hnonneg other hmem
        · cases hq
          exact hp
      · rintro ⟨hnonneg, -, -, hchain⟩
        exact ⟨fun other hmem => hnonneg other (List.mem_cons_of_mem _ hmem), hchain⟩

/-- **A list passes** when it is in order of time and begins at `0` or later. -/
theorem validateSegments_eq_ok {list : List TranscriptSegment} :
    validateSegments list = .ok () ↔
      (∀ segment ∈ list, 0 ≤ segment.startMs) ∧ TimeOrdered list := by
  unfold validateSegments
  rw [validateFrom_eq_ok, Ranges.chain_iff_ordered]
  constructor
  · rintro ⟨hnonneg, hord, -⟩
    exact ⟨hnonneg, hord⟩
  · rintro ⟨hnonneg, hord⟩
    refine ⟨hnonneg, hord, fun p hp segment hmem => ?_⟩
    cases hp
    have := hnonneg segment hmem
    omega

theorem validateFrom_overlap_eq_ok {list : List TranscriptSegment} :
    ∀ {index : Nat} {previousEnd : Int}, validateFrom true index previousEnd list = .ok () ↔
      ∀ segment ∈ list, 0 ≤ segment.startMs ∧ segment.startMs < segment.endMs := by
  induction list with
  | nil =>
    intro index previousEnd
    exact ⟨fun _ segment hmem => (by cases hmem), fun _ => rfl⟩
  | cons segment rest ih =>
    intro index previousEnd
    unfold validateFrom
    by_cases hbad : segment.startMs < 0 ∨ segment.endMs ≤ segment.startMs ∨
        (!true ∧ segment.startMs < previousEnd)
    · rw [if_pos hbad]
      constructor
      · intro h
        cases h
      · intro h
        have := h segment (List.mem_cons_self ..)
        rcases hbad with hbad | hbad | ⟨hbad, -⟩
        · omega
        · omega
        · cases hbad
    · rw [if_neg hbad, ih]
      simp only [not_or] at hbad
      constructor
      · intro h other hmem
        rcases List.mem_cons.mp hmem with rfl | hmem
        · omega
        · exact h other hmem
      · intro h other hmem
        exact h other (List.mem_cons_of_mem _ hmem)

/-- A provisional list may overlap, as long as every range is one. -/
theorem validateSegments_overlap_eq_ok {list : List TranscriptSegment} :
    validateSegments list true = .ok () ↔
      ∀ segment ∈ list, 0 ≤ segment.startMs ∧ segment.startMs < segment.endMs :=
  validateFrom_overlap_eq_ok

/-- The job exists and belongs to the recording. -/
def JobOf (db : Database) (recordingId jobId : QString) (job : TranscriptionJob) : Prop :=
  db.job? jobId = some job ∧ job.recordingId = recordingId

def ChunkOf (db : Database) (jobId chunkId : QString) : Prop :=
  ∃ chunk, db.chunk? chunkId = some chunk ∧ chunk.jobId = jobId

/-- A job that may be edited without a lease. -/
def Editable (db : Database) (now : Int) (recordingId jobId : QString) : Prop :=
  ∃ job, JobOf db recordingId jobId job ∧ job.state ∈ editableStates ∧
    leaseBlocksEdit db now jobId = false

theorem validateJobRecording_eq_ok {state : JobState} :
    validateJobRecording recordingId jobId db = .ok (state, db') ↔
      db' = db ∧ ∃ job, JobOf db recordingId jobId job ∧ job.state = state := by
  unfold validateJobRecording requireJob findJob
  simp only [bind_eq_ok, command_eq_ok, requireSome_eq_ok, require_eq_ok, pure_eq_ok]
  constructor
  · rintro ⟨job, _, ⟨_, _, ⟨rfl, rfl⟩, hjob, rfl⟩, _, _, ⟨hrecording, rfl⟩, rfl, rfl⟩
    exact ⟨rfl, job, ⟨hjob, hrecording⟩, rfl⟩
  · rintro ⟨rfl, job, ⟨hjob, hrecording⟩, rfl⟩
    exact ⟨job, _, ⟨_, _, ⟨rfl, rfl⟩, hjob, rfl⟩, ⟨⟩, _, ⟨hrecording, rfl⟩, rfl, rfl⟩

theorem validateChunkJob_eq_ok {u : Unit} :
    validateChunkJob chunkId jobId db = .ok (u, db') ↔ db' = db ∧ ChunkOf db jobId chunkId := by
  unfold validateChunkJob
  simp only [bind_eq_ok, command_eq_ok, requireSome_eq_ok, require_eq_ok]
  constructor
  · rintro ⟨_, _, ⟨rfl, rfl⟩, chunk, _, ⟨hchunk, rfl⟩, hjob, rfl⟩
    exact ⟨rfl, chunk, hchunk, hjob⟩
  · rintro ⟨rfl, chunk, hchunk, hjob⟩
    exact ⟨_, _, ⟨rfl, rfl⟩, chunk, _, ⟨hchunk, rfl⟩, hjob, rfl⟩

theorem validateSegmentChunk_eq_ok {u : Unit} :
    validateSegmentChunk chunkId jobId db = .ok (u, db') ↔
      db' = db ∧ (chunkId = [] ∨ ChunkOf db jobId chunkId) := by
  unfold validateSegmentChunk
  by_cases hchunk : chunkId = []
  · rw [if_pos (by rw [hchunk]; rfl), pure_eq_ok]
    exact ⟨fun h => ⟨h.2, Or.inl hchunk⟩, fun h => ⟨rfl, h.1⟩⟩
  · rw [if_neg (by rwa [List.isEmpty_iff]), validateChunkJob_eq_ok]
    exact ⟨fun h => ⟨h.1, Or.inr h.2⟩, fun h => ⟨h.1, h.2.resolve_left hchunk⟩⟩

theorem validateOwnerlessEdit_eq_ok {u : Unit} :
    validateOwnerlessEdit now recordingId jobId db = .ok (u, db') ↔
      db' = db ∧ Editable db now recordingId jobId := by
  unfold validateOwnerlessEdit
  simp only [bind_eq_ok, validateJobRecording_eq_ok, require_eq_ok, statement_eq_ok]
  constructor
  · rintro ⟨_, _, ⟨rfl, job, hjob, rfl⟩, _, _, ⟨hstate, rfl⟩, hlease, -, rfl⟩
    exact ⟨rfl, job, hjob, hstate, hlease⟩
  · rintro ⟨rfl, job, hjob, hstate, hlease⟩
    exact ⟨_, _, ⟨rfl, job, hjob, rfl⟩, ⟨⟩, _, ⟨hstate, rfl⟩, hlease, trivial, rfl⟩

end Checks

end BreezeDesk
