/-
  The database: its tables, the constraints of its schema, and the statements run on it.

  A table is the list of its rows.  A statement is a program of `Library.Transaction`; it fails, and the
  transaction around it rolls back, when a row would break a constraint: primary keys, the unique pairs
  (job, ordinal), foreign keys, range checks, and the partial unique index that admits one executing job.
  Deleting a job takes its chunks, segments, events and lease along; deleting a chunk leaves its
  segments without a chunk (an empty `chunkId` stands for SQL's `NULL`).

  Every statement is a `Transaction.statement`, or a `command` where no constraint applies, so the two
  lemmas `statement_eq_ok` and `command_eq_ok` say for all of them when they succeed and what they
  leave behind.
-/
import BreezeDesk.Jobs.TranscriptionJob
import BreezeDesk.Library.Transaction
import BreezeDesk.Transcript.Segment

namespace BreezeDesk

open Transaction

/-! ## Tables -/

structure Recording where
  id : QString := []
  title : QString := []
  sourcePath : QString := []
  managedMediaPath : QString := []
  normalizedPcmPath : QString := []
  sourceHash : QString := []
  mediaType : QString := []
  durationMs : Int := 0
  sampleRate : Int := 0
  channelCount : Int := 0
  waveformPath : QString := []
  createdAt : QDateTime := none
  updatedAt : QDateTime := none
  deletedAt : QDateTime := none
  notes : QString := []
  reviewState : QString := qs "unreviewed"
  activeJobId : Option QString := none
  tags : List QString := []

/-- A row of the search index: what a recording is found by. -/
structure SearchEntry where
  recordingId : QString
  title : QString
  notes : QString
  tags : QString
  transcript : QString
  deriving DecidableEq

structure Database where
  recordings : List Recording := []
  jobs : List TranscriptionJob := []
  chunks : List JobChunk := []
  segments : List TranscriptSegment := []
  leases : List AsrExecutionLease := []
  events : List JobEvent := []
  lastEventId : Int := 0
  searchIndex : List SearchEntry := []

abbrev Db := Program Database UserFacingError

namespace Database

def recording? (db : Database) (id : QString) : Option Recording :=
  db.recordings.find? fun recording => recording.id == id

def job? (db : Database) (id : QString) : Option TranscriptionJob :=
  db.jobs.find? fun job => job.id == id

def chunk? (db : Database) (id : QString) : Option JobChunk :=
  db.chunks.find? fun chunk => chunk.id == id

def segment? (db : Database) (id : QString) : Option TranscriptSegment :=
  db.segments.find? fun segment => segment.id == id

def runningJobs (db : Database) : List TranscriptionJob :=
  db.jobs.filter fun job => job.state.isRunning

end Database

def queryError (message : String) : UserFacingError :=
  .ofDatabase .databaseQueryFailed (qs message)

/-- The partial unique index `idx_jobs_single_execution`. -/
def SingleExecution (jobs : List TranscriptionJob) : Prop :=
  (jobs.filter fun job => job.state.isRunning).length ≤ 1

instance (jobs : List TranscriptionJob) : Decidable (SingleExecution jobs) :=
  inferInstanceAs (Decidable (_ ≤ _))

/-- Rows that satisfy the condition are updated, the others stay. -/
def updateRows {α : Type} (which : α → Bool) (update : α → α) (rows : List α) : List α :=
  rows.map fun row => if which row then update row else row

/-! ## Statements on jobs -/

/-- `UPDATE transcription_jobs`: the number of rows affected. -/
def updateJobs (which : TranscriptionJob → Bool) (update : TranscriptionJob → TranscriptionJob)
    (message : String) : Db Nat :=
  statement (fun db => SingleExecution (updateRows which update db.jobs)) (queryError message)
    (fun db => { db with jobs := updateRows which update db.jobs })
    (fun db => (db.jobs.filter which).length)

/-- The constraints a new job row has to meet. -/
def JobInsertable (db : Database) (job : TranscriptionJob) : Prop :=
  (db.job? job.id).isNone ∧ (db.recording? job.recordingId).isSome ∧ SingleExecution (db.jobs ++ [job])

instance (db : Database) (job : TranscriptionJob) : Decidable (JobInsertable db job) :=
  inferInstanceAs (Decidable (_ ∧ _))

def insertJob (job : TranscriptionJob) (message : String) : Db Unit :=
  statement (JobInsertable · job) (queryError message)
    (fun db => { db with jobs := db.jobs ++ [job] }) (fun _ => ())

/-! ## Statements on chunks -/

def updateChunks (which : JobChunk → Bool) (update : JobChunk → JobChunk) : Db Unit :=
  command (fun db => { db with chunks := updateRows which update db.chunks }) (fun _ => ())

/-- A segment whose chunk is deleted is left without a chunk. -/
def detachChunks (which : JobChunk → Bool) (db : Database) : Database :=
  { db with
    chunks := db.chunks.filter fun chunk => !which chunk
    segments := db.segments.map fun segment =>
      if db.chunks.any fun chunk => which chunk && chunk.id == segment.chunkId then
        { segment with chunkId := [] }
      else segment }

def deleteChunks (which : JobChunk → Bool) : Db Unit :=
  command (detachChunks which) (fun _ => ())

/-- The constraints a new chunk row has to meet. -/
def ChunkInsertable (db : Database) (chunk : JobChunk) : Prop :=
  (db.chunk? chunk.id).isNone ∧
    (∀ other ∈ db.chunks, ¬ (other.jobId = chunk.jobId ∧ other.ordinal = chunk.ordinal)) ∧
    (db.job? chunk.jobId).isSome ∧ 0 ≤ chunk.startMs ∧ chunk.startMs < chunk.endMs

instance (db : Database) (chunk : JobChunk) : Decidable (ChunkInsertable db chunk) :=
  inferInstanceAs (Decidable (_ ∧ _))

def insertChunk (chunk : JobChunk) (message : String) : Db Unit :=
  statement (ChunkInsertable · chunk) (queryError message)
    (fun db => { db with chunks := db.chunks ++ [chunk] }) (fun _ => ())

/-! ## Statements on segments -/

/-- The constraints a new segment row has to meet. -/
def SegmentInsertable (db : Database) (segment : TranscriptSegment) : Prop :=
  (db.segment? segment.id).isNone ∧
    (∀ other ∈ db.segments, ¬ (other.jobId = segment.jobId ∧ other.ordinal = segment.ordinal)) ∧
    (db.recording? segment.recordingId).isSome ∧ (db.job? segment.jobId).isSome ∧
    (segment.chunkId = [] ∨ (db.chunk? segment.chunkId).isSome) ∧
    0 ≤ segment.startMs ∧ segment.startMs < segment.endMs

instance (db : Database) (segment : TranscriptSegment) : Decidable (SegmentInsertable db segment) :=
  inferInstanceAs (Decidable (_ ∧ _))

def insertSegment (segment : TranscriptSegment) (message : String) : Db Unit :=
  statement (SegmentInsertable · segment) (queryError message)
    (fun db => { db with segments := db.segments ++ [segment] }) (fun _ => ())

def deleteSegments (which : TranscriptSegment → Bool) : Db Nat :=
  command (fun db => { db with segments := db.segments.filter fun segment => !which segment })
    (fun db => (db.segments.filter which).length)

def updateSegments (which : TranscriptSegment → Bool) (update : TranscriptSegment → TranscriptSegment)
    (message : String) : Db Nat :=
  statement (fun db => ∀ segment ∈ updateRows which update db.segments,
      0 ≤ segment.startMs ∧ segment.startMs < segment.endMs) (queryError message)
    (fun db => { db with segments := updateRows which update db.segments })
    (fun db => (db.segments.filter which).length)

/-! ## Statements on leases, events and recordings -/

def insertLease (lease : AsrExecutionLease) (message : String) : Db Unit :=
  statement (fun db => db.leases = [] ∧ (db.job? lease.jobId).isSome) (queryError message)
    (fun db => { db with leases := [lease] }) (fun _ => ())

def deleteLeases (which : AsrExecutionLease → Bool) : Db Nat :=
  command (fun db => { db with leases := db.leases.filter fun lease => !which lease })
    (fun db => (db.leases.filter which).length)

def updateLeases (which : AsrExecutionLease → Bool) (update : AsrExecutionLease → AsrExecutionLease) :
    Db Nat :=
  command (fun db => { db with leases := updateRows which update db.leases })
    (fun db => (db.leases.filter which).length)

def updateRecordings (which : Recording → Bool) (update : Recording → Recording) : Db Nat :=
  command (fun db => { db with recordings := updateRows which update db.recordings })
    (fun db => (db.recordings.filter which).length)

/-- `INSERT INTO transcription_job_events`: the row gets the next number. -/
def insertEventRow (event : JobEvent) (message : String) : Db Int :=
  statement (fun db => (db.job? event.jobId).isSome) (queryError message)
    (fun db => { db with
      events := db.events ++ [{ event with id := db.lastEventId + 1 }]
      lastEventId := db.lastEventId + 1 })
    (fun db => db.lastEventId + 1)

/-- The database once the event has got the next number. -/
def Database.withEvent (db : Database) (event : JobEvent) : Database :=
  { db with
    events := db.events ++ [{ event with id := db.lastEventId + 1 }]
    lastEventId := db.lastEventId + 1 }

/-- `DELETE FROM transcription_jobs` with its cascades. -/
def cascadeJobs (which : TranscriptionJob → Bool) (db : Database) : Database :=
  let gone := fun jobId => db.jobs.any fun job => which job && job.id == jobId
  let detached := detachChunks (fun chunk => gone chunk.jobId) db
  { detached with
    jobs := db.jobs.filter fun job => !which job
    segments := detached.segments.filter fun segment => !gone segment.jobId
    events := db.events.filter fun event => !gone event.jobId
    leases := db.leases.filter fun lease => !gone lease.jobId }

def deleteJobs (which : TranscriptionJob → Bool) : Db Nat :=
  command (cascadeJobs which)
    (fun db => (db.jobs.filter which).length)

/-! ## Rows -/

theorem mem_updateRows {α : Type} {which : α → Bool} {update : α → α} {rows : List α} {row : α} :
    row ∈ updateRows which update rows ↔
      ∃ old ∈ rows, row = if which old then update old else old := by
  unfold updateRows
  rw [List.mem_map]
  exact ⟨fun ⟨old, hold, h⟩ => ⟨old, hold, h.symm⟩, fun ⟨old, hold, h⟩ => ⟨old, hold, h.symm⟩⟩

/-- Without a row to update nothing changes. -/
theorem updateRows_of_none {α : Type} {which : α → Bool} {update : α → α} {rows : List α}
    (h : rows.filter which = []) : updateRows which update rows = rows := by
  unfold updateRows
  refine (List.map_congr_left fun row hrow => ?_).trans (List.map_id rows)
  have hnot := List.filter_eq_nil_iff.mp h row hrow
  rw [if_neg hnot]
  rfl

/-- An update that keeps a field keeps the list of its values. -/
theorem map_updateRows {α β : Type} {which : α → Bool} {update : α → α} {field : α → β}
    (h : ∀ row, field (update row) = field row) (rows : List α) :
    (updateRows which update rows).map field = rows.map field := by
  unfold updateRows
  rw [List.map_map]
  refine List.map_congr_left fun row _ => ?_
  rw [Function.comp_apply]
  by_cases hw : which row = true
  · rw [if_pos hw, h]
  · rw [if_neg hw]

/-- A job that is found has the id. -/
theorem of_job? {db : Database} {id : QString} {job : TranscriptionJob} (h : db.job? id = some job) :
    job ∈ db.jobs ∧ job.id = id :=
  ⟨List.mem_of_find?_eq_some h, by simpa using List.find?_some h⟩

/-- A segment loses at most its chunk. -/
theorem mem_detachChunks {which : JobChunk → Bool} {db : Database} {segment : TranscriptSegment}
    (hmem : segment ∈ (detachChunks which db).segments) :
    ∃ old ∈ db.segments, segment = { old with chunkId := segment.chunkId } := by
  obtain ⟨old, hold, rfl⟩ := List.mem_map.mp hmem
  refine ⟨old, hold, ?_⟩
  split <;> rfl

end BreezeDesk
