/-
  `SqliteRecordingRepository` — what is written to the recordings.

  The media columns come from the import and the normalization of a file; the reference to the active
  transcript is written by `create` and `setActiveTranscriptJob`.  A recording is deleted for good only
  from the trash, and takes its jobs along.

  Two things outside the database are inputs of an operation: the UUID of a new recording, and whether
  the managed files it refers to exist (`ensureNewManagedReferencesExist`).  The rows of a tag are kept
  as the tags of the recording.
-/
import BreezeDesk.Database.Transactions

namespace BreezeDesk

open Transaction

/-! ## Statements on recordings -/

/-- The constraints a new recording row has to meet. -/
def RecordingInsertable (db : Database) (recording : Recording) : Prop :=
  (db.recording? recording.id).isNone ∧ 0 ≤ recording.durationMs ∧ 0 ≤ recording.sampleRate ∧
    0 ≤ recording.channelCount

instance (db : Database) (recording : Recording) : Decidable (RecordingInsertable db recording) :=
  inferInstanceAs (Decidable (_ ∧ _))

def insertRecording (recording : Recording) (message : String) : Db Unit :=
  statement (RecordingInsertable · recording) (queryError message)
    (fun db => { db with recordings := db.recordings ++ [recording] }) (fun _ => ())

/-- `DELETE FROM recordings` with its cascades. -/
def cascadeRecordings (which : Recording → Bool) (db : Database) : Database :=
  let gone := fun recordingId => db.recordings.any fun recording => which recording && recording.id == recordingId
  let withoutJobs := cascadeJobs (fun job => gone job.recordingId) db
  { withoutJobs with
    recordings := db.recordings.filter fun recording => !which recording
    segments := withoutJobs.segments.filter fun segment => !gone segment.recordingId }

def deleteRecordings (which : Recording → Bool) : Db Nat :=
  command (cascadeRecordings which) (fun db => (db.recordings.filter which).length)

/-- `DatabaseSearchService::removeRecording`. -/
def removeRecording (recordingId : QString) : Db Unit :=
  command (fun db => { db with
    searchIndex := db.searchIndex.filter fun entry => entry.recordingId != recordingId }) (fun _ => ())

namespace RecordingRepository

/-! ## Checks -/

def missingFileError : UserFacingError :=
  .validation .notFound (qs "An application-managed recording file no longer exists. Try again.")

def ensureNewManagedReferencesExist (filesExist : Bool) : Db Unit :=
  require (filesExist = true) missingFileError

/-- The lease row of a job of the recording. -/
def leaseOf (db : Database) (recordingId : QString) : Option AsrExecutionLease :=
  db.leases.find? fun lease =>
    db.jobs.any fun job => job.id == lease.jobId && job.recordingId == recordingId

def ensureNoActiveExecutionLease (now : Int) (recordingId : QString) (blockedMessage : String) : Db Unit :=
  statement (fun db => (leaseOf db recordingId).all fun lease => lease.expiresAt.any (· ≤ now))
    (.validation .invalidStateTransition (qs blockedMessage)) (fun db => db) (fun _ => ())

def ensureJobBelongsToRecording (jobId recordingId : QString) : Db Unit :=
  statement (fun db => db.jobs.any fun job => job.id == jobId && job.recordingId == recordingId)
    (.validation .invalidArgument (qs "The transcription job does not belong to this recording."))
    (fun db => db) (fun _ => ())

def goneError : UserFacingError := .ofDatabase .notFound (qs "The recording no longer exists.")

variable (t : CharTables)

/-- `normalizedTags`: the first of every spelling. -/
def normalizedTagsFrom : List QString → List QString → List QString
  | _, [] => []
  | seen, tag :: tags =>
    let clean := trimmed tag
    if clean.isEmpty ∨ t.toCaseFolded clean ∈ seen then normalizedTagsFrom seen tags
    else clean :: normalizedTagsFrom (t.toCaseFolded clean :: seen) tags

def normalizedTags (tags : List QString) : List QString := normalizedTagsFrom t [] tags

/-- A statement that has to find its recording. -/
def updateRecording (recordingId : QString) (update : Recording → Recording) : Db Unit := do
  let affected ← updateRecordings (fun recording => recording.id == recordingId) update
  require (affected ≠ 0) goneError

/-! ## Creating a recording -/

/-- The row of a new recording. -/
def newRecording (now : Int) (uuid : QString) (recording : Recording) : Recording :=
  { recording with
    id := if recording.id.isEmpty then uuid else recording.id
    title := trimmed recording.title
    createdAt := storedTime (if recording.createdAt.isSome then recording.createdAt else some now)
    updatedAt := storedTime (some now)
    deletedAt := none
    activeJobId := recording.activeJobId.filter fun jobId => !jobId.isEmpty
    tags := normalizedTags t recording.tags }

def create (now : Int) (uuid : QString) (filesExist : Bool) (recording : Recording) : Transacted Unit :=
  if (trimmed recording.title).isEmpty then fun db =>
    (.error (.validation .invalidArgument (qs "A recording title is required.")), db)
  else immediateTransaction do
    let row := newRecording t now uuid recording
    ensureNewManagedReferencesExist filesExist
    insertRecording row "The recording could not be created."
    rebuildRecording row.id

/-! ## Updating a recording -/

/-- `updateAllFields`: everything but the dates of creation and deletion and the active transcript. -/
def replacedRecording (now : Int) (recording row : Recording) : Recording :=
  { row with
    title := trimmed recording.title
    sourcePath := recording.sourcePath
    managedMediaPath := recording.managedMediaPath
    normalizedPcmPath := recording.normalizedPcmPath
    sourceHash := recording.sourceHash
    mediaType := recording.mediaType
    durationMs := max 0 recording.durationMs
    sampleRate := max 0 recording.sampleRate
    channelCount := max 0 recording.channelCount
    waveformPath := recording.waveformPath
    updatedAt := storedTime (some now)
    notes := recording.notes
    reviewState := recording.reviewState
    tags := if recording.tags.isEmpty then row.tags else normalizedTags t recording.tags }

/-- `updateDerivedFields`: what the executor of a job has found out about the file. -/
def derivedRecording (now : Int) (recording row : Recording) : Recording :=
  { row with
    normalizedPcmPath := recording.normalizedPcmPath
    sourceHash := recording.sourceHash
    mediaType := recording.mediaType
    durationMs := max 0 recording.durationMs
    sampleRate := max 0 recording.sampleRate
    channelCount := max 0 recording.channelCount
    waveformPath := recording.waveformPath
    updatedAt := storedTime (some now) }

def updateAllFields (now : Int) (filesExist : Bool) (recording : Recording) : Db Unit := do
  ensureNoActiveExecutionLease now recording.id
    "The recording cannot be replaced while it is being transcribed."
  ensureNewManagedReferencesExist filesExist
  updateRecording recording.id (replacedRecording t now recording)
  rebuildRecording recording.id

def updateDerivedFields (now : Int) (filesExist : Bool) (recording : Recording) (jobId : QString) : Db Unit := do
  ensureJobBelongsToRecording jobId recording.id
  ensureNewManagedReferencesExist filesExist
  updateRecording recording.id (derivedRecording now recording)

def update (now : Int) (filesExist : Bool) (recording : Recording) (jobId ownerToken : QString) :
    Transacted Unit :=
  if (trimmed recording.id).isEmpty ∨ (ownerToken.isEmpty ∧ (trimmed recording.title).isEmpty) then fun db =>
    (.error (.validation .invalidArgument (qs "Recording ID and title are required.")), db)
  else if jobId.isEmpty ≠ ownerToken.isEmpty then fun db =>
    (.error (.validation .invalidArgument
      (qs "A transcription job and lease owner must be supplied together.")), db)
  else if ownerToken.isEmpty then immediateTransaction (updateAllFields t now filesExist recording)
  else executionLeaseTransaction now jobId ownerToken (updateDerivedFields now filesExist recording jobId)

/-- `updateMetadataColumn`. -/
def updateMetadataColumn (recordingId : QString) (column : Recording → Recording) (rebuildSearch : Bool) :
    Transacted Unit :=
  if (trimmed recordingId).isEmpty then fun db =>
    (.error (.validation .invalidArgument (qs "A recording ID is required.")), db)
  else immediateTransaction do
    updateRecording recordingId column
    if rebuildSearch then rebuildRecording recordingId else pure ()

def updateTitle (now : Int) (recordingId title : QString) : Transacted Unit :=
  if (trimmed title).isEmpty then fun db =>
    (.error (.validation .invalidArgument (qs "A recording title is required.")), db)
  else updateMetadataColumn recordingId
    (fun row => { row with title := trimmed title, updatedAt := storedTime (some now) }) true

def updateNotes (now : Int) (recordingId notes : QString) : Transacted Unit :=
  updateMetadataColumn recordingId
    (fun row => { row with notes, updatedAt := storedTime (some now) }) true

def updateReviewState (now : Int) (recordingId reviewState : QString) : Transacted Unit :=
  if (trimmed reviewState).isEmpty then fun db =>
    (.error (.validation .invalidArgument (qs "A review state is required.")), db)
  else updateMetadataColumn recordingId
    (fun row => { row with reviewState, updatedAt := storedTime (some now) }) false

/-- The row once its source is another file. -/
def relinkedRecording (now : Int) (sourcePath : QString) (clearDerivedArtifacts : Bool) (row : Recording) :
    Recording :=
  if clearDerivedArtifacts then
    { row with
      sourcePath, normalizedPcmPath := [], sourceHash := [], mediaType := [], durationMs := 0,
      sampleRate := 0, channelCount := 0, waveformPath := [], updatedAt := storedTime (some now) }
  else { row with sourcePath, updatedAt := storedTime (some now) }

def relinkSource (now : Int) (filesExist : Bool) (recordingId sourcePath : QString)
    (clearDerivedArtifacts : Bool) : Transacted Unit :=
  if (trimmed recordingId).isEmpty ∨ sourcePath.isEmpty then fun db =>
    (.error (.validation .invalidArgument (qs "A recording and source path are required.")), db)
  else immediateTransaction do
    ensureNoActiveExecutionLease now recordingId
      "The recording source cannot be relinked while it is being transcribed."
    ensureNewManagedReferencesExist filesExist
    updateRecording recordingId (relinkedRecording now sourcePath clearDerivedArtifacts)

/-- The foreign key of the tag rows wants the recording to be there, when there is a tag. -/
def setTags (recordingId : QString) (tags : List QString) : Transacted Unit :=
  immediateTransaction do
    let affected ← updateRecordings (fun recording => recording.id == recordingId)
      (fun row => { row with tags := normalizedTags t tags })
    require (normalizedTags t tags = [] ∨ affected ≠ 0) (queryError "A tag could not be attached.")
    rebuildRecording recordingId

/-! ## Trash -/

def moveToTrash (now : Int) (id : QString) : Transacted Unit :=
  immediateTransaction do
    let _ ← updateRecordings (fun recording => recording.id == id && recording.deletedAt.isNone)
      (fun row => { row with deletedAt := storedTime (some now), updatedAt := storedTime (some now) })

def restore (now : Int) (id : QString) : Transacted Unit :=
  immediateTransaction do
    let _ ← updateRecordings (fun recording => recording.id == id && recording.deletedAt.isSome)
      (fun row => { row with deletedAt := none, updatedAt := storedTime (some now) })

def notInTrashError : UserFacingError :=
  .validation .invalidStateTransition (qs "Only recordings in Trash can be permanently deleted.")

def permanentlyDelete (now : Int) (id : QString) : Transacted Unit :=
  immediateTransaction do
    ensureNoActiveExecutionLease now id
      "The recording cannot be permanently deleted while it is being transcribed."
    let existing ← command (fun db => db) (Database.recording? · id)
    require (existing.any (·.deletedAt.isSome) = true) notInTrashError
    let affected ← deleteRecordings fun recording => recording.id == id && recording.deletedAt.isSome
    require (affected ≠ 0) notInTrashError
    removeRecording id

/-! ## The active transcript -/

def setActiveTranscriptJob (now : Int) (recordingId jobId : QString) : Transacted Unit :=
  if (trimmed recordingId).isEmpty ∨ (trimmed jobId).isEmpty then fun db =>
    (.error (.validation .invalidArgument (qs "A recording and transcript job are required.")), db)
  else immediateTransaction do
    let found ← command (fun db => db) fun db =>
      db.jobs.find? fun job => job.id == jobId && job.recordingId == recordingId
    let job ← requireSome found
      (.validation .notFound (qs "The requested transcript job does not exist."))
    require (job.state = .completed) (.validation .invalidStateTransition
      (qs "Only a completed transcript can be activated."))
    let affected ← updateRecordings (fun recording => recording.id == recordingId)
      (fun row => { row with activeJobId := some jobId, updatedAt := storedTime (some now) })
    require (affected ≠ 0) (.validation .notFound (qs "The recording no longer exists."))
    rebuildRecording recordingId

end RecordingRepository

end BreezeDesk
