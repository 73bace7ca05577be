/-
  All repositories on one database.

  `Operations` has the jobs and the transcripts; here the recordings come in.  As there, every operation
  is one transaction and any interleaving of processes is a list of steps.

  `executed_recording` says which invariants a step of the recording repository keeps: those that its
  statements keep (`RecordingsKeep`).
-/
import BreezeDesk.Database.Operations
import BreezeDesk.Database.RecordingRepository

namespace BreezeDesk

open Transaction

/-! ## Operations -/

inductive RecordingOperation where
  | create (filesExist : Bool) (recording : Recording)
  | update (filesExist : Bool) (recording : Recording) (jobId ownerToken : QString)
  | updateTitle (recordingId title : QString)
  | updateNotes (recordingId notes : QString)
  | updateReviewState (recordingId reviewState : QString)
  | relinkSource (filesExist : Bool) (recordingId sourcePath : QString) (clearDerivedArtifacts : Bool)
  | setTags (recordingId : QString) (tags : List QString)
  | moveToTrash (id : QString)
  | restore (id : QString)
  | permanentlyDelete (id : QString)
  | setActiveTranscriptJob (recordingId jobId : QString)

inductive RepositoryStep where
  | jobs (step : Step)
  | recordings (now : Int) (uuid : QString) (operation : RecordingOperation)

namespace RecordingRepository

def perform (t : CharTables) (db : Database) (now : Int) (uuid : QString) :
    RecordingOperation → Result Unit × Database
  | .create filesExist recording => create t now uuid filesExist recording db
  | .update filesExist recording jobId owner => update t now filesExist recording jobId owner db
  | .updateTitle id title => updateTitle now id title db
  | .updateNotes id notes => updateNotes now id notes db
  | .updateReviewState id reviewState => updateReviewState now id reviewState db
  | .relinkSource filesExist id sourcePath clear => relinkSource now filesExist id sourcePath clear db
  | .setTags id tags => setTags t id tags db
  | .moveToTrash id => moveToTrash now id db
  | .restore id => restore now id db
  | .permanentlyDelete id => permanentlyDelete now id db
  | .setActiveTranscriptJob id jobId => setActiveTranscriptJob now id jobId db

end RecordingRepository

/-- The step of the system. -/
def executed (t : CharTables) (db : Database) : RepositoryStep → Database
  | .jobs step => performed t db step
  | .recordings now uuid operation => (RecordingRepository.perform t db now uuid operation).2

/-! ## What an operation on recordings keeps -/

/-- An update of a recording row that leaves its id and its active transcript. -/
structure Harmless (update : Recording → Recording) : Prop where
  id : ∀ row, (update row).id = row.id
  activeJobId : ∀ row, (update row).activeJobId = row.activeJobId

/-- The statements of the recording repository keep the invariant, but for the ones that are left to the
    operation: inserting a row, deleting rows, and activating a transcript. -/
structure RecordingsKeep (I : Database → Prop) : Prop where
  recordings : ∀ db which update, Harmless update → I db →
    I { db with recordings := updateRows which update db.recordings }
  index : ∀ db searchIndex, I db → I { db with searchIndex }

def RecordingOperation.isUpdate : RecordingOperation → Bool
  | .create .. | .permanentlyDelete .. | .setActiveTranscriptJob .. => false
  | _ => true

variable {t : CharTables} {db db' : Database} {now : Int} {I : Database → Prop}

namespace RecordingRepository

section

variable (h : RecordingsKeep I)

include h

theorem keeps_updateRecordings {which : Recording → Bool} {update : Recording → Recording}
    (hupdate : Harmless update) : Keeps I (updateRecordings which update) :=
  keeps_command fun db hI => h.recordings db which update hupdate hI

theorem keeps_updateRecording {recordingId : QString} {update : Recording → Recording}
    (hupdate : Harmless update) : Keeps I (updateRecording recordingId update) :=
  keeps_bind (keeps_updateRecordings h hupdate) fun _ => keeps_require _ _

theorem updateMetadataColumn_keeps {recordingId : QString} {column : Recording → Recording}
    {rebuildSearch : Bool} (hcolumn : Harmless column) (hI : I db) :
    I (updateMetadataColumn recordingId column rebuildSearch db).2 := by
  unfold updateMetadataColumn
  split
  · exact hI
  · refine Keeps.atomically (keeps_bind (keeps_updateRecording h hcolumn) fun _ => ?_) hI
    exact keeps_ite (keeps_rebuildRecording h.index) (keeps_pure _)

end

theorem harmless_relinked (sourcePath : QString) (clear : Bool) :
    Harmless (relinkedRecording now sourcePath clear) := by
  constructor
  · intro row
    unfold relinkedRecording
    split <;> rfl
  · intro row
    unfold relinkedRecording
    split <;> rfl

theorem update_keeps (h : RecordingsKeep I) {filesExist : Bool} {recording : Recording}
    {jobId ownerToken : QString} (hI : I db) : I (update t now filesExist recording jobId ownerToken db).2 := by
  unfold update
  split
  · exact hI
  split
  · exact hI
  split
  · refine Keeps.atomically (keeps_bind (keeps_statement fun _ hI _ => hI) fun _ => ?_) hI
    refine keeps_bind (keeps_require _ _) fun _ => ?_
    exact keeps_bind (keeps_updateRecording h ⟨fun _ => rfl, fun _ => rfl⟩) fun _ => keeps_rebuildRecording h.index
  · refine executionLeaseTransaction_keeps (keeps_bind (keeps_statement fun _ hI _ => hI) fun _ => ?_) hI
    refine keeps_bind (keeps_require _ _) fun _ => ?_
    exact keeps_updateRecording h ⟨fun _ => rfl, fun _ => rfl⟩

theorem relinkSource_keeps (h : RecordingsKeep I) {filesExist clear : Bool} {recordingId sourcePath : QString}
    (hI : I db) : I (relinkSource now filesExist recordingId sourcePath clear db).2 := by
  unfold relinkSource
  split
  · exact hI
  · refine Keeps.atomically (keeps_bind (keeps_statement fun _ hI _ => hI) fun _ => ?_) hI
    refine keeps_bind (keeps_require _ _) fun _ => ?_
    exact keeps_updateRecording h (harmless_relinked sourcePath clear)

theorem setTags_keeps (h : RecordingsKeep I) {recordingId : QString} {tags : List QString} (hI : I db) :
    I (setTags t recordingId tags db).2 := by
  refine Keeps.atomically (keeps_bind ?_ fun _ => keeps_bind (keeps_require _ _) fun _ => keeps_rebuildRecording h.index) hI
  exact keeps_updateRecordings h ⟨fun _ => rfl, fun _ => rfl⟩

/-- **An update** keeps what its statements keep. -/
theorem perform_update (h : RecordingsKeep I) {uuid : QString} {operation : RecordingOperation}
    (hupdate : operation.isUpdate = true) (hI : I db) : I (perform t db now uuid operation).2 := by
  cases operation with
  | update filesExist recording jobId owner => exact update_keeps h hI
  | updateTitle id title =>
    show I (updateTitle now id title db).2
    unfold updateTitle
    split
    · exact hI
    · exact updateMetadataColumn_keeps h ⟨fun _ => rfl, fun _ => rfl⟩ hI
  | updateNotes id notes => exact updateMetadataColumn_keeps h ⟨fun _ => rfl, fun _ => rfl⟩ hI
  | updateReviewState id reviewState =>
    show I (updateReviewState now id reviewState db).2
    unfold updateReviewState
    split
    · exact hI
    · exact updateMetadataColumn_keeps h ⟨fun _ => rfl, fun _ => rfl⟩ hI
  | relinkSource filesExist id sourcePath clear => exact relinkSource_keeps h hI
  | setTags id tags => exact setTags_keeps h hI
  | moveToTrash id =>
    refine Keeps.atomically (keeps_bind (keeps_updateRecordings h ?_) fun _ => keeps_pure _) hI
    exact ⟨fun _ => rfl, fun _ => rfl⟩
  | restore id =>
    refine Keeps.atomically (keeps_bind (keeps_updateRecordings h ?_) fun _ => keeps_pure _) hI
    exact ⟨fun _ => rfl, fun _ => rfl⟩
  | create filesExist recording => cases hupdate
  | permanentlyDelete id => cases hupdate
  | setActiveTranscriptJob id jobId => cases hupdate

/-- **An operation that fails** changes nothing. -/
theorem perform_transactional (now : Int) (uuid : QString) (operation : RecordingOperation) :
    Transactional fun db => perform t db now uuid operation := by
  cases operation with
  | create => exact transactional_ite (transactional_refusal _) (transactional_immediate _)
  | update =>
    exact transactional_ite (transactional_refusal _) (transactional_ite (transactional_refusal _)
      (transactional_ite (transactional_immediate _) (transactional_lease _ _ _ _)))
  | updateTitle | updateReviewState =>
    exact transactional_ite (transactional_refusal _)
      (transactional_ite (transactional_refusal _) (transactional_immediate _))
  | updateNotes | relinkSource | setActiveTranscriptJob =>
    exact transactional_ite (transactional_refusal _) (transactional_immediate _)
  | setTags | permanentlyDelete => exact transactional_immediate _
  | moveToTrash id =>
    show Transactional (moveToTrash now id)
    exact transactional_immediate _
  | restore id =>
    show Transactional (restore now id)
    exact transactional_immediate _

/-! ## What the others do -/

theorem create_ok {uuid : QString} {filesExist : Bool} {recording : Recording}
    (h : create t now uuid filesExist recording db = (.ok (), db')) :
    let row := newRecording t now uuid recording
    (trimmed recording.title).isEmpty = false ∧ filesExist = true ∧ RecordingInsertable db row ∧
      db' = rebuiltIndex row.id { db with recordings := db.recordings ++ [row] } := by
  unfold create at h
  split at h
  · cases h
  next htitle =>
    obtain ⟨_, _, hfiles, hop1⟩ := bind_eq_ok.mp (immediateTransaction_ok h)
    obtain ⟨hexist, rfl⟩ := require_eq_ok.mp hfiles
    obtain ⟨_, _, hinsert, hindex⟩ := bind_eq_ok.mp hop1
    obtain ⟨hinsertable, -, rfl⟩ := statement_eq_ok.mp hinsert
    exact ⟨Bool.eq_false_iff.mpr htitle, hexist, hinsertable, rebuildRecording_eq_ok.mp hindex⟩

theorem create_of {uuid : QString} {filesExist : Bool} {recording : Recording}
    (htitle : (trimmed recording.title).isEmpty = false) (hexist : filesExist = true)
    (hinsertable : RecordingInsertable db (newRecording t now uuid recording)) :
    let row := newRecording t now uuid recording
    create t now uuid filesExist recording db =
      (.ok (), rebuiltIndex row.id { db with recordings := db.recordings ++ [row] }) := by
  unfold create
  rw [if_neg (Bool.eq_false_iff.mp htitle)]
  refine atomically_of_ok (bind_eq_ok.mpr ⟨(), db, require_eq_ok.mpr ⟨hexist, rfl⟩, ?_⟩)
  exact bind_eq_ok.mpr ⟨(), _, statement_eq_ok.mpr ⟨hinsertable, rfl, rfl⟩, rebuildRecording_eq_ok.mpr rfl⟩

theorem permanentlyDelete_exact {id : QString} (h : permanentlyDelete now id db = (.ok (), db')) :
    (db.recording? id).any (·.deletedAt.isSome) = true ∧
      db' = { cascadeRecordings (fun recording => recording.id == id && recording.deletedAt.isSome) db with
        searchIndex := db.searchIndex.filter fun entry => entry.recordingId != id } := by
  obtain ⟨_, _, hlease, hop1⟩ := bind_eq_ok.mp (immediateTransaction_ok h)
  obtain ⟨-, -, rfl⟩ := statement_eq_ok.mp hlease
  obtain ⟨_, _, hfind, hop2⟩ := bind_eq_ok.mp hop1
  obtain ⟨rfl, rfl⟩ := command_eq_ok.mp hfind
  obtain ⟨_, _, htrash, hop3⟩ := bind_eq_ok.mp hop2
  obtain ⟨htrashed, rfl⟩ := require_eq_ok.mp htrash
  obtain ⟨_, _, hdelete, hop4⟩ := bind_eq_ok.mp hop3
  obtain ⟨-, rfl⟩ := command_eq_ok.mp hdelete
  obtain ⟨_, _, haffected, hindex⟩ := bind_eq_ok.mp hop4
  obtain ⟨-, rfl⟩ := require_eq_ok.mp haffected
  obtain ⟨-, rfl⟩ := command_eq_ok.mp hindex
  exact ⟨htrashed, rfl⟩

theorem permanentlyDelete_ok {id : QString} (h : permanentlyDelete now id db = (.ok (), db')) :
    ∃ searchIndex, db' = { cascadeRecordings (fun recording => recording.id == id && recording.deletedAt.isSome) db
      with searchIndex } :=
  ⟨_, (permanentlyDelete_exact h).2⟩

theorem permanentlyDelete_of {id : QString}
    (hlease : (leaseOf db id).all fun lease => lease.expiresAt.any (· ≤ now))
    (htrash : (db.recording? id).any (·.deletedAt.isSome) = true) :
    ∃ searchIndex, permanentlyDelete now id db =
      (.ok (), { cascadeRecordings (fun recording => recording.id == id && recording.deletedAt.isSome) db
        with searchIndex }) := by
  have haffected : (db.recordings.filter fun recording =>
      recording.id == id && recording.deletedAt.isSome).length ≠ 0 := by
    obtain ⟨recording, hfound, hdeleted⟩ := (Option.any_eq_true _ _).mp htrash
    have hid := List.find?_some hfound
    have hmem := List.mem_filter (p := fun recording => recording.id == id && recording.deletedAt.isSome)
      |>.mpr ⟨List.mem_of_find?_eq_some hfound, Bool.and_eq_true_iff.mpr ⟨hid, hdeleted⟩⟩
    exact (List.length_pos_of_mem hmem).ne'
  refine ⟨db.searchIndex.filter fun entry => entry.recordingId != id,
    atomically_of_ok (bind_eq_ok.mpr ⟨(), db, statement_eq_ok.mpr ⟨hlease, rfl, rfl⟩, ?_⟩)⟩
  refine bind_eq_ok.mpr ⟨_, db, command_eq_ok.mpr ⟨rfl, rfl⟩, ?_⟩
  refine bind_eq_ok.mpr ⟨(), db, require_eq_ok.mpr ⟨htrash, rfl⟩, ?_⟩
  refine bind_eq_ok.mpr ⟨_, _, command_eq_ok.mpr ⟨rfl, rfl⟩, ?_⟩
  exact bind_eq_ok.mpr ⟨(), _, require_eq_ok.mpr ⟨haffected, rfl⟩, command_eq_ok.mpr ⟨rfl, rfl⟩⟩

/-- **Activating a transcript** takes a completed job of the recording. -/
theorem setActiveTranscriptJob_ok {recordingId jobId : QString}
    (h : setActiveTranscriptJob now recordingId jobId db = (.ok (), db')) :
    (∃ job ∈ db.jobs, job.id = jobId ∧ job.recordingId = recordingId ∧ job.state = .completed) ∧
      db' = rebuiltIndex recordingId { db with
        recordings := updateRows (fun recording => recording.id == recordingId)
          (fun row => { row with activeJobId := some jobId, updatedAt := storedTime (some now) })
          db.recordings } := by
  unfold setActiveTranscriptJob at h
  split at h
  · cases h
  obtain ⟨_, _, hfind, hop1⟩ := bind_eq_ok.mp (immediateTransaction_ok h)
  obtain ⟨rfl, rfl⟩ := command_eq_ok.mp hfind
  obtain ⟨job, _, hsome, hop2⟩ := bind_eq_ok.mp hop1
  obtain ⟨hfound, rfl⟩ := requireSome_eq_ok.mp hsome
  obtain ⟨_, _, hstate, hop3⟩ := bind_eq_ok.mp hop2
  obtain ⟨hcompleted, rfl⟩ := require_eq_ok.mp hstate
  obtain ⟨_, _, hupdate, hop4⟩ := bind_eq_ok.mp hop3
  obtain ⟨-, rfl⟩ := command_eq_ok.mp hupdate
  obtain ⟨_, _, haffected, hindex⟩ := bind_eq_ok.mp hop4
  obtain ⟨-, rfl⟩ := require_eq_ok.mp haffected
  have hjob := List.find?_some hfound
  rw [Bool.and_eq_true, beq_iff_eq, beq_iff_eq] at hjob
  exact ⟨⟨job, List.mem_of_find?_eq_some hfound, hjob.1, hjob.2, hcompleted⟩, rebuildRecording_eq_ok.mp hindex⟩

/-- An invariant that no recording matters to, but for the jobs that go with it. -/
structure RecordingsImmaterial (I : Database → Prop) : Prop where
  recordings : ∀ db recordings, I db → I { db with recordings }
  index : ∀ db searchIndex, I db → I { db with searchIndex }
  segments : ∀ db segments, I db → I { db with segments }
  cascade : ∀ db which, I db → I (cascadeJobs which db)

theorem RecordingsImmaterial.rebuilt (h : RecordingsImmaterial I) {id : QString} (hI : I db) :
    I (rebuiltIndex id db) := by
  rw [rebuiltIndex_eq]
  exact h.index db _ hI

/-- **Every operation** on recordings. -/
theorem perform_immaterial (h : RecordingsImmaterial I) {uuid : QString} {operation : RecordingOperation}
    (hI : I db) : I (perform t db now uuid operation).2 := by
  cases hupdate : operation.isUpdate with
  | true => exact perform_update ⟨fun db _ _ _ => h.recordings db _, h.index⟩ hupdate hI
  | false =>
    cases operation with
    | create filesExist recording =>
      refine (transactional_ite (transactional_refusal _) (transactional_immediate _)).after hI
        fun _ after hok => ?_
      obtain ⟨-, -, -, rfl⟩ := create_ok hok
      exact h.rebuilt (h.recordings db _ hI)
    | permanentlyDelete id =>
      refine (transactional_immediate _).after hI fun _ after hok => ?_
      obtain ⟨_, rfl⟩ := permanentlyDelete_ok hok
      exact h.index _ _ (h.segments _ _ (h.recordings _ _ (h.cascade db _ hI)))
    | setActiveTranscriptJob id jobId =>
      refine (transactional_ite (transactional_refusal _) (transactional_immediate _)).after hI
        fun _ after hok => ?_
      obtain ⟨-, rfl⟩ := setActiveTranscriptJob_ok hok
      exact h.rebuilt (h.recordings db _ hI)
    | _ => cases hupdate

end RecordingRepository

end BreezeDesk
