/-
  The active transcript of a recording.

  `recordings.active_job_id` is a plain column: no foreign key keeps it.  `setActiveTranscriptJob` checks
  the job it writes, `completeAndActivate` has just completed it, `deleteTerminalJob` and
  `clearCompleted` spare a job that is shown, and `update` leaves the column out.  `create` alone
  writes what its caller passes.

  `active_transcript` says that this is all there is: the reference is valid in every state of exactly
  the runs in which no recording is created with an active job.  The rest of the argument is kept by
  every step: unique ids of jobs and recordings, and jobs that belong to a recording
  (`RecordingsInOrder`).
-/
import BreezeDesk.Jobs.StateHistory

namespace BreezeDesk

open Transaction Runs

/-- The active transcript of a recording is a completed job of it. -/
def ActiveCompleted (db : Database) : Prop :=
  ∀ recording ∈ db.recordings, ∀ jobId ∈ recording.activeJobId,
    ∃ job ∈ db.jobs, job.id = jobId ∧ job.recordingId = recording.id ∧ job.state = .completed

/-- A recording gets into the table with an active job: everything else about it is in order. -/
def CreatesActive (t : CharTables) (db : Database) : RepositoryStep → Prop
  | .recordings now uuid (.create filesExist recording) =>
    (trimmed recording.title).isEmpty = false ∧ filesExist = true ∧
      RecordingInsertable db (RecordingRepository.newRecording t now uuid recording) ∧
      recording.activeJobId.any (fun jobId => !jobId.isEmpty) = true
  | _ => False

structure RecordingsInOrder (db : Database) : Prop where
  ids : db.recordings.Pairwise fun a b => a.id ≠ b.id
  belongs : ∀ job ∈ db.jobs, ∃ recording ∈ db.recordings, recording.id = job.recordingId

variable {t : CharTables} {db db' base : Database} {now : Int}

theorem RecordingsInOrder.eq_of_id (h : RecordingsInOrder db) {a b : Recording} (ha : a ∈ db.recordings)
    (hb : b ∈ db.recordings) (hid : a.id = b.id) : a = b :=
  List.inj_on_of_nodup_map (List.pairwise_map.mpr h.ids) ha hb hid

theorem of_recording? {id : QString} {recording : Recording} (h : db.recording? id = some recording) :
    recording ∈ db.recordings ∧ recording.id = id :=
  ⟨List.mem_of_find?_eq_some h, by simpa using List.find?_some h⟩

/-! ## Operations that write no recording -/

/-- The recordings are as before, and the jobs belong to them as before. -/
structure SameRecordings (base db : Database) : Prop where
  recordings : db.recordings = base.recordings
  belongs : ∀ job ∈ db.jobs, (∃ old ∈ base.jobs, old.recordingId = job.recordingId) ∨
    ∃ recording ∈ base.recordings, recording.id = job.recordingId

/-- The completed jobs are still there. -/
def CompletedStay (base db : Database) : Prop :=
  ∀ job ∈ base.jobs, job.state = .completed →
    ∃ after ∈ db.jobs, after.id = job.id ∧ after.recordingId = job.recordingId ∧ after.state = .completed

structure Steady (base db : Database) : Prop where
  same : SameRecordings base db
  completed : CompletedStay base db

theorem SameRecordings.inOrder (h : SameRecordings base db) (hbase : RecordingsInOrder base) :
    RecordingsInOrder db where
  ids := h.recordings ▸ hbase.ids
  belongs job hjob := by
    rw [h.recordings]
    rcases h.belongs job hjob with ⟨old, hold, hid⟩ | hrecording
    · exact hid ▸ hbase.belongs old hold
    · exact hrecording

theorem Steady.active (h : Steady base db) (hactive : ActiveCompleted base) : ActiveCompleted db := by
  intro recording hrecording jobId hjobId
  rw [h.same.recordings] at hrecording
  obtain ⟨job, hjob, hid, hbelongs, hstate⟩ := hactive recording hrecording jobId hjobId
  obtain ⟨after, hafter, hid', hbelongs', hstate'⟩ := h.completed job hjob hstate
  exact ⟨after, hafter, hid'.trans hid, hbelongs'.trans hbelongs, hstate'⟩

theorem sameRecordings_refl (db : Database) : SameRecordings db db :=
  ⟨rfl, fun job hjob => Or.inl ⟨job, hjob, rfl⟩⟩

theorem steady_refl (db : Database) : Steady db db :=
  ⟨sameRecordings_refl db, fun job hjob hstate => ⟨job, hjob, rfl, rfl, hstate⟩⟩

theorem belongs_updateRows {which : TranscriptionJob → Bool}
    {update : TranscriptionJob → TranscriptionJob}
    (hupdate : ∀ job, (update job).recordingId = job.recordingId) (h : SameRecordings base db) :
    ∀ job ∈ updateRows which update db.jobs,
      (∃ old ∈ base.jobs, old.recordingId = job.recordingId) ∨
        ∃ recording ∈ base.recordings, recording.id = job.recordingId := by
  intro job hjob
  obtain ⟨old, hold, rfl⟩ := mem_updateRows.mp hjob
  have hbelongs := h.belongs old hold
  split
  · rwa [hupdate]
  · exact hbelongs

/-- Rows that are not completed may change. -/
theorem completedStay_updateRows {which : TranscriptionJob → Bool}
    {update : TranscriptionJob → TranscriptionJob} {jobs : List TranscriptionJob}
    (h : CompletedStay base db) (hjobs : jobs = updateRows which update db.jobs)
    (hwhich : ∀ job ∈ db.jobs, job.state = .completed → which job = true →
      (update job).id = job.id ∧ (update job).recordingId = job.recordingId ∧
        (update job).state = .completed) :
    ∀ job ∈ base.jobs, job.state = .completed →
      ∃ after ∈ jobs, after.id = job.id ∧ after.recordingId = job.recordingId ∧ after.state = .completed := by
  intro job hjob hstate
  obtain ⟨after, hafter, hid, hbelongs, hcompleted⟩ := h job hjob hstate
  subst hjobs
  refine ⟨_, mem_updateRows.mpr ⟨after, hafter, rfl⟩, ?_⟩
  split
  next hreached =>
    obtain ⟨hid', hbelongs', hcompleted'⟩ := hwhich after hafter hcompleted hreached
    exact ⟨hid'.trans hid, hbelongs'.trans hbelongs, hcompleted'⟩
  next => exact ⟨hid, hbelongs, hcompleted⟩

theorem sameRecordings_calm : CalmKeep Calm (SameRecordings base) where
  jobs _ _ _ hcalm hI _ := ⟨hI.recordings, belongs_updateRows hcalm.recordingId hI⟩
  chunks _ _ hI := ⟨hI.recordings, hI.belongs⟩
  detach _ _ hI := ⟨hI.recordings, hI.belongs⟩
  events _ _ _ hI := ⟨hI.recordings, hI.belongs⟩
  leases _ _ hI _ _ := ⟨hI.recordings, hI.belongs⟩

theorem sameRecordings_index (db : Database) (searchIndex : List SearchEntry) (hI : SameRecordings base db) :
    SameRecordings base { db with searchIndex } := ⟨hI.recordings, hI.belongs⟩

theorem sameRecordings_cascade (db : Database) (which : TranscriptionJob → Bool)
    (hI : SameRecordings base db) : SameRecordings base (cascadeJobs which db) :=
  ⟨hI.recordings, fun job hjob => hI.belongs job (List.mem_filter.mp hjob).1⟩

theorem steady_updateRows {which : TranscriptionJob → Bool} {update : TranscriptionJob → TranscriptionJob}
    (hcalm : Calm update) (h : Steady base db) :
    Steady base { db with jobs := updateRows which update db.jobs } := by
  refine ⟨⟨h.same.recordings, belongs_updateRows hcalm.recordingId h.same⟩, ?_⟩
  exact completedStay_updateRows h.completed rfl fun job _ hstate _ =>
    ⟨hcalm.id job, hcalm.recordingId job, (hcalm.state job).trans hstate⟩

theorem steady_calm : CalmKeep Calm (Steady base) where
  jobs _ _ _ hcalm hI _ := steady_updateRows hcalm hI
  chunks _ _ hI := ⟨⟨hI.same.recordings, hI.same.belongs⟩, hI.completed⟩
  detach _ _ hI := ⟨⟨hI.same.recordings, hI.same.belongs⟩, hI.completed⟩
  events _ _ _ hI := ⟨⟨hI.same.recordings, hI.same.belongs⟩, hI.completed⟩
  leases _ _ hI _ _ := ⟨⟨hI.same.recordings, hI.same.belongs⟩, hI.completed⟩

theorem steady_immaterial : SegmentsImmaterial (Steady base) where
  segments _ _ hI := ⟨⟨hI.same.recordings, hI.same.belongs⟩, hI.completed⟩
  index _ _ hI := ⟨⟨hI.same.recordings, hI.same.belongs⟩, hI.completed⟩

theorem createQueued_steady {uuid : QString} {job : TranscriptionJob} :
    Steady db (createQueued t now uuid job db).2 := by
  refine (transactional_ite (transactional_refusal _) (transactional_immediate _)).after (steady_refl db)
    fun _ after hok => ?_
  obtain ⟨hinsertable, -, rfl⟩ := createQueued_ok hok
  refine ⟨⟨rfl, fun other hother => ?_⟩, fun other hother hstate =>
    ⟨other, List.mem_append_left _ hother, rfl, rfl, hstate⟩⟩
  rcases List.mem_append.mp hother with hold | hnew
  · exact Or.inl ⟨other, hold, rfl⟩
  · obtain ⟨recording, hfound⟩ := Option.isSome_iff_exists.mp hinsertable.2.1
    rw [List.mem_singleton.mp hnew]
    exact Or.inr ⟨recording, of_recording? hfound⟩

/-- A completed job does not run: its recovery leaves it alone. -/
theorem Recovering.steady {spared : Option QString} (h : Recovering spared base db) : Steady base db := by
  refine ⟨⟨h.recordings, fun job hjob => ?_⟩, fun job hjob hstate => ?_⟩
  · obtain ⟨before, hbefore, -, hbelongs, -⟩ := h.rows job hjob
    exact Or.inl ⟨before, hbefore, hbelongs⟩
  · have hidle : job.state.isRunning = false := by
      rw [hstate]
      rfl
    obtain ⟨after, hafter, hid, hbelongs, hsame⟩ := h.kept job hjob (Or.inl hidle)
    exact ⟨after, hafter, hid, hbelongs, hsame.trans hstate⟩

theorem claim_steady {requestedJobId : Option QString} {ownerToken : QString} {leaseDurationMs : Int}
    {claim : JobClaimResult} (h : JobsInOrder db)
    (hok : claimInDatabase t now requestedJobId ownerToken leaseDurationMs db = .ok (claim, db')) :
    Steady db db' := by
  rcases claimInDatabase_ok h hok with rfl | ⟨mid, hmid, -, rfl | ⟨jobId, hclaimed⟩⟩
  · exact steady_refl _
  · exact hmid.steady
  · have hsteady := hmid.steady
    have hrecordingId : ∀ job, (claimedJob now job).recordingId = job.recordingId := fun _ => rfl
    refine ⟨⟨hclaimed.recordings.trans hsteady.same.recordings, ?_⟩, ?_⟩
    · rw [hclaimed.jobs]
      exact belongs_updateRows hrecordingId hsteady.same
    · refine completedStay_updateRows hsteady.completed hclaimed.jobs fun job _ hstate hwhich => ?_
      rw [Bool.and_eq_true, beq_iff_eq, beq_iff_eq, hstate] at hwhich
      cases hwhich.2

theorem moved_steady {id : QString} {state : JobState} {errorCode errorMessage ownerToken : QString}
    {current : TranscriptionJob} (h : Moved now db db' id state errorCode errorMessage ownerToken current) :
    Steady db db' := by
  obtain ⟨position, hjobs⟩ := h.jobs
  have hfields := @transitionedJob_fields now position state errorCode errorMessage
  refine ⟨⟨h.recordings, ?_⟩, ?_⟩
  · rw [hjobs]
    exact belongs_updateRows (fun job => (hfields job).2.1) (sameRecordings_refl db)
  · refine completedStay_updateRows (steady_refl db).completed hjobs fun job _ hstate hwhich => ?_
    -- no move leads out of `completed`
    rw [Bool.and_eq_true, beq_iff_eq, beq_iff_eq, hstate] at hwhich
    have hlegal := h.legal
    rw [← hwhich.2] at hlegal
    cases hlegal

/-- Operations that neither complete nor remove a job. -/
def Operation.isSteady : Operation → Bool
  | .completeAndActivate .. | .deleteTerminalJob .. | .clearCompleted => false
  | _ => true

theorem performed_steady (step : Step) (h : JobsInOrder db) (hsteady : step.operation.isSteady = true) :
    Steady db (performed t db step) := by
  have hcalm : ∀ update, Calm update → Calm update := fun _ hupdate => hupdate
  have hstart := steady_refl db
  cases htranscript : step.operation.isTranscript with
  | true => exact performed_transcript steady_immaterial htranscript hstart
  | false =>
    cases hop : step.operation.isCalm with
    | true => exact performed_calm steady_calm hcalm hop hstart
    | false =>
      obtain ⟨now, newId, operation⟩ := step
      cases operation with
      | createQueued job => exact createQueued_steady
      | claimNextQueued owner duration =>
        refine (transactional_ite (transactional_refusal _) (transactional_immediate _)).after hstart
          fun _ after hok => claim_steady h (claimNextQueued_ok hok)
      | claimQueued jobId owner duration =>
        refine (transactional_ite (transactional_refusal _) (transactional_immediate _)).after hstart
          fun _ after hok => claim_steady h (claimQueued_ok hok)
      | transition id state code message owner =>
        refine (transactional_ite (transactional_refusal _) (transactional_write _ _ _ _)).after hstart
          fun _ after hok => ?_
        rcases transition_ok hok with rfl | ⟨current, hmoved⟩
        · exact hstart
        · exact moved_steady hmoved
      | markRunningJobsInterrupted reason =>
        show Steady db (markRunningJobsInterrupted t now reason db).2
        refine (transactional_immediate _).after hstart fun _ after hok => ?_
        exact (markRunningJobsInterrupted_ok h hok).1.steady
      | _ => first | (cases hop; done) | (cases htranscript; done) | cases hsteady

/-! ## Completing and removing jobs -/

theorem activeCompleted_cascade (which : TranscriptionJob → Bool) (h : ActiveCompleted db)
    (hspared : ∀ job ∈ db.jobs, which job = true → ∀ recording ∈ db.recordings,
      recording.activeJobId ≠ some job.id) : ActiveCompleted (cascadeJobs which db) := by
  intro recording hrecording jobId hjobId
  obtain ⟨job, hjob, hid, hrest⟩ := h recording hrecording jobId hjobId
  refine ⟨job, List.mem_filter.mpr ⟨hjob, ?_⟩, hid, hrest⟩
  cases hwhich : which job with
  | false => rfl
  | true => exact absurd (hid ▸ hjobId) (hspared job hjob hwhich recording hrecording)

theorem activeCompleted_rebuiltIndex {id : QString} (h : ActiveCompleted db) :
    ActiveCompleted (rebuiltIndex id db) := by
  rw [rebuiltIndex_eq]
  exact h

theorem activeCompleted_rebuilt {ids : List QString} (h : ActiveCompleted db) :
    ActiveCompleted (ids.foldl (fun db id => rebuiltIndex id db) db) := by
  induction ids generalizing db with
  | nil => exact h
  | cons id rest ih => exact ih (activeCompleted_rebuiltIndex h)

theorem deleteTerminalJob_active {id : QString} (hjobs : JobsInOrder db) (hdb : RecordingsInOrder db)
    (h : ActiveCompleted db) : ActiveCompleted (deleteTerminalJob id db).2 := by
  refine (transactional_immediate _).after h fun _ after hok => ?_
  obtain ⟨job, shown, hjob, -, hshown, rfl⟩ := deleteTerminalJob_ok hok
  obtain ⟨hmem, hid⟩ := of_job? hjob
  obtain ⟨hshownMem, hshownId⟩ := of_recording? hshown
  apply activeCompleted_rebuiltIndex
  split
  next => exact (steady_updateRows calm_hidden (steady_refl db)).active h
  next hother =>
    refine activeCompleted_cascade _ h fun row hrow hwhich recording hrecording hactive => hother ?_
    -- whoever shows the job is the recording that was asked
    obtain ⟨named, hnamed, hnamedId, hbelongs, -⟩ := h recording hrecording row.id hactive
    have hsame : named = job := hjobs.eq_of_id hnamed hmem (hnamedId.trans (beq_iff_eq.mp hwhich))
    have hrecordingEq : recording = shown :=
      hdb.eq_of_id hrecording hshownMem (hbelongs.symm.trans (hsame ▸ hshownId.symm))
    rw [← hrecordingEq, hactive, beq_iff_eq.mp hwhich, hid]
    exact beq_self_eq_true _

theorem clearCompleted_active (h : ActiveCompleted db) : ActiveCompleted (clearCompleted db).2 := by
  refine (transactional_immediate _).after h fun _ after hok => ?_
  obtain rfl := clearCompleted_ok hok
  have hhidden : ActiveCompleted (hiddenActive db) :=
    (steady_updateRows calm_hidden (steady_refl db)).active h
  refine activeCompleted_rebuilt (activeCompleted_cascade _ hhidden ?_)
  intro job _ hwhich recording hrecording hactive
  have hshown : isActiveJob db job.id = true :=
    List.any_eq_true.mpr ⟨recording, hrecording, beq_iff_eq.mpr hactive⟩
  rw [hshown, Bool.not_true, Bool.and_false] at hwhich
  cases hwhich

theorem recordingsInOrder_updateRows {which : Recording → Bool} {update : Recording → Recording}
    (hid : ∀ row, (update row).id = row.id) (hdb : RecordingsInOrder db) :
    RecordingsInOrder { db with recordings := updateRows which update db.recordings } where
  ids := by
    have hmap : (updateRows which update db.recordings).map (·.id) = db.recordings.map (·.id) :=
      map_updateRows hid _
    exact List.pairwise_map.mp (hmap ▸ List.pairwise_map.mpr hdb.ids)
  belongs job hjob := by
    obtain ⟨recording, hrecording, hrecordingId⟩ := hdb.belongs job hjob
    refine ⟨_, mem_updateRows.mpr ⟨recording, hrecording, rfl⟩, ?_⟩
    split
    · exact (hid recording).trans hrecordingId
    · exact hrecordingId

theorem completeAndActivate_active {recordingId jobId ownerToken : QString}
    (hdb : RecordingsInOrder db) :
    RecordingsInOrder (completeAndActivate t now recordingId jobId ownerToken db).2 ∧
      (ActiveCompleted db →
        ActiveCompleted (completeAndActivate t now recordingId jobId ownerToken db).2) := by
  refine (transactional_ite (transactional_refusal _) (transactional_lease _ _ _ _)).after
    (P := fun after => RecordingsInOrder after ∧ (ActiveCompleted db → ActiveCompleted after))
    ⟨hdb, id⟩ fun _ after hok => ?_
  obtain ⟨-, ⟨job, hjob, hbelongs, hfinalizing⟩, hrecordings, hrows, -, -⟩ := completeAndActivate_ok hok
  obtain ⟨hmem, hid⟩ := of_job? hjob
  have hcompleted : ∀ job, (completedJob now job).recordingId = job.recordingId := fun _ => rfl
  have hmid : Steady db { db with jobs := completedRows now recordingId jobId db.jobs } :=
    ⟨⟨rfl, belongs_updateRows hcompleted (sameRecordings_refl db)⟩,
      completedStay_updateRows (steady_refl db).completed rfl fun _ _ _ _ => ⟨rfl, rfl, rfl⟩⟩
  have hafter : Steady db { db with jobs := after.jobs } := by
    rw [hrows]
    exact steady_updateRows calm_hidden hmid
  have hactivated : ∃ row ∈ after.jobs, row.id = jobId ∧ row.recordingId = recordingId ∧
      row.state = .completed := by
    have hrow : completedJob now job ∈ completedRows now recordingId jobId db.jobs := by
      refine mem_updateRows.mpr ⟨job, hmem, ?_⟩
      rw [hid, hbelongs, hfinalizing, beq_self_eq_true, beq_self_eq_true]
      rfl
    rw [hrows]
    refine ⟨completedJob now job, mem_updateRows.mpr ⟨_, hrow, ?_⟩, hid, hbelongs, rfl⟩
    have hself : (job.id != jobId) = false := bne_eq_false_iff_eq.mpr hid
    rw [show (completedJob now job).id = job.id from rfl, hself, Bool.and_false, Bool.false_and]
    rfl
  constructor
  · have hboth : RecordingsInOrder { db with jobs := after.jobs, recordings := after.recordings } := by
      rw [hrecordings]
      refine recordingsInOrder_updateRows (fun _ => ?_) (hafter.same.inOrder hdb)
      rfl
    exact ⟨hboth.ids, hboth.belongs⟩
  · intro h recording hrecording named hnamed
    rw [hrecordings] at hrecording
    obtain ⟨old, hold, rfl⟩ := mem_updateRows.mp hrecording
    split at hnamed
    next hwhich =>
      obtain rfl := Option.some.inj hnamed
      rw [if_pos hwhich]
      obtain ⟨row, hrow, hrowId, hrowBelongs, hstate⟩ := hactivated
      exact ⟨row, hrow, hrowId, hrowBelongs.trans (beq_iff_eq.mp hwhich).symm, hstate⟩
    next hwhich =>
      rw [if_neg hwhich]
      exact hafter.active h old hold named hnamed

/-- **A step of the job repository** keeps the references. -/
theorem performed_active (step : Step) (hjobs : JobsInOrder db) (hdb : RecordingsInOrder db) :
    RecordingsInOrder (performed t db step) ∧
      (ActiveCompleted db → ActiveCompleted (performed t db step)) := by
  have hstill : ∀ update, Still update → Calm update := fun _ hupdate => hupdate.toCalm
  cases hsteady : step.operation.isSteady with
  | true =>
    have hafter := performed_steady (t := t) step hjobs hsteady
    exact ⟨hafter.same.inOrder hdb, hafter.active⟩
  | false =>
    obtain ⟨now, newId, operation⟩ := step
    cases operation with
    | completeAndActivate recordingId jobId owner => exact completeAndActivate_active hdb
    | deleteTerminalJob id =>
      have hsame : SameRecordings db (deleteTerminalJob id db).2 :=
        deleteTerminalJob_keeps sameRecordings_calm hstill sameRecordings_index sameRecordings_cascade
          (sameRecordings_refl db)
      exact ⟨hsame.inOrder hdb, deleteTerminalJob_active hjobs hdb⟩
    | clearCompleted =>
      have hsame : SameRecordings db (clearCompleted db).2 :=
        clearCompleted_keeps sameRecordings_calm hstill sameRecordings_index sameRecordings_cascade
          (sameRecordings_refl db)
      exact ⟨hsame.inOrder hdb, clearCompleted_active⟩
    | _ => cases hsteady

/-! ## Recordings -/

/-- A recording that is deleted takes its own jobs along and no other's. -/
theorem cascadeRecordings_active (which : Recording → Bool) (hdb : RecordingsInOrder db) :
    RecordingsInOrder (cascadeRecordings which db) ∧
      (ActiveCompleted db → ActiveCompleted (cascadeRecordings which db)) := by
  have hkept : ∀ recording ∈ db.recordings, which recording = false →
      (db.recordings.any fun other => which other && other.id == recording.id) = false := by
    intro recording hrecording hstays
    refine Bool.eq_false_iff.mpr fun hgone => ?_
    obtain ⟨other, hother, hboth⟩ := List.any_eq_true.mp hgone
    rw [Bool.and_eq_true, beq_iff_eq] at hboth
    rw [hdb.eq_of_id hother hrecording hboth.2, hstays] at hboth
    cases hboth.1
  have hrecordings : ∀ recording, recording ∈ (cascadeRecordings which db).recordings ↔
      recording ∈ db.recordings ∧ which recording = false := fun recording => by
    rw [← Bool.not_eq_true']
    exact List.mem_filter
  have hjobs : ∀ job, job ∈ (cascadeRecordings which db).jobs ↔ job ∈ db.jobs ∧
      (db.recordings.any fun other => which other && other.id == job.recordingId) = false := fun job => by
    rw [← Bool.not_eq_true']
    exact List.mem_filter
  refine ⟨⟨hdb.ids.sublist List.filter_sublist, fun job hjob => ?_⟩, fun h recording hrecording jobId hjobId => ?_⟩
  · obtain ⟨hmem, hstays⟩ := (hjobs job).mp hjob
    obtain ⟨recording, hrecording, hid⟩ := hdb.belongs job hmem
    refine ⟨recording, (hrecordings recording).mpr ⟨hrecording, ?_⟩, hid⟩
    refine Bool.eq_false_iff.mpr fun hgone => ?_
    have hany := List.any_eq_false.mp hstays recording hrecording
    rw [hgone, hid, beq_self_eq_true] at hany
    exact hany rfl
  · obtain ⟨hmem, hstays⟩ := (hrecordings recording).mp hrecording
    obtain ⟨job, hjob, hid, hbelongs, hstate⟩ := h recording hmem jobId hjobId
    exact ⟨job, (hjobs job).mpr ⟨hjob, hbelongs ▸ hkept recording hmem hstays⟩, hid, hbelongs, hstate⟩

theorem recordingsInOrder_keep : RecordingsKeep RecordingsInOrder where
  recordings _ _ _ hharmless hI := recordingsInOrder_updateRows hharmless.id hI
  index _ _ hI := ⟨hI.ids, hI.belongs⟩

theorem activeCompleted_keep : RecordingsKeep ActiveCompleted where
  recordings db which update hharmless hI := by
    intro recording hrecording jobId hjobId
    obtain ⟨old, hold, rfl⟩ := mem_updateRows.mp hrecording
    split at hjobId
    next hwhich =>
      rw [if_pos hwhich, hharmless.id]
      exact hI old hold jobId (hharmless.activeJobId old ▸ hjobId)
    next hwhich =>
      rw [if_neg hwhich]
      exact hI old hold jobId hjobId
  index _ _ hI := hI

theorem recordingsInOrder_append {row : Recording} (hdb : RecordingsInOrder db)
    (hfresh : ∀ recording ∈ db.recordings, recording.id ≠ row.id) :
    RecordingsInOrder { db with recordings := db.recordings ++ [row] } where
  ids := by
    refine List.pairwise_append.mpr ⟨hdb.ids, List.pairwise_singleton _ _, fun a ha b hb => ?_⟩
    rw [List.mem_singleton.mp hb]
    exact hfresh a ha
  belongs job hjob := by
    obtain ⟨recording, hrecording, hid⟩ := hdb.belongs job hjob
    exact ⟨recording, List.mem_append_left _ hrecording, hid⟩

theorem recordingsInOrder_rebuiltIndex {id : QString} (hdb : RecordingsInOrder db) :
    RecordingsInOrder (rebuiltIndex id db) := by
  rw [rebuiltIndex_eq]
  exact ⟨hdb.ids, hdb.belongs⟩

theorem newRecording_active {uuid : QString} {recording : Recording} :
    (RecordingRepository.newRecording t now uuid recording).activeJobId = none ↔
      recording.activeJobId.any (fun jobId => !jobId.isEmpty) = false := by
  show Option.filter (fun jobId => !jobId.isEmpty) recording.activeJobId = none ↔ _
  cases recording.activeJobId with
  | none => exact ⟨fun _ => rfl, fun _ => rfl⟩
  | some jobId =>
    rw [Option.filter_some, Option.any_some]
    cases !jobId.isEmpty with
    | false => exact ⟨fun _ => rfl, fun _ => rfl⟩
    | true => exact ⟨fun h => (by cases h), fun h => (by cases h)⟩

/-- **Creating a recording** breaks the references exactly when it is created with one: no job can belong to a
    recording that is not there yet. -/
theorem create_active {uuid : QString} {filesExist : Bool} {recording : Recording}
    (hdb : RecordingsInOrder db) :
    RecordingsInOrder (RecordingRepository.create t now uuid filesExist recording db).2 ∧
      (ActiveCompleted db →
        (ActiveCompleted (RecordingRepository.create t now uuid filesExist recording db).2 ↔
          ¬ CreatesActive t db (.recordings now uuid (.create filesExist recording)))) := by
  have hfresh : RecordingInsertable db (RecordingRepository.newRecording t now uuid recording) →
      ∀ old ∈ db.recordings, old.id ≠ (RecordingRepository.newRecording t now uuid recording).id := by
    intro hinsertable old hold hid
    have hnone := List.find?_eq_none.mp (Option.isNone_iff_eq_none.mp hinsertable.1) old hold
    rw [hid, beq_self_eq_true] at hnone
    exact hnone rfl
  constructor
  · refine (transactional_ite (transactional_refusal _) (transactional_immediate _)).after hdb
      fun _ after hok => ?_
    obtain ⟨-, -, hinsertable, rfl⟩ := RecordingRepository.create_ok hok
    exact recordingsInOrder_rebuiltIndex (recordingsInOrder_append hdb (hfresh hinsertable))
  · intro h
    constructor
    · rintro hafter ⟨htitle, hexist, hinsertable, hany⟩
      rw [RecordingRepository.create_of htitle hexist hinsertable, rebuiltIndex_eq] at hafter
      obtain ⟨jobId, hjobId⟩ := Option.ne_none_iff_exists'.mp
        (mt newRecording_active.mp (hany ▸ Bool.noConfusion) :
          (RecordingRepository.newRecording t now uuid recording).activeJobId ≠ none)
      obtain ⟨job, hjob, -, hbelongs, -⟩ :=
        hafter _ (List.mem_append_right _ (List.mem_singleton_self _)) jobId hjobId
      obtain ⟨old, hold, hid⟩ := hdb.belongs job hjob
      exact hfresh hinsertable old hold (hid.trans hbelongs)
    · intro hnot
      refine (transactional_ite (transactional_refusal _) (transactional_immediate _)).after h
        fun _ after hok => ?_
      obtain ⟨htitle, hexist, hinsertable, rfl⟩ := RecordingRepository.create_ok hok
      apply activeCompleted_rebuiltIndex
      intro row hrow jobId hjobId
      rcases List.mem_append.mp hrow with hold | hnew
      · exact h row hold jobId hjobId
      · have hnone : recording.activeJobId.any (fun jobId => !jobId.isEmpty) = false :=
          Bool.eq_false_iff.mpr fun hany => hnot ⟨htitle, hexist, hinsertable, hany⟩
        rw [List.mem_singleton.mp hnew, newRecording_active.mpr hnone] at hjobId
        cases hjobId

theorem recordings_active {uuid : QString} {operation : RecordingOperation} (hdb : RecordingsInOrder db) :
    RecordingsInOrder (RecordingRepository.perform t db now uuid operation).2 ∧
      (ActiveCompleted db → (ActiveCompleted (RecordingRepository.perform t db now uuid operation).2 ↔
        ¬ CreatesActive t db (.recordings now uuid operation))) := by
  cases hupdate : operation.isUpdate with
  | true =>
    refine ⟨RecordingRepository.perform_update recordingsInOrder_keep hupdate hdb, fun h => ⟨fun _ => ?_,
      fun _ => RecordingRepository.perform_update activeCompleted_keep hupdate h⟩⟩
    cases operation <;> first | exact id | cases hupdate
  | false =>
    cases operation with
    | create filesExist recording => exact create_active hdb
    | permanentlyDelete id =>
      refine (transactional_immediate _).after
        (P := fun after => RecordingsInOrder after ∧ (ActiveCompleted db → (ActiveCompleted after ↔ ¬ False)))
        ⟨hdb, fun h => ⟨fun _ => not_false, fun _ => h⟩⟩ fun _ after hok => ?_
      obtain ⟨_, rfl⟩ := RecordingRepository.permanentlyDelete_ok hok
      obtain ⟨hafter, hactive⟩ := cascadeRecordings_active
        (fun recording => recording.id == id && recording.deletedAt.isSome) hdb
      exact ⟨⟨hafter.ids, hafter.belongs⟩, fun h => ⟨fun _ => not_false, fun _ => hactive h⟩⟩
    | setActiveTranscriptJob id jobId =>
      refine (transactional_ite (transactional_refusal _) (transactional_immediate _)).after
        (P := fun after => RecordingsInOrder after ∧ (ActiveCompleted db → (ActiveCompleted after ↔ ¬ False)))
        ⟨hdb, fun h => ⟨fun _ => not_false, fun _ => h⟩⟩ fun _ after hok => ?_
      obtain ⟨hjob, rfl⟩ := RecordingRepository.setActiveTranscriptJob_ok hok
      refine ⟨recordingsInOrder_rebuiltIndex (recordingsInOrder_updateRows (fun _ => rfl) hdb), fun h =>
        ⟨fun _ => not_false, fun _ => activeCompleted_rebuiltIndex fun recording hrecording named hnamed => ?_⟩⟩
      obtain ⟨old, hold, rfl⟩ := mem_updateRows.mp hrecording
      split at hnamed
      next hwhich =>
        obtain rfl := Option.some.inj hnamed
        rw [if_pos hwhich, beq_iff_eq.mp hwhich]
        exact hjob
      next hwhich =>
        rw [if_neg hwhich]
        exact h old hold named hnamed
    | _ => cases hupdate

/-! ## Every run -/

/-- What every step keeps. -/
structure TablesInOrder (db : Database) : Prop where
  jobs : JobsInOrder db
  recordings : RecordingsInOrder db

theorem executed_active (step : RepositoryStep) (h : TablesInOrder db) :
    TablesInOrder (executed t db step) ∧
      (ActiveCompleted db → (ActiveCompleted (executed t db step) ↔ ¬ CreatesActive t db step)) := by
  have hjobs := executed_jobsInOrder (t := t) db step h.jobs trivial
  cases step with
  | jobs step =>
    obtain ⟨hrecordings, hactive⟩ := performed_active (t := t) step h.jobs h.recordings
    exact ⟨⟨hjobs, hrecordings⟩, fun hdb => ⟨fun _ => id, fun _ => hactive hdb⟩⟩
  | recordings now uuid operation =>
    obtain ⟨hrecordings, hactive⟩ := @recordings_active t db now uuid operation h.recordings
    exact ⟨⟨hjobs, hrecordings⟩, hactive⟩

/-- **Active transcripts.**  The active job of a recording is a completed job of it in every state of
    exactly the runs in which no recording is created with an active job. -/
theorem active_transcript (t : CharTables) (steps : List RepositoryStep) :
    (∀ db ∈ states (executed t) {} steps, ActiveCompleted db) ↔
      Guarded (executed t) (fun db step => ¬ CreatesActive t db step) {} steps := by
  refine states_iff_guarded (fun db step h => (executed_active step h).1)
    (fun db step h => (executed_active step h).2) (I := TablesInOrder) ⟨jobsInOrder_empty, ⟨?_, ?_⟩⟩ ?_
  · exact List.Pairwise.nil
  · exact fun _ hjob => (by cases hjob)
  · exact fun _ hrecording => (by cases hrecording)

/-- A recording that names a job from the start. -/
def createFixture : RepositoryStep :=
  .recordings 0 (qs "uuid") (.create true { title := qs "Meeting", activeJobId := some (qs "fixture-job") })

/-- **A dangling reference.**  The job of the new recording does not exist. -/
theorem active_transcript_dangling :
    ¬ ∀ db ∈ states (executed asciiTables) {} [createFixture], ActiveCompleted db := by
  intro h
  have hcreated : (executed asciiTables {} createFixture).recordings.map (·.activeJobId) =
      [some (qs "fixture-job")] ∧ (executed asciiTables {} createFixture).jobs = [] := by
    decide
  obtain ⟨recording, hrecording, hactive⟩ :=
    List.mem_map.mp (hcreated.1.symm ▸ List.mem_singleton_self (some (qs "fixture-job")))
  obtain ⟨job, hjob, -⟩ := h _ (run_mem_states _ _) recording hrecording _ hactive
  rw [show run (executed asciiTables) {} [createFixture] = executed asciiTables {} createFixture from rfl,
    hcreated.2] at hjob
  cases hjob

end BreezeDesk
