/-
  One current transcript for each recording.

  Completing a job makes its transcript the current one of the recording and discards the segments of
  the jobs completed before.  `SingleTranscript` says that they stay discarded: no completed job but the
  active one of its recording owns segments.

  One operation breaks it.  Saving a whole list of segments (`saveEditedTranscript`,
  `replaceTranscript`) asks whether the job may be edited, and a completed job may, whether its
  transcript is the current one or was discarded long ago.  `single_transcript` is the invariant for all
  runs that save no list into a discarded transcript.
-/
import BreezeDesk.Jobs.LeaseFencing

namespace BreezeDesk

open Transaction Runs

variable {t : CharTables} {db db' : Database} {now : Int}

/-! ## The invariant -/

/-- The transcript of the job has been superseded: it is completed, and not the active one. -/
def Superseded (db : Database) (jobId : QString) : Prop :=
  ∃ recording ∈ db.recordings, ∃ job ∈ db.jobs, job.id = jobId ∧ job.recordingId = recording.id ∧
    job.state = .completed ∧ recording.activeJobId ≠ some jobId

instance (db : Database) (jobId : QString) : Decidable (Superseded db jobId) :=
  inferInstanceAs (Decidable (∃ recording ∈ db.recordings, ∃ job ∈ db.jobs, _))

/-- **No superseded job owns segments.** -/
def SingleTranscript (db : Database) : Prop :=
  ∀ segment ∈ db.segments, ¬ Superseded db segment.jobId

instance (db : Database) : Decidable (SingleTranscript db) :=
  inferInstanceAs (Decidable (∀ segment ∈ db.segments, _))

/-- What goes with it: segments belong to the recording of their job, and the job of the lease has not
    been completed. -/
structure TranscriptOwnership (db : Database) : Prop where
  ids : db.jobs.Pairwise fun a b => a.id ≠ b.id
  owned : ∀ segment ∈ db.segments, ∃ job ∈ db.jobs, job.id = segment.jobId ∧
    job.recordingId = segment.recordingId
  executing : ∀ lease ∈ db.leases, ∀ job ∈ db.jobs, job.id = lease.jobId → job.state ≠ .completed
  oneLease : db.leases.length ≤ 1
  single : SingleTranscript db

/-- A database without segments and executors is in order. -/
theorem transcriptOwnership_of_empty (hids : db.jobs.Pairwise fun a b => a.id ≠ b.id)
    (hsegments : db.segments = []) (hleases : db.leases = []) : TranscriptOwnership db where
  ids := hids
  owned segment hmem := by
    rw [hsegments] at hmem
    cases hmem
  executing lease hmem := by
    rw [hleases] at hmem
    cases hmem
  oneLease := by
    rw [hleases]
    exact Nat.zero_le 1
  single segment hmem := by
    rw [hsegments] at hmem
    cases hmem

theorem TranscriptOwnership.eq_of_id (h : TranscriptOwnership db) {a b : TranscriptionJob}
    (ha : a ∈ db.jobs) (hb : b ∈ db.jobs) (hid : a.id = b.id) : a = b :=
  List.inj_on_of_nodup_map (List.pairwise_map.mpr h.ids) ha hb hid

/-! ## Job rows -/

/-- Every job of the second list was there before, with its owner, and has not been completed since. -/
def JobsFrom (old new : List TranscriptionJob) : Prop :=
  ∀ job ∈ new, ∃ before ∈ old, before.id = job.id ∧ before.recordingId = job.recordingId ∧
    (job.state = .completed → before.state = .completed)

theorem jobsFrom_updateRows {which : TranscriptionJob → Bool}
    {update : TranscriptionJob → TranscriptionJob} (htame : Tame update)
    (jobs : List TranscriptionJob) : JobsFrom jobs (updateRows which update jobs) := by
  intro job hjob
  obtain ⟨old, hold, rfl⟩ := mem_updateRows.mp hjob
  refine ⟨old, hold, ?_⟩
  split
  · exact ⟨(htame.id old).symm, (htame.recordingId old).symm, htame.completed old⟩
  · exact ⟨rfl, rfl, fun hstate => hstate⟩

/-- Nothing becomes superseded by a change of job rows that completes none. -/
theorem not_superseded_of_jobsFrom {jobs : List TranscriptionJob} {jobId : QString}
    (hjobs : JobsFrom db.jobs jobs) (h : ¬ Superseded db jobId) :
    ¬ Superseded { db with jobs } jobId := by
  rintro ⟨recording, hrecording, job, hjob, hid, hof, hcompleted, hactive⟩
  obtain ⟨before, hbefore, hid', hof', hcompleted'⟩ := hjobs job hjob
  exact h ⟨recording, hrecording, before, hbefore, hid'.trans hid, hof'.trans hof,
    hcompleted' hcompleted, hactive⟩

/-- The same for the whole invariant, when owners stay. -/
theorem TranscriptOwnership.withJobs (h : TranscriptOwnership db) {jobs : List TranscriptionJob}
    (hids : jobs.Pairwise fun a b => a.id ≠ b.id) (hjobs : JobsFrom db.jobs jobs)
    (howners : ∀ job ∈ db.jobs, ∃ after ∈ jobs, after.id = job.id ∧
      after.recordingId = job.recordingId) : TranscriptOwnership { db with jobs } where
  ids := hids
  owned segment hmem := by
    obtain ⟨job, hjob, hid, hof⟩ := h.owned segment hmem
    obtain ⟨after, hafter, hid', hof'⟩ := howners job hjob
    exact ⟨after, hafter, hid'.trans hid, hof'.trans hof⟩
  executing lease hmem job hjob hid hcompleted := by
    obtain ⟨before, hbefore, hid', -, hcompleted'⟩ := hjobs job hjob
    exact h.executing lease hmem before hbefore (hid'.trans hid) (hcompleted' hcompleted)
  oneLease := h.oneLease
  single segment hmem := not_superseded_of_jobsFrom hjobs (h.single segment hmem)

theorem TranscriptOwnership.updated (h : TranscriptOwnership db) {which : TranscriptionJob → Bool}
    {update : TranscriptionJob → TranscriptionJob} (htame : Tame update) :
    TranscriptOwnership { db with jobs := updateRows which update db.jobs } := by
  refine h.withJobs ?_ (jobsFrom_updateRows htame db.jobs) fun job hjob => ?_
  · have hmap : (updateRows which update db.jobs).map (·.id) = db.jobs.map (·.id) :=
      map_updateRows htame.id db.jobs
    exact List.pairwise_map.mp (hmap ▸ List.pairwise_map.mpr h.ids)
  · refine ⟨_, mem_updateRows.mpr ⟨job, hjob, rfl⟩, ?_⟩
    split
    · exact ⟨htame.id job, htame.recordingId job⟩
    · exact ⟨rfl, rfl⟩

/-- Segments may go, and change in anything but their owner. -/
theorem TranscriptOwnership.withSegments (h : TranscriptOwnership db)
    {segments : List TranscriptSegment} (searchIndex : List SearchEntry)
    (hsegments : ∀ segment ∈ segments, ∃ old ∈ db.segments, old.jobId = segment.jobId ∧
      old.recordingId = segment.recordingId) :
    TranscriptOwnership { db with segments, searchIndex } where
  ids := h.ids
  owned segment hmem := by
    obtain ⟨old, hold, hjob, hrecording⟩ := hsegments segment hmem
    obtain ⟨job, hmem', hid, hof⟩ := h.owned old hold
    exact ⟨job, hmem', hid.trans hjob, hof.trans hrecording⟩
  executing := h.executing
  oneLease := h.oneLease
  single segment hmem := by
    obtain ⟨old, hold, hjob, -⟩ := hsegments segment hmem
    rw [← hjob]
    exact h.single old hold

/-! ## Job operations -/

theorem tame_claimedJob (now : Int) : Tame (claimedJob now) :=
  ⟨fun _ => rfl, fun _ => rfl, fun _ hstate => by cases hstate⟩

theorem transcriptOwnership_statements : StatementsKeep Tame TranscriptOwnership where
  jobs _ _ _ htame hI _ := hI.updated htame
  newJob db job hI hinsertable hqueued := by
    obtain ⟨hnew, -, -⟩ := hinsertable
    have hfresh : ∀ other ∈ db.jobs, other.id ≠ job.id := by
      unfold Database.job? at hnew
      simpa only [Option.isNone_iff_eq_none, List.find?_eq_none, beq_iff_eq] using hnew
    have hnot : job.state ≠ .completed := by
      rw [hqueued]
      decide
    refine ⟨?_, fun segment hmem => ?_, fun lease hlease other hmem hid => ?_, hI.oneLease, ?_⟩
    · refine List.pairwise_append.mpr ⟨hI.ids, List.pairwise_singleton .., fun a ha b hb => ?_⟩
      rw [List.mem_singleton.mp hb]
      exact hfresh a ha
    · obtain ⟨owner, howner, hid, hof⟩ := hI.owned segment hmem
      exact ⟨owner, List.mem_append_left _ howner, hid, hof⟩
    · rcases List.mem_append.mp hmem with hmem | hmem
      · exact hI.executing lease hlease other hmem hid
      · rw [List.mem_singleton.mp hmem]
        exact hnot
    · rintro segment hmem ⟨recording, hrecording, other, hother, hid, hof, hcompleted, hactive⟩
      rcases List.mem_append.mp hother with hother | hother
      · exact hI.single segment hmem
          ⟨recording, hrecording, other, hother, hid, hof, hcompleted, hactive⟩
      · rw [List.mem_singleton.mp hother] at hcompleted
        exact hnot hcompleted
  claim db now jobId lease hI _ hjobId hqueued _ := by
    have hupdated : TranscriptOwnership { db with jobs := claimedRows now jobId db.jobs } :=
      hI.updated (tame_claimedJob now)
    refine ⟨hupdated.ids, hupdated.owned, fun row hrow job hjob hid hcompleted => ?_, Nat.le_refl 1,
      hupdated.single⟩
    rw [List.mem_singleton.mp hrow, hjobId] at hid
    -- the only row with that id is the one that has just been claimed
    obtain ⟨claimed, hclaimed, hclaimedId, hstate⟩ := hqueued
    obtain ⟨old, hold, rfl⟩ := mem_updateRows.mp hjob
    have hsame : old = claimed := by
      refine hI.eq_of_id hold hclaimed ?_
      rw [hclaimedId]
      split at hid
      · exact hid
      · exact hid
    have hwhich : (old.id == jobId && old.state == .queued) = true := by
      rw [hsame, hclaimedId, hstate]
      simp only [beq_self_eq_true, Bool.and_self]
    rw [if_pos hwhich] at hcompleted
    cases hcompleted
  chunks _ _ hI := ⟨hI.ids, hI.owned, hI.executing, hI.oneLease, hI.single⟩
  detach db which hI := by
    have hsegments : TranscriptOwnership { db with segments := (detachChunks which db).segments } := by
      refine hI.withSegments db.searchIndex fun segment hmem => ?_
      obtain ⟨old, hold, hsame⟩ := mem_detachChunks hmem
      rw [hsame]
      exact ⟨old, hold, rfl, rfl⟩
    exact ⟨hsegments.ids, hsegments.owned, hsegments.executing, hsegments.oneLease, hsegments.single⟩
  events _ _ _ hI := ⟨hI.ids, hI.owned, hI.executing, hI.oneLease, hI.single⟩
  index _ _ hI := hI.withSegments _ fun segment hmem => ⟨segment, hmem, rfl, rfl⟩
  leases db leases hI hlength hjobs := by
    refine ⟨hI.ids, hI.owned, fun lease hmem job hjob hid => ?_, hlength.trans hI.oneLease, hI.single⟩
    obtain ⟨old, hold, hsame⟩ := hjobs lease hmem
    exact hI.executing old hold job hjob (hid.trans hsame.symm)
  cascade db which hI := by
    have hfrom : ∀ segment ∈ (cascadeJobs which db).segments, ∃ old ∈ db.segments,
        old.jobId = segment.jobId ∧ old.recordingId = segment.recordingId := by
      intro segment hmem
      obtain ⟨old, hold, hsame⟩ := mem_detachChunks (List.mem_filter.mp hmem).1
      rw [hsame]
      exact ⟨old, hold, rfl, rfl⟩
    have hjobs : JobsFrom db.jobs (cascadeJobs which db).jobs := fun job hjob =>
      ⟨job, (List.mem_filter.mp hjob).1, rfl, rfl, fun hstate => hstate⟩
    refine ⟨hI.ids.sublist List.filter_sublist, fun segment hmem => ?_, fun lease hmem job hjob => ?_,
      (List.length_filter_le _ _).trans hI.oneLease, fun segment hmem => ?_⟩
    · obtain ⟨old, hold, hjob, hrecording⟩ := hfrom segment hmem
      obtain ⟨job, hmem', hid, hof⟩ := hI.owned old hold
      refine ⟨job, List.mem_filter.mpr ⟨hmem', ?_⟩, hid.trans hjob, hof.trans hrecording⟩
      -- the job of a segment that stays is not among those that go
      have hkept := (List.mem_filter.mp hmem).2
      simp only [Bool.not_eq_true', List.any_eq_false, Bool.and_eq_true, beq_iff_eq, not_and] at hkept
      have hnot := mt (hkept job hmem')
      simpa [hid.trans hjob] using hnot
    · exact hI.executing lease (List.mem_filter.mp hmem).1 job (List.mem_filter.mp hjob).1
    · obtain ⟨old, hold, hjob, -⟩ := hfrom segment hmem
      rw [← hjob]
      exact not_superseded_of_jobsFrom hjobs (hI.single old hold)

/-! ## Completing a job -/

/-- The jobs once one of them is completed and the others of its recording are archived. -/
def archivedRows (now : Int) (recordingId jobId : QString) (jobs : List TranscriptionJob) :
    List TranscriptionJob :=
  updateRows (fun job => job.recordingId == recordingId && job.id != jobId && job.state == .completed)
    (fun job => { job with queueHidden := true }) (completedRows now recordingId jobId jobs)

/-- Whose job it is does not change. -/
theorem archivedRows_owners (recordingId jobId : QString) (jobs : List TranscriptionJob) :
    (archivedRows now recordingId jobId jobs).map (fun job => (job.id, job.recordingId)) =
      jobs.map fun job => (job.id, job.recordingId) := by
  unfold archivedRows completedRows
  refine (map_updateRows ?_ _).trans (map_updateRows ?_ _)
  · exact fun _ => rfl
  · exact fun _ => rfl

theorem mem_completedRows {recordingId jobId : QString} {jobs : List TranscriptionJob}
    {job : TranscriptionJob} (hmem : job ∈ jobs) (hother : job.id ≠ jobId) :
    job ∈ completedRows now recordingId jobId jobs := by
  refine mem_updateRows.mpr ⟨job, hmem, ?_⟩
  rw [beq_eq_false_iff_ne.mpr hother, Bool.false_and, Bool.false_and, if_neg Bool.false_ne_true]

/-- Every other job keeps its state. -/
theorem mem_archivedRows {recordingId jobId : QString} {jobs : List TranscriptionJob}
    {job : TranscriptionJob} (hmem : job ∈ archivedRows now recordingId jobId jobs) :
    ∃ old ∈ jobs, old.id = job.id ∧ old.recordingId = job.recordingId ∧
      (job.id ≠ jobId → old.state = job.state) := by
  obtain ⟨completed, hcompleted, rfl⟩ := mem_updateRows.mp hmem
  obtain ⟨old, hold, rfl⟩ := mem_updateRows.mp hcompleted
  refine ⟨old, hold, ?_⟩
  by_cases hjob : (old.id == jobId && old.recordingId == recordingId && old.state == .finalizing) = true
  · have hid : old.id = jobId := by
      simp only [Bool.and_eq_true, beq_iff_eq] at hjob
      exact hjob.1.1
    rw [if_pos hjob]
    split
    · exact ⟨rfl, rfl, fun hne => absurd hid hne⟩
    · exact ⟨rfl, rfl, fun hne => absurd hid hne⟩
  · rw [if_neg hjob]
    split
    · exact ⟨rfl, rfl, fun _ => rfl⟩
    · exact ⟨rfl, rfl, fun _ => rfl⟩

/-- **Completing a job** supersedes the others of the recording and discards their segments. -/
theorem transcriptOwnership_completeAndActivate {recordingId jobId ownerToken : QString}
    (hI : TranscriptOwnership db)
    (hok : completeAndActivate t now recordingId jobId ownerToken db = (.ok (), db')) :
    TranscriptOwnership db' := by
  obtain ⟨hlease, ⟨active, hactive, hof, -⟩, hrecordings, hjobs, hsegments, hleases⟩ :=
    completeAndActivate_ok hok
  change db'.jobs = archivedRows now recordingId jobId db.jobs at hjobs
  rw [released_of_holdsLease hI.oneLease hlease] at hleases
  have howners : db'.jobs.map (fun job => (job.id, job.recordingId)) =
      db.jobs.map fun job => (job.id, job.recordingId) := by
    rw [hjobs]
    exact archivedRows_owners recordingId jobId db.jobs
  have hkept : ∀ segment ∈ db'.segments, segment ∈ db.segments := by
    intro segment hmem
    rw [hsegments] at hmem
    exact (List.mem_filter.mp hmem).1
  refine ⟨?_, fun segment hmem => ?_, fun lease hmem => ?_, ?_, ?_⟩
  · have hids : db'.jobs.map (·.id) = db.jobs.map (·.id) := by
      simpa only [List.map_map, Function.comp_def] using congrArg (List.map Prod.fst) howners
    exact List.pairwise_map.mp (hids ▸ List.pairwise_map.mpr hI.ids)
  · obtain ⟨job, hjob, hid, hrecording⟩ := hI.owned segment (hkept segment hmem)
    have hafter : (job.id, job.recordingId) ∈ db'.jobs.map fun job => (job.id, job.recordingId) := by
      rw [howners]
      exact List.mem_map_of_mem hjob
    obtain ⟨after, hmem', hsame⟩ := List.mem_map.mp hafter
    obtain ⟨hid', hrecording'⟩ := Prod.ext_iff.mp hsame
    exact ⟨after, hmem', hid'.trans hid, hrecording'.trans hrecording⟩
  · rw [hleases] at hmem
    cases hmem
  · rw [hleases]
    exact Nat.zero_le 1
  · rintro segment hmem ⟨recording, hrecording, job, hjob, hid, hjobOf, hcompleted, hnotActive⟩
    rw [hrecordings] at hrecording
    obtain ⟨before, hbefore, rfl⟩ := mem_updateRows.mp hrecording
    rw [hjobs] at hjob
    obtain ⟨old, hold, holdId, holdOf, hstate⟩ := mem_archivedRows hjob
    have hrecordingId : before.id = old.recordingId := by
      rw [holdOf, hjobOf]
      split <;> rfl
    by_cases hsame : old.recordingId = recordingId
    · have hwhich : (before.id == recordingId) = true := by rw [hrecordingId, hsame, beq_self_eq_true]
      rw [if_pos hwhich] at hnotActive
      have hother : job.id ≠ jobId := fun heq => hnotActive (by rw [← hid, heq])
      -- its segments have just gone
      obtain ⟨owner, howner, hownerId, hownerOf⟩ := hI.owned segment (hkept segment hmem)
      have howner' : owner = old := hI.eq_of_id howner hold (hownerId.trans (holdId.trans hid).symm)
      subst howner'
      have hcompletedRow : owner ∈ completedRows now recordingId jobId db.jobs :=
        mem_completedRows hold fun heq => hother (holdId.symm.trans heq)
      rw [hsegments] at hmem
      have hstays := (List.mem_filter.mp hmem).2
      simp only [isSuperseded, Bool.not_eq_true', Bool.and_eq_false_iff, List.any_eq_false] at hstays
      rcases hstays with hstays | hstays
      · rcases hstays with hstays | hstays
        · rw [← hownerOf, hsame, beq_self_eq_true] at hstays
          cases hstays
        · rw [bne_eq_false_iff_eq] at hstays
          exact hother (hid.trans hstays)
      · refine hstays owner hcompletedRow ?_
        rw [hsame, hstate hother, hcompleted, hownerId]
        simp only [beq_self_eq_true, Bool.and_self]
    · -- the job of another recording was superseded before
      have hwhich : ¬ (before.id == recordingId) = true := by
        rw [hrecordingId, beq_iff_eq]
        exact hsame
      rw [if_neg hwhich] at hnotActive
      have hother : job.id ≠ jobId := by
        intro heq
        obtain ⟨hmem', hactiveId⟩ := of_job? hactive
        have hfound : old = active := hI.eq_of_id hold hmem' ((holdId.trans heq).trans hactiveId.symm)
        exact hsame (hfound ▸ hof)
      exact hI.single segment (hkept segment hmem)
        ⟨before, hbefore, old, hold, holdId.trans hid, hrecordingId.symm, (hstate hother).trans hcompleted,
          hnotActive⟩

/-! ## Transcript operations -/

/-- The rows of a job may be replaced as long as the job is not superseded. -/
theorem TranscriptOwnership.rewritten (hI : TranscriptOwnership db) {recordingId jobId : QString}
    {newId : Nat → QString} {list : List TranscriptSegment} {allowOverlap : Bool}
    (hjob : ∃ job, JobOf db recordingId jobId job) (hcurrent : ¬ Superseded db jobId)
    (h : Rewritten now newId recordingId jobId list allowOverlap db db') : TranscriptOwnership db' := by
  have hrows : ∀ row, row ∈ db'.segments ↔ (row ∈ db.segments ∧ row.jobId ≠ jobId) ∨
      row ∈ storedRows now newId recordingId jobId 0 list := fun row => h.mem_segments
  have hresult := h.result
  rw [hresult]
  refine ⟨hI.ids, fun segment hmem => ?_, hI.executing, hI.oneLease, fun segment hmem => ?_⟩
  · rw [← hresult] at hmem
    rcases (hrows segment).mp hmem with ⟨hold, -⟩ | hstored
    · exact hI.owned segment hold
    · obtain ⟨job, hfound, hof⟩ := hjob
      obtain ⟨hmem', hid⟩ := of_job? hfound
      obtain ⟨k, source, -, rfl⟩ := mem_storedRows.mp hstored
      exact ⟨job, hmem', hid, hof⟩
  · rw [← hresult] at hmem
    rcases (hrows segment).mp hmem with ⟨hold, -⟩ | hstored
    · exact hI.single segment hold
    · rw [storedRows_jobId hstored]
      exact hcurrent

/-- An executor writes no superseded transcript. -/
theorem TranscriptOwnership.executing_current (hI : TranscriptOwnership db) {jobId ownerToken : QString}
    (hlease : db.holdsLease now jobId ownerToken = true) : ¬ Superseded db jobId := by
  obtain ⟨lease, hfound, -⟩ := (Option.any_eq_true ..).mp hlease
  have hlease := List.find?_some hfound
  rw [Bool.and_eq_true, beq_iff_eq] at hlease
  rintro ⟨recording, -, job, hjob, hid, -, hcompleted, -⟩
  exact hI.executing lease (List.mem_of_find?_eq_some hfound) job hjob (hid.trans hlease.1.symm) hcompleted

/-- The recording, the job and the list of a save of a whole transcript. -/
def Operation.savedTranscript? : Operation → Option (QString × QString × List TranscriptSegment)
  | .replaceTranscript recordingId jobId segments => some (recordingId, jobId, segments)
  | .saveEditedTranscript recordingId jobId segments => some (recordingId, jobId, segments)
  | _ => none

/-- A list that passes the checks is saved as the transcript of a superseded job. -/
def SavesSuperseded (db : Database) (step : Step) : Prop :=
  ∃ recordingId jobId segments,
    step.operation.savedTranscript? = some (recordingId, jobId, segments) ∧ Superseded db jobId ∧
      Editable db step.now recordingId jobId ∧ validateSegments segments = .ok () ∧
      ∀ segment ∈ segments, Belongs db recordingId jobId segment

/-- Callers complete a job by `completeAndActivate`, never by `transition`. -/
def CompletesByActivation (step : Step) : Prop :=
  ∀ id code message owner, step.operation ≠ .transition id .completed code message owner

/-- What an accepted save has passed. -/
theorem save_ok {step : Step} {recordingId jobId : QString} {segments : List TranscriptSegment}
    (hsave : step.operation.savedTranscript? = some (recordingId, jobId, segments))
    (haccepted : Accepted t db step) :
    Editable db step.now recordingId jobId ∧
      Rewritten step.now step.newId recordingId jobId segments false db (performed t db step) := by
  have hok : perform t db step = (.ok (), performed t db step) := accepted_eq haccepted
  unfold perform at hok
  cases hop : step.operation <;> rw [hop] at hsave hok <;> cases hsave
  case replaceTranscript =>
    obtain ⟨heditable, -, hrewritten⟩ := replaceTranscript_ok hok
    exact ⟨heditable, hrewritten⟩
  case saveEditedTranscript => exact saveEditedTranscript_ok hok

/-- **No accepted save is into a superseded transcript**, but for the defect. -/
theorem accepted_save_current {step : Step} {recordingId jobId : QString}
    {segments : List TranscriptSegment} (hnot : ¬ SavesSuperseded db step)
    (hsave : step.operation.savedTranscript? = some (recordingId, jobId, segments))
    (haccepted : Accepted t db step) : ¬ Superseded db jobId := by
  intro hsuperseded
  obtain ⟨heditable, hrewritten⟩ := save_ok hsave haccepted
  exact hnot ⟨recordingId, jobId, segments, hsave, hsuperseded, heditable, hrewritten.valid,
    hrewritten.belongs⟩

/-- One accepted transcript operation. -/
theorem accepted_transcriptOwnership {step : Step} (hI : TranscriptOwnership db)
    (htranscript : step.operation.isTranscript = true) (hnot : ¬ SavesSuperseded db step)
    (haccepted : Accepted t db step) : TranscriptOwnership (performed t db step) := by
  have hok : perform t db step = (.ok (), performed t db step) := accepted_eq haccepted
  have hsaved : ∀ {recordingId jobId segments},
      step.operation.savedTranscript? = some (recordingId, jobId, segments) →
      TranscriptOwnership (performed t db step) := by
    intro recordingId jobId segments hsave
    obtain ⟨⟨job, hjob, -⟩, hrewritten⟩ := save_ok hsave haccepted
    exact hI.rewritten ⟨job, hjob⟩ (accepted_save_current hnot hsave haccepted) hrewritten
  unfold perform at hok
  cases hop : step.operation <;> rw [hop] at htranscript hok
  case replaceTranscript => exact hsaved (by rw [hop]; rfl)
  case saveEditedTranscript => exact hsaved (by rw [hop]; rfl)
  case replaceChunk =>
    obtain ⟨hlease, hjob, -, -, hrewritten⟩ := replaceChunk_ok hok
    exact hI.rewritten hjob (hI.executing_current hlease) hrewritten
  case saveEditedSegment =>
    obtain ⟨durable, -, hresult⟩ := saveEditedSegment_ok hok
    rw [hresult]
    refine hI.withSegments _ fun segment hmem => ?_
    obtain ⟨old, hold, rfl⟩ := mem_updateRows.mp hmem
    refine ⟨old, hold, ?_⟩
    split <;> exact ⟨rfl, rfl⟩
  case deleteSegment =>
    rcases deleteSegment_ok hok with hsame | ⟨durable, -, -, hresult⟩
    · rw [hsame]
      exact hI
    · rw [hresult]
      refine hI.withSegments _ fun segment hmem => ?_
      exact ⟨segment, (List.mem_filter.mp hmem).1, rfl, rfl⟩
  all_goals cases htranscript

/-! ## Every run -/

/-- One step keeps the transcripts single, unless it saves into a superseded one. -/
theorem performed_transcriptOwnership (step : Step) (hI : TranscriptOwnership db)
    (hcaller : CompletesByActivation step) (hnot : ¬ SavesSuperseded db step) :
    TranscriptOwnership (performed t db step) := by
  rcases accepted_or_unchanged t db step with haccepted | hsame
  · cases htranscript : step.operation.isTranscript with
    | true => exact accepted_transcriptOwnership hI htranscript hnot haccepted
    | false =>
      cases hcompletes : step.operation.completes with
      | false =>
        exact performed_job transcriptOwnership_statements (fun _ htame => htame) htranscript
          hcompletes hI
      | true =>
        have hok : perform t db step = (.ok (), performed t db step) := accepted_eq haccepted
        unfold perform at hok
        cases hop : step.operation <;> rw [hop] at hcompletes hok
        case completeAndActivate => exact transcriptOwnership_completeAndActivate hI hok
        case transition id state code message owner =>
          exact absurd (beq_iff_eq.mp hcompletes ▸ hop) (hcaller id code message owner)
        all_goals cases hcompletes
  · rw [hsame]
    exact hI

/-- **One current transcript**: in every state of every run that never saves into a superseded
    transcript, no superseded job owns segments, and the next accepted save is into no such job
    either. -/
theorem single_transcript (t : CharTables) (db : Database) (steps : List Step)
    (hstart : TranscriptOwnership db)
    (hsteps : Guarded (performed t) (fun s step => CompletesByActivation step ∧ ¬ SavesSuperseded s step)
      db steps) :
    ∀ s ∈ states (performed t) db steps, SingleTranscript s ∧
      ∀ step recordingId jobId segments, ¬ SavesSuperseded s step →
        step.operation.savedTranscript? = some (recordingId, jobId, segments) → Accepted t s step →
        ¬ Superseded s jobId := by
  have hkeeps : StepKeeps (performed t)
      (fun s step => CompletesByActivation step ∧ ¬ SavesSuperseded s step) TranscriptOwnership :=
    fun s step hI hguard => performed_transcriptOwnership step hI hguard.1 hguard.2
  intro s hs
  have hI := states_invariant hkeeps hstart hsteps s hs
  exact ⟨hI.single, fun step recordingId jobId segments hnot hsave haccepted =>
    accepted_save_current hnot hsave haccepted⟩

/-! ## A save into a superseded transcript -/

/-- A job of the recording runs from the queue to its completion. -/
def transcription (jobId : QString) : List Operation :=
  [.createQueued { id := jobId, recordingId := qs "recording" },
    .claimQueued jobId (qs "owner") 60000,
    .transition jobId .loadingModel [] [] (qs "owner"),
    .transition jobId .transcribing [] [] (qs "owner"),
    .transition jobId .finalizing [] [] (qs "owner"),
    .completeAndActivate (qs "recording") jobId (qs "owner")]

def atOnce (operation : Operation) : Step := { now := 0, newId := fun _ => [], operation }

/-- The recording is transcribed twice. -/
def retranscription : List Step :=
  (transcription (qs "first") ++ transcription (qs "second")).map atOnce

def oneRecording : Database := { recordings := [{ id := qs "recording" }] }

/-- The transcript of the first job is saved once more. -/
def editFirst : Step :=
  atOnce (.saveEditedTranscript (qs "recording") (qs "first")
    [{ id := qs "segment", startMs := 0, endMs := 1000, originalText := qs "hello" }])

theorem single_transcript_retranscription :
    SingleTranscript (run (performed asciiTables) oneRecording retranscription) := by
  have hsteps : ∀ step ∈ retranscription, ∀ s, CompletesByActivation step ∧ ¬ SavesSuperseded s step := by
    intro step hmem s
    have hplain : step.operation.savedTranscript? = none ∧
        ∀ id code message owner, step.operation ≠ .transition id .completed code message owner := by
      revert step
      simp [retranscription, transcription, atOnce, Operation.savedTranscript?]
    refine ⟨hplain.2, ?_⟩
    rintro ⟨_, _, _, hsave, -⟩
    rw [hplain.1] at hsave
    cases hsave
  exact (single_transcript asciiTables oneRecording retranscription
    (transcriptOwnership_of_empty List.Pairwise.nil rfl rfl) (guarded_of_forall hsteps _) _
    (run_mem_states _ _)).1

set_option maxRecDepth 2000 in
/-- **A lost edit.**  The second job has replaced the transcript of the first; saving that transcript
    still succeeds, and the segments come back under the superseded job. -/
theorem save_into_superseded :
    Accepted asciiTables (run (performed asciiTables) oneRecording retranscription) editFirst ∧
      Superseded (run (performed asciiTables) oneRecording retranscription) (qs "first") ∧
      ¬ SingleTranscript (run (performed asciiTables) oneRecording (retranscription ++ [editFirst])) := by
  decide

end BreezeDesk
