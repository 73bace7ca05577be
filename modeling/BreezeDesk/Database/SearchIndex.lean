/-
  The search index holds what would be computed afresh.

  The index is derived data: one row for each recording, computed from its metadata and the texts of its
  active transcript.  No trigger ties the two together; every operation that changes something a row is
  computed from has to rebuild that row itself.

  The argument is about one recording at a time.  `Fresh` compares the rows that are stored with the
  ones that are due; a step that leaves both as they were keeps it (`Fresh.congr`), and rebuilding the
  row of one recording restores it there and leaves the others alone (`fresh_rebuilt`).  What an
  operation changes about the *other* recordings is nothing, because a segment belongs to the recording
  of its job (`SegmentsOwned`).

  One write skips the rebuilding on purpose: an unconfirmed chunk of the job that is executed.  The
  index is current in every state of the runs in which that job is not the one its recording shows
  (`search_index`).
-/
import BreezeDesk.Transcript.ActiveTranscript
import Mathlib.Data.List.Find

namespace BreezeDesk

open Transaction Runs

/-! ## What is stored and what is due -/

/-- Every recording is found by what it says now, and nothing else is found. -/
structure IndexCurrent (db : Database) : Prop where
  rows : ∀ recording ∈ db.recordings,
    (db.searchIndex.filter fun entry => entry.recordingId == recording.id) = [searchEntry db recording]
  known : ∀ entry ∈ db.searchIndex, ∃ recording ∈ db.recordings, recording.id = entry.recordingId

/-- The texts that are indexed for a recording with an active job. -/
def transcriptTexts (segments : List TranscriptSegment) (recordingId : QString) (activeJobId : Option QString) :
    List QString :=
  (segments.filter fun segment => segment.recordingId == recordingId && activeJobId == some segment.jobId).map
    (·.displayText)

def indexRows (db : Database) (id : QString) : List SearchEntry :=
  db.searchIndex.filter fun entry => entry.recordingId == id

def dueRows (db : Database) (id : QString) : List SearchEntry :=
  ((db.recording? id).map (searchEntry db)).toList

def Fresh (db : Database) (id : QString) : Prop := indexRows db id = dueRows db id

/-- The columns of a recording that its row is computed from. -/
def indexedColumns (recording : Recording) : QString × QString × QString × List QString × Option QString :=
  (recording.id, recording.title, recording.notes, recording.tags, recording.activeJobId)

variable {t : CharTables} {db db' base : Database} {now : Int} {id other : QString}

theorem recording?_eq (hdb : RecordingsInOrder db) {recording : Recording} (hmem : recording ∈ db.recordings) :
    db.recording? recording.id = some recording := by
  cases hfound : db.recording? recording.id with
  | none =>
    have hnone := List.find?_eq_none.mp hfound recording hmem
    exact absurd (beq_self_eq_true recording.id) hnone
  | some found =>
    obtain ⟨hfoundMem, hid⟩ := of_recording? hfound
    rw [hdb.eq_of_id hfoundMem hmem hid]

/-- Where the row of every id is the one that is due, the index is current. -/
theorem indexCurrent_of_fresh (hdb : RecordingsInOrder db) (h : ∀ id, Fresh db id) : IndexCurrent db where
  rows recording hmem := by
    have hfresh : indexRows db recording.id = dueRows db recording.id := h recording.id
    unfold dueRows at hfresh
    rw [recording?_eq hdb hmem] at hfresh
    exact hfresh
  known entry hentry := by
    have hrow : entry ∈ indexRows db entry.recordingId :=
      List.mem_filter.mpr ⟨hentry, beq_self_eq_true _⟩
    rw [show indexRows db entry.recordingId = dueRows db entry.recordingId from h _] at hrow
    unfold dueRows at hrow
    cases hfound : db.recording? entry.recordingId with
    | none =>
      rw [hfound] at hrow
      cases hrow
    | some recording => exact ⟨recording, of_recording? hfound⟩

/-! ## Keeping a row current -/

theorem searchEntry_eq (db : Database) (recording : Recording) :
    searchEntry db recording = ⟨recording.id, recording.title, recording.notes, joinSpace recording.tags,
      joinSpace (transcriptTexts db.segments recording.id recording.activeJobId)⟩ := rfl

theorem searchEntry_congr {old new : Recording} (hcolumns : indexedColumns new = indexedColumns old)
    (htexts : transcriptTexts db'.segments old.id old.activeJobId =
      transcriptTexts db.segments old.id old.activeJobId) :
    searchEntry db' new = searchEntry db old := by
  simp only [indexedColumns, Prod.mk.injEq] at hcolumns
  obtain ⟨hid, htitle, hnotes, htags, hactive⟩ := hcolumns
  rw [searchEntry_eq, searchEntry_eq, hid, htitle, hnotes, htags, hactive, htexts]

/-- **A step that changes neither** the row of a recording nor what it is computed from. -/
theorem Fresh.congr (h : Fresh db id) (hindex : indexRows db' id = indexRows db id)
    (hcolumns : (db'.recording? id).map indexedColumns = (db.recording? id).map indexedColumns)
    (htexts : ∀ recording ∈ db.recording? id, transcriptTexts db'.segments id recording.activeJobId =
      transcriptTexts db.segments id recording.activeJobId) : Fresh db' id := by
  have hdue : dueRows db' id = dueRows db id := by
    unfold dueRows
    cases hold : db.recording? id with
    | none =>
      rw [hold] at hcolumns
      rw [Option.map_eq_none_iff.mp hcolumns]
      rfl
    | some old =>
      rw [hold] at hcolumns
      obtain ⟨new, hnew, hcolumns⟩ := Option.map_eq_some_iff.mp hcolumns
      have hid : old.id = id := (of_recording? hold).2
      rw [hnew]
      refine congrArg (fun entry => [entry]) (searchEntry_congr hcolumns ?_)
      rw [hid]
      exact htexts old hold
  exact (hindex.trans h).trans hdue.symm

/-- **Rebuilding** the row of one recording makes it current and leaves the others as they are. -/
theorem fresh_rebuilt (hothers : ∀ other, other ≠ id → Fresh db other)
    (hgone : db.recording? id = none → Fresh db id) : ∀ other, Fresh (rebuiltIndex id db) other := by
  intro other
  cases hfound : db.recording? id with
  | none =>
    have hsame : rebuiltIndex id db = db := by
      unfold rebuiltIndex
      rw [hfound]
    rw [hsame]
    by_cases hid : other = id
    · exact hid ▸ hgone hfound
    · exact hothers other hid
  | some recording =>
    have hrebuilt : rebuiltIndex id db = { db with searchIndex :=
        (db.searchIndex.filter fun entry => entry.recordingId != id) ++ [searchEntry db recording] } := by
      unfold rebuiltIndex
      rw [hfound]
    have hentry : (searchEntry db recording).recordingId = id := (of_recording? hfound).2
    rw [hrebuilt]
    by_cases hid : other = id
    · subst hid
      show List.filter (fun entry => entry.recordingId == other) (_ ++ [searchEntry db recording]) =
        ((db.recording? other).map (searchEntry db)).toList
      have hold : ((db.searchIndex.filter fun entry => entry.recordingId != other).filter fun entry =>
          entry.recordingId == other) = [] := by
        rw [List.filter_filter]
        refine List.filter_eq_nil_iff.mpr fun entry _ hboth => ?_
        rw [Bool.and_eq_true, beq_iff_eq, bne_iff_ne] at hboth
        exact hboth.2 hboth.1
      rw [hfound, List.filter_append, hold, List.filter_singleton, hentry, beq_self_eq_true]
      rfl
    · have hindex : indexRows { db with searchIndex :=
          (db.searchIndex.filter fun entry => entry.recordingId != id) ++ [searchEntry db recording] } other =
          indexRows db other := by
        show List.filter (fun entry => entry.recordingId == other) (_ ++ [searchEntry db recording]) = _
        have hnew : ((searchEntry db recording).recordingId == other) = false := by
          rw [hentry]
          exact beq_eq_false_iff_ne.mpr fun heq => hid heq.symm
        rw [List.filter_append, List.filter_singleton, hnew, List.filter_filter]
        refine (List.append_nil _).trans (List.filter_congr fun entry _ => ?_)
        by_cases hother : entry.recordingId = other
        · rw [hother, beq_self_eq_true, Bool.true_and]
          exact bne_iff_ne.mpr hid
        · rw [beq_eq_false_iff_ne.mpr hother, Bool.false_and]
      exact (hothers other hid).congr hindex rfl fun _ _ => rfl

/-! ## Recordings and segments that stay -/

theorem recording?_updateRows {which : Recording → Bool} {update : Recording → Recording}
    (hrows : db'.recordings = updateRows which update db.recordings) (hid : ∀ row, (update row).id = row.id) :
    db'.recording? id = (db.recording? id).map fun row => if which row then update row else row := by
  unfold Database.recording?
  rw [hrows]
  unfold updateRows
  rw [List.find?_map]
  refine congrArg _ (congrArg (List.find? · db.recordings) (funext fun row => ?_))
  rw [Function.comp_apply]
  split
  · rw [hid]
  · rfl

theorem recording?_none_of_updateRows {which : Recording → Bool} {update : Recording → Recording}
    (hrows : db'.recordings = updateRows which update db.recordings) (hid : ∀ row, (update row).id = row.id)
    (hnone : db'.recording? id = none) : db.recording? id = none :=
  Option.map_eq_none_iff.mp ((recording?_updateRows hrows hid).symm.trans hnone)

/-- An update of one recording leaves the others. -/
theorem recording?_updateOther {update : Recording → Recording}
    (hrows : db'.recordings = updateRows (fun recording => recording.id == id) update db.recordings)
    (hid : ∀ row, (update row).id = row.id) (hother : other ≠ id) :
    db'.recording? other = db.recording? other := by
  rw [recording?_updateRows hrows hid]
  cases hfound : db.recording? other with
  | none => rfl
  | some recording =>
    have hne : (recording.id == id) = false := by
      rw [(of_recording? hfound).2]
      exact beq_eq_false_iff_ne.mpr hother
    show some (if recording.id == id then _ else _) = _
    rw [hne]
    rfl

/-- Segments of the recording stay. -/
theorem transcriptTexts_filter {segments : List TranscriptSegment} {keep : TranscriptSegment → Bool}
    {activeJobId : Option QString}
    (h : ∀ segment ∈ segments, segment.recordingId = id → activeJobId = some segment.jobId →
      keep segment = true) :
    transcriptTexts (segments.filter keep) id activeJobId = transcriptTexts segments id activeJobId := by
  unfold transcriptTexts
  rw [List.filter_filter]
  refine congrArg _ (List.filter_congr fun segment hsegment => ?_)
  by_cases hshown : (segment.recordingId == id && activeJobId == some segment.jobId) = true
  · have hboth := hshown
    rw [Bool.and_eq_true, beq_iff_eq, beq_iff_eq] at hboth
    rw [hshown, h segment hsegment hboth.1 hboth.2]
    rfl
  · rw [Bool.eq_false_iff.mpr hshown, Bool.false_and]

theorem transcriptTexts_append (first second : List TranscriptSegment) (activeJobId : Option QString) :
    transcriptTexts (first ++ second) id activeJobId =
      transcriptTexts first id activeJobId ++ transcriptTexts second id activeJobId := by
  unfold transcriptTexts
  rw [List.filter_append, List.map_append]

/-- Segments may change in everything but their owner and, in this recording, their text. -/
theorem transcriptTexts_map {segments : List TranscriptSegment} {update : TranscriptSegment → TranscriptSegment}
    {activeJobId : Option QString}
    (howner : ∀ segment, (update segment).recordingId = segment.recordingId ∧
      (update segment).jobId = segment.jobId)
    (htext : ∀ segment, segment.recordingId = id → (update segment).displayText = segment.displayText) :
    transcriptTexts (segments.map update) id activeJobId = transcriptTexts segments id activeJobId := by
  unfold transcriptTexts
  rw [List.filter_map, List.map_map]
  have hshown : ((fun segment : TranscriptSegment =>
      segment.recordingId == id && activeJobId == some segment.jobId) ∘ update) = fun segment =>
      segment.recordingId == id && activeJobId == some segment.jobId := by
    funext segment
    rw [Function.comp_apply, (howner segment).1, (howner segment).2]
  rw [hshown]
  refine List.map_congr_left fun segment hsegment => ?_
  have hboth := (List.mem_filter.mp hsegment).2
  rw [Bool.and_eq_true, beq_iff_eq] at hboth
  exact htext segment hboth.1

/-! ## Segments belong to the recording of their job -/

def SegmentsOwned (db : Database) : Prop :=
  ∀ segment ∈ db.segments, ∃ job ∈ db.jobs, job.id = segment.jobId ∧ job.recordingId = segment.recordingId

/-- Owners may be updated as long as they stay where they belong. -/
theorem segmentsOwned_updateRows {which : TranscriptionJob → Bool}
    {update : TranscriptionJob → TranscriptionJob} (hupdate : Rooted update) (h : SegmentsOwned db) :
    SegmentsOwned { db with jobs := updateRows which update db.jobs } := by
  intro segment hsegment
  obtain ⟨job, hjob, hid, hbelongs⟩ := h segment hsegment
  refine ⟨_, mem_updateRows.mpr ⟨job, hjob, rfl⟩, ?_⟩
  split
  · exact ⟨(hupdate.id job).trans hid, (hupdate.recordingId job).trans hbelongs⟩
  · exact ⟨hid, hbelongs⟩

theorem segmentsOwned_cascade (which : TranscriptionJob → Bool) (h : SegmentsOwned db) :
    SegmentsOwned (cascadeJobs which db) := by
  intro segment hsegment
  obtain ⟨hmem, hkept⟩ := List.mem_filter.mp hsegment
  obtain ⟨old, hold, hsame⟩ := mem_detachChunks hmem
  rw [hsame] at hkept ⊢
  obtain ⟨job, hjob, hid, hbelongs⟩ := h old hold
  refine ⟨job, List.mem_filter.mpr ⟨hjob, ?_⟩, hid, hbelongs⟩
  -- a segment that is kept has no deleted job
  rw [Bool.not_eq_true'] at hkept ⊢
  have hstays := List.any_eq_false.mp hkept job hjob
  rw [hid, beq_self_eq_true, Bool.and_true] at hstays
  exact Bool.eq_false_iff.mpr hstays

theorem segmentsOwned_statements : StatementsKeep Rooted SegmentsOwned where
  jobs _ _ _ hrooted hI _ := segmentsOwned_updateRows hrooted hI
  newJob db job hI _ _ := fun segment hsegment => by
    obtain ⟨owner, howner, hboth⟩ := hI segment hsegment
    exact ⟨owner, List.mem_append_left _ howner, hboth⟩
  claim db now jobId lease hI _ _ _ _ :=
    segmentsOwned_updateRows ⟨fun _ => rfl, fun _ => rfl⟩ hI
  chunks _ _ hI := hI
  detach db which hI := fun segment hsegment => by
    obtain ⟨old, hold, hsame⟩ := mem_detachChunks hsegment
    rw [hsame]
    exact hI old hold
  events _ _ _ hI := hI
  index _ _ hI := hI
  leases _ _ hI _ _ := hI
  cascade _ which hI := segmentsOwned_cascade which hI

theorem segmentsOwned_completion : CompletionKeeps SegmentsOwned where
  recordings _ _ _ hI := hI
  segments _ _ hI := fun segment hsegment => hI segment (List.mem_filter.mp hsegment).1

theorem segmentsOwned_rebuilt (h : SegmentsOwned db) : SegmentsOwned (rebuiltIndex id db) := by
  rw [rebuiltIndex_eq]
  exact h

/-- The rows that are written belong to the job they are written for. -/
theorem Rewritten.owned {newId : Nat → QString} {recordingId jobId : QString} {list : List TranscriptSegment}
    {allowOverlap : Bool} {job : TranscriptionJob} (hjob : JobOf db recordingId jobId job)
    (hrewritten : Rewritten now newId recordingId jobId list allowOverlap db db') (h : SegmentsOwned db) :
    SegmentsOwned db' := by
  intro segment hsegment
  have hjobs : db'.jobs = db.jobs := by rw [hrewritten.result]
  rw [hjobs]
  rcases hrewritten.mem_segments.mp hsegment with ⟨hold, -⟩ | hnew
  · exact h segment hold
  · obtain ⟨_, source, -, rfl⟩ := mem_storedRows.mp hnew
    obtain ⟨hmem, hid⟩ := of_job? hjob.1
    exact ⟨job, hmem, hid, hjob.2⟩

theorem performed_owned (step : Step) (h : SegmentsOwned db) : SegmentsOwned (performed t db step) := by
  cases htranscript : step.operation.isTranscript with
  | false =>
    exact performed_anyJob segmentsOwned_statements (fun _ hrooted => hrooted) segmentsOwned_completion
      htranscript h
  | true =>
    rcases accepted_or_unchanged t db step with haccepted | hsame
    · have hok : perform t db step = (.ok (), performed t db step) := accepted_eq haccepted
      unfold perform at hok
      cases hop : step.operation <;> rw [hop] at hok htranscript
      case replaceTranscript =>
        obtain ⟨⟨job, hjob, -⟩, -, hrewritten⟩ := replaceTranscript_ok hok
        exact hrewritten.owned hjob h
      case saveEditedTranscript =>
        obtain ⟨⟨job, hjob, -⟩, hrewritten⟩ := saveEditedTranscript_ok hok
        exact hrewritten.owned hjob h
      case replaceChunk =>
        obtain ⟨-, ⟨job, hjob⟩, -, -, hrewritten⟩ := replaceChunk_ok hok
        exact hrewritten.owned hjob h
      case saveEditedSegment =>
        obtain ⟨durable, -, hdb⟩ := saveEditedSegment_ok hok
        rw [hdb]
        intro segment hsegment
        obtain ⟨old, hold, rfl⟩ := mem_updateRows.mp hsegment
        have howned := h old hold
        split
        · exact howned
        · exact howned
      case deleteSegment =>
        rcases deleteSegment_ok hok with hdb | ⟨durable, -, -, hdb⟩
        · rw [hdb]
          exact h
        · rw [hdb]
          exact fun segment hsegment => h segment (List.mem_filter.mp hsegment).1
      all_goals (cases htranscript; done)
    · rw [hsame]
      exact h

/-- A recording that is deleted takes its segments along with its jobs. -/
theorem cascadeRecordings_owned (which : Recording → Bool) (h : SegmentsOwned db) :
    SegmentsOwned (cascadeRecordings which db) :=
  fun segment hsegment => segmentsOwned_cascade _ h segment (List.mem_filter.mp hsegment).1

theorem segmentsOwned_recordings : RecordingsKeep SegmentsOwned where
  recordings _ _ _ _ hI := hI
  index _ _ hI := hI

theorem recordings_owned {uuid : QString} {operation : RecordingOperation} (h : SegmentsOwned db) :
    SegmentsOwned (RecordingRepository.perform t db now uuid operation).2 := by
  cases hupdate : operation.isUpdate with
  | true => exact RecordingRepository.perform_update segmentsOwned_recordings hupdate h
  | false =>
    cases operation with
    | create filesExist recording =>
      refine (transactional_ite (transactional_refusal _) (transactional_immediate _)).after h fun _ after hok => ?_
      obtain ⟨-, -, -, rfl⟩ := RecordingRepository.create_ok hok
      exact segmentsOwned_rebuilt h
    | permanentlyDelete id =>
      refine (transactional_immediate _).after h fun _ after hok => ?_
      obtain ⟨_, rfl⟩ := RecordingRepository.permanentlyDelete_ok hok
      exact cascadeRecordings_owned _ h
    | setActiveTranscriptJob id jobId =>
      refine (transactional_ite (transactional_refusal _) (transactional_immediate _)).after h fun _ after hok => ?_
      obtain ⟨-, rfl⟩ := RecordingRepository.setActiveTranscriptJob_ok hok
      exact segmentsOwned_rebuilt h
    | _ => cases hupdate

/-! ## Jobs and transcripts -/

/-- Nothing that the index is computed from has changed, and neither has the index. -/
structure Unindexed (base db : Database) : Prop where
  recordings : db.recordings = base.recordings
  texts : ∀ id activeJobId, transcriptTexts db.segments id activeJobId =
    transcriptTexts base.segments id activeJobId
  searchIndex : db.searchIndex = base.searchIndex

theorem Unindexed.fresh (h : Unindexed base db) (hfresh : Fresh base id) : Fresh db id := by
  refine hfresh.congr ?_ ?_ fun recording _ => h.texts id recording.activeJobId
  · unfold indexRows
    rw [h.searchIndex]
  · unfold Database.recording?
    rw [h.recordings]

theorem unindexed_refl (db : Database) : Unindexed db db := ⟨rfl, fun _ _ => rfl, rfl⟩

/-- A segment that loses its chunk keeps its text. -/
theorem transcriptTexts_detach (which : JobChunk → Bool) (db : Database) (activeJobId : Option QString) :
    transcriptTexts (detachChunks which db).segments id activeJobId =
      transcriptTexts db.segments id activeJobId := by
  refine transcriptTexts_map (fun segment => ?_) fun segment _ => ?_
  · split <;> exact ⟨rfl, rfl⟩
  · split <;> rfl

theorem unindexed_active : ActiveKeep Rooted (Unindexed base) where
  jobs _ _ _ _ hI _ := ⟨hI.recordings, hI.texts, hI.searchIndex⟩
  newJob _ _ hI _ _ := ⟨hI.recordings, hI.texts, hI.searchIndex⟩
  claim _ _ _ _ hI _ _ _ _ := ⟨hI.recordings, hI.texts, hI.searchIndex⟩
  chunks _ _ hI := ⟨hI.recordings, hI.texts, hI.searchIndex⟩
  detach db which hI := ⟨hI.recordings, fun id activeJobId =>
    (transcriptTexts_detach which db activeJobId).trans (hI.texts id activeJobId), hI.searchIndex⟩
  events _ _ _ hI := ⟨hI.recordings, hI.texts, hI.searchIndex⟩
  leases _ _ hI _ _ := ⟨hI.recordings, hI.texts, hI.searchIndex⟩

/-- **What rebuilds one row**: the others are as current as they were. -/
theorem fresh_step (h : ∀ other, Fresh db other) (hindex : db'.searchIndex = db.searchIndex)
    (hgone : db'.recording? id = none → db.recording? id = none)
    (hothers : ∀ other, other ≠ id → Fresh db' other) : ∀ other, Fresh (rebuiltIndex id db') other := by
  refine fresh_rebuilt hothers fun hnone => ?_
  have hrows : indexRows db' id = indexRows db id := by
    unfold indexRows
    rw [hindex]
  have hdue : dueRows db' id = dueRows db id := by
    unfold dueRows
    rw [hnone, hgone hnone]
    rfl
  exact (hrows.trans (h id)).trans hdue.symm

theorem fresh_rebuiltAll {ids : List QString} (h : ∀ other, Fresh db other) :
    ∀ other, Fresh (ids.foldl (fun db id => rebuiltIndex id db) db) other := by
  induction ids generalizing db with
  | nil => exact h
  | cons id rest ih => exact ih (fresh_rebuilt (fun other _ => h other) fun _ => h id)

/-- Removing jobs leaves a recording that shows none of them. -/
theorem fresh_cascadeJobs {which : TranscriptionJob → Bool} (hfresh : Fresh db id)
    (hspared : ∀ recording ∈ db.recording? id, ∀ segment ∈ db.segments, segment.recordingId = id →
      recording.activeJobId = some segment.jobId → ∀ job ∈ db.jobs, which job = true → job.id ≠ segment.jobId) :
    Fresh (cascadeJobs which db) id := by
  refine hfresh.congr rfl rfl fun recording hrecording => ?_
  refine (transcriptTexts_filter fun segment hsegment hbelongs hshown => ?_).trans
    (transcriptTexts_detach _ db recording.activeJobId)
  obtain ⟨old, hold, hsame⟩ := mem_detachChunks hsegment
  rw [hsame] at hbelongs hshown ⊢
  rw [Bool.not_eq_true']
  refine List.any_eq_false.mpr fun job hjob hgone => ?_
  rw [Bool.and_eq_true, beq_iff_eq] at hgone
  exact hspared recording hrecording old hold hbelongs hshown job hjob hgone.1 hgone.2

/-- Who owns a segment of the job. -/
theorem recordingId_of_owned {recordingId jobId : QString} {job : TranscriptionJob}
    {segment : TranscriptSegment} (hjobs : JobsInOrder db) (howned : SegmentsOwned db)
    (hjob : JobOf db recordingId jobId job) (hsegment : segment ∈ db.segments)
    (hjobId : segment.jobId = jobId) : segment.recordingId = recordingId := by
  obtain ⟨owner, howner, hid, hbelongs⟩ := howned segment hsegment
  obtain ⟨hmem, hid'⟩ := of_job? hjob.1
  have hsame : owner = job := hjobs.eq_of_id howner hmem ((hid.trans hjobId).trans hid'.symm)
  exact hbelongs.symm.trans (hsame ▸ hjob.2)

/-- **Rewriting a job** leaves the recordings that do not show it. -/
theorem fresh_rewritten {newId : Nat → QString} {recordingId jobId : QString} {list : List TranscriptSegment}
    {job : TranscriptionJob} (hjobs : JobsInOrder db) (howned : SegmentsOwned db)
    (hjob : JobOf db recordingId jobId job) (hfresh : Fresh db id)
    (hhidden : id = recordingId → ∀ recording ∈ db.recording? id, recording.activeJobId ≠ some jobId) :
    Fresh (rewrittenDatabase now newId recordingId jobId list db) id := by
  refine hfresh.congr rfl rfl fun recording hrecording => ?_
  have hshown : ∀ segment : TranscriptSegment, segment.recordingId = recordingId → segment.jobId = jobId →
      ¬ (segment.recordingId = id ∧ recording.activeJobId = some segment.jobId) := by
    rintro segment hbelongs hjobId ⟨hid, hactive⟩
    exact hhidden (hid.symm.trans hbelongs) recording hrecording (hjobId ▸ hactive)
  have hnew : transcriptTexts (storedRows now newId recordingId jobId 0 list) id recording.activeJobId = [] := by
    unfold transcriptTexts
    rw [List.filter_eq_nil_iff.mpr fun segment hsegment hboth => ?_]
    · rfl
    · obtain ⟨_, source, -, rfl⟩ := mem_storedRows.mp hsegment
      rw [Bool.and_eq_true, beq_iff_eq, beq_iff_eq] at hboth
      exact hshown (storedSegment now newId recordingId jobId _ source) rfl rfl hboth
  show transcriptTexts (_ ++ _) id recording.activeJobId = _
  rw [transcriptTexts_append, hnew, List.append_nil]
  refine transcriptTexts_filter fun segment hsegment hbelongs hactive => ?_
  rw [bne_iff_ne]
  intro hjobId
  exact hshown segment (recordingId_of_owned hjobs howned hjob hsegment hjobId) hjobId ⟨hbelongs, hactive⟩

/-- An edited transcript, once its recording is indexed again. -/
theorem fresh_edited {newId : Nat → QString} {recordingId jobId : QString} {list : List TranscriptSegment}
    {job : TranscriptionJob} (hjobs : JobsInOrder db) (howned : SegmentsOwned db)
    (hjob : JobOf db recordingId jobId job) (h : ∀ other, Fresh db other) :
    ∀ other, Fresh (rebuiltIndex recordingId (rewrittenDatabase now newId recordingId jobId list db)) other :=
  fresh_step h rfl id fun _ hother =>
    fresh_rewritten hjobs howned hjob (h _) fun hsame => absurd hsame hother

/-- An unconfirmed chunk is written, under the lease of its job, to the transcript that the recording
    shows. -/
def DraftsActive (db : Database) : RepositoryStep → Prop
  | .jobs { now, operation := .replaceChunk recordingId jobId _ _ provisional _ ownerToken, .. } =>
    provisional = true ∧ db.holdsLease now jobId ownerToken = true ∧
      (db.recording? recordingId).any (fun recording => recording.activeJobId == some jobId) = true
  | _ => False

theorem replaceChunk_fresh {newId : Nat → QString} {recordingId jobId chunkId ownerToken : QString}
    {segments : List TranscriptSegment} {provisional : Bool} {attempt : Int} (hjobs : JobsInOrder db)
    (howned : SegmentsOwned db) (h : ∀ other, Fresh db other)
    (hguard : ¬ (provisional = true ∧ db.holdsLease now jobId ownerToken = true ∧
      (db.recording? recordingId).any (fun recording => recording.activeJobId == some jobId) = true))
    (hok : replaceChunk t now newId recordingId jobId chunkId segments provisional attempt ownerToken db =
      (.ok (), db')) : ∀ other, Fresh db' other := by
  obtain ⟨hlease, ⟨job, hjob⟩, -, -, -, rfl⟩ := replaceChunk_exact hok
  cases provisional with
  | false => exact fresh_edited hjobs howned hjob h
  | true =>
    refine fun other => fresh_rewritten hjobs howned hjob (h other) ?_
    rintro rfl recording hrecording hactive
    refine hguard ⟨rfl, hlease, ?_⟩
    rw [Option.mem_def.mp hrecording, Option.any_some, hactive]
    exact beq_self_eq_true _

theorem saveEditedSegment_fresh {segment : TranscriptSegment} (h : ∀ other, Fresh db other)
    (hok : saveEditedSegment now segment db = (.ok (), db')) : ∀ other, Fresh db' other := by
  obtain ⟨durable, -, rfl⟩ := saveEditedSegment_exact hok
  refine fresh_step h rfl id fun other hother => (h other).congr rfl rfl fun recording _ => ?_
  refine transcriptTexts_map (fun row => ?_) fun row hbelongs => ?_
  · split <;> exact ⟨rfl, rfl⟩
  · split
    next hrow =>
      -- the row that is edited belongs to another recording
      simp only [isRow, Bool.and_eq_true, beq_iff_eq] at hrow
      exact absurd (hbelongs.symm.trans hrow.2) hother
    next => rfl

theorem deleteSegment_fresh {segmentId : QString} (h : ∀ other, Fresh db other)
    (hok : deleteSegment now segmentId db = (.ok (), db')) : ∀ other, Fresh db' other := by
  rcases deleteSegment_exact hok with rfl | ⟨durable, -, -, rfl⟩
  · exact h
  · refine fresh_step h rfl id fun other hother => (h other).congr rfl rfl fun recording _ => ?_
    refine transcriptTexts_filter fun row _ hbelongs _ => ?_
    rw [Bool.not_eq_true']
    refine Bool.eq_false_iff.mpr fun hrow => ?_
    simp only [isRow, Bool.and_eq_true, beq_iff_eq] at hrow
    exact hother (hbelongs.symm.trans hrow.2)

theorem completeAndActivate_fresh {recordingId jobId ownerToken : QString} (h : ∀ other, Fresh db other)
    (hok : completeAndActivate t now recordingId jobId ownerToken db = (.ok (), db')) :
    ∀ other, Fresh db' other := by
  obtain ⟨-, -, rfl⟩ := completeAndActivate_exact hok
  refine fresh_step h rfl (recording?_none_of_updateRows rfl fun _ => ?_) fun other hother => ?_
  · rfl
  · refine (h other).congr rfl (congrArg _ (recording?_updateOther rfl (fun _ => ?_) hother))
      fun recording _ => ?_
    · rfl
    refine transcriptTexts_filter fun segment _ hbelongs _ => ?_
    rw [Bool.not_eq_true', isSuperseded, beq_eq_false_iff_ne.mpr fun hsame => hother (hbelongs.symm.trans hsame),
      Bool.false_and, Bool.false_and]

/-- **Removing a job** that its recording does not show leaves the other recordings: its segments are none
    of theirs. -/
theorem deleteTerminalJob_fresh {id : QString} (hjobs : JobsInOrder db) (howned : SegmentsOwned db)
    (h : ∀ other, Fresh db other) (hok : deleteTerminalJob id db = (.ok (), db')) :
    ∀ other, Fresh db' other := by
  obtain ⟨job, shown, hfound, -, hshown, rfl⟩ := deleteTerminalJob_ok hok
  split
  next => exact fresh_step h rfl (fun hnone => hnone) fun other _ => (h other).congr rfl rfl fun _ _ => rfl
  next =>
    refine fresh_step h rfl (fun hnone => hnone) fun other hother => fresh_cascadeJobs (h other) ?_
    intro recording _ segment hsegment hbelongs _ gone hgone hwhich hid
    obtain ⟨hmem, -⟩ := of_job? hfound
    obtain ⟨owner, howner, hownerId, hownerOf⟩ := howned segment hsegment
    have hsame : owner = job :=
      hjobs.eq_of_id howner hmem ((hownerId.trans hid.symm).trans (beq_iff_eq.mp hwhich))
    exact hother (hbelongs.symm.trans (hownerOf.symm.trans (congrArg _ hsame)))

theorem clearCompleted_fresh {count : Nat} (h : ∀ other, Fresh db other)
    (hok : clearCompleted db = (.ok count, db')) : ∀ other, Fresh db' other := by
  obtain rfl := clearCompleted_ok hok
  refine fresh_rebuiltAll fun other => fresh_cascadeJobs ?_ ?_
  · exact (h other).congr rfl rfl fun _ _ => rfl
  · intro recording hrecording segment _ _ hactive job _ hwhich hid
    -- a job that is shown is spared
    have hshown : isActiveJob db job.id = true :=
      List.any_eq_true.mpr ⟨recording, (of_recording? hrecording).1, by
        rw [hid]
        exact beq_iff_eq.mpr hactive⟩
    rw [hshown, Bool.not_true, Bool.and_false] at hwhich
    cases hwhich

/-- **A step of the job repository.** -/
theorem performed_fresh (step : Step) (hjobs : JobsInOrder db) (howned : SegmentsOwned db)
    (h : ∀ other, Fresh db other) (hguard : ¬ DraftsActive db (.jobs step)) :
    ∀ other, Fresh (performed t db step) other := by
  rcases accepted_or_unchanged t db step with haccepted | hsame
  · have hok : perform t db step = (.ok (), performed t db step) := accepted_eq haccepted
    cases htranscript : step.operation.isTranscript with
    | true =>
      obtain ⟨now, newId, operation⟩ := step
      cases operation with
      | replaceTranscript recordingId jobId segments =>
        obtain ⟨⟨job, hjob, -⟩, -, -, hdb⟩ := replaceTranscript_exact hok
        exact hdb ▸ fresh_edited hjobs howned hjob h
      | saveEditedTranscript recordingId jobId segments =>
        obtain ⟨⟨job, hjob, -⟩, -, hdb⟩ := saveEditedTranscript_exact hok
        exact hdb ▸ fresh_edited hjobs howned hjob h
      | replaceChunk => exact replaceChunk_fresh hjobs howned h hguard hok
      | saveEditedSegment segment => exact saveEditedSegment_fresh h hok
      | deleteSegment segmentId => exact deleteSegment_fresh h hok
      | _ => cases htranscript
    | false =>
      cases hconcludes : step.operation.concludes with
      | false =>
        have hsame : Unindexed db (performed t db step) :=
          performed_active_keeps unindexed_active (fun _ htame => htame.rooted) (fun _ _ hrooted => hrooted)
            htranscript hconcludes (unindexed_refl db)
        exact fun other => hsame.fresh (h other)
      | true =>
        obtain ⟨now, newId, operation⟩ := step
        cases operation with
        | completeAndActivate recordingId jobId owner => exact completeAndActivate_fresh h hok
        | deleteTerminalJob id => exact deleteTerminalJob_fresh hjobs howned h hok
        | clearCompleted =>
          obtain ⟨count, hcount⟩ := answered_ok hok
          exact clearCompleted_fresh h hcount
        | _ => cases hconcludes
  · rw [hsame]
    exact h

/-! ## Recordings -/

namespace RecordingRepository

/-- What an update of a recording leaves: columns that are not indexed, or the row and its entry. -/
inductive Updated (db db' : Database) : Prop where
  | plain (which : Recording → Bool) (update : Recording → Recording)
      (columns : ∀ row, indexedColumns (update row) = indexedColumns row)
      (result : db' = { db with recordings := updateRows which update db.recordings })
  | indexed (id : QString) (update : Recording → Recording) (keeps : ∀ row, (update row).id = row.id)
      (result : db' = rebuiltIndex id { db with
        recordings := updateRows (fun recording => recording.id == id) update db.recordings })

theorem updateRecording_ok {recordingId : QString} {update : Recording → Recording} {u : Unit}
    (h : updateRecording recordingId update db = .ok (u, db')) :
    db' = { db with
      recordings := updateRows (fun recording => recording.id == recordingId) update db.recordings } := by
  obtain ⟨_, _, hupdate, haffected⟩ := bind_eq_ok.mp h
  obtain ⟨-, rfl⟩ := command_eq_ok.mp hupdate
  exact (require_eq_ok.mp haffected).2

theorem updateMetadataColumn_indexed {recordingId : QString} {column : Recording → Recording}
    (hid : ∀ row, (column row).id = row.id)
    (h : updateMetadataColumn recordingId column true db = (.ok (), db')) : Updated db db' := by
  unfold updateMetadataColumn at h
  split at h
  · cases h
  · obtain ⟨_, _, hupdate, hindex⟩ := bind_eq_ok.mp (immediateTransaction_ok h)
    obtain rfl := updateRecording_ok hupdate
    exact .indexed recordingId column hid (rebuildRecording_eq_ok.mp hindex)

theorem updateMetadataColumn_plain {recordingId : QString} {column : Recording → Recording}
    (hcolumns : ∀ row, indexedColumns (column row) = indexedColumns row)
    (h : updateMetadataColumn recordingId column false db = (.ok (), db')) : Updated db db' := by
  unfold updateMetadataColumn at h
  split at h
  · cases h
  · obtain ⟨_, _, hupdate, hpure⟩ := bind_eq_ok.mp (immediateTransaction_ok h)
    obtain rfl := updateRecording_ok hupdate
    exact .plain _ column hcolumns (pure_eq_ok.mp hpure).2

theorem update_ok {filesExist : Bool} {recording : Recording} {jobId ownerToken : QString}
    (h : update t now filesExist recording jobId ownerToken db = (.ok (), db')) : Updated db db' := by
  unfold update at h
  split at h
  · cases h
  split at h
  · cases h
  split at h
  · obtain ⟨_, _, hlease, hop1⟩ := bind_eq_ok.mp (immediateTransaction_ok h)
    obtain ⟨-, -, rfl⟩ := statement_eq_ok.mp hlease
    obtain ⟨_, _, hfiles, hop2⟩ := bind_eq_ok.mp hop1
    obtain ⟨-, rfl⟩ := require_eq_ok.mp hfiles
    obtain ⟨_, _, hupdate, hindex⟩ := bind_eq_ok.mp hop2
    obtain rfl := updateRecording_ok hupdate
    refine .indexed recording.id _ (fun _ => ?_) (rebuildRecording_eq_ok.mp hindex)
    rfl
  · obtain ⟨-, hop⟩ := executionLeaseTransaction_ok h
    obtain ⟨_, _, hjob, hop1⟩ := bind_eq_ok.mp hop
    obtain ⟨-, -, rfl⟩ := statement_eq_ok.mp hjob
    obtain ⟨_, _, hfiles, hupdate⟩ := bind_eq_ok.mp hop1
    obtain ⟨-, rfl⟩ := require_eq_ok.mp hfiles
    refine .plain _ _ (fun _ => ?_) (updateRecording_ok hupdate)
    rfl

theorem relinkSource_ok {filesExist clear : Bool} {recordingId sourcePath : QString}
    (h : relinkSource now filesExist recordingId sourcePath clear db = (.ok (), db')) : Updated db db' := by
  unfold relinkSource at h
  split at h
  · cases h
  obtain ⟨_, _, hlease, hop1⟩ := bind_eq_ok.mp (immediateTransaction_ok h)
  obtain ⟨-, -, rfl⟩ := statement_eq_ok.mp hlease
  obtain ⟨_, _, hfiles, hupdate⟩ := bind_eq_ok.mp hop1
  obtain ⟨-, rfl⟩ := require_eq_ok.mp hfiles
  refine .plain _ (relinkedRecording now sourcePath clear) (fun row => ?_) (updateRecording_ok hupdate)
  unfold relinkedRecording
  split <;> rfl

theorem setTags_ok {recordingId : QString} {tags : List QString}
    (h : setTags t recordingId tags db = (.ok (), db')) : Updated db db' := by
  obtain ⟨_, _, hupdate, hop1⟩ := bind_eq_ok.mp (immediateTransaction_ok h)
  obtain ⟨-, rfl⟩ := command_eq_ok.mp hupdate
  obtain ⟨_, _, hattached, hindex⟩ := bind_eq_ok.mp hop1
  obtain ⟨-, rfl⟩ := require_eq_ok.mp hattached
  refine .indexed recordingId _ (fun _ => ?_) (rebuildRecording_eq_ok.mp hindex)
  rfl

/-- Going to the trash and coming back. -/
theorem trash_ok {which : Recording → Bool} {update : Recording → Recording}
    (hcolumns : ∀ row, indexedColumns (update row) = indexedColumns row)
    (h : immediateTransaction (do let _ ← updateRecordings which update) db = (.ok (), db')) :
    Updated db db' := by
  obtain ⟨_, _, hupdate, hpure⟩ := bind_eq_ok.mp (immediateTransaction_ok h)
  obtain ⟨-, rfl⟩ := command_eq_ok.mp hupdate
  exact .plain which update hcolumns (pure_eq_ok.mp hpure).2

theorem perform_updated {uuid : QString} {operation : RecordingOperation} (hupdate : operation.isUpdate = true)
    (h : perform t db now uuid operation = (.ok (), db')) : Updated db db' := by
  cases operation with
  | update filesExist recording jobId owner => exact update_ok h
  | updateTitle id title =>
    replace h : updateTitle now id title db = (.ok (), db') := h
    unfold updateTitle at h
    split at h
    · cases h
    · refine updateMetadataColumn_indexed (fun _ => ?_) h
      rfl
  | updateNotes id notes =>
    refine updateMetadataColumn_indexed (fun _ => ?_) h
    rfl
  | updateReviewState id reviewState =>
    replace h : updateReviewState now id reviewState db = (.ok (), db') := h
    unfold updateReviewState at h
    split at h
    · cases h
    · refine updateMetadataColumn_plain (fun _ => ?_) h
      rfl
  | relinkSource filesExist id sourcePath clear => exact relinkSource_ok h
  | setTags id tags => exact setTags_ok h
  | moveToTrash id =>
    refine trash_ok (fun _ => ?_) h
    rfl
  | restore id =>
    refine trash_ok (fun _ => ?_) h
    rfl
  | create filesExist recording => cases hupdate
  | permanentlyDelete id => cases hupdate
  | setActiveTranscriptJob id jobId => cases hupdate

theorem Updated.fresh (hupdated : Updated db db') (h : ∀ other, Fresh db other) : ∀ other, Fresh db' other := by
  cases hupdated with
  | plain which update hcolumns hdb =>
    subst hdb
    refine fun other => (h other).congr rfl ?_ fun _ _ => rfl
    have hid : ∀ row, (update row).id = row.id := fun row => congrArg Prod.fst (hcolumns row)
    rw [recording?_updateRows rfl hid, Option.map_map]
    refine congrArg (Option.map · _) (funext fun row => ?_)
    rw [Function.comp_apply]
    split
    · exact hcolumns row
    · rfl
  | indexed id update hid hdb =>
    subst hdb
    exact fresh_step h rfl (recording?_none_of_updateRows rfl hid) fun other hother =>
      (h other).congr rfl (congrArg _ (recording?_updateOther rfl hid hother)) fun _ _ => rfl

theorem create_fresh {uuid : QString} {filesExist : Bool} {recording : Recording} (h : ∀ other, Fresh db other)
    (hok : create t now uuid filesExist recording db = (.ok (), db')) : ∀ other, Fresh db' other := by
  obtain ⟨-, -, hinsertable, rfl⟩ := create_ok hok
  refine fresh_step h rfl (fun _ => Option.isNone_iff_eq_none.mp hinsertable.1) fun other hother => ?_
  refine (h other).congr rfl (congrArg _ ?_) fun _ _ => rfl
  have hnew : ((newRecording t now uuid recording).id == other) = false :=
    beq_eq_false_iff_ne.mpr fun hsame => hother hsame.symm
  show List.find? _ (db.recordings ++ [newRecording t now uuid recording]) = _
  rw [List.find?_append, List.find?_singleton, hnew]
  exact Option.or_none

theorem setActiveTranscriptJob_fresh {recordingId jobId : QString} (h : ∀ other, Fresh db other)
    (hok : setActiveTranscriptJob now recordingId jobId db = (.ok (), db')) : ∀ other, Fresh db' other := by
  obtain ⟨-, rfl⟩ := setActiveTranscriptJob_ok hok
  refine fresh_step h rfl (recording?_none_of_updateRows rfl fun _ => ?_) fun other hother => ?_
  · rfl
  · refine (h other).congr rfl (congrArg _ (recording?_updateOther rfl (fun _ => ?_) hother)) fun _ _ => rfl
    rfl

/-- **Deleting a recording for good** takes its row, and no other's: the jobs that go are its own. -/
theorem permanentlyDelete_fresh {id : QString} (hjobs : JobsInOrder db) (hdb : RecordingsInOrder db)
    (howned : SegmentsOwned db) (h : ∀ other, Fresh db other)
    (hok : permanentlyDelete now id db = (.ok (), db')) : ∀ other, Fresh db' other := by
  obtain ⟨htrashed, rfl⟩ := permanentlyDelete_exact hok
  obtain ⟨trashed, hfound, hdeleted⟩ := (Option.any_eq_true _ _).mp htrashed
  obtain ⟨htrashedMem, htrashedId⟩ := of_recording? hfound
  intro other
  by_cases hother : other = id
  · subst hother
    have hrows : (db.searchIndex.filter fun entry => entry.recordingId != other).filter
        (fun entry => entry.recordingId == other) = [] := by
      rw [List.filter_filter]
      refine List.filter_eq_nil_iff.mpr fun entry _ hboth => ?_
      rw [Bool.and_eq_true, beq_iff_eq, bne_iff_ne] at hboth
      exact hboth.2 hboth.1
    have hgone : (db.recordings.filter fun recording =>
        !(recording.id == other && recording.deletedAt.isSome)).find? (fun recording => recording.id == other) =
        none := by
      refine List.find?_eq_none.mpr fun recording hrecording hid => ?_
      obtain ⟨hmem, hkept⟩ := List.mem_filter.mp hrecording
      rw [hdb.eq_of_id hmem htrashedMem ((beq_iff_eq.mp hid).trans htrashedId.symm), htrashedId,
        beq_self_eq_true, hdeleted] at hkept
      cases hkept
    show List.filter _ (List.filter _ db.searchIndex) = (Option.map _ (List.find? _ _)).toList
    rw [hrows]
    show _ = (Option.map _ (List.find? (fun recording => recording.id == other) (List.filter (fun recording =>
      !(recording.id == other && recording.deletedAt.isSome)) db.recordings))).toList
    rw [hgone]
    rfl
  · have hkept : ∀ recordingId, recordingId ≠ id → (db.recordings.any fun recording =>
        (recording.id == id && recording.deletedAt.isSome) && recording.id == recordingId) = false := by
      refine fun recordingId hne => List.any_eq_false.mpr fun recording _ hboth => ?_
      rw [Bool.and_eq_true, Bool.and_eq_true, beq_iff_eq, beq_iff_eq] at hboth
      exact hne (hboth.2.symm.trans hboth.1.1)
    refine (h other).congr ?_ (congrArg _ ?_) fun recording _ => ?_
    · show List.filter _ (List.filter _ db.searchIndex) = List.filter _ db.searchIndex
      rw [List.filter_filter]
      refine List.filter_congr fun entry _ => ?_
      by_cases hentry : entry.recordingId = other
      · rw [hentry, beq_self_eq_true, Bool.true_and]
        exact bne_iff_ne.mpr hother
      · rw [beq_eq_false_iff_ne.mpr hentry, Bool.false_and]
    · show List.find? _ (List.filter _ db.recordings) = List.find? _ db.recordings
      rw [List.find?_filter]
      refine List.find?_congr fun recording _ => ?_
      by_cases hrecording : recording.id = other
      · simp [hrecording, hother]
      · simp [hrecording]
    · refine (transcriptTexts_filter fun segment _ hbelongs _ => ?_).trans
        ((transcriptTexts_filter fun segment hsegment hbelongs _ => ?_).trans
          (transcriptTexts_detach _ db recording.activeJobId))
      · rw [hbelongs, Bool.not_eq_true']
        exact hkept other hother
      · obtain ⟨old, hold, hsame⟩ := mem_detachChunks hsegment
        rw [hsame] at hbelongs ⊢
        rw [Bool.not_eq_true']
        refine List.any_eq_false.mpr fun job hjob hgone => ?_
        rw [Bool.and_eq_true, beq_iff_eq] at hgone
        obtain ⟨owner, howner, hid, hof⟩ := howned old hold
        have hsame : owner = job := hjobs.eq_of_id howner hjob (hid.trans hgone.2.symm)
        have hbelongsTo : job.recordingId = other := hsame ▸ hof.trans hbelongs
        exact Bool.false_ne_true ((hkept other hother).symm.trans (hbelongsTo ▸ hgone.1))

/-- **A step of the recording repository.** -/
theorem perform_fresh {uuid : QString} {operation : RecordingOperation} (hjobs : JobsInOrder db)
    (hdb : RecordingsInOrder db) (howned : SegmentsOwned db) (h : ∀ other, Fresh db other) :
    ∀ other, Fresh (perform t db now uuid operation).2 other := by
  refine (perform_transactional now uuid operation).after (P := fun after => ∀ other, Fresh after other) h
    fun _ after hok => ?_
  cases hupdate : operation.isUpdate with
  | true => exact (perform_updated hupdate hok).fresh h
  | false =>
    cases operation with
    | create filesExist recording => exact create_fresh h hok
    | permanentlyDelete id => exact permanentlyDelete_fresh hjobs hdb howned h hok
    | setActiveTranscriptJob id jobId => exact setActiveTranscriptJob_fresh h hok
    | _ => cases hupdate

end RecordingRepository

/-! ## Every run -/

/-- What the index rests on. -/
structure IndexInvariant (db : Database) : Prop where
  tables : TablesInOrder db
  owned : SegmentsOwned db
  fresh : ∀ id, Fresh db id

theorem executed_fresh (db : Database) (step : RepositoryStep) (h : IndexInvariant db)
    (hguard : ¬ DraftsActive db step) : IndexInvariant (executed t db step) := by
  refine ⟨(executed_active step h.tables).1, ?_, ?_⟩
  · cases step with
    | jobs step => exact performed_owned step h.owned
    | recordings now uuid operation => exact recordings_owned h.owned
  · cases step with
    | jobs step => exact performed_fresh step h.tables.jobs h.owned h.fresh hguard
    | recordings now uuid operation =>
      exact RecordingRepository.perform_fresh h.tables.jobs h.tables.recordings h.owned h.fresh

theorem indexInvariant_empty : IndexInvariant {} where
  tables := ⟨jobsInOrder_empty, List.Pairwise.nil, fun _ hjob => (by cases hjob)⟩
  owned _ hsegment := by cases hsegment
  fresh _ := rfl

/-- **The search index.**  While no unconfirmed chunk is written to a transcript that is shown, the index
    holds, in every state, what would be computed afresh. -/
theorem search_index (t : CharTables) (steps : List RepositoryStep)
    (hguard : Guarded (executed t) (fun db step => ¬ DraftsActive db step) {} steps) :
    ∀ db ∈ states (executed t) {} steps, IndexCurrent db := fun db hdb =>
  have hafter := states_invariant (fun db step h hstep => executed_fresh db step h hstep)
    indexInvariant_empty hguard db hdb
  indexCurrent_of_fresh hafter.tables.recordings hafter.fresh

/-- A completed job has no executor, so that nothing is written to it. -/
theorem not_draftsActive (hdb : TablesInOrder db) (hactive : ActiveCompleted db) (step : RepositoryStep) :
    ¬ DraftsActive db step := by
  intro hdrafts
  unfold DraftsActive at hdrafts
  split at hdrafts
  next recordingId jobId _ _ _ _ _ =>
    obtain ⟨-, hlease, hshown⟩ := hdrafts
    obtain ⟨recording, hfound, hshows⟩ := (Option.any_eq_true _ _).mp hshown
    obtain ⟨job, hjob, hid, -, hstate⟩ :=
      hactive recording (of_recording? hfound).1 jobId (beq_iff_eq.mp hshows)
    obtain ⟨lease, hmem, hleaseJob, -⟩ := leased_of_holdsLease hlease
    obtain ⟨leased, hleased, hleasedId, hrunning⟩ := hdb.jobs.leased lease hmem
    rw [hdb.jobs.eq_of_id hleased hjob ((hleasedId.trans hleaseJob).trans hid.symm), hstate] at hrunning
    cases hrunning
  next => exact hdrafts

/-- **Where references are valid** the index is current: only a recording that is created with an active job
    can lead to a stale one. -/
theorem search_index_of_valid (t : CharTables) (steps : List RepositoryStep)
    (hvalid : Guarded (executed t) (fun db step => ¬ CreatesActive t db step) {} steps) :
    ∀ db ∈ states (executed t) {} steps, IndexCurrent db := by
  have hactive := (guarded_true ({} : Database) steps).of_states ((active_transcript t steps).mpr hvalid)
  intro db hdb
  have hafter := states_invariant
    (fun db step h hstep => executed_fresh db step h (not_draftsActive h.tables hstep.1 step))
    indexInvariant_empty hactive db hdb
  exact indexCurrent_of_fresh hafter.tables.recordings hafter.fresh

def fixtureStep (operation : Operation) : RepositoryStep :=
  .jobs { now := 0, newId := fun _ => qs "segment", operation }

/-- The recording of `createFixture` gets the job it names, which is claimed and planned. -/
def draftSteps : List RepositoryStep :=
  [createFixture,
    fixtureStep (.createQueued { id := qs "fixture-job", recordingId := qs "uuid" }),
    fixtureStep (.claimQueued (qs "fixture-job") (qs "owner") 60000),
    fixtureStep (.replaceChunks (qs "fixture-job")
      [{ id := qs "chunk", jobId := qs "fixture-job", startMs := 0, endMs := 1000 }] (qs "owner"))]

/-- The words of the chunk, confirmed or not. -/
def chunkFixture (provisional : Bool) : RepositoryStep :=
  fixtureStep (.replaceChunk (qs "uuid") (qs "fixture-job") (qs "chunk")
    [{ startMs := 0, endMs := 1000, originalText := qs "hello" }] provisional 1 (qs "owner"))

theorem search_index_confirmed :
    IndexCurrent (run (executed asciiTables) {} (draftSteps ++ [chunkFixture false])) := by
  refine search_index asciiTables _ (guarded_of_forall (fun step hstep db => ?_) _) _ (run_mem_states _ _)
  simp only [draftSteps, List.cons_append, List.nil_append, List.mem_cons, List.not_mem_nil, or_false] at hstep
  rcases hstep with rfl | rfl | rfl | rfl | rfl
  · exact id
  · exact id
  · exact id
  · exact id
  · exact fun hdrafts => Bool.false_ne_true hdrafts.1

/-- **A stale row.**  The first words are shown, and cannot be found. -/
theorem search_index_draft :
    ¬ ∀ db ∈ states (executed asciiTables) {} (draftSteps ++ [chunkFixture true]), IndexCurrent db := by
  intro h
  have hcurrent := h _ (run_mem_states _ _)
  have hshown : (run (executed asciiTables) {} (draftSteps ++ [chunkFixture true])).recordings.map (fun recording =>
      (searchEntry (run (executed asciiTables) {} (draftSteps ++ [chunkFixture true])) recording).transcript) =
      [qs "hello"] := by decide
  have hindexed : (run (executed asciiTables) {} (draftSteps ++ [chunkFixture true])).searchIndex.map
      (·.transcript) = [[]] := by decide
  obtain ⟨recording, hrecording, htranscript⟩ :=
    List.mem_map.mp (hshown.symm ▸ List.mem_singleton_self (qs "hello"))
  have hentry := List.mem_filter.mp
    (hcurrent.rows recording hrecording ▸ List.mem_singleton_self (searchEntry _ recording))
  have hmem := List.mem_map_of_mem (f := fun entry : SearchEntry => entry.transcript) hentry.1
  rw [hindexed, htranscript, List.mem_singleton] at hmem
  cases hmem

end BreezeDesk
