/-
  One step, seen by the jobs: what happens to their rows, and what is written about them.

  `StepLogged db db' written appended` says of a step where every row after it comes from, and which
  events have been written about its job: a row that stays in its state has only events of that state, a
  row that moves has exactly one event, of its new state, and a new row has exactly one.  Events that
  `appendEvent` writes for its caller are `appended`.

  Every step of the repositories is logged (`executed_logged`): one case for each operation, from what
  the operation leaves behind (`Jobs.Outcomes`).
-/
import BreezeDesk.Jobs.InterruptedRecovery

namespace BreezeDesk

open Transaction Runs

/-! ## What is written about a job -/

/-- Events in the order they are written, with their numbers. -/
def numberedEvents (last : Int) : List JobEvent → List JobEvent
  | [] => []
  | event :: rest => { event with id := last + 1 } :: numberedEvents (last + 1) rest

def eventsOf (events : List JobEvent) (jobId : QString) : List JobEvent :=
  events.filter fun event => event.jobId == jobId

/-- The place in the queue. -/
structure SameTurn (before job : TranscriptionJob) : Prop where
  queueHidden : job.queueHidden = before.queueHidden
  queuePosition : job.queuePosition = before.queuePosition
  createdAt : job.createdAt = before.createdAt

/-- Where a row comes from, and what has been written about its job. -/
inductive Logged (reorders : Bool) (db : Database) (written : List JobEvent) (job : TranscriptionJob) : Prop where
  | stayed (before : TranscriptionJob) (hbefore : before ∈ db.jobs) (hid : before.id = job.id)
      (hstate : before.state = job.state)
      (hplace : reorders = false → job.state = .queued → SameTurn before job)
      (hwritten : ∀ event ∈ eventsOf written job.id, event.state = some job.state)
  | moved (before : TranscriptionJob) (hbefore : before ∈ db.jobs) (hid : before.id = job.id)
      (hstate : before.state ≠ job.state)
      (hplace : job.state = .queued → job.queuePosition = nextQueuePosition db)
      (hwritten : (eventsOf written job.id).map (·.state) = [some job.state])
  | created (hfresh : ∀ before ∈ db.jobs, before.id ≠ job.id) (hstate : job.state = .queued)
      (hplace : job.queuePosition = nextQueuePosition db)
      (hwritten : (eventsOf written job.id).map (·.state) = [some .queued])

/-- The events that say that a job waits. -/
def arrivals (events : List JobEvent) : List JobEvent := events.filter fun event => event.state == some .queued

structure StepLogged (reorders : Bool) (db db' : Database) (written appended : List JobEvent) : Prop where
  arrival : (arrivals written).length ≤ 1
  rows : ∀ job ∈ db'.jobs, Logged reorders db written job
  lastEventId : db'.lastEventId = db.lastEventId + (written ++ appended).length
  events : ∀ job ∈ db'.jobs, eventsOf db'.events job.id =
    eventsOf db.events job.id ++ eventsOf (numberedEvents db.lastEventId (written ++ appended)) job.id
  numbers : ∀ event ∈ db'.events, event ∈ db.events ∨ event ∈ numberedEvents db.lastEventId (written ++ appended)
  owned : (∀ event ∈ db.events, ∃ job ∈ db.jobs, job.id = event.jobId) →
    ∀ event ∈ db'.events, ∃ job ∈ db'.jobs, job.id = event.jobId

variable {t : CharTables} {db db' mid : Database} {now : Int} {reorders : Bool} {written appended : List JobEvent}
  {job : TranscriptionJob}

theorem numberedEvents_append (last : Int) (first second : List JobEvent) :
    numberedEvents last (first ++ second) = numberedEvents last first ++ numberedEvents (last + first.length) second := by
  induction first generalizing last with
  | nil =>
    show numberedEvents last second = numberedEvents (last + 0) second
    rw [Int.add_zero]
  | cons event rest ih =>
    rw [List.cons_append, numberedEvents, numberedEvents, ih, List.cons_append, List.length_cons]
    congr 3
    omega

theorem mem_numberedEvents {last : Int} {event : JobEvent} (h : event ∈ numberedEvents last written) :
    last < event.id ∧ event.id ≤ last + written.length ∧ ∃ source ∈ written, event = { source with id := event.id } := by
  induction written generalizing last with
  | nil => cases h
  | cons first rest ih =>
    rw [List.length_cons]
    rcases List.mem_cons.mp h with rfl | hrest
    · refine ⟨?_, ?_, first, List.mem_cons_self .., rfl⟩
      · show last < last + 1
        omega
      · show last + 1 ≤ _
        omega
    · obtain ⟨hlow, hhigh, source, hsource, heq⟩ := ih hrest
      exact ⟨by omega, by omega, source, List.mem_cons_of_mem _ hsource, heq⟩

/-- Numbers matter to no field. -/
theorem map_eventsOf_numberedEvents {β : Type} {field : JobEvent → β} (hfield : ∀ event id, field { event with id } = field event)
    (last : Int) (jobId : QString) :
    (eventsOf (numberedEvents last written) jobId).map field = (eventsOf written jobId).map field := by
  unfold eventsOf
  induction written generalizing last with
  | nil => rfl
  | cons event rest ih =>
    rw [numberedEvents, List.filter_cons, List.filter_cons]
    show List.map field (if event.jobId == jobId then _ else _) = _
    split
    · rw [List.map_cons, List.map_cons, ih, hfield]
    · exact ih _

/-! ## Steps that add events -/

/-- The events of the step are written behind the others. -/
structure Writes (db db' : Database) (written : List JobEvent) : Prop where
  events : db'.events = db.events ++ numberedEvents db.lastEventId written
  lastEventId : db'.lastEventId = db.lastEventId + written.length

theorem writes_nothing (hevents : db'.events = db.events) (hlast : db'.lastEventId = db.lastEventId) :
    Writes db db' [] :=
  ⟨hevents.trans (List.append_nil _).symm, hlast.trans (Int.add_zero _).symm⟩

theorem Writes.trans {first second : List JobEvent} (h : Writes db mid first) (h' : Writes mid db' second) :
    Writes db db' (first ++ second) where
  events := by
    rw [h'.events, h.events, h.lastEventId, numberedEvents_append, List.append_assoc]
  lastEventId := by
    rw [h'.lastEventId, h.lastEventId, List.length_append]
    omega

/-- No job is removed, and every event is about a job. -/
theorem Writes.logged (h : Writes db db' (written ++ appended)) (harrival : (arrivals written).length ≤ 1)
    (hrows : ∀ job ∈ db'.jobs, Logged reorders db written job)
    (hkept : ∀ job ∈ db.jobs, ∃ after ∈ db'.jobs, after.id = job.id)
    (habout : ∀ event ∈ written ++ appended, ∃ job ∈ db'.jobs, job.id = event.jobId) :
    StepLogged reorders db db' written appended where
  arrival := harrival
  rows := hrows
  lastEventId := h.lastEventId
  events job _ := by
    unfold eventsOf
    rw [h.events, List.filter_append]
  numbers event hevent := by
    rw [h.events] at hevent
    exact List.mem_append.mp hevent
  owned hold event hevent := by
    rw [h.events] at hevent
    rcases List.mem_append.mp hevent with hbefore | hnew
    · obtain ⟨job, hjob, hid⟩ := hold event hbefore
      obtain ⟨after, hafter, hsame⟩ := hkept job hjob
      exact ⟨after, hafter, hsame.trans hid⟩
    · obtain ⟨-, -, source, hsource, heq⟩ := mem_numberedEvents hnew
      rw [heq]
      exact habout source hsource

/-- The row was there before, in the same state and place. -/
def Unmoved (reorders : Bool) (db : Database) (job : TranscriptionJob) : Prop :=
  ∃ before ∈ db.jobs, before.id = job.id ∧ before.state = job.state ∧
    (reorders = false → job.state = .queued → SameTurn before job)

theorem unmoved_refl (hjob : job ∈ db.jobs) : Unmoved reorders db job :=
  ⟨job, hjob, rfl, rfl, fun _ _ => ⟨rfl, rfl, rfl⟩⟩

theorem Unmoved.logged (h : Unmoved reorders db job)
    (hwritten : ∀ event ∈ eventsOf written job.id, event.state = some job.state) : Logged reorders db written job := by
  obtain ⟨before, hbefore, hid, hstate, hplace⟩ := h
  exact .stayed before hbefore hid hstate hplace hwritten

theorem unmoved_updateRows {which : TranscriptionJob → Bool} {update : TranscriptionJob → TranscriptionJob}
    (hupdate : ∀ job ∈ db.jobs, which job = true → (update job).id = job.id ∧ (update job).state = job.state ∧
      (reorders = false → job.state = .queued → SameTurn job (update job)))
    (hjob : job ∈ updateRows which update db.jobs) : Unmoved reorders db job := by
  obtain ⟨before, hbefore, rfl⟩ := mem_updateRows.mp hjob
  split
  next hwhich =>
    obtain ⟨hid, hstate, hplace⟩ := hupdate before hbefore hwhich
    exact ⟨before, hbefore, hid.symm, hstate.symm, fun hkeeps hqueued => hplace hkeeps (hstate ▸ hqueued)⟩
  next => exact unmoved_refl hbefore

theorem kept_updateRows {which : TranscriptionJob → Bool} {update : TranscriptionJob → TranscriptionJob}
    (hid : ∀ job, (update job).id = job.id) (hjob : job ∈ db.jobs) :
    ∃ after ∈ updateRows which update db.jobs, after.id = job.id := by
  refine ⟨_, mem_updateRows.mpr ⟨job, hjob, rfl⟩, ?_⟩
  split
  · exact hid job
  · rfl

theorem eventsOf_single {event : JobEvent} {jobId : QString} :
    eventsOf [event] jobId = if event.jobId = jobId then [event] else [] := by
  unfold eventsOf
  rw [List.filter_cons, List.filter_nil]
  by_cases h : event.jobId = jobId
  · rw [if_pos (beq_iff_eq.mpr h), if_pos h]
  · rw [if_neg (fun heq => h (beq_iff_eq.mp heq)), if_neg h]

/-- The jobs, and what has been written about them, are the same. -/
structure SameJobs (db db' : Database) : Prop where
  jobs : db'.jobs = db.jobs
  events : db'.events = db.events
  lastEventId : db'.lastEventId = db.lastEventId

theorem SameJobs.refl (db : Database) : SameJobs db db := ⟨rfl, rfl, rfl⟩

theorem sameJobs_quiet : QuietKeep (SameJobs db) where
  chunks _ _ h := ⟨h.jobs, h.events, h.lastEventId⟩
  detach _ _ h := ⟨h.jobs, h.events, h.lastEventId⟩
  leases _ _ h _ _ := ⟨h.jobs, h.events, h.lastEventId⟩

theorem sameJobs_segments : SegmentsImmaterial (SameJobs db) where
  segments _ _ h := ⟨h.jobs, h.events, h.lastEventId⟩
  index _ _ h := ⟨h.jobs, h.events, h.lastEventId⟩

theorem sameJobs_recordings : RecordingsKeep (SameJobs db) where
  recordings _ _ _ _ h := ⟨h.jobs, h.events, h.lastEventId⟩
  index _ _ h := ⟨h.jobs, h.events, h.lastEventId⟩

theorem sameJobs_rebuilt (recordingId : QString) (db : Database) : SameJobs db (rebuiltIndex recordingId db) := by
  rw [rebuiltIndex_eq]
  exact ⟨rfl, rfl, rfl⟩

theorem sameJobs_rebuiltAll (ids : List QString) (h : SameJobs db mid) :
    SameJobs db (ids.foldl (fun db id => rebuiltIndex id db) mid) := by
  induction ids generalizing mid with
  | nil => exact h
  | cons id rest ih =>
    obtain ⟨hjobs, hevents, hlast⟩ := sameJobs_rebuilt id mid
    exact ih ⟨hjobs.trans h.jobs, hevents.trans h.events, hlast.trans h.lastEventId⟩

theorem StepLogged.congr (h : StepLogged reorders db mid written appended) (hsame : SameJobs mid db') :
    StepLogged reorders db db' written appended where
  arrival := h.arrival
  rows job hjob := h.rows job (hsame.jobs ▸ hjob)
  lastEventId := hsame.lastEventId.trans h.lastEventId
  events job hjob := hsame.events ▸ h.events job (hsame.jobs ▸ hjob)
  numbers event hevent := h.numbers event (hsame.events ▸ hevent)
  owned hold event hevent := by
    rw [hsame.jobs]
    exact h.owned hold event (hsame.events ▸ hevent)

/-- The caller of `appendEvent` writes what it likes; the rows stay. -/
theorem stepLogged_appended (hjobs : db'.jobs = db.jobs) (hwrites : Writes db db' appended)
    (habout : ∀ event ∈ appended, ∃ job ∈ db.jobs, job.id = event.jobId) :
    StepLogged reorders db db' [] appended := by
  refine Writes.logged hwrites (Nat.zero_le 1) (fun job hjob => ?_) (fun job hjob => ⟨job, hjobs ▸ hjob, rfl⟩)
    fun event hevent => ?_
  · exact (unmoved_refl (hjobs ▸ hjob)).logged fun _ hnone => (by cases hnone)
  · rw [hjobs]
    exact habout event hevent

theorem stepLogged_same (h : SameJobs db db') : StepLogged reorders db db' [] [] :=
  stepLogged_appended h.jobs (writes_nothing h.events h.lastEventId) fun _ hnone => (by cases hnone)

/-- No row moves, and what is written about one repeats its state. -/
theorem stepLogged_unmoved (hwrites : Writes db db' written) (hone : written.length ≤ 1) (hrows : ∀ job ∈ db'.jobs, Unmoved reorders db job)
    (hkept : ∀ job ∈ db.jobs, ∃ after ∈ db'.jobs, after.id = job.id)
    (habout : ∀ event ∈ written, ∃ job ∈ db'.jobs, job.id = event.jobId)
    (hstate : ∀ event ∈ written, ∀ job ∈ db'.jobs, job.id = event.jobId → event.state = some job.state) :
    StepLogged reorders db db' written [] := by
  refine Writes.logged (by rwa [List.append_nil]) ((List.length_filter_le _ _).trans hone)
    (fun job hjob => (hrows job hjob).logged fun event hevent => ?_) hkept (by rwa [List.append_nil])
  obtain ⟨hmem, habout⟩ := List.mem_filter.mp hevent
  exact hstate event hmem job hjob (beq_iff_eq.mp habout).symm

/-- No job is removed, and what the step writes is behind the other events. -/
structure Journaled (reorders : Bool) (db db' : Database) (written : List JobEvent) : Prop where
  rows : ∀ job ∈ db'.jobs, Logged reorders db written job
  writes : Writes db db' written
  kept : ∀ job ∈ db.jobs, ∃ after ∈ db'.jobs, after.id = job.id
  about : ∀ event ∈ written, ∃ job ∈ db'.jobs, job.id = event.jobId

theorem Journaled.logged (h : Journaled reorders db db' written) (harrival : (arrivals written).length ≤ 1) :
    StepLogged reorders db db' written [] :=
  Writes.logged (by rw [List.append_nil]; exact h.writes) harrival h.rows h.kept (by rw [List.append_nil]; exact h.about)

/-- **One row moves**, and one event says so. -/
theorem journaled_moved {event : JobEvent} {current : TranscriptionJob} (target : JobState)
    (hcurrent : current ∈ db.jobs) (hne : current.state ≠ target) (habout : event.jobId = current.id)
    (hstate : event.state = some target) (hwrites : Writes db db' [event])
    (hrows : ∀ job ∈ db'.jobs, job.id ≠ current.id ∧ Unmoved reorders db job ∨
      job.id = current.id ∧ job.state = target ∧ (target = .queued → job.queuePosition = nextQueuePosition db))
    (hkept : ∀ job ∈ db.jobs, ∃ after ∈ db'.jobs, after.id = job.id) :
    Journaled reorders db db' [event] where
  rows job hjob := by
    rcases hrows job hjob with ⟨hother, hunmoved⟩ | ⟨hid, htarget, hplace⟩
    · refine hunmoved.logged fun one hone => ?_
      rw [eventsOf_single, if_neg (habout ▸ hother.symm)] at hone
      cases hone
    · refine .moved current hcurrent hid.symm (htarget ▸ hne) (fun hqueued => hplace (htarget ▸ hqueued)) ?_
      rw [eventsOf_single, if_pos (habout.trans hid.symm), htarget, ← hstate]
      rfl
  writes := hwrites
  kept := hkept
  about one hone := by
    obtain ⟨after, hafter, hid⟩ := hkept current hcurrent
    rw [List.mem_singleton] at hone
    exact ⟨after, hafter, hone ▸ hid.trans habout.symm⟩

/-- Jobs are deleted with their events, and nothing else changes about them. -/
theorem stepLogged_removal (gone : QString → Bool)
    (hjobs : ∀ job ∈ db'.jobs, gone job.id = false ∧ Unmoved reorders db job)
    (hkept : ∀ job ∈ db.jobs, gone job.id = false → ∃ after ∈ db'.jobs, after.id = job.id)
    (hevents : db'.events = db.events.filter fun event => !gone event.jobId)
    (hlast : db'.lastEventId = db.lastEventId) : StepLogged reorders db db' [] [] where
  arrival := Nat.zero_le 1
  rows job hjob := (hjobs job hjob).2.logged fun _ hnone => (by cases hnone)
  lastEventId := hlast.trans (Int.add_zero _).symm
  events job hjob := by
    refine Eq.trans ?_ (List.append_nil _).symm
    unfold eventsOf
    rw [hevents, List.filter_filter]
    refine List.filter_congr fun event _ => ?_
    by_cases habout : event.jobId = job.id
    · rw [habout, (hjobs job hjob).1, beq_self_eq_true]
      rfl
    · rw [beq_eq_false_iff_ne.mpr habout, Bool.false_and]
  numbers event hevent := Or.inl (List.mem_filter.mp (hevents ▸ hevent)).1
  owned hold event hevent := by
    rw [hevents, List.mem_filter, Bool.not_eq_true'] at hevent
    obtain ⟨job, hjob, hid⟩ := hold event hevent.1
    obtain ⟨after, hafter, hsame⟩ := hkept job hjob (hid ▸ hevent.2)
    exact ⟨after, hafter, hsame.trans hid⟩

/-! ## Operations that move no job -/

theorem unmoved_progressed {id : QString} {stage : JobStage} {progress : Rat} {last : Int}
    (hjob : job ∈ updateRows (fun row => row.id == id) (progressedJob stage progress last) db.jobs) :
    Unmoved reorders db job := by
  refine unmoved_updateRows (fun row _ _ => ?_) hjob
  exact ⟨rfl, rfl, fun _ _ => ⟨rfl, rfl, rfl⟩⟩

/-- What the executor reports changes nothing about the place of a job. -/
theorem updateProgress_logged {id ownerToken : QString} {stage : JobStage} {progress : Rat} {last : Int}
    {u : Unit} (hdb : JobsInOrder db)
    (h : updateProgress t now id stage progress last ownerToken db = (.ok u, db')) :
    ∃ written, StepLogged reorders db db' written [] := by
  obtain ⟨current, hfound, -, rfl | rfl⟩ := updateProgress_ok h
  · exact ⟨[], stepLogged_unmoved ⟨(List.append_nil _).symm, (Int.add_zero _).symm⟩ (Nat.zero_le 1)
      (fun _ hjob => unmoved_progressed hjob) (fun _ hjob => kept_updateRows (fun _ => rfl) hjob)
      (fun _ hnone => (by cases hnone)) fun _ hnone => (by cases hnone)⟩
  · have hcurrent := (of_job? hfound).1
    obtain rfl := (of_job? hfound).2
    refine ⟨[normalizedEvent t now (stageEvent current stage (max 0 (min progress 1)))],
      stepLogged_unmoved ⟨rfl, rfl⟩ (Nat.le_refl 1) (fun _ hjob => unmoved_progressed hjob)
        (fun _ hjob => kept_updateRows (fun _ => rfl) hjob) (fun event hevent => ?_)
        fun event hevent job hjob habout => ?_⟩
    · rw [List.mem_singleton.mp hevent]
      exact kept_updateRows (fun _ => rfl) hcurrent
    · rw [List.mem_singleton.mp hevent] at habout ⊢
      obtain ⟨before, hbefore, hsame, hstate, -⟩ : Unmoved true _ job := unmoved_progressed hjob
      rw [← hstate, hdb.eq_of_id hbefore hcurrent (hsame.trans habout)]
      rfl

/-- An update of one row that writes no event. -/
theorem stepLogged_silent {which : TranscriptionJob → Bool} {update : TranscriptionJob → TranscriptionJob}
    (hupdate : ∀ job, (update job).id = job.id ∧ (update job).state = job.state ∧
      (reorders = false → job.state = .queued → SameTurn job (update job))) :
    StepLogged reorders db { db with jobs := updateRows which update db.jobs } [] [] :=
  stepLogged_unmoved (writes_nothing rfl rfl) (Nat.zero_le 1)
    (fun _ hjob => unmoved_updateRows (fun job _ _ => hupdate job) hjob)
    (fun _ hjob => kept_updateRows (fun job => (hupdate job).1) hjob) (fun _ hnone => (by cases hnone))
    fun _ hnone => (by cases hnone)

theorem updateRuntimeInfo_logged {id backend engineVersion workerVersion ownerToken : QString}
    {diagnostics : QJsonObject} {u : Unit}
    (h : updateRuntimeInfo now id backend engineVersion workerVersion diagnostics ownerToken db = (.ok u, db')) :
    StepLogged reorders db db' [] [] := by
  obtain ⟨-, hop⟩ := executionLeaseTransaction_ok h
  obtain ⟨current, _, hfind, hop1⟩ := bind_eq_ok.mp hop
  obtain ⟨_, _, hquery, hsome⟩ := bind_eq_ok.mp hfind
  obtain ⟨rfl, rfl⟩ := command_eq_ok.mp hquery
  obtain ⟨-, rfl⟩ := requireSome_eq_ok.mp hsome
  obtain ⟨_, _, hupdate, hop2⟩ := bind_eq_ok.mp hop1
  obtain ⟨-, -, rfl⟩ := statement_eq_ok.mp hupdate
  obtain ⟨-, rfl⟩ := require_eq_ok.mp hop2
  exact stepLogged_silent fun _ => ⟨rfl, rfl, fun _ _ => ⟨rfl, rfl, rfl⟩⟩

theorem updateParameters_logged {id ownerToken : QString} {parameters : QJsonObject} {u : Unit}
    (h : updateParameters now id parameters ownerToken db = (.ok u, db')) :
    StepLogged reorders db db' [] [] := by
  obtain ⟨-, hop⟩ := executionLeaseTransaction_ok h
  obtain ⟨_, _, hupdate, hop1⟩ := bind_eq_ok.mp hop
  obtain ⟨-, -, rfl⟩ := statement_eq_ok.mp hupdate
  obtain ⟨-, rfl⟩ := require_eq_ok.mp hop1
  exact stepLogged_silent fun _ => ⟨rfl, rfl, fun _ _ => ⟨rfl, rfl, rfl⟩⟩

/-- The event of a chunk repeats the state of its job. -/
theorem updateChunk_logged {chunk : JobChunk} {ownerToken : QString} {u : Unit} (hdb : JobsInOrder db)
    (h : updateChunk t now chunk ownerToken db = (.ok u, db')) :
    ∃ written, StepLogged reorders db db' written [] := by
  unfold updateChunk at h
  split at h
  · cases h
  obtain ⟨-, hop⟩ := executionLeaseTransaction_ok h
  obtain ⟨_, _, hchunk, hop1⟩ := bind_eq_ok.mp hop
  obtain ⟨rfl, rfl⟩ := command_eq_ok.mp hchunk
  obtain ⟨previous, _, hprevious, hop2⟩ := bind_eq_ok.mp hop1
  obtain ⟨-, rfl⟩ := requireSome_eq_ok.mp hprevious
  obtain ⟨job, _, hfind, hop3⟩ := bind_eq_ok.mp hop2
  obtain ⟨_, _, hquery, hsome⟩ := bind_eq_ok.mp hfind
  obtain ⟨rfl, rfl⟩ := command_eq_ok.mp hquery
  obtain ⟨hfound, rfl⟩ := requireSome_eq_ok.mp hsome
  obtain ⟨_, _, htotal, hop4⟩ := bind_eq_ok.mp hop3
  obtain ⟨-, rfl⟩ := command_eq_ok.mp htotal
  obtain ⟨_, _, hupdate, hop5⟩ := bind_eq_ok.mp hop4
  obtain ⟨-, rfl⟩ := command_eq_ok.mp hupdate
  obtain ⟨hmem, hid⟩ := of_job? hfound
  split at hop5
  next =>
    obtain ⟨-, rfl⟩ := pure_eq_ok.mp hop5
    exact ⟨[], stepLogged_same ⟨rfl, rfl, rfl⟩⟩
  next =>
    obtain ⟨_, _, hevent, hpure⟩ := bind_eq_ok.mp hop5
    obtain ⟨-, rfl⟩ := pure_eq_ok.mp hpure
    obtain ⟨-, rfl⟩ := insertEvent_ok hevent
    refine ⟨[normalizedEvent t now (chunkEvent chunk previous job _)], stepLogged_unmoved ⟨rfl, rfl⟩
      (Nat.le_refl 1) (fun _ hjob => unmoved_refl hjob) (fun row hrow => ⟨row, hrow, rfl⟩) (fun event hevent => ?_)
      fun event hevent row hrow habout => ?_⟩
    · rw [List.mem_singleton.mp hevent]
      exact ⟨job, hmem, hid⟩
    · rw [List.mem_singleton.mp hevent] at habout ⊢
      rw [hdb.eq_of_id hrow hmem (habout.trans hid.symm)]
      rfl

theorem appendEvent_logged {event : JobEvent} {ownerToken : QString} {id : Int}
    (h : appendEvent t now event ownerToken db = (.ok id, db')) :
    id = db.lastEventId + 1 ∧ StepLogged reorders db db' [] [normalizedEvent t now event] := by
  obtain ⟨-, hop⟩ := executionLeaseTransaction_ok h
  obtain ⟨_, _, hrequire, hinsert⟩ := bind_eq_ok.mp hop
  obtain ⟨-, rfl⟩ := require_eq_ok.mp hrequire
  obtain ⟨hjob, rfl, rfl⟩ := statement_eq_ok.mp hinsert
  refine ⟨rfl, stepLogged_appended rfl ⟨rfl, rfl⟩ fun one hone => ?_⟩
  obtain ⟨job, hmem, hid⟩ := List.find?_isSome.mp hjob
  rw [List.mem_singleton.mp hone]
  exact ⟨job, hmem, beq_iff_eq.mp hid⟩

/-- The rows of the queue that have got their numbers. -/
def reorderedRows : Nat → List QString → List TranscriptionJob → List TranscriptionJob
  | _, [], jobs => jobs
  | index, id :: rest, jobs =>
    reorderedRows (index + 1) rest
      (updateRows (fun job => job.id == id && job.state == .queued) (fun job => { job with queuePosition := index }) jobs)

/-- **A reorder** numbers queued jobs in the order of the list. -/
theorem reorderFrom_ok {ids : List QString} {index : Nat} {u : Unit}
    (h : reorderFrom index ids db = .ok (u, db')) :
    db' = { db with jobs := reorderedRows index ids db.jobs } ∧
      ∀ id ∈ ids, ∃ job ∈ db.jobs, job.id = id ∧ job.state = .queued := by
  induction ids generalizing index db with
  | nil =>
    obtain ⟨-, rfl⟩ := pure_eq_ok.mp h
    exact ⟨rfl, fun _ hnone => (by cases hnone)⟩
  | cons id rest ih =>
    obtain ⟨affected, _, hupdate, hop1⟩ := bind_eq_ok.mp h
    obtain ⟨-, haffected, rfl⟩ := statement_eq_ok.mp hupdate
    obtain ⟨_, _, hrequire, hrest⟩ := bind_eq_ok.mp hop1
    obtain ⟨hsome, rfl⟩ := require_eq_ok.mp hrequire
    obtain ⟨hafter, hothers⟩ := ih hrest
    refine ⟨hafter, fun other hother => ?_⟩
    rcases List.mem_cons.mp hother with rfl | hmem
    · obtain ⟨job, hjob⟩ := List.exists_mem_of_length_pos
        (Nat.pos_of_ne_zero (haffected ▸ hsome : (_ : List TranscriptionJob).length ≠ 0))
      rw [List.mem_filter, Bool.and_eq_true, beq_iff_eq, beq_iff_eq] at hjob
      exact ⟨job, hjob.1, hjob.2.1, hjob.2.2⟩
    · obtain ⟨job, hjob, hid, hstate⟩ := hothers other hmem
      obtain ⟨before, hbefore, rfl⟩ := mem_updateRows.mp hjob
      split at hid
      next hwhich =>
        rw [if_pos hwhich] at hstate
        exact ⟨before, hbefore, hid, hstate⟩
      next hwhich =>
        rw [if_neg hwhich] at hstate
        exact ⟨before, hbefore, hid, hstate⟩

theorem reorder_ok {ids : List QString} {u : Unit} (h : reorder ids db = (.ok u, db')) :
    ids.Nodup ∧ db' = { db with jobs := reorderedRows 0 ids db.jobs } ∧
      ∀ id ∈ ids, ∃ job ∈ db.jobs, job.id = id ∧ job.state = .queued := by
  unfold reorder at h
  split at h
  · cases h
  next hdistinct =>
    refine ⟨?_, reorderFrom_ok (immediateTransaction_ok h)⟩
    rw [not_not] at hdistinct
    rw [← List.dedup_eq_self]
    exact (List.dedup_sublist ids).eq_of_length hdistinct

/-- A row loses at most its place to a reorder. -/
theorem mem_reorderedRows {ids : List QString} {index : Nat} {jobs : List TranscriptionJob}
    (h : job ∈ reorderedRows index ids jobs) :
    ∃ before ∈ jobs, job = { before with queuePosition := job.queuePosition } := by
  induction ids generalizing index jobs with
  | nil => exact ⟨job, h, rfl⟩
  | cons id rest ih =>
    obtain ⟨mid, hmid, heq⟩ := ih h
    obtain ⟨before, hbefore, rfl⟩ := mem_updateRows.mp hmid
    refine ⟨before, hbefore, heq.trans ?_⟩
    split <;> rfl

theorem map_reorderedRows {ids : List QString} {index : Nat} (jobs : List TranscriptionJob) :
    (reorderedRows index ids jobs).map (·.id) = jobs.map (·.id) := by
  induction ids generalizing index jobs with
  | nil => rfl
  | cons id rest ih =>
    refine (ih _).trans (map_updateRows (fun row => ?_) jobs)
    rfl

theorem reorder_logged {ids : List QString} {u : Unit} (h : reorder ids db = (.ok u, db')) :
    StepLogged true db db' [] [] := by
  obtain ⟨-, rfl, -⟩ := reorder_ok h
  refine stepLogged_unmoved (writes_nothing rfl rfl) (Nat.zero_le 1) (fun job hjob => ?_) (fun job hjob => ?_)
    (fun _ hnone => (by cases hnone)) fun _ hnone => (by cases hnone)
  · obtain ⟨before, hbefore, heq⟩ := mem_reorderedRows hjob
    exact ⟨before, hbefore, by rw [heq], by rw [heq], fun hno => (by cases hno)⟩
  · have hmem : job.id ∈ (reorderedRows 0 ids db.jobs).map (·.id) :=
      map_reorderedRows db.jobs ▸ List.mem_map_of_mem hjob
    exact List.mem_map.mp hmem

/-! ## Operations that move a job -/

theorem createQueued_logged {uuid : QString} {row created : TranscriptionJob}
    (h : createQueued t now uuid row db = (.ok created, db')) :
    ∃ written, StepLogged reorders db db' written [] := by
  obtain ⟨hinsertable, -, rfl⟩ := createQueued_ok h
  have hfresh := not_mem_of_insertable hinsertable
  refine ⟨[normalizedEvent t now (enqueuedEvent (queuedRow now uuid row db))], Writes.logged ⟨rfl, rfl⟩
    (List.length_filter_le _ _) (fun job hjob => ?_) (fun job hjob => ⟨job, List.mem_append_left _ hjob, rfl⟩) fun event hevent => ?_⟩
  · rcases List.mem_append.mp hjob with hold | hnew
    · refine (unmoved_refl hold).logged fun event hevent => ?_
      have hother : (normalizedEvent t now (enqueuedEvent (queuedRow now uuid row db))).jobId ≠ job.id :=
        (hfresh job hold).symm
      rw [eventsOf_single, if_neg hother] at hevent
      cases hevent
    · rw [List.mem_singleton.mp hnew]
      refine .created hfresh rfl rfl ?_
      rw [eventsOf_single]
      exact congrArg (List.map _) (if_pos rfl)
  · rw [List.append_nil, List.mem_singleton] at hevent
    rw [hevent]
    exact ⟨_, List.mem_append_right _ (List.mem_singleton_self _), rfl⟩

/-- The rows after an update of one row, which is the only one with its id. -/
theorem rows_of_update {which : TranscriptionJob → Bool} {update : TranscriptionJob → TranscriptionJob}
    {current : TranscriptionJob} (P : TranscriptionJob → Prop) (hdb : JobsInOrder db) (hcurrent : current ∈ db.jobs)
    (hwhich : ∀ job ∈ db.jobs, which job = true → job.id = current.id) (hreached : which current = true)
    (hid : (update current).id = current.id) (hP : P (update current))
    (hjob : job ∈ updateRows which update db.jobs) :
    job.id ≠ current.id ∧ Unmoved reorders db job ∨ job.id = current.id ∧ P job := by
  obtain ⟨before, hbefore, rfl⟩ := mem_updateRows.mp hjob
  split
  next hhit =>
    rw [hdb.eq_of_id hbefore hcurrent (hwhich before hbefore hhit)]
    exact Or.inr ⟨hid, hP⟩
  next hmiss =>
    refine Or.inl ⟨fun hsame => hmiss ?_, unmoved_refl hbefore⟩
    rw [hdb.eq_of_id hbefore hcurrent hsame]
    exact hreached

theorem journaled_recovered {which : TranscriptionJob → Bool} {pending : Bool} {eventType message : QString}
    {current : TranscriptionJob} (hdb : JobsInOrder db) (hcurrent : current ∈ db.jobs)
    (hrunning : current.state.isRunning = true) (hpending : (current.state == .cancelling) = pending)
    (hwhich : ∀ job ∈ db.jobs, which job = true → job.id = current.id) (hreached : which current = true) :
    Journaled reorders db (recoveredDatabase t now which pending eventType current.id message db)
      [normalizedEvent t now (recoveryEvent pending eventType current.id message)] := by
  have hfields := @recoveredJob_fields now pending message current hpending
  have hidle := recoveredState_idle current.state
  refine journaled_moved (recoveredState current.state) hcurrent (fun hsame => ?_) rfl ?_ ⟨rfl, rfl⟩
    (fun job hjob => ?_) fun job hjob => kept_updateRows (tame_recoveredJob ..).id hjob
  · rw [hsame, hidle.1] at hrunning
    cases hrunning
  · show some _ = some _
    unfold recoveredState
    subst hpending
    by_cases hcancelling : current.state = .cancelling
    · rw [if_pos hcancelling, if_pos (beq_iff_eq.mpr hcancelling)]
    · rw [if_neg hcancelling, if_neg (fun heq => hcancelling (beq_iff_eq.mp heq))]
  · refine rows_of_update (fun job => job.state = _ ∧ _) hdb hcurrent hwhich hreached hfields.1 ?_ hjob
    exact ⟨hfields.2.2, fun hqueued => absurd hqueued hidle.2⟩

theorem transition_logged {id : QString} {state : JobState} {errorCode errorMessage ownerToken : QString}
    {u : Unit} (hdb : JobsInOrder db)
    (h : transition t now id state errorCode errorMessage ownerToken db = (.ok u, db')) :
    ∃ written, StepLogged reorders db db' written [] := by
  rcases transition_exact h with ⟨rfl, -⟩ | ⟨current, hfound, hother, -, -, rfl⟩
  · exact ⟨[], stepLogged_same (.refl _)⟩
  · have hfields := @transitionedJob_fields now (nextQueuePosition db) state errorCode errorMessage
    have hcurrent := (of_job? hfound).1
    refine ⟨[normalizedEvent t now (transitionEvent current state errorCode errorMessage)],
      Journaled.logged ?_ (List.length_filter_le _ _)⟩
    refine journaled_moved state hcurrent hother rfl rfl ⟨rfl, rfl⟩ (fun job hjob => ?_)
      fun job hjob => kept_updateRows (fun row => (hfields row).1) hjob
    refine rows_of_update (fun row => row.state = state ∧ (state = .queued → row.queuePosition = nextQueuePosition db))
      hdb hcurrent (fun row _ hrow => ?_) ?_ (hfields current).1 ⟨(hfields current).2.2, fun hqueued => ?_⟩ hjob
    · exact beq_iff_eq.mp (Bool.and_eq_true .. ▸ hrow).1
    · rw [beq_self_eq_true, beq_self_eq_true]
      rfl
    · rw [hqueued]
      rfl

theorem completeAndActivate_logged {recordingId jobId ownerToken : QString} (hdb : JobsInOrder db)
    (h : completeAndActivate t now recordingId jobId ownerToken db = (.ok (), db')) :
    ∃ written, StepLogged reorders db db' written [] := by
  obtain ⟨-, ⟨current, hfound, hrecording, hstate⟩, rfl⟩ := completeAndActivate_exact h
  obtain ⟨hcurrent, rfl⟩ := of_job? hfound
  refine ⟨[normalizedEvent t now (completedEvent current.id)],
    StepLogged.congr (Journaled.logged ?_ (List.length_filter_le _ _)) (sameJobs_rebuilt _ _)⟩
  have hhidden : ∀ row : TranscriptionJob, ({ row with queueHidden := true } : TranscriptionJob).id = row.id :=
    fun _ => rfl
  refine journaled_moved .completed hcurrent (fun hsame => ?_) rfl rfl ⟨rfl, rfl⟩
    (fun job hjob => ?_) fun job hjob => ?_
  · rw [hstate] at hsame
    cases hsame
  · obtain ⟨row, hrow, rfl⟩ := mem_updateRows.mp hjob
    have hcompleted : row.id ≠ current.id ∧ Unmoved reorders db row ∨ row.id = current.id ∧ row.state = .completed :=
      rows_of_update (fun row => row.state = .completed) hdb hcurrent (fun other _ hother => by
        rw [Bool.and_eq_true, Bool.and_eq_true] at hother
        exact beq_iff_eq.mp hother.1.1) (by
        rw [hrecording, hstate, beq_self_eq_true, beq_self_eq_true]
        rfl) rfl rfl hrow
    -- the others that are hidden are completed, and have no place in the queue
    split
    next hwhich =>
      rw [Bool.and_eq_true, beq_iff_eq] at hwhich
      rcases hcompleted with ⟨hother, before, hbefore, hid, hsame, -⟩ | ⟨hid, -⟩
      · refine Or.inl ⟨hother, before, hbefore, hid, hsame, fun _ hqueued => ?_⟩
        rw [show row.state = .queued from hqueued] at hwhich
        cases hwhich.2
      · exact Or.inr ⟨hid, hwhich.2, fun hno => (by cases hno)⟩
    next => exact hcompleted.imp_right fun hrow => ⟨hrow.1, hrow.2, fun hno => (by cases hno)⟩
  · obtain ⟨row, hrow, hid⟩ : ∃ row ∈ completedRows now recordingId current.id db.jobs, row.id = job.id :=
      kept_updateRows (fun _ => rfl) hjob
    obtain ⟨after, hafter, hid'⟩ := @kept_updateRows
      { db with jobs := completedRows now recordingId current.id db.jobs } row _ _ hhidden hrow
    exact ⟨after, hafter, hid'.trans hid⟩

/-! ## Recovering and claiming jobs -/

theorem eventsOf_append (first second : List JobEvent) (jobId : QString) :
    eventsOf (first ++ second) jobId = eventsOf first jobId ++ eventsOf second jobId :=
  List.filter_append ..

theorem Logged.before {first second : List JobEvent} (h : Logged reorders db first job)
    (hnone : eventsOf second job.id = []) : Logged reorders db (first ++ second) job := by
  have hsame : eventsOf (first ++ second) job.id = eventsOf first job.id := by
    rw [eventsOf_append, hnone, List.append_nil]
  cases h with
  | stayed before hbefore hid hstate hplace hwritten =>
    exact .stayed before hbefore hid hstate hplace (hsame ▸ hwritten)
  | moved before hbefore hid hstate hplace hwritten =>
    exact .moved before hbefore hid hstate hplace (hsame ▸ hwritten)
  | created hfresh hstate hplace hwritten => exact .created hfresh hstate hplace (hsame ▸ hwritten)

/-- A row about which nothing is written has stayed where it was. -/
theorem Logged.unmoved (h : Logged reorders db written job) (hnone : eventsOf written job.id = []) :
    Unmoved reorders db job := by
  cases h with
  | stayed before hbefore hid hstate hplace _ => exact ⟨before, hbefore, hid, hstate, hplace⟩
  | moved _ _ _ _ _ hwritten =>
    rw [hnone] at hwritten
    cases hwritten
  | created _ _ _ hwritten =>
    rw [hnone] at hwritten
    cases hwritten

/-- What has come to a row is kept while the row stays. -/
theorem Logged.stayed_after {before : TranscriptionJob} (h : Logged false db written before)
    (hid : before.id = job.id) (hstate : before.state = job.state)
    (hplace : false = false → job.state = .queued → SameTurn before job) : Logged false db written job := by
  cases h with
  | stayed old hold hid' hstate' hplace' hwritten =>
    refine .stayed old hold (hid'.trans hid) (hstate'.trans hstate) (fun hkeeps hqueued => ?_)
      (hid ▸ hstate ▸ hwritten)
    have hfirst := hplace' hkeeps (hstate ▸ hqueued)
    have hsecond := hplace hkeeps hqueued
    exact ⟨hsecond.queueHidden.trans hfirst.queueHidden, hsecond.queuePosition.trans hfirst.queuePosition,
      hsecond.createdAt.trans hfirst.createdAt⟩
  | moved old hold hid' hstate' hplace' hwritten =>
    refine .moved old hold (hid'.trans hid) (hstate ▸ hstate') (fun hqueued => ?_) (hid ▸ hstate ▸ hwritten)
    exact (hplace rfl hqueued).queuePosition.trans (hplace' (hstate ▸ hqueued))
  | created hfresh hstate' hplace' hwritten =>
    have hqueued : job.state = .queued := hstate ▸ hstate'
    exact .created (hid ▸ hfresh) hqueued ((hplace rfl hqueued).queuePosition.trans hplace') (hid ▸ hwritten)

/-- Two steps of one transaction that write about different jobs, the second about none in the queue. -/
theorem Journaled.followed {first second : List JobEvent} (h : Journaled false db mid first)
    (h' : Journaled false mid db' second)
    (hapart : ∀ job ∈ db'.jobs, eventsOf second job.id = [] ∨ eventsOf first job.id = [] ∧ job.state ≠ .queued) :
    Journaled false db db' (first ++ second) where
  rows job hjob := by
    rcases hapart job hjob with hnone | ⟨hnone, hqueued⟩
    · obtain ⟨before, hbefore, hid, hstate, hplace⟩ := (h'.rows job hjob).unmoved hnone
      have hlogged : Logged false db (first ++ second) before := (h.rows before hbefore).before (hid ▸ hnone)
      exact hlogged.stayed_after hid hstate hplace
    · have hsame : eventsOf (first ++ second) job.id = eventsOf second job.id := by
        rw [eventsOf_append, hnone, List.nil_append]
      have hold : ∀ before ∈ mid.jobs, before.id = job.id → Unmoved false db before := fun before hbefore hid =>
        (h.rows before hbefore).unmoved (hid ▸ hnone)
      cases h'.rows job hjob with
      | stayed before hbefore hid hstate hplace hwritten =>
        obtain ⟨old, hmem, hid', hstate', -⟩ := hold before hbefore hid
        exact .stayed old hmem (hid'.trans hid) (hstate'.trans hstate) (fun _ hno => absurd hno hqueued)
          (hsame ▸ hwritten)
      | moved before hbefore hid hstate hplace hwritten =>
        obtain ⟨old, hmem, hid', hstate', -⟩ := hold before hbefore hid
        exact .moved old hmem (hid'.trans hid) (hstate' ▸ hstate) (fun hno => absurd hno hqueued) (hsame ▸ hwritten)
      | created hfresh hstate hplace hwritten => exact absurd hstate hqueued
  writes := h.writes.trans h'.writes
  kept job hjob := by
    obtain ⟨before, hbefore, hid⟩ := h.kept job hjob
    obtain ⟨after, hafter, hid'⟩ := h'.kept before hbefore
    exact ⟨after, hafter, hid'.trans hid⟩
  about event hevent := by
    rcases List.mem_append.mp hevent with hold | hnew
    · obtain ⟨before, hbefore, hid⟩ := h.about event hold
      obtain ⟨after, hafter, hid'⟩ := h'.kept before hbefore
      exact ⟨after, hafter, hid'.trans hid⟩
    · exact h'.about event hnew

/-- A recovery writes nothing about the jobs that wait. -/
theorem Logged.nothing_of_queued (h : Logged reorders db written job) (hqueued : job.state = .queued)
    (hidle : ∀ event ∈ written, event.state ≠ some .queued) : eventsOf written job.id = [] := by
  have hmoved : (eventsOf written job.id).map (·.state) ≠ [some .queued] := by
    intro hone
    have hmem : some JobState.queued ∈ (eventsOf written job.id).map (·.state) := by
      rw [hone]
      exact List.mem_singleton_self _
    obtain ⟨event, hevent, hstate⟩ := List.mem_map.mp hmem
    exact hidle event (List.mem_filter.mp hevent).1 hstate
  cases h with
  | stayed before hbefore hid hstate hplace hwritten =>
    refine List.eq_nil_iff_forall_not_mem.mpr fun event hevent => ?_
    exact hidle event (List.mem_filter.mp hevent).1 (hqueued ▸ hwritten event hevent)
  | moved _ _ _ _ _ hwritten => exact absurd (hqueued ▸ hwritten) hmoved
  | created _ _ _ hwritten => exact absurd hwritten hmoved

theorem recoveryEvent_idle {pending : Bool} {eventType jobId message : QString} :
    ∀ event ∈ [normalizedEvent t now (recoveryEvent pending eventType jobId message)], event.state ≠ some .queued := by
  intro event hevent hstate
  rw [List.mem_singleton.mp hevent] at hstate
  cases pending <;> cases hstate

theorem journaled_refl (reorders : Bool) (db : Database) : Journaled reorders db db [] where
  rows _ hjob := (unmoved_refl hjob).logged fun _ hnone => (by cases hnone)
  writes := writes_nothing rfl rfl
  kept job hjob := ⟨job, hjob, rfl⟩
  about _ hnone := by cases hnone

theorem recoverExpiredLease_journaled {lease : Option AsrExecutionLease} {u : Unit} (hdb : JobsInOrder db)
    (h : recoverExpiredLease t now lease db = .ok (u, db')) :
    ∃ written, Journaled false db db' written ∧ ∀ event ∈ written, event.state ≠ some .queued := by
  cases lease with
  | none =>
    obtain ⟨-, rfl⟩ := pure_eq_ok.mp h
    exact ⟨[], journaled_refl _ _, fun _ hnone => (by cases hnone)⟩
  | some expired =>
    obtain ⟨_, mid, hrecover, hdelete⟩ := bind_eq_ok.mp h
    obtain rfl := deleteLease_ok hdelete
    rcases recoverExpiredJob_ok hrecover with rfl | ⟨which, pending, message, hwhich, hsome, rfl⟩
    · exact ⟨[], ⟨(journaled_refl false mid).rows, ⟨(List.append_nil _).symm, (Int.add_zero _).symm⟩,
        (journaled_refl false mid).kept, (journaled_refl false mid).about⟩, fun _ hnone => (by cases hnone)⟩
    · obtain ⟨current, hcurrent⟩ := List.exists_mem_of_ne_nil _ hsome
      obtain ⟨hmem, hreached⟩ := List.mem_filter.mp hcurrent
      obtain ⟨hid, hrunning, hpending⟩ := hwhich current hreached
      rw [← hid] at hwhich ⊢
      obtain ⟨hrows, hwrites, hkept, habout⟩ : Journaled false db
          (recoveredDatabase t now which pending (qs "lease_expired") current.id message db) _ :=
        journaled_recovered hdb hmem hrunning hpending (fun job _ hjob => (hwhich job hjob).1) hreached
      exact ⟨_, ⟨hrows, ⟨hwrites.events, hwrites.lastEventId⟩, hkept, habout⟩, recoveryEvent_idle⟩

/-- The jobs that run without a lease are one at most. -/
theorem recoverableJobs_one (hone : db.runningJobs.length ≤ 1) (spared : Option QString) :
    recoverableJobs spared db = [] ∨ ∃ job ∈ db.jobs, job.state.isRunning = true ∧ recoverableJobs spared db = [job] := by
  have hlength : (recoverableJobs spared db).length ≤ 1 := (List.length_filter_le _ _).trans hone
  match hrows : recoverableJobs spared db with
  | [] => exact Or.inl rfl
  | [job] =>
    obtain ⟨hjob, hrunning, -⟩ := mem_recoverableJobs.mp (hrows ▸ List.mem_singleton_self job)
    exact Or.inr ⟨job, hjob, hrunning, rfl⟩
  | _ :: _ :: _ =>
    rw [hrows] at hlength
    simp at hlength

theorem markRunningJobsInterrupted_logged {reason : QString} {count : Nat} (hdb : JobsInOrder db)
    (hone : db.runningJobs.length ≤ 1) (h : markRunningJobsInterrupted t now reason db = (.ok count, db')) :
    ∃ written, StepLogged reorders db db' written [] := by
  obtain ⟨-, mid, hrecover, hclear⟩ := markRunningJobsInterrupted_steps h
  obtain rfl := clearExpiredLease_ok hclear
  have hmid : ∃ written, StepLogged reorders db mid written [] := by
    rcases recoverableJobs_one hone (sparedJob now db) with hnone | ⟨job, hjob, hrunning, hrows⟩
    · rw [hnone] at hrecover
      obtain ⟨-, rfl⟩ := pure_eq_ok.mp hrecover
      exact ⟨[], stepLogged_same (.refl _)⟩
    · rw [hrows] at hrecover
      obtain ⟨_, _, hfirst, hop⟩ := bind_eq_ok.mp hrecover
      obtain ⟨_, _, hrest, hpure⟩ := bind_eq_ok.mp hop
      obtain ⟨-, rfl⟩ := pure_eq_ok.mp hrest
      obtain ⟨-, rfl⟩ := pure_eq_ok.mp hpure
      rcases recoverJob_ok hfirst with ⟨-, rfl⟩ | ⟨-, message, rfl⟩
      · exact ⟨[], stepLogged_same (.refl _)⟩
      · refine ⟨_, (journaled_recovered hdb hjob hrunning rfl (fun row _ hrow => ?_) ?_).logged
          (List.length_filter_le _ _)⟩
        · exact beq_iff_eq.mp (Bool.and_eq_true .. ▸ hrow).1
        · rw [beq_self_eq_true, beq_self_eq_true]
          rfl
  obtain ⟨written, hlogged⟩ := hmid
  exact ⟨written, hlogged.congr ⟨rfl, rfl, rfl⟩⟩

/-- A claimed job has waited. -/
theorem journaled_claimed {selected row : TranscriptionJob} {ownerToken : QString} {leaseDurationMs : Int}
    (hdb : JobsInOrder db) (hrow : row ∈ db.jobs) (hid : row.id = selected.id) (hqueued : row.state = .queued) :
    Journaled false db (claimedDatabase t now selected ownerToken leaseDurationMs db)
      [normalizedEvent t now (claimedEvent selected)] ∧
    ∀ job ∈ claimedRows now selected.id db.jobs, job.id = selected.id → job.state = .preparing := by
  have hclaimed : ∀ job : TranscriptionJob, (claimedJob now job).id = job.id := fun _ => rfl
  have hrows : ∀ job ∈ claimedRows now selected.id db.jobs,
      job.id ≠ row.id ∧ Unmoved false db job ∨ job.id = row.id ∧ job.state = .preparing := by
    intro job hjob
    refine rows_of_update (fun job => job.state = .preparing) hdb hrow (fun other _ hother => ?_) ?_
      (hclaimed row) rfl hjob
    · exact (beq_iff_eq.mp (Bool.and_eq_true .. ▸ hother).1).trans hid.symm
    · rw [hid, hqueued, beq_self_eq_true]
      rfl
  refine ⟨journaled_moved .preparing hrow (fun hsame => ?_) hid.symm rfl ⟨rfl, rfl⟩ (fun job hjob => ?_)
    fun job hjob => kept_updateRows hclaimed hjob, fun job hjob hsame => ?_⟩
  · rw [hqueued] at hsame
    cases hsame
  · exact (hrows job hjob).imp_right fun hmoved => ⟨hmoved.1, hmoved.2, fun hno => (by cases hno)⟩
  · exact ((hrows job hjob).resolve_left fun hother => hother.1 (hsame.trans hid.symm)).2

theorem arrivals_none {events : List JobEvent} (h : ∀ event ∈ events, event.state ≠ some .queued) :
    arrivals events = [] :=
  List.filter_eq_nil_iff.mpr fun event hevent hqueued => h event hevent (beq_iff_eq.mp hqueued)

/-- A claim writes about the recovered job first, and then about the claimed one. -/
theorem claimInDatabase_logged {requestedJobId : Option QString} {ownerToken : QString} {leaseDurationMs : Int}
    {claim : JobClaimResult} (hdb : JobsInOrder db)
    (h : claimInDatabase t now requestedJobId ownerToken leaseDurationMs db = .ok (claim, db')) :
    ∃ written, StepLogged false db db' written [] := by
  rcases claimInDatabase_exact h with ⟨_, -, -, rfl, -⟩ | ⟨-, mid, hrecover, hidle⟩
  · exact ⟨[], stepLogged_same (.refl _)⟩
  obtain ⟨first, hfirst, hnotQueued⟩ := recoverExpiredLease_journaled hdb hrecover
  rcases claimIdle_exact hidle with ⟨rfl, -⟩ | ⟨selected, hselected, -, hqueued, -, -, rfl⟩
  · exact ⟨first, hfirst.logged (by rw [arrivals_none hnotQueued]; exact Nat.zero_le 1)⟩
  · obtain ⟨hrecovering, hleases⟩ := recoverExpiredLease_ok hdb hrecover
    have hmid : JobsInOrder mid := (hrecovering.inHistory hdb fun lease hlease => by
      rw [hleases] at hlease
      cases hlease).1
    obtain ⟨hsecond, hpreparing⟩ := @journaled_claimed t mid now selected selected ownerToken leaseDurationMs hmid
      hselected rfl hqueued
    have hnone : arrivals (first ++ [normalizedEvent t now (claimedEvent selected)]) = [] := by
      refine arrivals_none fun event hevent hstate => ?_
      rcases List.mem_append.mp hevent with hold | hnew
      · exact hnotQueued event hold hstate
      · rw [List.mem_singleton.mp hnew] at hstate
        cases hstate
    refine ⟨_, (hfirst.followed hsecond fun job hjob => ?_).logged (by rw [hnone]; exact Nat.zero_le 1)⟩
    by_cases hsame : job.id = selected.id
    · refine Or.inr ⟨?_, fun hno => ?_⟩
      · rw [hsame]
        exact (hfirst.rows selected hselected).nothing_of_queued hqueued hnotQueued
      · rw [hpreparing job hjob hsame] at hno
        cases hno
    · have hother : (normalizedEvent t now (claimedEvent selected)).jobId ≠ job.id := fun heq => hsame heq.symm
      refine Or.inl ?_
      rw [eventsOf_single, if_neg hother]

/-! ## Operations that remove jobs -/

/-- The jobs that go are the ones with these ids. -/
theorem stepLogged_cascade {which : TranscriptionJob → Bool} (hmid : Identified mid.jobs)
    (hrows : ∀ job ∈ mid.jobs, Unmoved reorders db job)
    (hkept : ∀ job ∈ db.jobs, ∃ after ∈ mid.jobs, after.id = job.id) (hevents : mid.events = db.events)
    (hlast : mid.lastEventId = db.lastEventId) : StepLogged reorders db (cascadeJobs which mid) [] [] := by
  let gone := fun jobId => mid.jobs.any fun job => which job && job.id == jobId
  have hgone : ∀ job ∈ mid.jobs, gone job.id = which job := by
    intro job hjob
    refine Bool.eq_iff_iff.mpr ⟨fun hany => ?_, fun hwhich => ?_⟩
    · obtain ⟨other, hother, hboth⟩ := List.any_eq_true.mp hany
      rw [Bool.and_eq_true, beq_iff_eq] at hboth
      rw [← hmid.eq_of_id hother hjob hboth.2]
      exact hboth.1
    · exact List.any_eq_true.mpr ⟨job, hjob, by rw [hwhich, beq_self_eq_true]; rfl⟩
  refine stepLogged_removal gone (fun job hjob => ?_) (fun job hjob hstays => ?_)
    (congrArg (List.filter _) hevents) hlast
  · obtain ⟨hmem, hnot⟩ := List.mem_filter.mp hjob
    refine ⟨?_, hrows job hmem⟩
    rw [hgone job hmem]
    exact Bool.not_eq_true' _ ▸ hnot
  · obtain ⟨after, hafter, hid⟩ := hkept job hjob
    refine ⟨after, List.mem_filter.mpr ⟨hafter, ?_⟩, hid⟩
    rw [← hgone after hafter, hid, hstays]
    rfl

theorem deleteTerminalJob_logged {id : QString} {u : Unit} (hdb : JobsInOrder db)
    (h : deleteTerminalJob id db = (.ok u, db')) : StepLogged reorders db db' [] [] := by
  obtain ⟨current, recording, hfound, hover, -, rfl⟩ := deleteTerminalJob_ok h
  obtain ⟨hcurrent, -⟩ := of_job? hfound
  refine StepLogged.congr ?_ (sameJobs_rebuilt _ _)
  split
  · refine stepLogged_unmoved ⟨(List.append_nil _).symm, (Int.add_zero _).symm⟩ (Nat.zero_le 1) (fun job hjob => ?_)
      (fun job hjob => kept_updateRows (fun _ => rfl) hjob) (fun _ hnone => (by cases hnone))
      fun _ hnone => (by cases hnone)
    refine unmoved_updateRows (fun row hrow hwhich => ?_) hjob
    refine ⟨rfl, rfl, fun _ hqueued => ?_⟩
    rw [← hdb.eq_of_id hrow hcurrent (beq_iff_eq.mp hwhich), hqueued] at hover
    rcases hover with hterminal | hinterrupted
    · cases hterminal
    · cases hinterrupted
  · exact stepLogged_cascade hdb.ids (fun _ hjob => unmoved_refl hjob) (fun job hjob => ⟨job, hjob, rfl⟩) rfl rfl

theorem clearCompleted_logged {count : Nat} (hdb : JobsInOrder db) (h : clearCompleted db = (.ok count, db')) :
    StepLogged reorders db db' [] [] := by
  obtain rfl := clearCompleted_ok h
  refine StepLogged.congr ?_ (sameJobs_rebuiltAll _ (.refl _))
  have hhidden : ∀ row : TranscriptionJob, ({ row with queueHidden := true } : TranscriptionJob).id = row.id :=
    fun _ => rfl
  refine stepLogged_cascade (identified_updateRows hhidden hdb.ids) (fun job hjob => ?_)
    (fun job hjob => kept_updateRows hhidden hjob) rfl rfl
  refine unmoved_updateRows (fun row _ hwhich => ?_) hjob
  refine ⟨rfl, rfl, fun _ hqueued => ?_⟩
  rw [hqueued, Bool.and_eq_true, Bool.and_eq_true] at hwhich
  cases hwhich.1.2

/-! ## Every step -/

def Operation.isReorder : Operation → Bool
  | .reorder .. => true
  | _ => false

def RepositoryStep.isReorder : RepositoryStep → Bool
  | .jobs step => step.operation.isReorder
  | .recordings .. => false

/-- The numbers of the events that the caller of `appendEvent` has written. -/
def explicitEvents (t : CharTables) (db : Database) : RepositoryStep → List Int
  | .jobs step =>
    match step.operation with
    | .appendEvent event owner =>
      match (appendEvent t step.now event owner db).1 with
      | .ok id => [id]
      | .error _ => []
    | _ => []
  | .recordings .. => []

theorem explicitEvents_failed {step : Step} (h : ¬ Accepted t db step) : explicitEvents t db (.jobs step) = [] := by
  obtain ⟨now, newId, operation⟩ := step
  cases operation with
  | appendEvent event owner =>
    show (match (appendEvent t now event owner db).1 with | .ok id => [id] | .error _ => []) = []
    cases hresult : (appendEvent t now event owner db).1 with
    | error error => rfl
    | ok id =>
      refine absurd ?_ h
      show Except.map _ (appendEvent t now event owner db).1 = _
      rw [hresult]
      rfl
  | _ => rfl

/-- The step is logged, with what its caller has appended. -/
def IsLogged (reorders : Bool) (db db' : Database) (explicit : List Int) : Prop :=
  ∃ written appended, StepLogged reorders db db' written appended ∧ (written = [] ∨ appended = []) ∧
    (numberedEvents db.lastEventId appended).map (·.id) = explicit

theorem isLogged_of (h : ∃ written, StepLogged reorders db db' written []) : IsLogged reorders db db' [] := by
  obtain ⟨written, hlogged⟩ := h
  exact ⟨written, [], hlogged, Or.inr rfl, rfl⟩

theorem isLogged_same (h : SameJobs db db') : IsLogged reorders db db' [] :=
  isLogged_of ⟨[], stepLogged_same h⟩

theorem performed_logged (step : Step) (hdb : JobsInOrder db) (hone : db.runningJobs.length ≤ 1) :
    IsLogged step.operation.isReorder db (performed t db step) (explicitEvents t db (.jobs step)) := by
  by_cases haccepted : Accepted t db step
  · have h := accepted_eq haccepted
    generalize performed t db step = after at h ⊢
    cases htranscript : step.operation.isTranscript with
    | true =>
      have hsame : SameJobs db (performed t db step) := performed_transcript sameJobs_segments htranscript (.refl db)
      rw [show performed t db step = after from congrArg Prod.snd h] at hsame
      obtain ⟨now, newId, operation⟩ := step
      cases operation with
      | replaceTranscript | saveEditedTranscript | replaceChunk | saveEditedSegment | deleteSegment =>
        exact isLogged_same hsame
      | _ => cases htranscript
    | false =>
      obtain ⟨now, newId, operation⟩ := step
      cases operation with
      | createQueued job =>
        obtain ⟨_, hok⟩ := answered_ok h
        exact isLogged_of (createQueued_logged hok)
      | claimNextQueued owner duration =>
        obtain ⟨_, hok⟩ := answered_ok h
        exact isLogged_of (claimInDatabase_logged hdb (claimNextQueued_ok hok))
      | claimQueued jobId owner duration =>
        obtain ⟨_, hok⟩ := answered_ok h
        exact isLogged_of (claimInDatabase_logged hdb (claimQueued_ok hok))
      | renewLease jobId owner duration =>
        obtain ⟨_, hok⟩ := answered_ok h
        have hsame : SameJobs db (renewLease now jobId owner duration db).2 := renewLease_keeps sameJobs_quiet (.refl db)
        rw [hok] at hsame
        exact isLogged_same hsame
      | releaseLease jobId owner =>
        have hsame : SameJobs db (releaseLease jobId owner db).2 := releaseLease_keeps sameJobs_quiet (.refl db)
        rw [show releaseLease jobId owner db = _ from h] at hsame
        exact isLogged_same hsame
      | transition id state code message owner => exact isLogged_of (transition_logged hdb h)
      | completeAndActivate recordingId jobId owner => exact isLogged_of (completeAndActivate_logged hdb h)
      | updateProgress id stage progress last owner => exact isLogged_of (updateProgress_logged hdb h)
      | updateRuntimeInfo id backend engine worker diagnostics owner =>
        exact isLogged_of ⟨[], updateRuntimeInfo_logged h⟩
      | updateParameters id parameters owner => exact isLogged_of ⟨[], updateParameters_logged h⟩
      | appendEvent event owner =>
        obtain ⟨id, hok⟩ := answered_ok h
        obtain ⟨rfl, hlogged⟩ := @appendEvent_logged t db after now false event owner id hok
        refine ⟨[], _, hlogged, Or.inl rfl, ?_⟩
        show _ = (match (appendEvent t now event owner db).1 with | .ok id => [id] | .error _ => [])
        rw [hok]
        rfl
      | replaceChunks jobId chunks owner =>
        have hsame : SameJobs db (replaceChunks now newId jobId chunks owner db).2 :=
          replaceChunks_keeps sameJobs_quiet (.refl db)
        rw [show replaceChunks now newId jobId chunks owner db = _ from h] at hsame
        exact isLogged_same hsame
      | updateChunk chunk owner => exact isLogged_of (updateChunk_logged hdb h)
      | reorder ids => exact isLogged_of ⟨[], reorder_logged h⟩
      | markRunningJobsInterrupted reason =>
        obtain ⟨_, hok⟩ := answered_ok h
        exact isLogged_of (markRunningJobsInterrupted_logged hdb hone hok)
      | deleteTerminalJob id => exact isLogged_of ⟨[], deleteTerminalJob_logged hdb h⟩
      | clearCompleted =>
        obtain ⟨_, hok⟩ := answered_ok h
        exact isLogged_of ⟨[], clearCompleted_logged hdb hok⟩
      | _ => cases htranscript
  · rw [explicitEvents_failed haccepted, (accepted_or_unchanged t db step).resolve_left haccepted]
    exact isLogged_same (.refl db)

/-- A step of the recording repository removes the jobs of a recording, or none. -/
theorem recordings_logged {uuid : QString} {operation : RecordingOperation} (hdb : JobsInOrder db) :
    StepLogged false db (RecordingRepository.perform t db now uuid operation).2 [] [] := by
  have hsame : StepLogged false db db [] [] := stepLogged_same (.refl db)
  cases hupdate : operation.isUpdate with
  | true => exact stepLogged_same (RecordingRepository.perform_update sameJobs_recordings hupdate (.refl db))
  | false =>
    cases operation with
    | create filesExist recording =>
      refine (transactional_ite (transactional_refusal _) (transactional_immediate _)).after
        (P := fun after => StepLogged false db after [] []) hsame fun _ after hok => ?_
      obtain ⟨-, -, -, rfl⟩ := RecordingRepository.create_ok hok
      refine StepLogged.congr ?_ (sameJobs_rebuilt _ _)
      exact stepLogged_same ⟨rfl, rfl, rfl⟩
    | permanentlyDelete id =>
      refine (transactional_immediate _).after (P := fun after => StepLogged false db after [] []) hsame
        fun _ after hok => ?_
      obtain ⟨_, rfl⟩ := RecordingRepository.permanentlyDelete_ok hok
      exact (stepLogged_cascade hdb.ids (fun _ hjob => unmoved_refl hjob) (fun job hjob => ⟨job, hjob, rfl⟩)
        rfl rfl).congr ⟨rfl, rfl, rfl⟩
    | setActiveTranscriptJob id jobId =>
      refine (transactional_ite (transactional_refusal _) (transactional_immediate _)).after
        (P := fun after => StepLogged false db after [] []) hsame fun _ after hok => ?_
      obtain ⟨-, rfl⟩ := RecordingRepository.setActiveTranscriptJob_ok hok
      refine StepLogged.congr ?_ (sameJobs_rebuilt _ _)
      exact stepLogged_same ⟨rfl, rfl, rfl⟩
    | _ => cases hupdate

/-- **Every step** is logged. -/
theorem executed_logged (step : RepositoryStep) (hdb : JobsInOrder db) (hone : db.runningJobs.length ≤ 1) :
    IsLogged step.isReorder db (executed t db step) (explicitEvents t db step) := by
  cases step with
  | jobs step => exact performed_logged step hdb hone
  | recordings now uuid operation => exact isLogged_of ⟨[], recordings_logged hdb⟩

end BreezeDesk
