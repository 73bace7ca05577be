/-
  The list of jobs that the queue page shows.

  Jobs that run come first, then those that wait, then the others.  The list is changed in place: a new job is
  put behind its group, a job whose group has changed is moved there, and the user may move a waiting job.
  Every change of the rows is announced to the views before it is made, a move with the number of the row
  before which the moved one goes.

  The text of a state is kept as the source has it: whatever is neither waiting nor over counts as running.

  * `kept_data`, `kept_insertJob`, `kept_moveToDisplayGroup`, `kept_removed` — the ways in which rows change:
    the groups stay, the views follow, and the queue is in the order of arrival (`Kept`);
  * `perform_kept`    — every operation of the program is one of them;
  * `moveQueued_spec` — but for the move of a waiting job, which puts it where the user wants it;
  * `job_list_groups` — all of it, over all runs.
-/
import BreezeDesk.Core.Text
import BreezeDesk.Library.Queue
import BreezeDesk.Library.Rows
import BreezeDesk.Library.Runs
import Mathlib.Data.Rat.Defs
import Mathlib.Algebra.Order.Ring.Unbundled.Rat

namespace BreezeDesk.JobListModel

open Rows Runs

/-! ## The source -/

structure TimelineEvent where
  timestamp : Int
  title : QString
  detail : QString
  severity : QString
  deriving DecidableEq, Repr

structure Job where
  id : QString
  recordingId : QString := []
  title : QString := []
  state : QString := qs "Queued"
  stage : QString := qs "Preparing"
  progress : ℚ := 0
  error : QString := []
  currentChunk : Int := 0
  totalChunks : Int := 0
  latestPartialText : QString := []
  eventTimeline : List TimelineEvent := []
  deriving DecidableEq

structure Model where
  jobs : List Job := []
  runningJobId : QString := []
  deriving DecidableEq

/-- What the views are told; rows are numbered as they are when it is announced. -/
inductive Announcement where
  | rowsInserted (row : Nat)
  | rowsRemoved (row : Nat)
  | rowsMoved (source destinationChild : Nat)
  | dataChanged (first last : Nat)
  | runningJobIdChanged
  deriving DecidableEq, Repr

abbrev Outcome := Model × List Announcement

def isTerminalState (state : QString) : Bool :=
  state == qs "Completed" || state == qs "Cancelled" || state == qs "Failed" || state == qs "Interrupted"

def isRunningState (state : QString) : Bool :=
  state != qs "Queued" && state != qs "Interrupted" && !isTerminalState state

def displayPriority (job : Job) : Nat :=
  if isRunningState job.state then 0 else if job.state = qs "Queued" then 1 else 2

def isQueued (job : Job) : Bool := job.state == qs "Queued"

/-- `-1` is `none`. -/
def indexOf (jobs : List Job) (id : QString) : Option Nat := jobs.findIdx? (·.id == id)

def emitRowChanged (row : Nat) : List Announcement := [.dataChanged row row]

def emitQueueMetadataChanged (jobs : List Job) : List Announcement :=
  if jobs.isEmpty then [] else [.dataChanged 0 (jobs.length - 1)]

/-- `QAbstractItemModel::beginMoveRows` for one row of a list: a row cannot go where it is. -/
def beginMoveRows (source destinationChild : Nat) : Bool :=
  destinationChild != source && destinationChild != source + 1

def insertionRowFor (jobs : List Job) (job : Job) : Nat :=
  (jobs.takeWhile fun other => displayPriority other ≤ displayPriority job).length

/-- The row, behind all other rows of its group. -/
def moveToDisplayGroup (jobs : List Job) (row : Nat) : List Job × List Announcement × Nat :=
  match jobs[row]? with
  | none => (jobs, [], row)
  | some job =>
    let before := (jobs.take row).filter (displayPriority · ≤ displayPriority job)
    let behind := (jobs.drop (row + 1)).filter (displayPriority · ≤ displayPriority job)
    let targetRow := before.length + behind.length
    if targetRow = row then (jobs, [], row)
    else
      let destinationChild := if targetRow > row then targetRow + 1 else targetRow
      if !beginMoveRows row destinationChild then (jobs, [], row)
      else (moved jobs row targetRow, [.rowsMoved row destinationChild], targetRow)

def queuePositionForRow (jobs : List Job) (row : Nat) : Option Nat :=
  match jobs[row]? with
  | none => none
  | some job => if isQueued job then some ((jobs.take row).filter isQueued).length else none

def queuedCount (jobs : List Job) : Nat := (jobs.filter isQueued).length

/-- `QAbstractListModel` data of the roles that the operations ask for. -/
def canCancel (job : Job) : Bool := !isTerminalState job.state && job.state != qs "Cancelling"

def canRetry (job : Job) : Bool := job.state == qs "Failed" || job.state == qs "Cancelled"

def canResume (job : Job) : Bool := job.state == qs "Interrupted"

def canRemove (job : Job) : Bool := isTerminalState job.state

def setRunningJobId (id : QString) (m : Model) : Outcome :=
  if m.runningJobId = id then (m, [])
  else
    let previousRow := indexOf m.jobs m.runningJobId
    let nextRow := indexOf m.jobs id
    let previous := previousRow.toList.flatMap emitRowChanged
    let next := if nextRow = previousRow then [] else nextRow.toList.flatMap emitRowChanged
    ({ m with runningJobId := id }, previous ++ next ++ [.runningJobIdChanged])

/-- A new job goes behind its group. -/
def insertJob (job : Job) (m : Model) : Outcome :=
  let insertionRow := insertionRowFor m.jobs job
  let jobs := m.jobs.insertIdx insertionRow job
  ({ m with jobs }, [.rowsInserted insertionRow] ++ emitQueueMetadataChanged jobs)

def enqueue (uuid recordingId title : QString) (m : Model) : Outcome :=
  insertJob { id := uuid, recordingId, title } m

/-- `qBound(0.0, progress, 1.0)`. -/
def boundedProgress (progress : ℚ) : ℚ := max 0 (min progress 1)

def upsert (id recordingId title state stage : QString) (progress : ℚ) (error : QString) (m : Model) : Outcome :=
  match indexOf m.jobs id with
  | none =>
    let job : Job :=
      { id, recordingId, title, state, stage, progress := boundedProgress progress, error }
    let (m, announced) := insertJob job m
    if isRunningState state then
      let (m, more) := setRunningJobId id m
      (m, announced ++ more)
    else (m, announced)
  | some existing =>
    match m.jobs[existing]? with
    | none => (m, [])
    | some job =>
      let updated := { job with recordingId, title, state, stage, progress := boundedProgress progress, error }
      let stateChanged := job.state != state
      let jobs := m.jobs.set existing updated
      let (jobs, announced, updatedRow) :=
        if displayPriority job = displayPriority updated then (jobs, [], existing)
        else moveToDisplayGroup jobs existing
      let announced := announced ++ emitRowChanged updatedRow ++
        if stateChanged then emitQueueMetadataChanged jobs else []
      let m := { m with jobs }
      if isRunningState state then
        let (m, more) := setRunningJobId id m
        (m, announced ++ more)
      else if m.runningJobId = id then
        let (m, more) := setRunningJobId [] m
        (m, announced ++ more)
      else (m, announced)

def cancel (id : QString) (m : Model) : Outcome :=
  match indexOf m.jobs id with
  | none => (m, [])
  | some row =>
    match m.jobs[row]? with
    | none => (m, [])
    | some job =>
      if !canCancel job then (m, [])
      else
        let wasQueued := isQueued job
        let updated := { job with state := if wasQueued then qs "Cancelled" else qs "Cancelling" }
        let jobs := m.jobs.set row updated
        let (jobs, announced, updatedRow) :=
          if displayPriority job = displayPriority updated then (jobs, [], row) else moveToDisplayGroup jobs row
        ({ m with jobs }, announced ++ emitRowChanged updatedRow ++
          if wasQueued then emitQueueMetadataChanged jobs else [])

/-- A job waits again: `retry` begins afresh, `resume` goes on. -/
def requeue (allowed : Job → Bool) (update : Job → Job) (id : QString) (m : Model) : Outcome :=
  match indexOf m.jobs id with
  | none => (m, [])
  | some row =>
    match m.jobs[row]? with
    | none => (m, [])
    | some job =>
      if !allowed job then (m, [])
      else
        let (jobs, announced, updatedRow) := moveToDisplayGroup (m.jobs.set row (update job)) row
        ({ m with jobs }, announced ++ emitRowChanged updatedRow ++ emitQueueMetadataChanged jobs)

def retry : QString → Model → Outcome :=
  requeue canRetry fun job =>
    { job with
      state := qs "Queued"
      stage := qs "Preparing"
      progress := 0
      error := []
      currentChunk := 0
      latestPartialText := [] }

def resume : QString → Model → Outcome := requeue canResume fun job => { job with state := qs "Queued" }

def remove (id : QString) (m : Model) : Outcome :=
  match indexOf m.jobs id with
  | none => (m, [])
  | some row =>
    match m.jobs[row]? with
    | none => (m, [])
    | some job =>
      if !canRemove job then (m, [])
      else
        let jobs := m.jobs.eraseIdx row
        ({ m with jobs }, [.rowsRemoved row] ++ emitQueueMetadataChanged jobs)

/-- The loop of `moveQueued` that looks for the row of the waiting job number `destination`. -/
def queuedRow : List Job → Nat → Nat → Option Nat
  | [], _, _ => none
  | job :: rest, row, destination =>
    if !isQueued job then queuedRow rest (row + 1) destination
    else
      match destination with
      | 0 => some row
      | destination + 1 => queuedRow rest (row + 1) destination

def moveQueued (id : QString) (destination : Int) (m : Model) : Outcome :=
  match indexOf m.jobs id with
  | none => (m, [])
  | some sourceRow =>
    match queuePositionForRow m.jobs sourceRow with
    | none => (m, [])
    | some sourcePosition =>
      if destination < 0 ∨ destination ≥ queuedCount m.jobs ∨ sourcePosition = destination then (m, [])
      else
        match queuedRow m.jobs 0 destination.toNat with
        | none => (m, [])
        | some targetRow =>
          let destinationChild := if targetRow > sourceRow then targetRow + 1 else targetRow
          if !beginMoveRows sourceRow destinationChild then (m, [])
          else
            let jobs := moved m.jobs sourceRow targetRow
            ({ m with jobs }, [.rowsMoved sourceRow destinationChild] ++ emitQueueMetadataChanged jobs)

/-- The loop of `clearCompleted`, from the last row to the first. -/
def clearRows : Nat → List Job → List Job × List Announcement
  | 0, jobs => (jobs, [])
  | row + 1, jobs =>
    match jobs[row]? with
    | none => clearRows row jobs
    | some job =>
      if job.state = qs "Completed" ∨ job.state = qs "Cancelled" then
        let (jobs, announced) := clearRows row (jobs.eraseIdx row)
        (jobs, .rowsRemoved row :: announced)
      else clearRows row jobs

def clearCompleted (m : Model) : Outcome :=
  let (jobs, announced) := clearRows m.jobs.length m.jobs
  ({ m with jobs }, announced ++ emitQueueMetadataChanged jobs)

/-- A job is changed where it is, in fields that its group does not depend on. -/
def changeRow (id : QString) (changes : Job → Bool) (update : Job → Job) (m : Model) : Outcome :=
  match indexOf m.jobs id with
  | none => (m, [])
  | some row =>
    match m.jobs[row]? with
    | none => (m, [])
    | some job =>
      if !changes job then (m, [])
      else ({ m with jobs := m.jobs.set row (update job) }, emitRowChanged row)

def updateTelemetry (id : QString) (currentChunk totalChunks : Int) (latestPartialText : QString) : Model → Outcome :=
  let boundedTotal := max 0 totalChunks
  let boundedCurrent := if boundedTotal > 0 then max 0 (min currentChunk boundedTotal) else max 0 currentChunk
  changeRow id
    (fun job => !(job.currentChunk == boundedCurrent && job.totalChunks == boundedTotal &&
      job.latestPartialText == latestPartialText))
    fun job => { job with currentChunk := boundedCurrent, totalChunks := boundedTotal, latestPartialText }

def maximumTimelineEvents : Nat := 50

/-- `appendEvent`; `now` is the clock, for an event without a time of its own. -/
def appendEvent (id title detail severity : QString) (occurredAt : Option Int) (now : Int) : Model → Outcome :=
  changeRow id (fun _ => true) fun job =>
    let event : TimelineEvent :=
      ⟨occurredAt.getD now, title, detail, if severity.isEmpty then qs "info" else severity⟩
    let timeline := job.eventTimeline ++ [event]
    { job with eventTimeline := timeline.drop (timeline.length - maximumTimelineEvents) }

inductive Operation where
  | enqueue (uuid recordingId title : QString)
  | upsert (id recordingId title state stage : QString) (progress : ℚ) (error : QString)
  | cancel (id : QString)
  | retry (id : QString)
  | resume (id : QString)
  | remove (id : QString)
  | moveQueued (id : QString) (destination : Int)
  | clearCompleted
  | setRunningJobId (id : QString)
  | updateTelemetry (id : QString) (currentChunk totalChunks : Int) (latestPartialText : QString)
  | appendEvent (id title detail severity : QString) (occurredAt : Option Int) (now : Int)

def perform (m : Model) : Operation → Outcome
  | .enqueue uuid recordingId title => enqueue uuid recordingId title m
  | .upsert id recordingId title state stage progress error =>
    upsert id recordingId title state stage progress error m
  | .cancel id => cancel id m
  | .retry id => retry id m
  | .resume id => resume id m
  | .remove id => remove id m
  | .moveQueued id destination => moveQueued id destination m
  | .clearCompleted => clearCompleted m
  | .setRunningJobId id => setRunningJobId id m
  | .updateTelemetry id currentChunk totalChunks latestPartialText =>
    updateTelemetry id currentChunk totalChunks latestPartialText m
  | .appendEvent id title detail severity occurredAt now => appendEvent id title detail severity occurredAt now m

/-! ## What has to hold -/

def ids (jobs : List Job) : List QString := jobs.map (·.id)

/-- The jobs that wait, in the order of the rows. -/
def queuedIds (jobs : List Job) : List QString := ids (jobs.filter isQueued)

/-- Running jobs first, then the waiting ones, then the others; every job once. -/
structure InGroups (jobs : List Job) : Prop where
  grouped : Grouped displayPriority jobs
  unique : (ids jobs).Nodup

/-- What a view makes of an announcement; for a new row it asks the model, whose rows are `current`. -/
def replayOne (current view : List QString) : Announcement → List QString
  | .rowsInserted row => match current[row]? with
    | none => view
    | some id => view.insertIdx row id
  | .rowsRemoved row => view.eraseIdx row
  | .rowsMoved source destinationChild => replayMove view source destinationChild
  | .dataChanged _ _ => view
  | .runningJobIdChanged => view

def replay (current view : List QString) (announced : List Announcement) : List QString :=
  announced.foldl (replayOne current) view

/-- An operation other than a move by the user: the groups stay, the views follow, and the queue is in the
    order of arrival. -/
structure Kept (before after : List Job) (announced : List Announcement) : Prop where
  groups : InGroups after
  replays : replay (ids after) (ids before) announced = ids after
  arrives : queuedIds after = Queue.arrive (queuedIds after) (queuedIds before)

/-- Announcements that leave the rows where they are. -/
def IsData : Announcement → Prop
  | .dataChanged _ _ | .runningJobIdChanged => True
  | _ => False

section Rows

variable {before after first second jobs : List Job} {job updated : Job} {announced more : List Announcement}
  {current view : List QString} {m : Model}

theorem replay_append : replay current view (announced ++ more) = replay current (replay current view announced) more :=
  List.foldl_append

theorem replay_data (h : ∀ a ∈ announced, IsData a) : replay current view announced = view := by
  induction announced generalizing view with
  | nil => rfl
  | cons a rest ih =>
    have ha : replayOne current view a = view := by
      cases a with
      | dataChanged row last => rfl
      | runningJobIdChanged => rfl
      | _ => exact (h _ (List.mem_cons_self ..)).elim
    show replay current (replayOne current view a) rest = view
    rw [ha]
    exact ih fun b hb => h b (List.mem_cons_of_mem _ hb)

theorem Kept.more_data (h : Kept before after announced) (hdata : ∀ a ∈ more, IsData a) :
    Kept before after (announced ++ more) where
  groups := h.groups
  replays := by rw [replay_append, h.replays, replay_data hdata]
  arrives := h.arrives

theorem data_emitRowChanged (row : Nat) : ∀ a ∈ emitRowChanged row, IsData a := by
  intro a ha
  obtain rfl := List.mem_singleton.mp ha
  trivial

theorem data_emitQueueMetadataChanged (jobs : List Job) : ∀ a ∈ emitQueueMetadataChanged jobs, IsData a := by
  intro a ha
  unfold emitQueueMetadataChanged at ha
  split at ha
  · cases ha
  · obtain rfl := List.mem_singleton.mp ha
    trivial

theorem data_metadata (changed : Prop) [Decidable changed] (jobs : List Job) :
    ∀ a ∈ (if changed then emitQueueMetadataChanged jobs else []), IsData a := by
  split
  · exact data_emitQueueMetadataChanged jobs
  · exact fun a ha => absurd ha List.not_mem_nil

theorem data_append (hfirst : ∀ a ∈ announced, IsData a) (hsecond : ∀ a ∈ more, IsData a) :
    ∀ a ∈ announced ++ more, IsData a := by
  intro a ha
  rcases List.mem_append.mp ha with ha | ha
  · exact hfirst a ha
  · exact hsecond a ha

theorem data_setRunningJobId (id : QString) (m : Model) : ∀ a ∈ (setRunningJobId id m).2, IsData a := by
  have hrows : ∀ row : Option Nat, ∀ a ∈ row.toList.flatMap emitRowChanged, IsData a := by
    intro row a ha
    obtain ⟨number, -, ha⟩ := List.mem_flatMap.mp ha
    exact data_emitRowChanged number a ha
  unfold setRunningJobId
  split
  · exact fun a ha => absurd ha List.not_mem_nil
  · refine data_append (data_append (hrows _) ?_) fun a ha => ?_
    · split
      · exact fun a ha => absurd ha List.not_mem_nil
      · exact hrows _
    · obtain rfl := List.mem_singleton.mp ha
      trivial

@[simp] theorem setRunningJobId_jobs (id : QString) (m : Model) : (setRunningJobId id m).1.jobs = m.jobs := by
  unfold setRunningJobId
  split <;> rfl

theorem isQueued_eq (job : Job) : isQueued job = decide (displayPriority job = 1) := by
  unfold isQueued displayPriority
  by_cases hqueued : job.state = qs "Queued"
  · rw [hqueued]
    decide
  · rw [if_neg hqueued]
    split <;> simpa using hqueued

theorem filter_isQueued (jobs : List Job) : jobs.filter isQueued = jobs.filter (displayPriority · = 1) :=
  List.filter_congr fun job _ => isQueued_eq job

theorem queuedIds_append (first second : List Job) : queuedIds (first ++ second) = queuedIds first ++ queuedIds second := by
  simp [queuedIds, ids]

theorem queuedIds_cons (job : Job) (rest : List Job) :
    queuedIds (job :: rest) = if isQueued job then job.id :: queuedIds rest else queuedIds rest := by
  unfold queuedIds ids
  rw [List.filter_cons]
  split <;> rfl

theorem queuedIds_placed (rest : List Job) (job : Job) : queuedIds (Rows.placed displayPriority rest job) =
    if isQueued job then queuedIds rest ++ [job.id] else queuedIds rest := by
  unfold queuedIds ids
  rw [filter_isQueued, filter_placed, ← filter_isQueued, isQueued_eq]
  by_cases hone : displayPriority job = 1
  · simp [hone]
  · simp [hone]

theorem queuedIds_sublist (jobs : List Job) : (queuedIds jobs).Sublist (ids jobs) :=
  List.filter_sublist.map _

/-- A row with its neighbours. -/
theorem of_indexOf {id : QString} {row : Nat} (h : indexOf jobs id = some row) : ∃ first job second,
    jobs = first ++ job :: second ∧ first.length = row ∧ job.id = id ∧ jobs[row]? = some job := by
  obtain ⟨hrow, hid, -⟩ := List.findIdx?_eq_some_iff_getElem.mp h
  refine ⟨jobs.take row, jobs[row], jobs.drop (row + 1), ?_, ?_, by simpa using hid, List.getElem?_eq_getElem hrow⟩
  · rw [← List.drop_eq_getElem_cons hrow, List.take_append_drop]
  · rw [List.length_take]
    omega

theorem not_mem_of_indexOf {id : QString} (h : indexOf jobs id = none) : id ∉ ids jobs := by
  intro hmem
  obtain ⟨job, hjob, hid⟩ := List.mem_map.mp hmem
  have hnot := List.findIdx?_eq_none_iff.mp h job hjob
  simp [hid] at hnot

theorem set_split (first second : List Job) (job updated : Job) :
    (first ++ job :: second).set first.length updated = first ++ updated :: second := by
  rw [List.set_append_right _ _ (Nat.le_refl _), Nat.sub_self, List.set_cons_zero]

/-! ## The ways in which rows change -/

theorem ids_split (first second : List Job) (job : Job) :
    ids (first ++ job :: second) = ids first ++ job.id :: ids second := by
  simp [ids]

theorem InGroups.without (h : InGroups (first ++ job :: second)) : InGroups (first ++ second) where
  grouped := h.grouped.sublist (List.Sublist.append_left (List.sublist_cons_self ..) _)
  unique := h.unique.sublist ((List.Sublist.append_left (List.sublist_cons_self ..) _).map _)

theorem InGroups.not_mem (h : InGroups (first ++ job :: second)) : job.id ∉ ids (first ++ second) := by
  have hunique := h.unique
  rw [ids_split] at hunique
  have hnot := (List.nodup_middle.mp hunique)
  rw [List.nodup_cons] at hnot
  simpa [ids] using hnot.1

theorem InGroups.placed (h : InGroups jobs) (hnew : job.id ∉ ids jobs) :
    InGroups (Rows.placed displayPriority jobs job) where
  grouped := grouped_placed h.grouped job
  unique := by
    have hsplit : ids jobs = ids (jobs.filter (displayPriority · ≤ displayPriority job)) ++
        ids (jobs.filter (displayPriority job < displayPriority ·)) := by
      unfold ids
      rw [← List.map_append, grouped_split h.grouped]
    unfold Rows.placed
    rw [ids_split, List.nodup_middle, List.nodup_cons, ← hsplit]
    exact ⟨hnew, h.unique⟩

/-- **Data** changes: every row keeps its id and its group. -/
theorem kept_data (h : InGroups (first ++ job :: second)) (hid : updated.id = job.id)
    (hgroup : displayPriority job = displayPriority updated) (hdata : ∀ a ∈ announced, IsData a) :
    Kept (first ++ job :: second) (first ++ updated :: second) announced := by
  have hids : ids (first ++ updated :: second) = ids (first ++ job :: second) := by
    rw [ids_split, ids_split, hid]
  have hqueued : queuedIds (first ++ updated :: second) = queuedIds (first ++ job :: second) := by
    rw [queuedIds_append, queuedIds_append, queuedIds_cons, queuedIds_cons, isQueued_eq, isQueued_eq, hgroup, hid]
  refine ⟨⟨?_, by rw [hids]; exact h.unique⟩, ?_, ?_⟩
  · have hkeys : (first ++ updated :: second).map displayPriority = (first ++ job :: second).map displayPriority := by
      simp [hgroup]
    have hgrouped := h.grouped
    unfold Grouped at hgrouped ⊢
    rw [← List.pairwise_map (R := (· ≤ ·))] at hgrouped ⊢
    rw [hkeys]
    exact hgrouped
  · rw [replay_data hdata, hids]
  · rw [hqueued]
    exact (Queue.arrive_same fun _ => Iff.rfl).symm

/-- Nothing changes. -/
theorem kept_same (h : InGroups jobs) (hdata : ∀ a ∈ announced, IsData a) : Kept jobs jobs announced where
  groups := h
  replays := replay_data hdata
  arrives := (Queue.arrive_same fun _ => Iff.rfl).symm

/-- **A new job.** -/
theorem kept_insertJob (job : Job) (h : InGroups m.jobs) (hnew : job.id ∉ ids m.jobs) :
    Kept m.jobs (insertJob job m).1.jobs (insertJob job m).2 := by
  have hrow : insertionRowFor m.jobs job = (m.jobs.filter (displayPriority · ≤ displayPriority job)).length := by
    unfold insertionRowFor
    rw [takeWhile_eq_filter h.grouped]
  have hjobs : (insertJob job m).1.jobs = Rows.placed displayPriority m.jobs job := by
    show m.jobs.insertIdx (insertionRowFor m.jobs job) job = _
    rw [hrow, insertIdx_placed h.grouped]
  have hkept : Kept m.jobs (insertJob job m).1.jobs [.rowsInserted (insertionRowFor m.jobs job)] := by
    refine ⟨hjobs ▸ h.placed hnew, ?_, ?_⟩
    · -- the view asks for the row that has just come
      have hasked : (ids (insertJob job m).1.jobs)[insertionRowFor m.jobs job]? = some job.id := by
        unfold ids
        rw [List.getElem?_map, hjobs, hrow]
        unfold Rows.placed
        rw [List.getElem?_append_right (Nat.le_refl _), Nat.sub_self]
        rfl
      show (match (ids (insertJob job m).1.jobs)[insertionRowFor m.jobs job]? with
        | none => ids m.jobs
        | some id => (ids m.jobs).insertIdx (insertionRowFor m.jobs job) id) = _
      rw [hasked]
      exact (List.map_insertIdx ..).symm
    · rw [hjobs, queuedIds_placed]
      split
      · exact (Queue.arrive_concat fun hmem => hnew ((queuedIds_sublist m.jobs).subset hmem)).symm
      · exact (Queue.arrive_same fun _ => Iff.rfl).symm
  exact hkept.more_data (data_emitQueueMetadataChanged _)

/-- **Moving to the group** puts the row behind the others of its group, and is announced. -/
theorem moveToDisplayGroup_spec (h : Grouped displayPriority (first ++ second)) (updated : Job) :
    let result := moveToDisplayGroup (first ++ updated :: second) first.length
    result.1 = Rows.placed displayPriority (first ++ second) updated ∧
      replay (ids result.1) (ids (first ++ updated :: second)) result.2.1 = ids result.1 := by
  intro result
  have hrow : (first ++ updated :: second)[first.length]? = some updated := by
    rw [List.getElem?_append_right (Nat.le_refl _), Nat.sub_self, List.getElem?_cons_zero]
  have htake : (first ++ updated :: second).take first.length = first := List.take_left
  have hdrop : (first ++ updated :: second).drop (first.length + 1) = second := by
    rw [← List.drop_drop, List.drop_left]
    rfl
  obtain ⟨targetRow, htarget⟩ : ∃ targetRow, targetRow =
      ((first ++ second).filter (displayPriority · ≤ displayPriority updated)).length := ⟨_, rfl⟩
  have hplaced : (first ++ second).insertIdx targetRow updated = Rows.placed displayPriority (first ++ second) updated := by
    rw [htarget, insertIdx_placed h]
  have hresult : result = if targetRow = first.length then (first ++ updated :: second, [], first.length)
      else if !beginMoveRows first.length (if targetRow > first.length then targetRow + 1 else targetRow) then
        (first ++ updated :: second, [], first.length)
      else (moved (first ++ updated :: second) first.length targetRow,
        [.rowsMoved first.length (if targetRow > first.length then targetRow + 1 else targetRow)], targetRow) := by
    show moveToDisplayGroup (first ++ updated :: second) first.length = _
    unfold moveToDisplayGroup
    rw [hrow]
    dsimp only
    rw [htake, hdrop, ← List.length_append, ← List.filter_append, ← htarget]
  by_cases hsame : targetRow = first.length
  · rw [hresult, if_pos hsame]
    refine ⟨?_, rfl⟩
    rw [← hplaced, hsame]
    exact (insertIdx_append_length first second updated).symm
  · have hbegin : beginMoveRows first.length (if targetRow > first.length then targetRow + 1 else targetRow) = true := by
      unfold beginMoveRows
      rw [Bool.and_eq_true, bne_iff_ne, bne_iff_ne]
      split <;> omega
    rw [hresult, if_neg hsame, hbegin]
    refine ⟨?_, ?_⟩
    · show moved (first ++ updated :: second) first.length targetRow = _
      rw [moved_of_split, hplaced]
    · show replayMove (ids (first ++ updated :: second)) first.length _ =
        ids (moved (first ++ updated :: second) first.length targetRow)
      have hlength : (ids (first ++ updated :: second)).length = (first ++ second).length + 1 := by
        simp [ids]
        omega
      have hle : targetRow ≤ (first ++ second).length := htarget ▸ List.length_filter_le _ _
      rw [replayMove_eq (by simp [ids]) (by omega)]
      exact (moved_map _ _ _ _).symm

/-- **A job changes its group.** -/
theorem kept_moveToDisplayGroup (h : InGroups (first ++ job :: second)) (hid : updated.id = job.id)
    (hgroup : displayPriority job ≠ displayPriority updated) :
    Kept (first ++ job :: second) (moveToDisplayGroup (first ++ updated :: second) first.length).1
      (moveToDisplayGroup (first ++ updated :: second) first.length).2.1 := by
  obtain ⟨hplaced, hreplay⟩ := moveToDisplayGroup_spec h.without.grouped updated
  have hnew : updated.id ∉ ids (first ++ second) := hid ▸ h.not_mem
  have hids : ids (first ++ updated :: second) = ids (first ++ job :: second) := by
    rw [ids_split, ids_split, hid]
  have hnotQueued : job.id ∉ queuedIds (first ++ second) := fun hmem =>
    h.not_mem ((queuedIds_sublist _).subset hmem)
  refine ⟨by rw [hplaced]; exact h.without.placed hnew, hids ▸ hreplay, ?_⟩
  rw [hplaced, queuedIds_placed]
  rw [queuedIds_append] at hnotQueued ⊢
  rw [queuedIds_append, queuedIds_cons, hid]
  by_cases hqueued : isQueued job = true
  · -- the job leaves the queue
    have hleft : isQueued updated = false := by
      rw [isQueued_eq, decide_eq_true_eq] at hqueued
      rw [isQueued_eq, decide_eq_false_iff_not]
      omega
    rw [if_pos hqueued, hleft]
    exact (Queue.arrive_without hnotQueued).symm
  · rw [if_neg hqueued]
    split
    · exact (Queue.arrive_concat hnotQueued).symm
    · exact (Queue.arrive_same fun _ => Iff.rfl).symm

/-- **A job that does not wait is removed.** -/
theorem kept_removed (h : InGroups (first ++ job :: second)) (hqueued : isQueued job = false) :
    Kept (first ++ job :: second) (first ++ second) [.rowsRemoved first.length] where
  groups := h.without
  replays := by
    show (ids (first ++ job :: second)).eraseIdx first.length = ids (first ++ second)
    unfold ids
    rw [List.eraseIdx_map, List.eraseIdx_append_of_length_le (Nat.le_refl _), Nat.sub_self, List.eraseIdx_cons_zero]
  arrives := by
    have hsame : queuedIds (first ++ job :: second) = queuedIds (first ++ second) := by
      rw [queuedIds_append, queuedIds_cons, hqueued, queuedIds_append]
      rfl
    rw [hsame]
    exact (Queue.arrive_same fun _ => Iff.rfl).symm

/-- The row of a job, changed in place or moved to its new group. -/
theorem kept_updated (updated : Job) (h : InGroups (first ++ job :: second)) (hid : updated.id = job.id) :
    let result := if displayPriority job = displayPriority updated then
      (first ++ updated :: second, ([] : List Announcement), first.length)
      else moveToDisplayGroup (first ++ updated :: second) first.length
    Kept (first ++ job :: second) result.1 result.2.1 := by
  intro result
  by_cases hgroup : displayPriority job = displayPriority updated
  · have hresult : result = (first ++ updated :: second, [], first.length) := if_pos hgroup
    rw [hresult]
    exact kept_data h hid hgroup fun a ha => absurd ha List.not_mem_nil
  · have hresult : result = moveToDisplayGroup (first ++ updated :: second) first.length := if_neg hgroup
    rw [hresult]
    exact kept_moveToDisplayGroup h hid hgroup

/-! ## The operations -/

theorem upsert_kept (h : InGroups m.jobs) (id recordingId title state stage : QString) (progress : ℚ)
    (error : QString) :
    Kept m.jobs (upsert id recordingId title state stage progress error m).1.jobs
      (upsert id recordingId title state stage progress error m).2 := by
  unfold upsert
  cases hfound : indexOf m.jobs id with
  | none =>
    have hkept := kept_insertJob ⟨id, recordingId, title, state, stage, boundedProgress progress, error, 0, 0, [], []⟩
      h (not_mem_of_indexOf hfound)
    dsimp only
    split
    · rw [setRunningJobId_jobs]
      exact hkept.more_data (data_setRunningJobId _ _)
    · exact hkept
  | some existing =>
    obtain ⟨first, job, second, hjobs, rfl, hid, hrow⟩ := of_indexOf hfound
    dsimp only
    rw [hrow]
    dsimp only
    rw [hjobs, set_split]
    rw [hjobs] at h
    have hkept := kept_updated { job with
      recordingId, title, state, stage, progress := boundedProgress progress, error } h rfl
    have hrows := fun (row : Nat) (rows : List Job) => (hkept.more_data (data_emitRowChanged row)).more_data
      (data_metadata ((job.state != state) = true) rows)
    split
    · rw [setRunningJobId_jobs]
      exact (hrows _ _).more_data (data_setRunningJobId _ _)
    · split
      · rw [setRunningJobId_jobs]
        exact (hrows _ _).more_data (data_setRunningJobId _ _)
      · exact hrows _ _

theorem cancel_kept (h : InGroups m.jobs) (id : QString) : Kept m.jobs (cancel id m).1.jobs (cancel id m).2 := by
  have hsame : Kept m.jobs m.jobs [] := kept_same h fun a ha => absurd ha List.not_mem_nil
  unfold cancel
  cases hfound : indexOf m.jobs id with
  | none => exact hsame
  | some row =>
    obtain ⟨first, job, second, hjobs, rfl, -, hrow⟩ := of_indexOf hfound
    dsimp only
    rw [hrow]
    dsimp only
    split
    · exact hsame
    · rw [hjobs, set_split]
      rw [hjobs] at h
      have hkept := kept_updated { job with
        state := if isQueued job then qs "Cancelled" else qs "Cancelling" } h rfl
      exact (hkept.more_data (data_emitRowChanged _)).more_data (data_metadata _ _)

theorem requeue_kept {allowed : Job → Bool} {update : Job → Job} (h : InGroups m.jobs)
    (hallowed : ∀ job, allowed job = true → displayPriority job = 2) (hid : ∀ job, (update job).id = job.id)
    (hstate : ∀ job, (update job).state = qs "Queued") (id : QString) :
    Kept m.jobs (requeue allowed update id m).1.jobs (requeue allowed update id m).2 := by
  have hsame : Kept m.jobs m.jobs [] := kept_same h fun a ha => absurd ha List.not_mem_nil
  unfold requeue
  cases hfound : indexOf m.jobs id with
  | none => exact hsame
  | some row =>
    obtain ⟨first, job, second, hjobs, rfl, -, hrow⟩ := of_indexOf hfound
    dsimp only
    rw [hrow]
    dsimp only
    split
    · exact hsame
    case isFalse hnot =>
      have hover : displayPriority job = 2 := hallowed job (by simpa using hnot)
      have hwaits : displayPriority (update job) = 1 := by
        unfold displayPriority
        rw [hstate]
        rfl
      rw [hjobs, set_split]
      rw [hjobs] at h
      exact ((kept_moveToDisplayGroup h (hid job) (by omega)).more_data (data_emitRowChanged _)).more_data
        (data_emitQueueMetadataChanged _)

theorem not_queued_of_terminal (h : isTerminalState job.state = true) : isQueued job = false := by
  by_contra hqueued
  have hstate : job.state = qs "Queued" := by simpa [isQueued] using hqueued
  rw [hstate] at h
  exact absurd h (by decide)

theorem displayPriority_of_terminal (h : isTerminalState job.state = true) : displayPriority job = 2 := by
  have hqueued := not_queued_of_terminal h
  have hstate : job.state ≠ qs "Queued" := by simpa [isQueued] using hqueued
  unfold displayPriority isRunningState
  rw [h]
  simp [hstate]

theorem remove_kept (h : InGroups m.jobs) (id : QString) : Kept m.jobs (remove id m).1.jobs (remove id m).2 := by
  have hsame : Kept m.jobs m.jobs [] := kept_same h fun a ha => absurd ha List.not_mem_nil
  unfold remove
  cases hfound : indexOf m.jobs id with
  | none => exact hsame
  | some row =>
    obtain ⟨first, job, second, hjobs, rfl, -, hrow⟩ := of_indexOf hfound
    dsimp only
    rw [hrow]
    dsimp only
    split
    · exact hsame
    case isFalse hnot =>
      have hterminal : isTerminalState job.state = true := by simpa [canRemove] using hnot
      have herase : (first ++ job :: second).eraseIdx first.length = first ++ second := by
        rw [List.eraseIdx_append_of_length_le (Nat.le_refl _), Nat.sub_self, List.eraseIdx_cons_zero]
      rw [hjobs, herase]
      rw [hjobs] at h
      exact (kept_removed h (not_queued_of_terminal hterminal)).more_data (data_emitQueueMetadataChanged _)

/-- One removal after another. -/
theorem clearRows_kept (count : Nat) : ∀ {jobs : List Job}, InGroups jobs →
    InGroups (clearRows count jobs).1 ∧ queuedIds (clearRows count jobs).1 = queuedIds jobs ∧
      ∀ current, replay current (ids jobs) (clearRows count jobs).2 = ids (clearRows count jobs).1 := by
  induction count with
  | zero => exact fun h => ⟨h, rfl, fun _ => rfl⟩
  | succ row ih =>
    intro jobs h
    unfold clearRows
    cases hrow : jobs[row]? with
    | none => exact ih h
    | some job =>
      dsimp only
      split
      case isTrue hover =>
        obtain ⟨hlt, hjob⟩ := List.getElem?_eq_some_iff.mp hrow
        have hsplit : jobs = jobs.take row ++ job :: jobs.drop (row + 1) := by
          rw [← hjob, ← List.drop_eq_getElem_cons hlt, List.take_append_drop]
        have hlength : (jobs.take row).length = row := by
          rw [List.length_take]
          omega
        have hterminal : isTerminalState job.state = true := by
          rcases hover with hstate | hstate <;> rw [hstate] <;> rfl
        have herase : jobs.eraseIdx row = jobs.take row ++ jobs.drop (row + 1) := List.eraseIdx_eq_take_drop_succ ..
        have hsplitGroups := h
        rw [hsplit] at hsplitGroups
        have hremoved := kept_removed hsplitGroups (not_queued_of_terminal hterminal)
        rw [← hsplit, ← herase, hlength] at hremoved
        obtain ⟨hgroups, hqueued, hreplay⟩ := ih hremoved.groups
        have hqueue : queuedIds (jobs.eraseIdx row) = queuedIds jobs := by
          conv_rhs => rw [hsplit]
          rw [herase, queuedIds_append, queuedIds_append, queuedIds_cons, not_queued_of_terminal hterminal]
          rfl
        refine ⟨hgroups, hqueued.trans hqueue, fun current => ?_⟩
        show replay current (replay current (ids jobs) [.rowsRemoved row]) _ = _
        have hone : replay current (ids jobs) [.rowsRemoved row] = ids (jobs.eraseIdx row) := hremoved.replays
        rw [hone]
        exact hreplay current
      case isFalse => exact ih h

theorem clearCompleted_kept (h : InGroups m.jobs) :
    Kept m.jobs (clearCompleted m).1.jobs (clearCompleted m).2 := by
  obtain ⟨hgroups, hqueued, hreplay⟩ := clearRows_kept m.jobs.length h
  have hkept : Kept m.jobs (clearCompleted m).1.jobs (clearRows m.jobs.length m.jobs).2 := by
    refine ⟨hgroups, hreplay _, ?_⟩
    show queuedIds (clearRows m.jobs.length m.jobs).1 = Queue.arrive (queuedIds (clearRows m.jobs.length m.jobs).1) _
    rw [hqueued]
    exact (Queue.arrive_same fun _ => Iff.rfl).symm
  exact hkept.more_data (data_emitQueueMetadataChanged _)

theorem changeRow_kept {changes : Job → Bool} {update : Job → Job} (h : InGroups m.jobs)
    (hid : ∀ job, (update job).id = job.id) (hstate : ∀ job, (update job).state = job.state) (id : QString) :
    Kept m.jobs (changeRow id changes update m).1.jobs (changeRow id changes update m).2 := by
  have hsame : Kept m.jobs m.jobs [] := kept_same h fun a ha => absurd ha List.not_mem_nil
  unfold changeRow
  cases hfound : indexOf m.jobs id with
  | none => exact hsame
  | some row =>
    obtain ⟨first, job, second, hjobs, rfl, -, hrow⟩ := of_indexOf hfound
    dsimp only
    rw [hrow]
    dsimp only
    split
    · exact hsame
    · have hgroup : displayPriority job = displayPriority (update job) := by
        unfold displayPriority
        rw [hstate]
      rw [hjobs, set_split]
      rw [hjobs] at h
      exact kept_data h (hid job) hgroup (data_emitRowChanged _)

/-! ## A job that is moved -/

/-- The rows are three lists, one behind the other. -/
theorem InGroups.three (h : InGroups jobs) : jobs = jobs.filter (displayPriority · ≤ 0) ++
    (jobs.filter isQueued ++ jobs.filter (1 < displayPriority ·)) := by
  have hbehind : Grouped displayPriority (jobs.filter (0 < displayPriority ·)) := h.grouped.filter _
  have hsecond := grouped_split hbehind 1
  have hqueued : (jobs.filter (0 < displayPriority ·)).filter (displayPriority · ≤ 1) = jobs.filter isQueued := by
    rw [List.filter_filter, filter_isQueued]
    refine List.filter_congr fun job _ => ?_
    rw [← Bool.decide_and]
    exact decide_eq_decide.mpr (by omega)
  have hothers : (jobs.filter (0 < displayPriority ·)).filter (1 < displayPriority ·) =
      jobs.filter (1 < displayPriority ·) := by
    rw [List.filter_filter]
    refine List.filter_congr fun job _ => ?_
    rw [← Bool.decide_and]
    exact decide_eq_decide.mpr (by omega)
  rw [hqueued, hothers] at hsecond
  rw [hsecond]
  exact (grouped_split h.grouped 0).symm

theorem queuedRow_cons (job : Job) (rest : List Job) (row destination : Nat) :
    queuedRow (job :: rest) row destination = if !isQueued job then queuedRow rest (row + 1) destination
      else match destination with
        | 0 => some row
        | destination + 1 => queuedRow rest (row + 1) destination := by
  rw [queuedRow.eq_def]

theorem queuedRow_skip (hnone : ∀ job ∈ first, isQueued job = false) (rest : List Job) (destination : Nat) :
    ∀ row, queuedRow (first ++ rest) row destination = queuedRow rest (row + first.length) destination := by
  induction first with
  | nil => exact fun row => rfl
  | cons job others ih =>
    intro row
    rw [List.cons_append, queuedRow_cons, if_pos (by simp [hnone job (List.mem_cons_self ..)]),
      ih (fun other hmem => hnone other (List.mem_cons_of_mem _ hmem)), List.length_cons]
    congr 1
    omega

theorem queuedRow_queued (hall : ∀ job ∈ first, isQueued job = true) (rest : List Job) : ∀ {destination : Nat} (row : Nat),
    destination < first.length → queuedRow (first ++ rest) row destination = some (row + destination) := by
  induction first with
  | nil => exact fun row h => absurd h (Nat.not_lt_zero _)
  | cons job others ih =>
    intro destination row hlt
    rw [List.cons_append, queuedRow_cons, if_neg (by simp [hall job (List.mem_cons_self ..)])]
    cases destination with
    | zero => rfl
    | succ destination =>
      show queuedRow (others ++ rest) (row + 1) destination = _
      rw [ih (fun other hmem => hall other (List.mem_cons_of_mem _ hmem)) _ (Nat.lt_of_succ_lt_succ hlt)]
      congr 1
      omega

/-- What a move by the user does to the rows. -/
structure MovedQueued (before after : List Job) (announced : List Announcement) (id : QString) (destination : Int) :
    Prop where
  groups : InGroups after
  replays : replay (ids after) (ids before) announced = ids after
  /-- The job is at the place that was asked for. -/
  placed : id ∈ queuedIds before → 0 ≤ destination → destination < (queuedIds before).length →
    (queuedIds after)[destination.toNat]? = some id
  /-- The others keep their order. -/
  others : after.filter (·.id != id) = before.filter (·.id != id)
  perm : after.Perm before
  /-- No other row is moved, and no job is moved to a place that there is not. -/
  refused : ¬ (id ∈ queuedIds before ∧ 0 ≤ destination ∧ destination < (queuedIds before).length) → after = before

theorem movedQueued_same {id : QString} {destination : Int} (h : InGroups jobs)
    (hplaced : id ∈ queuedIds jobs → 0 ≤ destination → destination < (queuedIds jobs).length →
      (queuedIds jobs)[destination.toNat]? = some id) : MovedQueued jobs jobs [] id destination :=
  ⟨h, rfl, hplaced, rfl, List.Perm.refl _, fun _ => rfl⟩

/-- The queue with one job at another place, between the running jobs and the others. -/
theorem movedQueued_within {running queue others : List Job} {source target : Nat} (hsource : queue[source]? = some job)
    (htarget : target < queue.length) (h : InGroups (running ++ (queue ++ others)))
    (hrunning : ∀ job ∈ running, displayPriority job < 1) (hqueue : ∀ job ∈ queue, displayPriority job = 1)
    (hothers : ∀ job ∈ others, 1 < displayPriority job) :
    moved (running ++ (queue ++ others)) (running.length + source) (running.length + target) =
        running ++ ((queue.eraseIdx source).insertIdx target job ++ others) ∧
      MovedQueued (running ++ (queue ++ others)) (running ++ ((queue.eraseIdx source).insertIdx target job ++ others))
        [.rowsMoved (running.length + source) (if running.length + target > running.length + source then
          running.length + target + 1 else running.length + target)] job.id target := by
  obtain ⟨hlt, hjob⟩ := List.getElem?_eq_some_iff.mp hsource
  have hjobQueued : displayPriority job = 1 := hqueue job (hjob ▸ List.getElem_mem hlt)
  have hlength : (queue.eraseIdx source).length + 1 = queue.length := by
    rw [List.length_eraseIdx_of_lt hlt]
    omega
  obtain ⟨queue', hqueue'⟩ : ∃ queue', queue' = (queue.eraseIdx source).insertIdx target job := ⟨_, rfl⟩
  have hperm : queue'.Perm queue := by
    rw [hqueue', ← hjob]
    exact (List.perm_insertIdx _ _ (by omega)).trans (List.getElem_cons_eraseIdx_perm hlt)
  have hmoved : moved (running ++ (queue ++ others)) (running.length + source) (running.length + target) =
      running ++ (queue' ++ others) := by
    have hrow : (running ++ (queue ++ others))[running.length + source]? = some job := by
      rw [List.getElem?_append_right (Nat.le_add_right _ _), Nat.add_sub_cancel_left,
        List.getElem?_append_left hlt, hsource]
    unfold moved
    rw [hrow, hqueue']
    show ((running ++ (queue ++ others)).eraseIdx (running.length + source)).insertIdx (running.length + target) job = _
    rw [List.eraseIdx_append_of_length_le (Nat.le_add_right _ _), Nat.add_sub_cancel_left,
      List.eraseIdx_append_of_lt_length hlt, insertIdx_append_right, insertIdx_append_left (by omega)]
  have hfilter : ∀ list, (∀ job ∈ list, displayPriority job = 1) → queuedIds (running ++ (list ++ others)) = ids list := by
    intro list hlist
    have hnoRunning : running.filter isQueued = [] := by
      refine List.filter_eq_nil_iff.mpr fun job hmem => ?_
      have hlow := hrunning job hmem
      rw [isQueued_eq, decide_eq_true_eq]
      omega
    have hnoOthers : others.filter isQueued = [] := by
      refine List.filter_eq_nil_iff.mpr fun job hmem => ?_
      have hhigh := hothers job hmem
      rw [isQueued_eq, decide_eq_true_eq]
      omega
    have hall : list.filter isQueued = list := by
      refine List.filter_eq_self.mpr fun job hmem => ?_
      rw [isQueued_eq, decide_eq_true_eq]
      exact hlist job hmem
    unfold queuedIds
    rw [List.filter_append, List.filter_append, hnoRunning, hnoOthers, hall, List.nil_append, List.append_nil]
  have hqueueAfter : ∀ job ∈ queue', displayPriority job = 1 := fun other hmem => hqueue other (hperm.mem_iff.mp hmem)
  have hrowsPerm : (running ++ (queue' ++ others)).Perm (running ++ (queue ++ others)) :=
    List.Perm.append_left _ (hperm.append_right _)
  rw [← hqueue']
  refine ⟨hmoved, ⟨⟨?_, ?_⟩, ?_, fun _ _ _ => ?_, ?_, hrowsPerm, fun hnot => ?_⟩⟩
  · -- within the queue every row has the same group
    obtain ⟨hfirst, hrest, hbetween⟩ := List.pairwise_append.mp h.grouped
    obtain ⟨-, hlast, -⟩ := List.pairwise_append.mp hrest
    refine List.pairwise_append.mpr ⟨hfirst, List.pairwise_append.mpr ⟨?_, hlast, ?_⟩, ?_⟩
    · refine List.pairwise_of_forall_mem_list fun a ha b hb => ?_
      rw [hqueueAfter a ha, hqueueAfter b hb]
    · intro a ha b hb
      have hhigh := hothers b hb
      rw [hqueueAfter a ha]
      omega
    · intro a ha b hb
      have hlow := hrunning a ha
      rcases List.mem_append.mp hb with hb | hb
      · rw [hqueueAfter b hb]
        omega
      · have hhigh := hothers b hb
        omega
  · exact (hrowsPerm.map _).nodup_iff.mpr h.unique
  · show replayMove (ids (running ++ (queue ++ others))) _ _ = _
    have hids : (ids (running ++ (queue ++ others))).length = running.length + (queue.length + others.length) := by
      simp [ids]
    rw [replayMove_eq (by omega) (by omega), ← hmoved]
    exact (moved_map _ _ _ _).symm
  · rw [hfilter _ hqueueAfter, Int.toNat_natCast, hqueue']
    unfold ids
    rw [List.getElem?_map, List.getElem?_insertIdx_self, if_pos (by omega)]
    rfl
  · have hout : (job.id != job.id) = false := by simp
    have hbefore : queue = (queue.eraseIdx source).insertIdx source job := by
      rw [← hjob, List.insertIdx_eraseIdx_getElem hlt]
    have hsame : queue'.filter (·.id != job.id) = queue.filter (·.id != job.id) := by
      conv_rhs => rw [hbefore]
      rw [hqueue', filter_insertIdx (p := fun other : Job => other.id != job.id) hout,
        filter_insertIdx (p := fun other : Job => other.id != job.id) hout]
    rw [List.filter_append, List.filter_append, List.filter_append, List.filter_append, hsame]
  · refine absurd ⟨?_, Int.natCast_nonneg target, ?_⟩ hnot
    · rw [hfilter _ hqueue]
      exact List.mem_map.mpr ⟨job, hjob ▸ List.getElem_mem hlt, rfl⟩
    · rw [hfilter _ hqueue, show (ids queue).length = queue.length from List.length_map _]
      omega

/-- Before a waiting job are the running ones and those that wait before it. -/
theorem InGroups.row_of_queued (h : InGroups (first ++ job :: second)) (hjob : displayPriority job = 1) :
    first.length = ((first ++ job :: second).filter (displayPriority · ≤ 0)).length + (first.filter isQueued).length := by
  obtain ⟨-, hrest, hbetween⟩ := List.pairwise_append.mp h.grouped
  have hnone : (job :: second).filter (displayPriority · ≤ 0) = [] := by
    refine List.filter_eq_nil_iff.mpr fun other hmem => ?_
    rw [decide_eq_true_eq]
    rcases List.mem_cons.mp hmem with rfl | hmem
    · omega
    · have hle : displayPriority job ≤ displayPriority other := (List.pairwise_cons.mp hrest).1 other hmem
      omega
  have hqueued : first.filter isQueued = first.filter (fun other => !decide (displayPriority other ≤ 0)) := by
    refine List.filter_congr fun other hmem => ?_
    have hle : displayPriority other ≤ displayPriority job := hbetween other hmem job (List.mem_cons_self ..)
    rw [isQueued_eq, ← decide_not]
    exact decide_eq_decide.mpr (by omega)
  rw [List.filter_append, hnone, List.append_nil, hqueued]
  exact List.length_eq_length_filter_add _

/-- A job with its id is the only one. -/
theorem InGroups.queued_of_mem (h : InGroups (first ++ job :: second))
    (hmem : job.id ∈ queuedIds (first ++ job :: second)) : isQueued job = true := by
  have hnot := fun hqueued => h.not_mem ((queuedIds_sublist (first ++ second)).subset hqueued)
  by_contra hqueued
  rw [queuedIds_append, queuedIds_cons, if_neg hqueued, ← queuedIds_append] at hmem
  exact hnot hmem

/-- **A move by the user.** -/
theorem moveQueued_spec (h : InGroups m.jobs) (id : QString) (destination : Int) :
    MovedQueued m.jobs (moveQueued id destination m).1.jobs (moveQueued id destination m).2 id destination := by
  unfold moveQueued
  cases hfound : indexOf m.jobs id with
  | none =>
    have hnot := not_mem_of_indexOf hfound
    exact movedQueued_same h fun hmem => absurd ((queuedIds_sublist m.jobs).subset hmem) hnot
  | some sourceRow =>
    obtain ⟨first, job, second, hjobs, rfl, rfl, hrow⟩ := of_indexOf hfound
    have hsplit := h
    rw [hjobs] at hsplit
    by_cases hqueued : isQueued job = true
    case neg =>
      -- the job does not wait
      have hposition : queuePositionForRow m.jobs first.length = none := by
        unfold queuePositionForRow
        rw [hrow]
        exact if_neg hqueued
      dsimp only
      rw [hposition]
      exact movedQueued_same h fun hmem => absurd (hsplit.queued_of_mem (hjobs ▸ hmem)) hqueued
    have hposition : queuePositionForRow m.jobs first.length = some (first.filter isQueued).length := by
      unfold queuePositionForRow
      rw [hrow]
      dsimp only
      rw [if_pos hqueued, hjobs, List.take_left]
    have hqueue : m.jobs.filter isQueued = first.filter isQueued ++ job :: second.filter isQueued := by
      rw [hjobs, List.filter_append, List.filter_cons_of_pos hqueued]
    have hsource : (m.jobs.filter isQueued)[(first.filter isQueued).length]? = some job := by
      rw [hqueue, List.getElem?_append_right (Nat.le_refl _), Nat.sub_self, List.getElem?_cons_zero]
    have hcount : (queuedIds m.jobs).length = (m.jobs.filter isQueued).length := List.length_map _
    dsimp only
    rw [hposition]
    dsimp only
    split
    case isTrue hrefused =>
      refine movedQueued_same h fun _ hlow hhigh => ?_
      have hplace : destination.toNat = (first.filter isQueued).length := by
        unfold queuedCount at hrefused
        omega
      unfold queuedIds ids
      rw [List.getElem?_map, hplace, hsource]
      rfl
    case isFalse haccepted =>
      unfold queuedCount at haccepted
      obtain ⟨target, htarget⟩ : ∃ target : Nat, destination = target := ⟨destination.toNat, by omega⟩
      subst htarget
      obtain ⟨running, hrunning⟩ : ∃ running, running = m.jobs.filter (displayPriority · ≤ 0) := ⟨_, rfl⟩
      have hthree : m.jobs = running ++ (m.jobs.filter isQueued ++ m.jobs.filter (1 < displayPriority ·)) :=
        hrunning ▸ h.three
      have hrunningLow : ∀ job ∈ running, displayPriority job < 1 := by
        intro other hmem
        rw [hrunning] at hmem
        have hle : displayPriority other ≤ 0 := of_decide_eq_true (List.mem_filter.mp hmem).2
        omega
      have hqueueOne : ∀ job ∈ m.jobs.filter isQueued, displayPriority job = 1 := by
        intro other hmem
        have hother := (List.mem_filter.mp hmem).2
        rw [isQueued_eq] at hother
        exact of_decide_eq_true hother
      have hothersHigh : ∀ job ∈ m.jobs.filter (1 < displayPriority ·), 1 < displayPriority job :=
        fun other hmem => of_decide_eq_true (List.mem_filter.mp hmem).2
      have hsourceRow : first.length = running.length + (first.filter isQueued).length := by
        have hjobOne : displayPriority job = 1 := by
          rw [isQueued_eq] at hqueued
          exact of_decide_eq_true hqueued
        rw [hrunning, hjobs]
        exact hsplit.row_of_queued hjobOne
      have htargetRow : queuedRow m.jobs 0 ((target : Int).toNat) = some (running.length + target) := by
        rw [hthree, queuedRow_skip, queuedRow_queued, Nat.zero_add, Int.toNat_natCast]
        · exact fun other hmem => (List.mem_filter.mp hmem).2
        · omega
        · intro other hmem
          have hlow := hrunningLow other hmem
          rw [isQueued_eq, decide_eq_false_iff_not]
          omega
      have hne : first.length ≠ running.length + target := by omega
      rw [htargetRow]
      dsimp only
      rw [if_neg (by
        unfold beginMoveRows
        simp only [Bool.not_eq_true', Bool.and_eq_false_iff, bne_eq_false_iff_eq]
        split <;> omega)]
      have hgroups := h
      rw [hthree] at hgroups
      have htarget : target < (m.jobs.filter isQueued).length := by omega
      obtain ⟨hmoved, hspec⟩ := movedQueued_within hsource htarget hgroups hrunningLow hqueueOne hothersHigh
      rw [← hthree, ← hsourceRow] at hmoved hspec
      rw [← hmoved] at hspec
      refine ⟨hspec.groups, ?_, hspec.placed, hspec.others, hspec.perm, hspec.refused⟩
      rw [replay_append, replay_data (data_emitQueueMetadataChanged _)]
      exact hspec.replays

/-! ## Runs -/

def isMoveQueued : Operation → Bool
  | .moveQueued _ _ => true
  | _ => false

/-- The id of a new job is new: `QUuid::createUuid` does not give one that is in the list. -/
def FreshId (m : Model) : Operation → Prop
  | .enqueue uuid _ _ => uuid ∉ ids m.jobs
  | _ => True

theorem perform_kept (h : InGroups m.jobs) {operation : Operation} (hfresh : FreshId m operation)
    (hmove : isMoveQueued operation = false) : Kept m.jobs (perform m operation).1.jobs (perform m operation).2 := by
  cases operation with
  | enqueue uuid recordingId title => exact kept_insertJob _ h hfresh
  | upsert id recordingId title state stage progress error => exact upsert_kept h ..
  | cancel id => exact cancel_kept h id
  | retry id =>
    show Kept m.jobs (retry id m).1.jobs (retry id m).2
    unfold retry
    refine requeue_kept h ?_ ?_ ?_ id
    · intro job hallowed
      refine displayPriority_of_terminal ?_
      unfold canRetry at hallowed
      unfold isTerminalState
      rcases Bool.or_eq_true_iff.mp hallowed with hstate | hstate <;> simp [hstate]
    · exact fun _ => rfl
    · exact fun _ => rfl
  | resume id =>
    show Kept m.jobs (resume id m).1.jobs (resume id m).2
    unfold resume
    refine requeue_kept h ?_ ?_ ?_ id
    · intro job hallowed
      refine displayPriority_of_terminal ?_
      unfold canResume at hallowed
      unfold isTerminalState
      simp [hallowed]
    · exact fun _ => rfl
    · exact fun _ => rfl
  | remove id => exact remove_kept h id
  | moveQueued id destination => cases hmove
  | clearCompleted => exact clearCompleted_kept h
  | setRunningJobId id =>
    show Kept m.jobs (setRunningJobId id m).1.jobs (setRunningJobId id m).2
    rw [setRunningJobId_jobs]
    exact kept_same h (data_setRunningJobId _ _)
  | updateTelemetry id currentChunk totalChunks latestPartialText =>
    show Kept m.jobs (updateTelemetry id currentChunk totalChunks latestPartialText m).1.jobs
      (updateTelemetry id currentChunk totalChunks latestPartialText m).2
    unfold updateTelemetry
    refine changeRow_kept h ?_ ?_ id
    · exact fun _ => rfl
    · exact fun _ => rfl
  | appendEvent id title detail severity occurredAt now =>
    show Kept m.jobs (appendEvent id title detail severity occurredAt now m).1.jobs
      (appendEvent id title detail severity occurredAt now m).2
    unfold appendEvent
    refine changeRow_kept h ?_ ?_ id
    · exact fun _ => rfl
    · exact fun _ => rfl

theorem perform_groups : StepKeeps (fun m operation => (perform m operation).1) FreshId fun m => InGroups m.jobs := by
  intro m operation h hfresh
  by_cases hmove : isMoveQueued operation = true
  · cases operation with
    | moveQueued id destination => exact (moveQueued_spec h id destination).groups
    | _ => cases hmove
  · exact (perform_kept h hfresh (Bool.eq_false_of_not_eq_true hmove)).groups

end Rows

/-- **The list of jobs** is in groups, with every job once, after any operations.  The views follow what is
    announced; the queue is in the order of arrival, except that a job the user moves is at the place asked
    for, with the other rows as they were. -/
theorem job_list_groups (operations : List Operation) (operation : Operation)
    (hfresh : Guarded (fun m operation => (perform m operation).1) FreshId {} (operations ++ [operation])) :
    let before := run (fun m operation => (perform m operation).1) {} operations
    let after := (perform before operation).1
    InGroups before.jobs ∧ InGroups after.jobs ∧
      replay (ids after.jobs) (ids before.jobs) (perform before operation).2 = ids after.jobs ∧
      (isMoveQueued operation = false →
        queuedIds after.jobs = Queue.arrive (queuedIds after.jobs) (queuedIds before.jobs)) ∧
      ∀ id destination, operation = .moveQueued id destination →
        MovedQueued before.jobs after.jobs (perform before operation).2 id destination := by
  intro before after
  have hempty : InGroups ({} : Model).jobs := ⟨List.Pairwise.nil, List.nodup_nil⟩
  obtain ⟨hfirst, hlast⟩ := guarded_append.mp hfresh
  have hbefore : InGroups before.jobs := run_invariant perform_groups hempty hfirst
  by_cases hmove : isMoveQueued operation = true
  · cases operation with
    | moveQueued id destination =>
      have hspec := moveQueued_spec hbefore id destination
      refine ⟨hbefore, hspec.groups, hspec.replays, fun hno => ?_, fun other place heq => ?_⟩
      · cases hno
      · obtain ⟨rfl, rfl⟩ : id = other ∧ destination = place := by simpa using heq
        exact hspec
    | _ => cases hmove
  · have hkept := perform_kept hbefore hlast.1 (Bool.eq_false_of_not_eq_true hmove)
    refine ⟨hbefore, hkept.groups, hkept.replays, fun _ => hkept.arrives, ?_⟩
    rintro id destination rfl
    exact absurd rfl hmove

def fixtureJob (id state : String) : Operation := .upsert (qs id) [] [] (qs state) [] 0 []

/-- Of two jobs that wait behind a running one the second is moved up. -/
theorem job_list_groups_moved :
    let before := run (fun m operation => (perform m operation).1) {}
      [fixtureJob "a" "Queued", fixtureJob "b" "Queued", fixtureJob "c" "Transcribing"]
    (queuedIds (perform before (.moveQueued (qs "b") 0)).1.jobs)[0]? = some (qs "b") := by
  intro before
  have hfresh : Guarded (fun m operation => (perform m operation).1) FreshId {}
      ([fixtureJob "a" "Queued", fixtureJob "b" "Queued", fixtureJob "c" "Transcribing"] ++
        [.moveQueued (qs "b") 0]) := ⟨trivial, trivial, trivial, trivial, trivial⟩
  obtain ⟨-, -, -, -, hmoved⟩ := job_list_groups _ _ hfresh
  exact (hmoved _ _ rfl).placed (by decide) (by decide) (by decide)

end BreezeDesk.JobListModel
