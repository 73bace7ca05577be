/-
  The events of a job tell its states.

  An observer writes down which numbers the callers of `appendEvent` have got, and the state of every job
  after every step, from the creation of the job on (`Observed`).  The states that the other events of the
  job carry are the states the observer has seen, but for repetitions (`Library.Stutter`), and the last of
  them is the state of the job.

  `Chronicled` is the invariant; `observed_chronicled` gets it over a step from where the step leaves the
  rows and events (`executed_logged`).
-/
import BreezeDesk.Jobs.Steps
import BreezeDesk.Library.Stutter

namespace BreezeDesk

open Transaction Runs Stutter

/-! ## The observer -/

/-- The states of a job, from its creation on. -/
def lived (trail : List JobState) : Option JobState → List JobState
  | none => []
  | some state => trail ++ [state]

structure Observed where
  db : Database := {}
  explicit : List Int := []
  trail : QString → List JobState := fun _ => []

def observed (t : CharTables) (seen : Observed) (step : RepositoryStep) : Observed :=
  let after := executed t seen.db step
  { db := after
    explicit := seen.explicit ++ explicitEvents t seen.db step
    trail := fun id => lived (seen.trail id) (after.stateOf id) }

/-- The states that the events of a job carry, without the events that callers have written. -/
def recordedStates (explicit : List Int) (events : List JobEvent) (jobId : QString) : List JobState :=
  ((eventsOf events jobId).filter fun event => !explicit.contains event.id).filterMap (·.state)

variable {t : CharTables} {db db' : Database} {now : Int} {explicit more : List Int} {job : TranscriptionJob}

/-- The observer has not looked away. -/
theorem observed_db (t : CharTables) (steps : List RepositoryStep) (seen : Observed) :
    (run (observed t) seen steps).db = run (executed t) seen.db steps := by
  induction steps generalizing seen with
  | nil => rfl
  | cons step rest ih => exact ih (observed t seen step)

/-! ## Events and numbers -/

theorem recordedStates_append (explicit : List Int) (first second : List JobEvent) (jobId : QString) :
    recordedStates explicit (first ++ second) jobId =
      recordedStates explicit first jobId ++ recordedStates explicit second jobId := by
  unfold recordedStates
  rw [eventsOf_append, List.filter_append, List.filterMap_append]

/-- Numbers that the events do not have make no difference. -/
theorem recordedStates_more {events : List JobEvent} {jobId : QString}
    (h : ∀ event ∈ events, event.id ∉ more) :
    recordedStates (explicit ++ more) events jobId = recordedStates explicit events jobId := by
  unfold recordedStates
  congr 1
  refine List.filter_congr fun event hevent => ?_
  have hnot : more.contains event.id = false := by
    rw [Bool.eq_false_iff]
    intro hcontains
    exact h event (List.mem_filter.mp hevent).1 (List.contains_iff_mem.mp hcontains)
  rw [List.contains_append, hnot, Bool.or_false]

/-- Events that callers have written are not counted. -/
theorem recordedStates_explicit {events : List JobEvent} {jobId : QString}
    (h : ∀ event ∈ events, event.id ∈ explicit) : recordedStates explicit events jobId = [] := by
  unfold recordedStates
  have hnone : ((eventsOf events jobId).filter fun event => !explicit.contains event.id) = [] := by
    refine List.filter_eq_nil_iff.mpr fun event hevent => ?_
    rw [List.contains_iff_mem.mpr (h event (List.mem_filter.mp hevent).1)]
    exact Bool.false_ne_true
  rw [hnone]
  rfl

/-- The other events are all counted. -/
theorem recordedStates_new {events : List JobEvent} {jobId : QString}
    (h : ∀ event ∈ events, event.id ∉ explicit) :
    recordedStates explicit events jobId = (eventsOf events jobId).filterMap (·.state) := by
  unfold recordedStates
  congr 1
  refine List.filter_eq_self.mpr fun event hevent => ?_
  rw [Bool.not_eq_true', Bool.eq_false_iff]
  intro hcontains
  exact h event (List.mem_filter.mp hevent).1 (List.contains_iff_mem.mp hcontains)

theorem filterMap_state (events : List JobEvent) :
    events.filterMap (·.state) = (events.map (·.state)).filterMap id := by
  rw [List.filterMap_map]
  rfl

/-! ## The invariant -/

structure Chronicled (seen : Observed) : Prop where
  inOrder : JobsInOrder seen.db
  oneExecutor : OneExecutor seen.db
  numbers : ∀ event ∈ seen.db.events, event.id ≤ seen.db.lastEventId
  explicit : ∀ id ∈ seen.explicit, id ≤ seen.db.lastEventId
  owned : ∀ event ∈ seen.db.events, ∃ job ∈ seen.db.jobs, job.id = event.jobId
  states : ∀ job ∈ seen.db.jobs,
    Agree job.state (recordedStates seen.explicit seen.db.events job.id) (seen.trail job.id)
  unborn : ∀ id, seen.db.stateOf id = none → seen.trail id = []

theorem stateOf_eq (h : JobsInOrder db) (hjob : job ∈ db.jobs) : db.stateOf job.id = some job.state := by
  unfold Database.stateOf
  rw [h.job?_eq hjob]
  rfl

theorem stateOf_none {id : QString} (h : ∀ job ∈ db.jobs, job.id ≠ id) : db.stateOf id = none := by
  unfold Database.stateOf Database.job?
  rw [List.find?_eq_none.mpr fun job hjob => by simpa using h job hjob]
  rfl

/-- Of the events of a step, the ones that its caller has written are left out. -/
theorem recordedStates_step {reorders : Bool} {written appended : List JobEvent}
    (hnumbers : ∀ event ∈ db.events, event.id ≤ db.lastEventId) (hexplicit : ∀ id ∈ explicit, id ≤ db.lastEventId)
    (h : StepLogged reorders db db' written appended) (hone : written = [] ∨ appended = [])
    (hmore : (numberedEvents db.lastEventId appended).map (·.id) = more) (hjob : job ∈ db'.jobs) :
    recordedStates (explicit ++ more) db'.events job.id =
      recordedStates explicit db.events job.id ++ (eventsOf written job.id).filterMap (·.state) := by
  have hsplit : recordedStates (explicit ++ more) db'.events job.id =
      recordedStates (explicit ++ more) (db.events ++ numberedEvents db.lastEventId (written ++ appended)) job.id := by
    unfold recordedStates
    rw [h.events job hjob, eventsOf_append]
  have hold : ∀ event ∈ db.events, event.id ∉ more := by
    intro event hevent hmem
    rw [← hmore] at hmem
    obtain ⟨other, hother, hid⟩ := List.mem_map.mp hmem
    have hhigh := (mem_numberedEvents hother).1
    have hlow := hnumbers event hevent
    omega
  rw [hsplit, recordedStates_append, recordedStates_more hold]
  congr 1
  rcases hone with rfl | rfl
  · rw [recordedStates_explicit fun event hevent => ?_]
    · rfl
    · rw [← hmore]
      exact List.mem_append_right _ (List.mem_map_of_mem hevent)
  · have hnone : more = [] := hmore.symm
    rw [hnone, List.append_nil, List.append_nil, recordedStates_new fun event hevent hmem => ?_]
    · rw [filterMap_state, filterMap_state, map_eventsOf_numberedEvents fun _ _ => rfl]
    · have hhigh := (mem_numberedEvents hevent).1
      have hlow := hexplicit event.id hmem
      omega

/-- **The step lemma.** -/
theorem observed_chronicled : StepKeeps (observed t) (fun _ _ => True) Chronicled := by
  intro seen step h _
  obtain ⟨written, appended, hlogged, hone, hmore⟩ := @executed_logged t _ step h.inOrder h.oneExecutor.running
  have hafter : JobsInOrder (executed t seen.db step) := executed_jobsInOrder seen.db step h.inOrder trivial
  have hlast := hlogged.lastEventId
  rw [List.length_append] at hlast
  refine ⟨hafter, executed_oneExecutor seen.db step h.oneExecutor trivial, fun event hevent => ?_, fun id hid => ?_,
    hlogged.owned h.owned, fun job hjob => ?_, fun id hid => ?_⟩
  · show event.id ≤ (executed t seen.db step).lastEventId
    rcases hlogged.numbers event hevent with hold | hnew
    · have hlow := h.numbers event hold
      omega
    · have hhigh := (mem_numberedEvents hnew).2.1
      rw [List.length_append] at hhigh
      omega
  · show id ≤ (executed t seen.db step).lastEventId
    rcases List.mem_append.mp hid with hold | hnew
    · have hlow := h.explicit id hold
      omega
    · rw [← hmore] at hnew
      obtain ⟨event, hevent, rfl⟩ := List.mem_map.mp hnew
      have hhigh := (mem_numberedEvents hevent).2.1
      omega
  · show Agree job.state (recordedStates (seen.explicit ++ explicitEvents t seen.db step)
      (executed t seen.db step).events job.id) (lived (seen.trail job.id) ((executed t seen.db step).stateOf job.id))
    rw [stateOf_eq hafter hjob, recordedStates_step h.numbers h.explicit hlogged hone hmore hjob]
    cases hlogged.rows job hjob with
    | stayed before hbefore hid hstate hplace hwritten =>
      have hbase := h.states before hbefore
      rw [hid, hstate] at hbase
      refine hbase.stay (fun state hmem => ?_) fun state hmem => List.mem_singleton.mp hmem
      obtain ⟨event, hevent, heq⟩ := List.mem_filterMap.mp hmem
      exact Option.some.inj (heq.symm.trans (hwritten event hevent))
    | moved before hbefore hid hstate hplace hwritten =>
      have hbase := h.states before hbefore
      rw [hid] at hbase
      rw [filterMap_state, hwritten]
      exact hbase.change hstate
    | created hfresh hstate hplace hwritten =>
      have hunborn : seen.trail job.id = [] := h.unborn job.id (stateOf_none hfresh)
      have hnone : recordedStates seen.explicit seen.db.events job.id = [] := by
        unfold recordedStates eventsOf
        rw [List.filter_eq_nil_iff.mpr]
        · rfl
        · intro event hevent _
          obtain ⟨hmem, habout⟩ := List.mem_filter.mp hevent
          obtain ⟨owner, howner, hid⟩ := h.owned event hmem
          exact hfresh owner howner (hid.trans (beq_iff_eq.mp habout))
      rw [filterMap_state, hwritten, hnone, hunborn, hstate]
      exact agree_start _
  · show lived (seen.trail id) ((executed t seen.db step).stateOf id) = []
    rw [show (executed t seen.db step).stateOf id = none from hid]
    rfl

theorem chronicled_empty : Chronicled {} where
  inOrder := jobsInOrder_empty
  oneExecutor := ⟨Nat.zero_le 1, Nat.zero_le 1⟩
  numbers _ hevent := by cases hevent
  explicit _ hid := by cases hid
  owned _ hevent := by cases hevent
  states _ hjob := by cases hjob
  unborn _ _ := rfl

/-! ## One step -/

/-- What a step writes about a job: one event of the new state when it moves, else events of its state. -/
def StepRecords (t : CharTables) (db : Database) (step : RepositoryStep) (job : TranscriptionJob) : Prop :=
  ∃ new, eventsOf (executed t db step).events job.id = eventsOf db.events job.id ++ new ∧
    (db.stateOf job.id = some job.state →
      ∀ event ∈ new, event.id ∉ explicitEvents t db step → event.state = some job.state) ∧
    (db.stateOf job.id ≠ some job.state →
      new.map (·.state) = [some job.state] ∧ explicitEvents t db step = [])

theorem Chronicled.stepRecords {seen : Observed} (h : Chronicled seen) (step : RepositoryStep)
    (hjob : job ∈ (executed t seen.db step).jobs) : StepRecords t seen.db step job := by
  obtain ⟨written, appended, hlogged, hone, hmore⟩ := @executed_logged t _ step h.inOrder h.oneExecutor.running
  refine ⟨_, hlogged.events job hjob, ?_⟩
  -- a row that has moved has an event of the step, so that nothing is appended
  have hmoved : ∀ state, (eventsOf written job.id).map (·.state) = [some state] →
      (eventsOf (numberedEvents seen.db.lastEventId (written ++ appended)) job.id).map (·.state) = [some state] ∧
        explicitEvents t seen.db step = [] := by
    intro state hwritten
    rcases hone with rfl | rfl
    · cases hwritten
    · rw [List.append_nil, map_eventsOf_numberedEvents fun _ _ => rfl]
      exact ⟨hwritten, hmore.symm⟩
  cases hlogged.rows job hjob with
  | stayed before hbefore hid hstate hplace hwritten =>
    have hsame : seen.db.stateOf job.id = some job.state := by
      rw [← hid, stateOf_eq h.inOrder hbefore, hstate]
    refine ⟨fun _ event hevent hexplicit => ?_, fun hother => absurd hsame hother⟩
    obtain ⟨hmem, habout⟩ := List.mem_filter.mp hevent
    rcases hone with rfl | rfl
    · rw [← hmore] at hexplicit
      exact absurd (List.mem_map_of_mem hmem) hexplicit
    · rw [List.append_nil] at hmem
      obtain ⟨-, -, source, hsource, heq⟩ := mem_numberedEvents hmem
      rw [heq] at habout ⊢
      exact hwritten source (List.mem_filter.mpr ⟨hsource, habout⟩)
  | moved before hbefore hid hstate hplace hwritten =>
    refine ⟨fun hsame => ?_, fun _ => hmoved job.state hwritten⟩
    rw [← hid, stateOf_eq h.inOrder hbefore] at hsame
    exact absurd (Option.some.inj hsame) hstate
  | created hfresh hstate hplace hwritten =>
    refine ⟨fun hsame => ?_, fun _ => hmoved job.state (hstate ▸ hwritten)⟩
    rw [stateOf_none hfresh] at hsame
    cases hsame

/-! ## Failures -/

/-- Whether the step succeeded. -/
def outcome (t : CharTables) (db : Database) : RepositoryStep → Result Unit
  | .jobs step => (perform t db step).1
  | .recordings now uuid operation => (RecordingRepository.perform t db now uuid operation).1

/-- **A step that fails** changes nothing. -/
theorem executed_of_error {step : RepositoryStep} {error : UserFacingError} (h : outcome t db step = .error error) :
    executed t db step = db := by
  cases step with
  | jobs step => exact performed_of_error h
  | recordings now uuid operation =>
    exact RecordingRepository.perform_transactional now uuid operation db error _ (Prod.ext h rfl)

/-! ## Every run -/

/-- **The event log.**  After every run, and without the events that callers have written, the last state
    among the events of a job is its state, and the states of its events are the ones it went through.  Every
    further step writes exactly one event of the new state about a job that it moves, and otherwise
    repeats the state; a step that fails writes nothing. -/
theorem event_log (t : CharTables) (steps : List RepositoryStep) :
    let seen := run (observed t) {} steps
    seen.db = run (executed t) {} steps ∧
      (∀ job ∈ seen.db.jobs,
        (recordedStates seen.explicit seen.db.events job.id).getLast? = some job.state ∧
        (recordedStates seen.explicit seen.db.events job.id).destutter (· ≠ ·) =
          (seen.trail job.id).destutter (· ≠ ·)) ∧
      (∀ step, ∀ job ∈ (executed t seen.db step).jobs, StepRecords t seen.db step job) ∧
      ∀ step error, outcome t seen.db step = .error error → (executed t seen.db step).events = seen.db.events := by
  intro seen
  have h : Chronicled seen := run_invariant observed_chronicled chronicled_empty (guarded_true _ steps)
  refine ⟨observed_db t steps {}, fun job hjob => ?_, fun step job hjob => h.stepRecords step hjob,
    fun step error hfailed => ?_⟩
  · exact ⟨(h.states job hjob).leftLast, (h.states job hjob).changes⟩
  · rw [executed_of_error hfailed]

end BreezeDesk
