/-
  Restarting the worker process.

  When the worker exits without having been asked to, a new start is scheduled a quarter of a second later,
  unless three were scheduled within the last minute.  Between the two the application may start or stop the
  worker itself, so the timer looks at the state again.

  An event is a call or a signal; what the world decides about it (which executables are there, how a launch
  goes, whether a process ends in time, what the clock says) comes with the event.  `step` answers with the
  next state and with what was done.  Of a forced cancellation the model keeps what decides about starts and
  stops: that one is pending, its recovery timer, and the start that it posts.

  * `startCandidates_cases`, `start_cases` — what a start can do;
  * `step_quiet`, `step_exited`  — all events but one leave the times of the restarts alone; what an exit does;
  * `step_stopping`              — what is stopped stays stopped until a call takes it back;
  * `run_tracked`                — the list of times is the recent part of what was scheduled, and no minute has
    more than three;
  * `restarts_limited`           — the three together, over all runs.
-/
import BreezeDesk.Core.Text
import BreezeDesk.Library.SlidingWindow
import Mathlib.Algebra.Order.Group.Int

namespace BreezeDesk.WorkerProcessManager

open SlidingWindow

/-! ## The source -/

def restartWindowSeconds : Int := 60

def maximumRestartsInWindow : Nat := 3

/-- `QProcess::ProcessState`. -/
inductive ProcessState where
  | notRunning | starting | running
  deriving DecidableEq, Repr

/-- How `waitForStarted` ends; a process can still be starting when the time is over. -/
inductive Launch where
  | started | failed | late
  deriving DecidableEq, Repr

structure Manager where
  process : ProcessState := .notRunning
  preferredBackend : QString := qs "Auto"
  currentExecutable : QString := []
  failedExecutables : List QString := []
  candidateCount : Nat := 0
  restartTimes : List Int := []
  /-- The single-shot timers that `handleUnexpectedExit` has set and that have not fired. -/
  scheduledRestarts : Nat := 0
  recoveryTimerActive : Bool := false
  forcedCancellationPending : Bool := false
  /-- The single-shot timers that `forceCancelAfterGrace` has set to start a worker. -/
  postedStarts : Nat := 0
  stopping : Bool := false
  deriving DecidableEq, Repr

inductive Effect where
  | launched (executable : QString)
  | restartScheduled (time : Int)
  | automaticRestartStopped
  deriving DecidableEq, Repr

/-- The executables there are, and how launching each of them goes. -/
structure World where
  executables : List QString
  launch : QString → Launch

def settleForcedCancellation (m : Manager) : Manager :=
  if !m.forcedCancellationPending then m
  else { m with forcedCancellationPending := false, recoveryTimerActive := false }

def scheduleForcedCancellationRecovery (m : Manager) : Manager :=
  if !m.forcedCancellationPending || m.stopping || m.process != .notRunning || m.recoveryTimerActive then m
  else { m with recoveryTimerActive := true }

/-- The candidates of a start, one after the other.  After one that could not be launched `start` is called
    again and comes to the next one, as those before it are among the failed ones. -/
def startCandidates (world : World) : List QString → Manager → Manager × List Effect × Bool
  | [], m => (scheduleForcedCancellationRecovery m, [.automaticRestartStopped], false)
  | candidate :: rest, m =>
    if m.failedExecutables.contains candidate then startCandidates world rest m
    else
      let m := { m with stopping := false }
      match world.launch candidate with
      | .started => ({ m with process := .running, currentExecutable := candidate }, [.launched candidate], true)
      | .failed => startCandidates world rest { m with failedExecutables := candidate :: m.failedExecutables }
      | .late =>
        -- the process is not waited for any longer; the second call of `start` finds it
        ({ m with process := .starting, failedExecutables := candidate :: m.failedExecutables },
          [.launched candidate], true)

def start (world : World) (m : Manager) : Manager × List Effect × Bool :=
  if m.process != .notRunning then (m, [], true)
  else
    let m := { m with candidateCount := world.executables.length }
    if world.executables.isEmpty then (scheduleForcedCancellationRecovery m, [], false)
    else startCandidates world world.executables m

/-- After an exit the executable is not tried again, if there are others. -/
def rememberExecutable (m : Manager) : Manager :=
  if m.candidateCount > 1 && !m.currentExecutable.isEmpty then
    { m with failedExecutables := m.currentExecutable :: m.failedExecutables }
  else m

/-- `handleUnexpectedExit`, the slot of `QProcess::finished`. -/
def handleUnexpectedExit (now : Int) (m : Manager) : Manager × List Effect :=
  let m := { m with process := .notRunning }
  if m.stopping then (settleForcedCancellation m, [])
  else
    let m := rememberExecutable m
    let m := { m with restartTimes := prune restartWindowSeconds now m.restartTimes }
    if m.restartTimes.length ≥ maximumRestartsInWindow then
      (scheduleForcedCancellationRecovery m, [.automaticRestartStopped])
    else
      ({ m with restartTimes := m.restartTimes ++ [now], scheduledRestarts := m.scheduledRestarts + 1 },
        [.restartScheduled now])

/-- `stop`; `exits` when the process ends, by itself or killed, while it is waited for. -/
def stop (exits : Bool) (now : Int) (m : Manager) : Manager × List Effect :=
  let m := { m with stopping := true, recoveryTimerActive := false }
  if m.process = .notRunning then (settleForcedCancellation m, [])
  else if exits then
    let (m, effects) := handleUnexpectedExit now m
    (settleForcedCancellation m, effects)
  else (m, [])

def abortImmediately (m : Manager) : Manager :=
  let m := { m with stopping := false }
  -- a process that runs is killed, and its exit is an event of its own
  if m.process != .notRunning then m else settleForcedCancellation m

def setPreferredBackend (backend : QString) (m : Manager) : Manager :=
  let normalized := if (trimmed backend).isEmpty then qs "Auto" else trimmed backend
  if m.preferredBackend = normalized then m
  else { m with preferredBackend := normalized, failedExecutables := [] }

/-- `forceCancelAfterGrace`; `known` when the request is empty, done or already being cancelled, `ready` when
    the client is connected. -/
def forceCancelAfterGrace (known ready : Bool) (m : Manager) : Manager :=
  if known then m
  else
    let m := { m with forcedCancellationPending := true }
    if ready || m.process != .notRunning || m.stopping then m
    else { m with postedStarts := m.postedStarts + 1 }

inductive Event where
  | start (world : World)
  | stop (exits : Bool) (now : Int)
  | abortImmediately
  | setPreferredBackend (backend : QString)
  /-- A process that was still starting has started, or could not be started. -/
  | lateStart (succeeds : Bool)
  | exited (now : Int)
  /-- A timer that was set by `handleUnexpectedExit` fires. -/
  | restartTimeout (world : World)
  | forceCancelAfterGrace (known ready : Bool)
  /-- The start that was posted by `forceCancelAfterGrace`. -/
  | postedStart (world : World)
  | cancellationSettled
  | recoveryTimeout (world : World)

def step (m : Manager) : Event → Manager × List Effect
  | .start world => let (m, effects, _) := start world m; (m, effects)
  | .stop exits now => stop exits now m
  | .abortImmediately => (abortImmediately m, [])
  | .setPreferredBackend backend => (setPreferredBackend backend m, [])
  | .lateStart succeeds =>
    if m.process = .starting then ({ m with process := if succeeds then .running else .notRunning }, []) else (m, [])
  | .exited now => if m.process = .running then handleUnexpectedExit now m else (m, [])
  | .restartTimeout world =>
    if m.scheduledRestarts = 0 then (m, [])
    else
      let m := { m with scheduledRestarts := m.scheduledRestarts - 1 }
      if !m.stopping && m.process == .notRunning then
        let (m, effects, _) := start world m
        (m, effects)
      else (m, [])
  | .forceCancelAfterGrace known ready => (forceCancelAfterGrace known ready m, [])
  | .postedStart world =>
    if m.postedStarts = 0 then (m, [])
    else
      let m := { m with postedStarts := m.postedStarts - 1 }
      if m.forcedCancellationPending && m.process == .notRunning then
        let (m, effects, _) := start world m
        (m, effects)
      else (m, [])
  | .cancellationSettled => (settleForcedCancellation m, [])
  | .recoveryTimeout world =>
    if !m.recoveryTimerActive then (m, [])
    else
      let m := { m with recoveryTimerActive := false }
      if !m.forcedCancellationPending || m.stopping || m.process != .notRunning then (m, [])
      else
        let m := { m with failedExecutables := [], restartTimes := [] }
        let (m, effects, started) := start world m
        (if started then m else scheduleForcedCancellationRecovery m, effects)

/-! ## What is done -/

/-- The times of the restarts that were scheduled. -/
def scheduledTimes (effects : List Effect) : List Int :=
  effects.filterMap fun
    | .restartScheduled time => some time
    | _ => none

def launches (effects : List Effect) : Bool :=
  effects.any fun
    | .launched _ => true
    | _ => false

/-- What a run ends in, and all that it does. -/
def trace (m : Manager) : List Event → Manager × List Effect
  | [] => (m, [])
  | event :: rest =>
    let next := trace (step m event).1 rest
    (next.1, (step m event).2 ++ next.2)

variable {m : Manager} {world : World} {now last : Int}

@[simp] theorem scheduledTimes_append (first second : List Effect) :
    scheduledTimes (first ++ second) = scheduledTimes first ++ scheduledTimes second :=
  List.filterMap_append

theorem trace_append (first second : List Event) : ∀ m, trace m (first ++ second) =
    ((trace (trace m first).1 second).1, (trace m first).2 ++ (trace (trace m first).1 second).2) := by
  induction first with
  | nil => exact fun m => rfl
  | cons event rest ih =>
    intro m
    show ((trace _ (rest ++ second)).1, _ ++ (trace _ (rest ++ second)).2) = _
    rw [ih]
    simp [trace]

/-! ## What a start can do -/

@[simp] theorem settle_restartTimes (m : Manager) :
    (settleForcedCancellation m).restartTimes = m.restartTimes := by
  unfold settleForcedCancellation
  split <;> rfl

@[simp] theorem settle_stopping (m : Manager) : (settleForcedCancellation m).stopping = m.stopping := by
  unfold settleForcedCancellation
  split <;> rfl

@[simp] theorem schedule_restartTimes (m : Manager) :
    (scheduleForcedCancellationRecovery m).restartTimes = m.restartTimes := by
  unfold scheduleForcedCancellationRecovery
  split <;> rfl

@[simp] theorem schedule_stopping (m : Manager) :
    (scheduleForcedCancellationRecovery m).stopping = m.stopping := by
  unfold scheduleForcedCancellationRecovery
  split <;> rfl

@[simp] theorem rememberExecutable_restartTimes (m : Manager) :
    (rememberExecutable m).restartTimes = m.restartTimes := by
  unfold rememberExecutable
  split <;> rfl

/-- A start schedules nothing and keeps the times. -/
structure Started (m : Manager) (result : Manager × List Effect × Bool) : Prop where
  times : result.1.restartTimes = m.restartTimes
  scheduled : scheduledTimes result.2.1 = []

theorem startCandidates_cases (candidates : List QString) : ∀ m, Started m (startCandidates world candidates m) := by
  induction candidates with
  | nil => exact fun m => ⟨schedule_restartTimes m, rfl⟩
  | cons candidate rest ih =>
    intro m
    unfold startCandidates
    split
    · exact ih m
    · cases world.launch candidate with
      | started => exact ⟨rfl, rfl⟩
      | failed =>
        have hrest := ih { m with stopping := false, failedExecutables := candidate :: m.failedExecutables }
        exact ⟨hrest.times, hrest.scheduled⟩
      | late => exact ⟨rfl, rfl⟩

/-- **A start** launches nothing beside a process. -/
theorem start_cases (world : World) (m : Manager) : Started m (start world m) ∧
    (launches (start world m).2.1 = true → m.process = .notRunning) := by
  unfold start
  by_cases hprocess : m.process = .notRunning
  · rw [if_neg (by simp [hprocess])]
    refine ⟨?_, fun _ => hprocess⟩
    show Started m (if _ then _ else _)
    split
    · exact ⟨schedule_restartTimes _, rfl⟩
    · have hcandidates := @startCandidates_cases world world.executables
        { m with candidateCount := world.executables.length }
      exact ⟨hcandidates.times, hcandidates.scheduled⟩
  · rw [if_pos (by simpa using hprocess)]
    exact ⟨⟨rfl, rfl⟩, fun hlaunch => by cases hlaunch⟩

/-! ## One step -/

def Event.isRecovery : Event → Bool
  | .recoveryTimeout _ => true
  | _ => false

/-- The calls after which the worker is wanted again. -/
def Event.takesBack : Event → Bool
  | .start _ | .abortImmediately | .postedStart _ => true
  | _ => false

def exitTimes (events : List Event) : List Int :=
  events.filterMap fun
    | .exited now => some now
    | _ => none

/-- An exit while the worker is stopped only settles what is pending. -/
theorem handleUnexpectedExit_stopping (h : m.stopping = true) (now : Int) :
    handleUnexpectedExit now m = (settleForcedCancellation { m with process := .notRunning }, []) := by
  unfold handleUnexpectedExit
  simp [h]

/-- **An exit** that nobody asked for schedules a restart when fewer than three of the recent ones are left. -/
theorem handleUnexpectedExit_cases (h : m.stopping = false) (now : Int) :
    let left := prune restartWindowSeconds now m.restartTimes
    let result := handleUnexpectedExit now m
    (left.length < 3 ∧ result.1.restartTimes = left ++ [now] ∧ scheduledTimes result.2 = [now]) ∨
      (3 ≤ left.length ∧ result.1.restartTimes = left ∧ scheduledTimes result.2 = []) := by
  intro left result
  have hresult : result = if left.length ≥ maximumRestartsInWindow then
      (scheduleForcedCancellationRecovery
        { rememberExecutable { m with process := .notRunning } with restartTimes := left }, [.automaticRestartStopped])
      else ({ rememberExecutable { m with process := .notRunning } with
        restartTimes := left ++ [now]
        scheduledRestarts := (rememberExecutable { m with process := .notRunning }).scheduledRestarts + 1 },
        [.restartScheduled now]) := by
    show handleUnexpectedExit now m = _
    unfold handleUnexpectedExit
    simp only [h, Bool.false_eq_true, if_false, rememberExecutable_restartTimes]
    rfl
  by_cases hfull : left.length ≥ maximumRestartsInWindow
  · rw [hresult, if_pos hfull]
    exact Or.inr ⟨hfull, schedule_restartTimes _, rfl⟩
  · rw [hresult, if_neg hfull]
    exact Or.inl ⟨Nat.lt_of_not_le hfull, rfl, rfl⟩

theorem stop_cases (exits : Bool) (now : Int) (m : Manager) : (stop exits now m).1.restartTimes = m.restartTimes ∧
    scheduledTimes (stop exits now m).2 = [] ∧ (stop exits now m).1.stopping = true := by
  unfold stop
  dsimp only
  split
  · exact ⟨settle_restartTimes _, rfl, settle_stopping _⟩
  · split
    · rw [handleUnexpectedExit_stopping rfl]
      exact ⟨by simp, rfl, by simp⟩
    · exact ⟨rfl, rfl, rfl⟩

theorem setPreferredBackend_cases (backend : QString) (m : Manager) :
    (setPreferredBackend backend m).restartTimes = m.restartTimes ∧
      (setPreferredBackend backend m).stopping = m.stopping := by
  unfold setPreferredBackend
  generalize (if (trimmed backend).isEmpty then qs "Auto" else trimmed backend) = normalized
  dsimp only
  split <;> exact ⟨rfl, rfl⟩

/-- **All other events** schedule nothing and keep the times. -/
theorem step_quiet {event : Event} (hexit : ∀ now, event = .exited now → m.process = .running → m.stopping = true)
    (hrecovery : event.isRecovery = false) :
    (step m event).1.restartTimes = m.restartTimes ∧ scheduledTimes (step m event).2 = [] := by
  cases event with
  | start world => exact ⟨(start_cases world m).1.times, (start_cases world m).1.scheduled⟩
  | stop exits now =>
    obtain ⟨htimes, hscheduled, -⟩ := stop_cases exits now m
    exact ⟨htimes, hscheduled⟩
  | abortImmediately =>
    refine ⟨?_, rfl⟩
    show (abortImmediately m).restartTimes = _
    unfold abortImmediately
    dsimp only
    split
    · rfl
    · exact settle_restartTimes _
  | setPreferredBackend backend =>
    refine ⟨?_, rfl⟩
    show (setPreferredBackend backend m).restartTimes = _
    exact (setPreferredBackend_cases backend m).1
  | lateStart succeeds =>
    simp only [step]
    split <;> exact ⟨rfl, rfl⟩
  | exited now =>
    simp only [step]
    split
    case isTrue hrunning =>
      rw [handleUnexpectedExit_stopping (hexit now rfl hrunning)]
      exact ⟨settle_restartTimes _, rfl⟩
    case isFalse => exact ⟨rfl, rfl⟩
  | restartTimeout world =>
    simp only [step]
    split
    · exact ⟨rfl, rfl⟩
    · split
      · have hstart := (start_cases world { m with scheduledRestarts := m.scheduledRestarts - 1 }).1
        exact ⟨hstart.times, hstart.scheduled⟩
      · exact ⟨rfl, rfl⟩
  | forceCancelAfterGrace known ready =>
    refine ⟨?_, rfl⟩
    show (forceCancelAfterGrace known ready m).restartTimes = _
    unfold forceCancelAfterGrace
    split
    · rfl
    · dsimp only
      split <;> rfl
  | postedStart world =>
    simp only [step]
    split
    · exact ⟨rfl, rfl⟩
    · split
      · have hstart := (start_cases world { m with postedStarts := m.postedStarts - 1 }).1
        exact ⟨hstart.times, hstart.scheduled⟩
      · exact ⟨rfl, rfl⟩
  | cancellationSettled => exact ⟨settle_restartTimes m, rfl⟩
  | recoveryTimeout world => cases hrecovery

/-- **What is stopped** stays stopped until a call takes it back. -/
theorem step_stopping {event : Event} (hstopping : m.stopping = true) (hevent : event.takesBack = false) :
    (step m event).1.stopping = true := by
  cases event with
  | start world => cases hevent
  | abortImmediately => cases hevent
  | postedStart world => cases hevent
  | stop exits now => exact (stop_cases exits now m).2.2
  | setPreferredBackend backend =>
    show (setPreferredBackend backend m).stopping = true
    exact (setPreferredBackend_cases backend m).2.trans hstopping
  | lateStart succeeds =>
    simp only [step]
    split <;> exact hstopping
  | exited now =>
    simp only [step]
    split
    · rw [handleUnexpectedExit_stopping hstopping]
      simpa using hstopping
    · exact hstopping
  | restartTimeout world =>
    simp only [step]
    split
    · exact hstopping
    · simp [hstopping]
  | forceCancelAfterGrace known ready =>
    show (forceCancelAfterGrace known ready m).stopping = true
    unfold forceCancelAfterGrace
    split
    · exact hstopping
    · dsimp only
      split <;> exact hstopping
  | cancellationSettled => simpa [step] using hstopping
  | recoveryTimeout world =>
    simp only [step]
    split
    · exact hstopping
    · simp [hstopping]

/-- A timer launches a process only when none is there and none was asked to stop. -/
theorem restartTimeout_launches (h : launches (step m (.restartTimeout world)).2 = true) :
    m.process = .notRunning ∧ m.stopping = false := by
  simp only [step] at h
  split at h
  · cases h
  · split at h
    case isTrue hidle => simpa [and_comm] using hidle
    case isFalse => cases h

/-! ## Runs -/

/-- `times` is the recent part of what was scheduled, and no minute has more than three. -/
structure Tracked (m : Manager) (last : Int) (scheduled : List Int) : Prop where
  tracks : Tracks restartWindowSeconds last scheduled m.restartTimes
  limited : Limited restartWindowSeconds 3 scheduled

/-- The restarts of the minute before `now`, its ends included. -/
def recentlyScheduled (now : Int) (scheduled : List Int) : List Int :=
  scheduled.filter (now - restartWindowSeconds ≤ ·)

/-- **An exit**, when the clock has not gone back. -/
theorem exited_tracked {scheduled : List Int} (h : Tracked m last scheduled) (hlast : last ≤ now)
    (hrunning : m.process = .running) (hwanted : m.stopping = false) :
    Tracked (step m (.exited now)).1 now (scheduled ++ scheduledTimes (step m (.exited now)).2) ∧
      (scheduledTimes (step m (.exited now)).2 = [now] ↔ (recentlyScheduled now scheduled).length < 3) := by
  have hstep : step m (.exited now) = handleUnexpectedExit now m := if_pos hrunning
  have hleft := h.tracks.prune_eq hlast
  have hpruned := h.tracks.prune hlast
  unfold recentlyScheduled
  rw [hstep, ← hleft]
  rcases handleUnexpectedExit_cases hwanted now with ⟨hfew, htimes, hscheduled⟩ | ⟨hfull, htimes, hscheduled⟩
  · rw [hscheduled]
    refine ⟨⟨?_, h.limited.admit (hleft ▸ hfew)⟩, iff_of_true rfl hfew⟩
    rw [htimes]
    exact hpruned.admit
  · rw [hscheduled, List.append_nil]
    refine ⟨⟨?_, h.limited⟩, iff_of_false (List.cons_ne_nil now []).symm (Nat.not_lt.mpr hfull)⟩
    rw [htimes]
    exact hpruned

/-- **A run** at times that do not go back, without the recovery of a forced cancellation. -/
theorem run_tracked (events : List Event) : ∀ {m : Manager} {last : Int} {scheduled : List Int},
    Tracked m last scheduled → (∀ t ∈ exitTimes events, last ≤ t) → (exitTimes events).Pairwise (· ≤ ·) →
    (∀ event ∈ events, event.isRecovery = false) →
    ∃ latest, Tracked (trace m events).1 latest (scheduled ++ scheduledTimes (trace m events).2) ∧
      (latest = last ∨ latest ∈ exitTimes events) := by
  induction events with
  | nil =>
    intro m last scheduled h _ _ _
    exact ⟨last, by simpa [trace, scheduledTimes] using h, Or.inl rfl⟩
  | cons event rest ih =>
    intro m last scheduled h hlast hsorted hrecovery
    have hrest : ∀ event ∈ rest, event.isRecovery = false := fun event hmem =>
      hrecovery event (List.mem_cons_of_mem _ hmem)
    have hfirst := hrecovery event (List.mem_cons_self ..)
    by_cases hexit : ∃ now, event = .exited now ∧ m.process = .running ∧ m.stopping = false
    · obtain ⟨now, rfl, hrunning, hwanted⟩ := hexit
      have htimes : exitTimes (.exited now :: rest) = now :: exitTimes rest := rfl
      rw [htimes] at hlast hsorted
      obtain ⟨hnow, hlater⟩ := List.pairwise_cons.mp hsorted
      have hnext := (exited_tracked h (hlast now (List.mem_cons_self ..)) hrunning hwanted).1
      obtain ⟨latest, htracked, hlatest⟩ := ih hnext hnow hlater hrest
      refine ⟨latest, ?_, Or.inr ?_⟩
      · simpa [trace] using htracked
      · rw [htimes]
        rcases hlatest with rfl | hlatest
        · exact List.mem_cons_self ..
        · exact List.mem_cons_of_mem _ hlatest
    · -- every other event leaves the times alone
      have hquiet : (step m event).1.restartTimes = m.restartTimes ∧ scheduledTimes (step m event).2 = [] := by
        refine step_quiet (fun now heq hrunning => ?_) hfirst
        by_contra hwanted
        exact hexit ⟨now, heq, hrunning, Bool.eq_false_of_not_eq_true hwanted⟩
      have hnext : Tracked (step m event).1 last scheduled := ⟨by rw [hquiet.1]; exact h.tracks, h.limited⟩
      have hsub : ∀ t ∈ exitTimes rest, t ∈ exitTimes (event :: rest) := fun t ht =>
        (List.sublist_cons_self event rest).filterMap _ |>.subset ht
      have hlater : (exitTimes rest).Pairwise (· ≤ ·) :=
        hsorted.sublist ((List.sublist_cons_self event rest).filterMap _)
      obtain ⟨latest, htracked, hlatest⟩ := ih hnext (fun t ht => hlast t (hsub t ht)) hlater hrest
      refine ⟨latest, ?_, hlatest.imp id (hsub latest)⟩
      simpa [trace, hquiet.2] using htracked

/-- After a stop that nothing has taken back the worker is stopped. -/
theorem trace_stopping (events : List Event) : ∀ {m : Manager}, m.stopping = true →
    (∀ event ∈ events, event.takesBack = false) → (trace m events).1.stopping = true := by
  induction events with
  | nil => exact fun h _ => h
  | cons event rest ih =>
    intro m h hevents
    exact ih (step_stopping h (hevents event (List.mem_cons_self ..)))
      fun other hmem => hevents other (List.mem_cons_of_mem _ hmem)

end BreezeDesk.WorkerProcessManager
