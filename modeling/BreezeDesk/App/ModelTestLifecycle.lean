/-
  What holds of model tests, whatever the order of the callbacks.

  Between two callbacks either no test runs (`AtRest`) or an announced test does, with its timeout active
  (`Underway`).  A test that unloads its model, or has a call of `beginUnload` scheduled, knows how it will end
  (`Resolved`); so whatever ends a test has something to report, and reports it once.

  Two orders of callbacks break this.  A deferred call is not taken back when its test ends, and works on the
  next test when that has begun; and `beginTranscription` does not ask whether the test was cancelled after the
  call was scheduled.  `InTime` rules out just these, and the runs whose deferred calls are in time are exactly
  those that keep the promises (`modelTest_lifecycle`).
-/
import BreezeDesk.App.ModelTestController
import BreezeDesk.Library.Runs

namespace BreezeDesk.ModelTest

open Ipc Runs ModelTestController

variable {d : ModelTestDependencies} {s s' : ModelTestController} {answers : WorkerAnswers}

/-! ## What is promised -/

inductive Milestone where
  | announced | ended
  deriving DecidableEq

def milestone : ModelTestAction → Option Milestone
  | .testStarted _ => some .announced
  | .testSucceeded .. => some .ended
  | .testFailed .. => some .ended
  | .testCancelled _ => some .ended
  | _ => none

abbrev ModelTestLog := List (Option Nat × ModelTestAction)

/-- The announcement and the ends of a test, as they come in the log. -/
def milestones (test : Nat) (log : ModelTestLog) : List Milestone :=
  log.filterMap fun entry => if entry.1 = some test then milestone entry.2 else none

def isStart : ModelTestAction → Bool
  | .request .StartTranscription _ _ => true
  | _ => false

def isCancel : ModelTestAction → Bool
  | .cancelAccepted => true
  | _ => false

/-- Inference of a test is asked for after its cancellation was accepted. -/
def StartsCancelled (earlier later : Option Nat × ModelTestAction) : Prop :=
  isCancel earlier.2 = true ∧ isStart later.2 = true ∧ later.1 = earlier.1

instance (earlier later : Option Nat × ModelTestAction) : Decidable (StartsCancelled earlier later) :=
  inferInstanceAs (Decidable (_ ∧ _ ∧ _))

/-- A cancellation of the current test was accepted. -/
def Cancelled (s : ModelTestController) : Prop :=
  ∃ entry ∈ s.log, entry.1 = some s.test ∧ isCancel entry.2 = true

instance : Decidable (Cancelled s) := inferInstanceAs (Decidable (∃ entry ∈ s.log, _))

structure Lifecycle (d : ModelTestDependencies) (s : ModelTestController) : Prop where
  cancelled : s.log.Pairwise fun earlier later => ¬ StartsCancelled earlier later
  ended : ∀ test, .announced ∈ milestones test s.log →
    (milestones test s.log = [.announced] ∧ test = s.test ∧ s.isRunning = true) ∨
      milestones test s.log = [.announced, .ended]
  reserved : d.setExternalWorkerReserved = true → s.externalWorkerReserved = s.isRunning
  fixtures : s.isRunning = false → s.fixtures = []
  /-- A running test ends at the latest with its timeout, which is active. -/
  timed : s.isRunning = true → s.timeout ≠ none ∧
    ∀ answers, (s.step d ⟨.timeout, answers⟩).isRunning = false

/-- A deferred call of a test that has ended does nothing. -/
def StaleHarmless (d : ModelTestDependencies) (s : ModelTestController) (event : ModelTestEvent) : Prop :=
  match event.callback with
  | .deferred index => ∀ entry ∈ s.deferred[index]?, (s.isRunning = true ∧ entry.1 = s.test) ∨
    s.step d event = s.fired index
  | _ => True

/-- A deferred call comes in its test, and does not begin inference after a cancellation; or it comes after all
    tests and finds no client that is ready, or no model to unload. -/
def InTime (s : ModelTestController) (event : ModelTestEvent) : Prop :=
  match event.callback with
  | .deferred index => ∀ entry ∈ s.deferred[index]?,
    if s.isRunning = true ∧ entry.1 = s.test then
      entry.2 = .beginTranscription → event.answers.ready = true → ¬ Cancelled s
    else s.isRunning = false ∧ (event.answers.ready = true → entry.2 = .beginUnload ∧ s.modelLoaded = false)
  | _ => True

instance (s : ModelTestController) (event : ModelTestEvent) : Decidable (InTime s event) := by
  unfold InTime
  split <;> infer_instance

/-! ## The log -/

/-- A test that has ended: once, if it was announced. -/
def Over (story : List Milestone) : Prop :=
  story = [] ∨ story = [.ended] ∨ story = [.announced, .ended]

/-- The log while the test with this number is the last one, and what it has of that test. -/
structure Chronicle (log : ModelTestLog) (test : Nat) (story : List Milestone) : Prop where
  respected : log.Pairwise fun earlier later => ¬ StartsCancelled earlier later
  current : milestones test log = story
  past : ∀ other < test, Over (milestones other log)
  future : ∀ other, test < other → milestones other log = []

namespace Chronicle

variable {log : ModelTestLog} {test : Nat} {story : List Milestone} {action : ModelTestAction}

theorem milestones_append (other : Nat) (log : ModelTestLog) (tag : Option Nat) (action : ModelTestAction) :
    milestones other (log ++ [(tag, action)]) =
      milestones other log ++ (if tag = some other then milestone action else none).toList := by
  unfold milestones
  rw [List.filterMap_append, List.filterMap_cons]
  cases h : (if tag = some other then milestone action else none) <;> rfl

/-- One more entry of the current test. -/
theorem append (h : Chronicle log test story) (action : ModelTestAction)
    (hstart : isStart action = true → ∀ entry ∈ log, entry.1 = some test → isCancel entry.2 = false) :
    Chronicle (log ++ [(some test, action)]) test (story ++ (milestone action).toList) where
  respected := by
    refine List.pairwise_append.mpr ⟨h.respected, List.pairwise_singleton _ _, fun earlier hearlier later hlater => ?_⟩
    rw [List.mem_singleton.mp hlater]
    rintro ⟨hcancel, hbegins, hsame⟩
    rw [hstart hbegins earlier hearlier hsame.symm] at hcancel
    cases hcancel
  current := by
    rw [milestones_append, if_pos rfl, h.current]
  past other hother := by
    rw [milestones_append, if_neg (fun hsame => by cases hsame; omega)]
    rw [Option.toList_none, List.append_nil]
    exact h.past other hother
  future other hother := by
    rw [milestones_append, if_neg (fun hsame => by cases hsame; omega)]
    rw [Option.toList_none, List.append_nil]
    exact h.future other hother

/-- A refused request is no part of any test. -/
theorem refuse (h : Chronicle log test story) (hstart : isStart action = false) :
    Chronicle (log ++ [(none, action)]) test story := by
  have hkeep : ∀ other, milestones other (log ++ [(none, action)]) = milestones other log := by
    intro other
    rw [milestones_append, if_neg nofun, Option.toList_none, List.append_nil]
  refine ⟨?_, (hkeep test).trans h.current, fun other hother => ?_, fun other hother => ?_⟩
  · refine List.pairwise_append.mpr ⟨h.respected, List.pairwise_singleton _ _, fun earlier _ later hlater => ?_⟩
    rw [List.mem_singleton.mp hlater]
    rintro ⟨-, hbegins, -⟩
    rw [hstart] at hbegins
    cases hbegins
  · rw [hkeep]
    exact h.past other hother
  · rw [hkeep]
    exact h.future other hother

/-- The next test begins. -/
theorem next (h : Chronicle log test story) (hover : Over story) : Chronicle log (test + 1) [] where
  respected := h.respected
  current := h.future _ (Nat.lt_succ_self test)
  past other hother := by
    rcases Nat.lt_or_eq_of_le (Nat.le_of_lt_succ hother) with hlt | rfl
    · exact h.past other hlt
    · rw [h.current]
      exact hover
  future other hother := h.future other (Nat.lt_of_succ_lt hother)

end Chronicle

/-! ## What is kept -/

/-- It is settled how the test ends. -/
def Resolved (s : ModelTestController) : Prop :=
  s.inferenceSucceeded = true ∨ s.cancelRequested = true ∨ s.pendingFailure ≠ []

/-- What every part of a test keeps; `story` is what the log has of the current test. -/
structure Holds (d : ModelTestDependencies) (active : Bool) (story : List Milestone) (s : ModelTestController) :
    Prop where
  running : s.isRunning = active
  chronicle : Chronicle s.log s.test story
  reserved : s.externalWorkerReserved = (active && d.setExternalWorkerReserved) ∧
    s.reservationHeld = (active && d.setExternalWorkerReserved)
  fixtures : s.fixtures = if s.fixturePath = [] then [] else [s.fixturePath]
  removed : active = false → s.fixturePath = []
  scheduled : ∀ entry ∈ s.deferred, entry.1 ≤ s.test
  resolved : active = true → s.phase = .UnloadingModel ∨ (s.test, Deferred.beginUnload) ∈ s.deferred → Resolved s

/-- No test runs. -/
def AtRest (d : ModelTestDependencies) (s : ModelTestController) : Prop :=
  ∃ story, Over story ∧ Holds d false story s

/-- An announced test runs. -/
abbrev Underway (d : ModelTestDependencies) (s : ModelTestController) : Prop := Holds d true [.announced] s

namespace Holds

variable {active : Bool} {story : List Milestone} {action : ModelTestAction}

theorem emit (h : Holds d active story s) (action : ModelTestAction) (hquiet : milestone action = none)
    (hstart : isStart action = true → ¬ Cancelled s) : Holds d active story (s.emit action) := by
  have hlog := h.chronicle.append action fun hbegins entry hentry hsame => by
    rw [Bool.eq_false_iff]
    exact fun hcancel => hstart hbegins ⟨entry, hentry, hsame, hcancel⟩
  rw [hquiet, Option.toList_none, List.append_nil] at hlog
  exact ⟨h.running, hlog, h.reserved, h.fixtures, h.removed, h.scheduled, h.resolved⟩

/-- The end of a test, or its announcement. -/
theorem emit_milestone {reached : Milestone} (h : Holds d active story s) (action : ModelTestAction)
    (hreached : milestone action = some reached)
    (hstart : isStart action = false) : Holds d active (story ++ [reached]) (s.emit action) := by
  have hlog := h.chronicle.append action fun hbegins => absurd (hstart.symm.trans hbegins) nofun
  rw [hreached] at hlog
  exact ⟨h.running, hlog, h.reserved, h.fixtures, h.removed, h.scheduled, h.resolved⟩

theorem refuse (h : Holds d active story s) (modelId message : QString) :
    Holds d active story (s.refuse modelId message) :=
  ⟨h.running, h.chronicle.refuse rfl, h.reserved, h.fixtures, h.removed, h.scheduled, h.resolved⟩

/-- A running test in another phase. -/
theorem setPhase (h : Holds d true story s) {phase : Phase} (hphase : phase ≠ .Idle)
    (hunload : phase = .UnloadingModel → Resolved s) : Holds d true story { s with phase } where
  running := bne_iff_ne.mpr hphase
  chronicle := h.chronicle
  reserved := h.reserved
  fixtures := h.fixtures
  removed := h.removed
  scheduled := h.scheduled
  resolved _ hcase := hcase.elim hunload fun hmem => h.resolved rfl (.inr hmem)

theorem singleShot (h : Holds d true story s) {call : Deferred} (hunload : call = .beginUnload → Resolved s) :
    Holds d true story (s.singleShot call) where
  running := h.running
  chronicle := h.chronicle
  reserved := h.reserved
  fixtures := h.fixtures
  removed := h.removed
  scheduled entry hentry := by
    rcases List.mem_append.mp hentry with hentry | hentry
    · exact h.scheduled entry hentry
    · rw [List.mem_singleton.mp hentry]
      exact Nat.le_refl _
  resolved _ hcase := by
    rcases hcase with hphase | hmem
    · exact h.resolved rfl (.inl hphase)
    · rcases List.mem_append.mp hmem with hmem | hmem
      · exact h.resolved rfl (.inr hmem)
      · exact hunload (congrArg Prod.snd (List.mem_singleton.mp hmem)).symm

/-- What a running test finds out, when it does not unsettle its end. -/
theorem setFlags (h : Holds d true story s) {modelLoaded inferenceSucceeded cancelRequested : Bool}
    (hresolved : Resolved s → inferenceSucceeded = true ∨ cancelRequested = true ∨ s.pendingFailure ≠ []) :
    Holds d true story { s with modelLoaded, inferenceSucceeded, cancelRequested } :=
  ⟨h.running, h.chronicle, h.reserved, h.fixtures, h.removed, h.scheduled,
    fun hactive hcase => hresolved (h.resolved hactive hcase)⟩

theorem setFailure (h : Holds d true story s) {message : QString} (hmessage : message ≠ []) (details : QString) :
    Holds d true story { s with pendingFailure := message, pendingTechnicalDetails := details } :=
  ⟨h.running, h.chronicle, h.reserved, h.fixtures, h.removed, h.scheduled, fun _ _ => .inr (.inr hmessage)⟩

theorem forgetModel (h : Holds d active story s) : Holds d active story s.forgetModel := by
  have hforgotten : Holds d active story { s with modelLoaded := false } :=
    ⟨h.running, h.chronicle, h.reserved, h.fixtures, h.removed, h.scheduled, h.resolved⟩
  unfold ModelTestController.forgetModel
  dsimp only
  split
  · exact hforgotten.emit _ rfl nofun
  · exact hforgotten

/-! ## Ends -/

theorem releaseModel (h : Holds d active story s) : Holds d active story s.releaseModel := by
  unfold ModelTestController.releaseModel
  split
  · exact h.emit _ rfl nofun
  · exact h

theorem removeFixture_kept (s : ModelTestController) :
    s.removeFixture.log = s.log ∧ s.removeFixture.test = s.test ∧ s.removeFixture.deferred = s.deferred ∧
      s.removeFixture.externalWorkerReserved = s.externalWorkerReserved ∧
      s.removeFixture.reservationHeld = s.reservationHeld := by
  unfold ModelTestController.removeFixture
  split <;> exact ⟨rfl, rfl, rfl, rfl, rfl⟩

theorem removeFixture_fixtures (h : Holds d active story s) : s.removeFixture.fixtures = [] := by
  have hfixtures := h.fixtures
  unfold ModelTestController.removeFixture
  split
  · next hpath =>
    rw [if_neg (by simpa using hpath)] at hfixtures
    rw [hfixtures]
    exact List.filter_eq_nil_iff.mpr fun path hpath => by
      rw [List.mem_singleton.mp hpath]
      exact fun hne => bne_iff_ne.mp hne rfl
  · next hpath =>
    rw [if_pos (by simpa using hpath)] at hfixtures
    exact hfixtures

theorem releaseReservation_kept (s : ModelTestController) :
    (s.releaseReservation d).log = s.log ∧ (s.releaseReservation d).test = s.test ∧
      (s.releaseReservation d).deferred = s.deferred ∧ (s.releaseReservation d).fixtures = s.fixtures := by
  unfold ModelTestController.releaseReservation
  split <;> exact ⟨rfl, rfl, rfl, rfl⟩

/-- The flag is taken back by who has set it. -/
theorem releaseReservation_reserved (hreserved : s.externalWorkerReserved = (active && d.setExternalWorkerReserved))
    (hheld : s.reservationHeld = (active && d.setExternalWorkerReserved)) :
    (s.releaseReservation d).externalWorkerReserved = false := by
  unfold ModelTestController.releaseReservation
  split
  · rfl
  · next hnot =>
    rw [hheld] at hnot
    rw [hreserved]
    cases active <;> cases hset : d.setExternalWorkerReserved <;> simp_all

/-- What `cleanup` leaves, before `finish` reports the end. -/
theorem cleanup (h : Holds d active story s) : Holds d false story (s.cleanup d) := by
  have hreleased : Holds d active story { s with timeout := none }.releaseModel :=
    releaseModel ⟨h.running, h.chronicle, h.reserved, h.fixtures, h.removed, h.scheduled, h.resolved⟩
  unfold ModelTestController.cleanup
  dsimp only
  generalize { s with timeout := none }.releaseModel = released at hreleased
  obtain ⟨hlog, htest, hdeferred, hreserved, hheld⟩ := removeFixture_kept released
  obtain ⟨hlog', htest', hdeferred', hfixtures'⟩ := releaseReservation_kept (d := d) released.removeFixture
  have hclear : Holds d false story (released.removeFixture.releaseReservation d).clear := by
    refine ⟨rfl, ?_, ⟨?_, rfl⟩, ?_, fun _ => rfl, ?_, nofun⟩
    · show Chronicle (released.removeFixture.releaseReservation d).log _ _
      rw [hlog', hlog]
      show Chronicle _ (released.removeFixture.releaseReservation d).test _
      rw [htest', htest]
      exact hreleased.chronicle
    · exact releaseReservation_reserved (hreserved.trans hreleased.reserved.1) (hheld.trans hreleased.reserved.2)
    · exact hfixtures'.trans hreleased.removeFixture_fixtures
    · show ∀ entry ∈ (released.removeFixture.releaseReservation d).deferred,
        entry.1 ≤ (released.removeFixture.releaseReservation d).test
      rw [hdeferred', hdeferred, htest', htest]
      exact hreleased.scheduled
  split
  · exact hclear.emit _ rfl nofun
  · exact hclear

/-- **A test that ends reports it**, once. -/
theorem finish (h : Holds d true story s) (hstory : story = [] ∨ story = [.announced]) {success : Bool}
    (hreason : success = true ∨ s.cancelRequested = true ∨ s.pendingFailure ≠ []) : AtRest d (s.finish d success) := by
  have hover : Over (story ++ [.ended]) := by
    rcases hstory with rfl | rfl
    · exact .inr (.inl rfl)
    · exact .inr (.inr rfl)
  have hcleaned := h.cleanup
  unfold ModelTestController.finish
  rw [h.running, Bool.not_true, if_neg Bool.false_ne_true]
  dsimp only
  split
  · exact ⟨_, hover, hcleaned.emit_milestone _ rfl rfl⟩
  · next hsuccess =>
    split
    · exact ⟨_, hover, hcleaned.emit_milestone _ rfl rfl⟩
    · next hcancelled =>
      have hfailure : s.pendingFailure ≠ [] := by
        rcases hreason with hreason | hreason | hreason
        · exact absurd hreason hsuccess
        · intro hempty
          rw [hreason, hempty] at hcancelled
          exact hcancelled rfl
        · exact hreason
      rw [List.isEmpty_eq_false_iff.mpr hfailure, Bool.not_false, if_pos rfl]
      exact ⟨_, hover, hcleaned.emit_milestone _ rfl rfl⟩

theorem fail (h : Holds d true story s) (hstory : story = [] ∨ story = [.announced]) {message : QString}
    (hmessage : message ≠ []) (details : QString) : AtRest d (s.fail d message details) := by
  unfold ModelTestController.fail
  rw [h.running, Bool.not_true, if_neg Bool.false_ne_true]
  exact (h.setFailure hmessage details).finish hstory (.inr (.inr hmessage))

end Holds

/-! ## Interruptions -/

/-- No test runs, or an announced one does; the timeout may be stopped. -/
def Sound (d : ModelTestDependencies) (s : ModelTestController) : Prop := AtRest d s ∨ Underway d s

theorem AtRest.running (h : AtRest d s) : s.isRunning = false := by
  obtain ⟨story, -, hholds⟩ := h
  exact hholds.running

theorem fail_of_idle (h : s.isRunning = false) (message details : QString) : s.fail d message details = s := by
  unfold ModelTestController.fail
  rw [h]
  rfl

theorem finish_of_idle (h : s.isRunning = false) (success : Bool) : s.finish d success = s := by
  unfold ModelTestController.finish
  rw [h]
  rfl

namespace Sound

theorem emit (h : Sound d s) (action : ModelTestAction) (hquiet : milestone action = none)
    (hstart : isStart action = false) : Sound d (s.emit action) := by
  have hnot : isStart action = true → ¬ Cancelled s := fun hbegins => absurd (hstart.symm.trans hbegins) nofun
  rcases h with ⟨story, hover, h⟩ | h
  · exact .inl ⟨story, hover, h.emit _ hquiet hnot⟩
  · exact .inr (h.emit _ hquiet hnot)

theorem fail (h : Sound d s) {message : QString} (hmessage : message ≠ []) (details : QString) :
    AtRest d (s.fail d message details) := by
  rcases h with h | h
  · rw [fail_of_idle h.running]
    exact h
  · exact h.fail (.inr rfl) hmessage details

theorem setRequestId (h : Sound d s) (requestId : QString) : Sound d { s with requestId } := by
  rcases h with ⟨story, hover, h⟩ | h
  · exact .inl ⟨story, hover, h.running, h.chronicle, h.reserved, h.fixtures, h.removed, h.scheduled, h.resolved⟩
  · exact .inr ⟨h.running, h.chronicle, h.reserved, h.fixtures, h.removed, h.scheduled, h.resolved⟩

/-- A signal of the client ends the test that runs. -/
theorem signalled (h : Sound d s) (signal : WorkerSignal) : AtRest d (s.signalled d signal) := by
  rcases h with h | h
  · have hidle := h.running
    cases signal <;> simp only [ModelTestController.signalled, handleDisconnected, handleProtocolError, hidle,
      Bool.false_eq_true, if_false] <;> exact h
  · have hforgotten := Holds.forgetModel h
    cases signal with
    | disconnected =>
      simp only [ModelTestController.signalled, handleDisconnected]
      rw [h.running, if_pos rfl]
      split
      · next hfailure =>
        refine hforgotten.finish (.inr rfl) (.inr (.inr ?_))
        simpa using hfailure
      · exact hforgotten.fail (.inr rfl) (by decide) _
    | protocolError detail =>
      simp only [ModelTestController.signalled, handleProtocolError]
      rw [h.running, if_pos rfl]
      exact hforgotten.fail (.inr rfl) (by decide) _

/-- Signals end the test, unless there are none. -/
theorem interrupted (h : Sound d s) (signals : List WorkerSignal) :
    AtRest d (s.interrupted d signals) ∨ s.interrupted d signals = s := by
  unfold ModelTestController.interrupted
  cases signals with
  | nil => exact .inr rfl
  | cons first rest =>
    refine .inl ?_
    rw [List.foldl_cons]
    have hfirst := h.signalled first
    generalize s.signalled d first = ended at hfirst
    induction rest generalizing ended with
    | nil => exact hfirst
    | cons signal rest ih => exact ih _ (Sound.signalled (.inl hfirst) signal)

theorem sendRequest {type : MessageType} {jobId : QString} {payload : QCborMap}
    (h : Sound d (s.emit (.request type jobId payload))) (answers : WorkerAnswers) :
    Sound d (s.sendRequest d type jobId payload answers) := by
  rcases h.interrupted answers.sending with hrest | hsame
  · exact .inl hrest
  · unfold ModelTestController.sendRequest
    rw [hsame]
    exact h

/-- A request other than for inference. -/
theorem request (h : Sound d s) (type : MessageType) (hstart : type ≠ .StartTranscription) (jobId : QString)
    (payload : QCborMap) (answers : WorkerAnswers) : Sound d (s.sendRequest d type jobId payload answers) :=
  sendRequest (h.emit _ rfl (by cases type <;> first | rfl | exact absurd rfl hstart)) answers

theorem abortLoadedWorker (h : Sound d s) {message : QString} (hmessage : message ≠ []) (details : QString)
    (answers : WorkerAnswers) : AtRest d (s.abortLoadedWorker d message details answers) := by
  unfold ModelTestController.abortLoadedWorker
  rcases h with h | h
  · rw [h.running]
    exact h
  · have hfailed := h.setFailure hmessage details
    rw [h.running, Bool.not_true, if_neg Bool.false_ne_true]
    dsimp only
    generalize hfailure : { s with pendingFailure := message, pendingTechnicalDetails := details } = failed at hfailed
    -- whether or not the worker is told, the failure stands or the test has ended
    have haborted : ∀ aborted, Underway d aborted → aborted.pendingFailure ≠ [] →
        AtRest d (if aborted.isRunning then aborted.forgetModel.finish d false else aborted) := by
      intro aborted hunderway hpending
      rw [hunderway.running, if_pos rfl]
      refine hunderway.forgetModel.finish (.inr rfl) (.inr (.inr ?_))
      unfold forgetModel
      dsimp only
      split <;> exact hpending
    have hpending : failed.pendingFailure ≠ [] := by
      rw [← hfailure]
      exact hmessage
    by_cases habort : d.abortWorker = true
    · rw [if_pos habort]
      have htold : Sound d (failed.emit .abortWorker) := .inr (hfailed.emit _ rfl nofun)
      rcases htold.interrupted answers.aborting with hrest | hsame
      · rw [hrest.running]
        exact hrest
      · rw [hsame]
        exact haborted _ (hfailed.emit _ rfl nofun) hpending
    · rw [if_neg habort]
      exact haborted _ hfailed hpending

end Sound

/-! ## The parts of a test -/

/-- What holds between two callbacks. -/
def Inv (d : ModelTestDependencies) (s : ModelTestController) : Prop :=
  AtRest d s ∨ (Underway d s ∧ s.timeout ≠ none)

theorem Inv.sound (h : Inv d s) : Sound d s := h.imp_right And.left

theorem Sound.armTimeout (h : Sound d s) (milliseconds : Int) : Inv d (s.armTimeout milliseconds) := by
  rcases h with ⟨story, hover, h⟩ | h
  · exact .inl ⟨story, hover, h.running, h.chronicle, h.reserved, h.fixtures, h.removed, h.scheduled, h.resolved⟩
  · exact .inr ⟨⟨h.running, h.chronicle, h.reserved, h.fixtures, h.removed, h.scheduled, h.resolved⟩, nofun⟩

theorem beginLoadingModel_inv (h : Underway d s) (hphase : s.phase = .WaitingForWorker)
    (hready : answers.ready = true) : Inv d (s.beginLoadingModel d answers) := by
  unfold beginLoadingModel
  rw [if_neg (by rw [hphase, hready]; exact fun hor => hor.elim (fun hne => hne rfl) nofun)]
  have hloading : Underway d { s with phase := .LoadingModel } := h.setPhase nofun nofun
  have hsent := fun payload =>
    (Sound.request (.inr hloading) .LoadModel nofun [] payload answers).setRequestId answers.requestId
  dsimp only
  split
  · exact .inl ((hsent _).fail (by decide) _)
  · exact ((hsent _).emit _ rfl rfl).armTimeout _

theorem beginTranscription_inv (h : Underway d s) (hstart : answers.ready = true → ¬ Cancelled s) :
    Inv d (s.beginTranscription d answers) := by
  unfold beginTranscription
  split
  · exact .inl (h.fail (.inr rfl) (by decide) _)
  · next hready =>
    have hnot : ¬ Cancelled { s with phase := .Transcribing } := hstart (by simpa using hready)
    have htranscribing : Underway d { s with phase := .Transcribing } := h.setPhase nofun nofun
    have hsent := fun jobId payload =>
      (Sound.sendRequest (.inr (htranscribing.emit (.request .StartTranscription jobId payload) rfl
        fun _ => hnot)) answers).setRequestId answers.requestId
    dsimp only
    split
    · exact .inl ((hsent _ _).fail (by decide) _)
    · exact ((hsent _ _).emit _ rfl rfl).armTimeout _

/-- A model that is unloaded ends the test as it was resolved. -/
theorem finish_unloaded (h : Underway d s) (hresolved : Resolved s) :
    AtRest d (s.finish d (s.inferenceSucceeded && s.pendingFailure.isEmpty && !s.cancelRequested)) := by
  refine h.finish (.inr rfl) ?_
  by_cases hcancel : s.cancelRequested = true
  · exact .inr (.inl hcancel)
  · by_cases hfailure : s.pendingFailure = []
    · refine .inl ?_
      have hinference := hresolved.resolve_right (not_or.mpr ⟨hcancel, not_not.mpr hfailure⟩)
      rw [hinference, hfailure, Bool.eq_false_iff.mpr hcancel]
      rfl
    · exact .inr (.inr hfailure)

theorem beginUnload_inv (h : Underway d s) (hresolved : Resolved s) : Inv d (s.beginUnload d answers) := by
  unfold beginUnload
  split
  · exact .inl (finish_unloaded h hresolved)
  · have hunloading : Underway d { s with phase := .UnloadingModel, unloadAttempts := s.unloadAttempts + 1 } :=
      Holds.setPhase (s := { s with unloadAttempts := s.unloadAttempts + 1 })
        ⟨h.running, h.chronicle, h.reserved, h.fixtures, h.removed, h.scheduled, h.resolved⟩ nofun fun _ => hresolved
    have hsent :=
      (Sound.request (.inr hunloading) .UnloadModel nofun [] [] answers).setRequestId answers.requestId
    dsimp only
    split
    · exact .inl (hsent.abortLoadedWorker (by decide) _ _)
    · exact hsent.armTimeout _

/-! ## Commands -/

theorem createFixture_ne {fixture : FixtureAnswers} {path : QString} (h : createFixture d fixture = .ok path) :
    path ≠ [] := by
  unfold createFixture at h
  dsimp only at h
  split at h
  · cases h
  · split at h
    · cases h
    · cases h
      exact fun hnil => absurd (List.append_eq_nil_iff.mp hnil).2 (by decide)

theorem begin_fixtures (s : ModelTestController) (modelId path : QString) (sha256 : QByteArray) (uuid : QString) :
    (((s.accepted modelId path sha256 uuid).reserveWorker d).invalidateModelCache d).fixtures = s.fixtures := by
  unfold invalidateModelCache reserveWorker
  split <;> split <;> rfl

/-- A test that has begun and is not announced yet. -/
theorem AtRest.begin (h : AtRest d s) (modelId path : QString) (sha256 : QByteArray) (uuid : QString) :
    Holds d true [] { ((s.accepted modelId path sha256 uuid).reserveWorker d).invalidateModelCache d with
      phase := .WaitingForWorker } := by
  obtain ⟨story, hover, hholds⟩ := h
  have hbegun : Holds d true [] { (s.accepted modelId path sha256 uuid).reserveWorker d with
      phase := .WaitingForWorker } := by
    have hreserved : ((s.accepted modelId path sha256 uuid).reserveWorker d).externalWorkerReserved =
        d.setExternalWorkerReserved ∧
        ((s.accepted modelId path sha256 uuid).reserveWorker d).reservationHeld = d.setExternalWorkerReserved := by
      unfold reserveWorker
      cases d.setExternalWorkerReserved
      · exact hholds.reserved
      · exact ⟨rfl, rfl⟩
    have hkept : ((s.accepted modelId path sha256 uuid).reserveWorker d).log = s.log ∧
        ((s.accepted modelId path sha256 uuid).reserveWorker d).test = s.test + 1 ∧
        ((s.accepted modelId path sha256 uuid).reserveWorker d).fixtures = s.fixtures ∧
        ((s.accepted modelId path sha256 uuid).reserveWorker d).fixturePath = s.fixturePath ∧
        ((s.accepted modelId path sha256 uuid).reserveWorker d).deferred = s.deferred := by
      unfold reserveWorker
      split <;> exact ⟨rfl, rfl, rfl, rfl, rfl⟩
    generalize (s.accepted modelId path sha256 uuid).reserveWorker d = begun at hreserved hkept
    obtain ⟨hlog, htest, hfixtures, hpath, hdeferred⟩ := hkept
    refine ⟨rfl, ?_, hreserved, ?_, nofun, ?_, fun _ hcase => ?_⟩
    · show Chronicle begun.log begun.test []
      rw [hlog, htest]
      exact hholds.chronicle.next hover
    · show begun.fixtures = if begun.fixturePath = [] then [] else [begun.fixturePath]
      rw [hfixtures, hpath]
      exact hholds.fixtures
    · show ∀ entry ∈ begun.deferred, entry.1 ≤ begun.test
      rw [hdeferred, htest]
      exact fun entry hentry => Nat.le_succ_of_le (hholds.scheduled entry hentry)
    · rcases hcase with hphase | hmem
      · cases hphase
      · have hold : (begun.test, Deferred.beginUnload) ∈ s.deferred := hdeferred ▸ hmem
        rw [htest] at hold
        exact absurd (hholds.scheduled _ hold) (Nat.not_succ_le_self s.test)
  unfold invalidateModelCache
  split
  · exact hbegun.emit _ rfl nofun
  · exact hbegun

theorem announce_inv (h : Holds d true [] s) (hphase : s.phase = .WaitingForWorker) (asked : TestAnswers) :
    Inv d (s.announce d asked answers) := by
  have hannounced : Underway d (((s.emit (.setModelInUse s.modelId true)).emit (.testStarted s.modelId)).emit
      (.progressChanged s.modelId 0)) := by
    have hused := h.emit (.setModelInUse s.modelId true) rfl nofun
    have hstarted := hused.emit_milestone (.testStarted s.modelId) rfl rfl
    exact hstarted.emit _ rfl nofun
  unfold announce
  dsimp only
  split
  · next hready => exact beginLoadingModel_inv hannounced hphase hready
  · split
    · exact .inl (hannounced.fail (.inr rfl) (by decide) _)
    · have hstarted : Sound d ((((s.emit (.setModelInUse s.modelId true)).emit (.testStarted s.modelId)).emit
          (.progressChanged s.modelId 0)).interrupted d asked.starting) := by
        rcases Sound.interrupted (.inr hannounced) asked.starting with hrest | hsame
        · exact .inl hrest
        · rw [hsame]
          exact .inr hannounced
      split
      · exact .inl (hstarted.fail (by decide) _)
      · exact hstarted.armTimeout _

theorem startTest_inv (h : AtRest d s) (modelId path : QString) (sha256 : QByteArray) (asked : TestAnswers) :
    Inv d (s.startTest d modelId path sha256 asked answers) := by
  have hbegun := (h.begin modelId path sha256 asked.uuid).emit .runningChanged rfl nofun
  have hnone : (((s.accepted modelId path sha256 asked.uuid).reserveWorker d).invalidateModelCache d).fixtures = [] := by
    obtain ⟨story, -, hrest⟩ := h
    rw [begin_fixtures, hrest.fixtures, if_pos (hrest.removed rfl)]
  unfold startTest
  dsimp only
  split
  · exact .inl (hbegun.fail (.inl rfl) (by decide) _)
  · next fixturePath hfixture =>
    refine announce_inv ?_ rfl asked
    refine ⟨hbegun.running, hbegun.chronicle, hbegun.reserved, ?_, nofun, hbegun.scheduled, hbegun.resolved⟩
    rw [if_neg (createFixture_ne hfixture)]
    exact congrArg (· ++ [fixturePath]) hnone

theorem testModel_inv (h : Inv d s) (modelId : QString) (asked : TestAnswers) :
    Inv d (s.testModel d modelId asked answers) := by
  have hrefused : ∀ message, Inv d (s.refuse modelId message) := by
    intro message
    rcases h with ⟨story, hover, h⟩ | ⟨h, htimeout⟩
    · exact .inl ⟨story, hover, h.refuse modelId message⟩
    · exact .inr ⟨h.refuse modelId message, htimeout⟩
  unfold testModel
  split
  · exact hrefused _
  · next hidle =>
    have hrest : AtRest d s := h.resolve_right fun hunderway => hidle hunderway.1.running
    dsimp only
    split
    · exact hrefused _
    · split
      · exact hrefused _
      · split
        · exact hrefused _
        · split
          · exact hrefused _
          · exact startTest_inv hrest _ _ _ _

theorem cancel_inv (h : Inv d s) : Inv d (s.cancel d answers) := by
  unfold cancel
  split
  · exact h
  · next hgo =>
    obtain ⟨hunderway, htimeout⟩ := h.resolve_left fun hrest => hgo (by rw [hrest.running]; rfl)
    have hnoted : Underway d { s with cancelRequested := true } := hunderway.setFlags fun _ => .inr (.inl rfl)
    have hcancelled := hnoted.emit .cancelAccepted rfl nofun
    dsimp only
    split
    · exact .inl (hcancelled.finish (.inr rfl) (.inr (.inl rfl)))
    · split
      · exact (Sound.request (.inr hcancelled) .CancelJob nofun _ _ answers).armTimeout _
      · exact .inr ⟨hcancelled, htimeout⟩

theorem setBackendPreference_inv (h : Inv d s) (backend : QString) (flashAttention : Bool) :
    Inv d (s.setBackendPreference backend flashAttention) := by
  unfold setBackendPreference
  split
  · exact h
  · next hidle =>
    obtain ⟨story, hover, hrest⟩ := h.resolve_right fun hunderway => hidle hunderway.1.running
    exact .inl ⟨story, hover, hrest.running, hrest.chronicle, hrest.reserved, hrest.fixtures, hrest.removed,
      hrest.scheduled, hrest.resolved⟩

/-! ## Signals and timers -/

theorem workerErrorMessage_ne (envelope : Envelope) : workerErrorMessage envelope ≠ [] := by
  unfold workerErrorMessage
  dsimp only
  split
  · decide
  · next hfull =>
    intro hnil
    exact hfull (List.isEmpty_iff.mpr hnil)

theorem handleError_inv (h : Underway d s) (htimeout : s.timeout ≠ none) (envelope : Envelope) :
    Inv d (s.handleError d envelope answers) := by
  unfold handleError
  dsimp only
  split
  · next hphase =>
    split
    · exact .inr ⟨h.singleShot fun _ => h.resolved rfl (.inl hphase), htimeout⟩
    · exact .inl (Sound.abortLoadedWorker (.inr h) (by decide) _ _)
  · have hfailed := h.setFailure (workerErrorMessage_ne envelope)
      ((envelope.payload.value (qs "technicalDetails")).toText)
    split
    · exact .inr ⟨hfailed.singleShot fun _ => .inr (.inr (workerErrorMessage_ne envelope)), htimeout⟩
    · exact .inl (hfailed.fail (.inr rfl) (workerErrorMessage_ne envelope) _)

theorem handleModelLoaded_inv (h : Underway d s) (htimeout : s.timeout ≠ none) (payload : QCborMap) :
    Inv d (s.handleModelLoaded payload) := by
  unfold handleModelLoaded
  dsimp only
  refine .inr ⟨Holds.singleShot ?_ fun hunload => ?_, htimeout⟩
  · refine Holds.emit ?_ _ rfl nofun
    exact ⟨h.running, h.chronicle, h.reserved, h.fixtures, h.removed, h.scheduled, h.resolved⟩
  · -- only a test that is to be cancelled goes on to unload
    by_cases hcancel : s.cancelRequested = true
    · exact .inr (.inl hcancel)
    · exact absurd ((if_neg hcancel).symm.trans hunload) nofun

theorem handleEnvelope_inv (h : Inv d s) (envelope : Envelope) : Inv d (s.handleEnvelope d envelope answers) := by
  unfold handleEnvelope
  split
  · exact h
  · next hgo =>
    obtain ⟨hunderway, htimeout⟩ := h.resolve_left fun hrest => hgo (by rw [hrest.running]; rfl)
    split
    · exact handleError_inv hunderway htimeout envelope
    · split
      · exact handleModelLoaded_inv hunderway htimeout _
      · split
        · exact h
        · exact .inr ⟨hunderway.emit _ rfl nofun, htimeout⟩
      · split
        · exact h
        · have hcancelled : Underway d { s with cancelRequested := true } :=
            hunderway.setFlags fun _ => .inr (.inl rfl)
          exact .inr ⟨hcancelled.singleShot fun _ => .inr (.inl rfl), htimeout⟩
      · split
        · exact h
        · have hcompleted : Underway d { s with inferenceSucceeded := true } := hunderway.setFlags fun _ => .inl rfl
          have hsaid := hcompleted.emit (.progressChanged s.modelId (19 / 20)) rfl nofun
          exact .inr ⟨hsaid.singleShot fun _ => .inl rfl, htimeout⟩
      · next hphase _ =>
        have hunloaded : Underway d { s with modelLoaded := false } := hunderway.setFlags id
        have hsaid := hunloaded.emit (.modelUnloaded s.modelId) rfl nofun
        exact .inl (finish_unloaded (hsaid.emit (.progressChanged s.modelId 1) rfl nofun)
          (hunderway.resolved rfl (.inl hphase)))
      · exact h

theorem handleTimeout_rest (h : Sound d s) : AtRest d (s.handleTimeout d answers) := by
  unfold handleTimeout
  rcases h with h | h
  · rw [h.running]
    exact h
  · rw [h.running, Bool.not_true, if_neg Bool.false_ne_true]
    dsimp only
    split
    · exact Sound.abortLoadedWorker (Sound.request (.inr h) .CancelJob nofun _ _ answers) (by decide) _ _
    · exact Sound.abortLoadedWorker (.inr h) (by decide) _ _

/-- After all tests, a deferred call that finds no client or nothing to unload does nothing. -/
theorem runDeferred_of_idle (hidle : s.isRunning = false) {call : Deferred}
    (hguard : answers.ready = true → call = .beginUnload ∧ s.modelLoaded = false) :
    s.runDeferred d call answers = s := by
  unfold runDeferred
  cases call with
  | beginTranscription =>
    have hready : answers.ready = false := Bool.eq_false_iff.mpr fun hready => nomatch (hguard hready).1
    unfold beginTranscription
    rw [hready]
    exact fail_of_idle hidle _ _
  | beginUnload =>
    have hnothing : (!s.modelLoaded || !answers.ready) = true := by
      cases hready : answers.ready with
      | true => rw [(hguard hready).2]; rfl
      | false => exact Bool.or_true _
    unfold beginUnload
    rw [if_pos hnothing]
    exact finish_of_idle hidle _

theorem deferred_inv (h : Inv d s) {index : Nat} {entry : Nat × Deferred} (hentry : s.deferred[index]? = some entry)
    (hguard : InTime s ⟨.deferred index, answers⟩) :
    Inv d ((s.fired index).runDeferred d entry.2 answers) := by
  have hintime := hguard entry hentry
  have hmem : entry ∈ s.deferred := List.mem_of_getElem? hentry
  have hsub : ∀ other ∈ s.deferred.eraseIdx index, other ∈ s.deferred := fun other hother =>
    List.mem_of_mem_eraseIdx hother
  split at hintime
  · -- in its test
    next hcurrent =>
    obtain ⟨hunderway, htimeout⟩ := h.resolve_left fun hrest => by
      rw [hrest.running] at hcurrent
      exact Bool.false_ne_true hcurrent.1
    have hfired : Underway d (s.fired index) :=
      ⟨hunderway.running, hunderway.chronicle, hunderway.reserved, hunderway.fixtures, hunderway.removed,
        fun other hother => hunderway.scheduled other (hsub other hother),
        fun hactive hcase => hunderway.resolved hactive (hcase.imp_right fun hpending => hsub _ hpending)⟩
    obtain ⟨test, call⟩ := entry
    have htest : test = s.test := hcurrent.2
    cases call with
    | beginTranscription => exact beginTranscription_inv hfired (hintime rfl)
    | beginUnload =>
      rw [htest] at hmem
      exact beginUnload_inv hfired (hunderway.resolved rfl (.inr hmem))
  · -- after all tests
    obtain ⟨story, hover, hrest⟩ := h.resolve_right fun hunderway => by
      rw [hunderway.1.running] at hintime
      exact Bool.false_ne_true hintime.1.symm
    rw [runDeferred_of_idle (s := s.fired index) hintime.1 hintime.2]
    exact .inl ⟨story, hover, hrest.running, hrest.chronicle, hrest.reserved, hrest.fixtures, hrest.removed,
      fun other hother => hrest.scheduled other (hsub other hother), nofun⟩

/-- **One callback** keeps what holds between callbacks, when a deferred call is in time. -/
theorem step_inv (s : ModelTestController) (event : ModelTestEvent) (h : Inv d s) (hguard : InTime s event) :
    Inv d (s.step d event) := by
  obtain ⟨callback, answers⟩ := event
  cases callback with
  | setBackendPreference backend flashAttention => exact setBackendPreference_inv h backend flashAttention
  | testModel modelId asked => exact testModel_inv h modelId asked
  | cancel => exact cancel_inv h
  | ready =>
    unfold step
    dsimp only
    split
    · next hphase =>
      obtain ⟨hunderway, htimeout⟩ := h.resolve_left fun hrest => by
        have hidle := hrest.running
        unfold isRunning at hidle
        rw [hphase] at hidle
        cases hidle
      by_cases hready : answers.ready = true
      · exact beginLoadingModel_inv hunderway hphase hready
      · unfold beginLoadingModel
        rw [if_pos (.inr (Bool.eq_false_iff.mpr hready))]
        exact h
    · exact h
  | signal signal => exact .inl (h.sound.signalled signal)
  | envelope envelope => exact handleEnvelope_inv h envelope
  | timeout =>
    unfold step
    dsimp only
    split
    · exact h
    · refine .inl (handleTimeout_rest ?_)
      rcases h with ⟨story, hover, h⟩ | ⟨h, -⟩
      · exact .inl ⟨story, hover, h.running, h.chronicle, h.reserved, h.fixtures, h.removed, h.scheduled, h.resolved⟩
      · exact .inr ⟨h.running, h.chronicle, h.reserved, h.fixtures, h.removed, h.scheduled, h.resolved⟩
  | deferred index =>
    unfold step
    dsimp only
    split
    · exact h
    · next entry hentry => exact deferred_inv h hentry hguard

/-! ## What a call out of time does -/

theorem cleanup_log (s : ModelTestController) : s.log <+: (s.cleanup d).log := by
  have hreleased : s.log <+: { s with timeout := none }.releaseModel.log := by
    unfold releaseModel
    split
    · exact List.prefix_append _ _
    · exact List.prefix_refl _
  unfold ModelTestController.cleanup
  dsimp only
  generalize { s with timeout := none }.releaseModel = released at hreleased
  have hclear : s.log <+: (released.removeFixture.releaseReservation d).clear.log := by
    show s.log <+: (released.removeFixture.releaseReservation d).log
    rw [(Holds.releaseReservation_kept _).1, (Holds.removeFixture_kept _).1]
    exact hreleased
  split
  · exact hclear.trans (List.prefix_append _ _)
  · exact hclear

theorem finish_log (s : ModelTestController) (success : Bool) : s.log <+: (s.finish d success).log := by
  unfold ModelTestController.finish
  split
  · exact List.prefix_refl _
  · dsimp only
    split
    · exact (cleanup_log s).trans (List.prefix_append _ _)
    · split
      · exact (cleanup_log s).trans (List.prefix_append _ _)
      · split
        · exact (cleanup_log s).trans (List.prefix_append _ _)
        · exact cleanup_log s

theorem fail_log (s : ModelTestController) (message details : QString) : s.log <+: (s.fail d message details).log := by
  unfold ModelTestController.fail
  split
  · exact List.prefix_refl _
  · exact finish_log { s with pendingFailure := message, pendingTechnicalDetails := details } false

theorem forgetModel_log (s : ModelTestController) : s.log <+: s.forgetModel.log := by
  unfold forgetModel
  dsimp only
  split
  · exact List.prefix_append _ _
  · exact List.prefix_refl _

theorem signalled_log (s : ModelTestController) (signal : WorkerSignal) : s.log <+: (s.signalled d signal).log := by
  cases signal with
  | disconnected =>
    show s.log <+: (s.handleDisconnected d).log
    unfold handleDisconnected
    dsimp only
    split
    · split
      · exact (forgetModel_log s).trans (finish_log _ _)
      · exact (forgetModel_log s).trans (fail_log _ _ _)
    · exact List.prefix_refl _
  | protocolError detail =>
    show s.log <+: (s.handleProtocolError d detail).log
    unfold handleProtocolError
    split
    · exact (forgetModel_log s).trans (fail_log _ _ _)
    · exact List.prefix_refl _

theorem interrupted_log (signals : List WorkerSignal) : ∀ s : ModelTestController, s.log <+: (s.interrupted d signals).log := by
  induction signals with
  | nil => exact fun s => List.prefix_refl _
  | cons signal rest ih => exact fun s => (signalled_log s signal).trans (ih _)

theorem abortLoadedWorker_log (s : ModelTestController) (message details : QString) (answers : WorkerAnswers) :
    s.log <+: (s.abortLoadedWorker d message details answers).log := by
  have hend : ∀ aborted : ModelTestController,
      aborted.log <+: (if aborted.isRunning then aborted.forgetModel.finish d false else aborted).log := by
    intro aborted
    split
    · exact (forgetModel_log aborted).trans (finish_log _ _)
    · exact List.prefix_refl _
  unfold ModelTestController.abortLoadedWorker
  split
  · exact List.prefix_refl _
  · dsimp only
    refine List.IsPrefix.trans ?_ (hend _)
    split
    · exact (List.prefix_append s.log _).trans (interrupted_log answers.aborting
        ({ s with pendingFailure := message, pendingTechnicalDetails := details }.emit .abortWorker))
    · exact List.prefix_refl _

theorem sendRequest_log (s : ModelTestController) (type : MessageType) (jobId : QString) (payload : QCborMap) :
    s.log ++ [(some s.test, .request type jobId payload)] <+: (s.sendRequest d type jobId payload answers).log :=
  interrupted_log answers.sending (s.emit (.request type jobId payload))

/-- With a client that is ready, `beginTranscription` asks for inference, whatever the state. -/
theorem beginTranscription_log (s : ModelTestController) (hready : answers.ready = true) :
    s.log ++ [(some s.test, .request .StartTranscription s.jobId (transcriptionPayload s.fixturePath))] <+:
      (s.beginTranscription d answers).log := by
  have hsent : s.log ++ [(some s.test, .request .StartTranscription s.jobId (transcriptionPayload s.fixturePath))] <+:
      (sendRequest d { s with phase := .Transcribing } .StartTranscription s.jobId
        (transcriptionPayload s.fixturePath) answers).log := sendRequest_log { s with phase := .Transcribing } _ _ _
  unfold beginTranscription
  rw [hready, Bool.not_true, if_neg Bool.false_ne_true]
  dsimp only
  generalize sendRequest d _ .StartTranscription _ _ answers = sent at hsent ⊢
  split
  · exact hsent.trans (fail_log { sent with requestId := answers.requestId } _ _)
  · exact hsent.trans (List.prefix_append _ _)

theorem beginUnload_log (s : ModelTestController) (hloaded : s.modelLoaded = true) (hready : answers.ready = true) :
    s.log ++ [(some s.test, .request .UnloadModel [] [])] <+: (s.beginUnload d answers).log := by
  have hsent : s.log ++ [(some s.test, .request .UnloadModel [] [])] <+:
      (sendRequest d { s with phase := .UnloadingModel, unloadAttempts := s.unloadAttempts + 1 } .UnloadModel [] []
        answers).log :=
    sendRequest_log { s with phase := .UnloadingModel, unloadAttempts := s.unloadAttempts + 1 } _ _ _
  unfold beginUnload
  rw [hready, if_neg (by rw [hloaded]; decide)]
  dsimp only
  generalize sendRequest d _ .UnloadModel _ _ answers = sent at hsent ⊢
  split
  · exact hsent.trans (abortLoadedWorker_log { sent with requestId := answers.requestId } _ _ _)
  · exact hsent

theorem finish_idle (s : ModelTestController) (success : Bool) : (s.finish d success).isRunning = false := by
  have hcleaned : (s.cleanup d).isRunning = false := by
    unfold ModelTestController.cleanup
    dsimp only
    split <;> rfl
  unfold ModelTestController.finish
  split
  · next hidle => simpa using hidle
  · dsimp only
    split
    · exact hcleaned
    · split
      · exact hcleaned
      · split <;> exact hcleaned

theorem fail_idle (s : ModelTestController) (message details : QString) : (s.fail d message details).isRunning = false := by
  unfold ModelTestController.fail
  split
  · next hidle => simpa using hidle
  · exact finish_idle _ _

/-- A deferred call that changes nothing came to an idle controller, and found no client or nothing to unload. -/
theorem runDeferred_unchanged {call : Deferred} (h : s.runDeferred d call answers = s) :
    s.isRunning = false ∧ (answers.ready = true → call = .beginUnload ∧ s.modelLoaded = false) := by
  have hshort : ∀ entry, ¬ (s.log ++ [entry] <+: (s.runDeferred d call answers).log) := by
    intro entry hlonger
    have hlength := hlonger.length_le
    rw [h, List.length_append, List.length_singleton] at hlength
    omega
  cases call with
  | beginTranscription =>
    have hready : answers.ready = false := by
      rw [Bool.eq_false_iff]
      intro hready
      exact hshort _ (beginTranscription_log s hready)
    refine ⟨?_, fun hyes => absurd (hready.symm.trans hyes) Bool.false_ne_true⟩
    have hfailed : s.runDeferred d .beginTranscription answers =
        s.fail d (qs "The ASR worker disconnected before the audio test.") := by
      show s.beginTranscription d answers = _
      unfold beginTranscription
      rw [hready]
      rfl
    rw [← h, hfailed]
    exact fail_idle _ _ _
  | beginUnload =>
    have hnothing : s.modelLoaded = false ∨ answers.ready = false := by
      by_contra hboth
      rw [not_or, Bool.not_eq_false, Bool.not_eq_false] at hboth
      exact hshort _ (beginUnload_log s hboth.1 hboth.2)
    refine ⟨?_, fun hyes => ⟨rfl, hnothing.resolve_right fun hno => Bool.false_ne_true (hno.symm.trans hyes)⟩⟩
    have hfinished : s.runDeferred d .beginUnload answers =
        s.finish d (s.inferenceSucceeded && s.pendingFailure.isEmpty && !s.cancelRequested) := by
      show s.beginUnload d answers = _
      unfold beginUnload
      rw [if_pos (by rcases hnothing with hno | hno <;> rw [hno] <;> simp)]
    rw [← h, hfinished]
    exact finish_idle _ _

/-! ## The promises -/

theorem Over.announced {story : List Milestone} (h : Over story) (hannounced : .announced ∈ story) :
    story = [.announced, .ended] := by
  rcases h with rfl | rfl | rfl
  · cases hannounced
  · exact absurd (List.mem_singleton.mp hannounced) nofun
  · rfl

theorem lifecycle_of_inv (h : Inv d s) : Lifecycle d s := by
  have hchronicle : ∃ story, Chronicle s.log s.test story ∧
      (Over story ∨ story = [.announced] ∧ s.isRunning = true) := by
    rcases h with ⟨story, hover, h⟩ | ⟨h, -⟩
    · exact ⟨story, h.chronicle, .inl hover⟩
    · exact ⟨_, h.chronicle, .inr ⟨rfl, h.running⟩⟩
  obtain ⟨story, hchronicle, hstory⟩ := hchronicle
  refine ⟨hchronicle.respected, fun test hannounced => ?_, fun hset => ?_, fun hidle => ?_, fun hrunning => ?_⟩
  · rcases Nat.lt_trichotomy test s.test with hlt | rfl | hgt
    · exact .inr ((hchronicle.past test hlt).announced hannounced)
    · rw [hchronicle.current] at hannounced ⊢
      rcases hstory with hover | ⟨hstory, hrunning⟩
      · exact .inr (hover.announced hannounced)
      · exact .inl ⟨hstory, rfl, hrunning⟩
    · rw [hchronicle.future test hgt] at hannounced
      cases hannounced
  · rcases h with ⟨story, -, h⟩ | ⟨h, -⟩
    · rw [h.reserved.1, h.running]
      rfl
    · rw [h.reserved.1, h.running, hset]
      rfl
  · obtain ⟨story, -, hrest⟩ := h.resolve_right fun hunderway => by
      rw [hunderway.1.running] at hidle
      cases hidle
    rw [hrest.fixtures, if_pos (hrest.removed rfl)]
  · obtain ⟨hunderway, htimeout⟩ := h.resolve_left fun hrest => by
      rw [hrest.running] at hrunning
      cases hrunning
    refine ⟨htimeout, fun answers => ?_⟩
    unfold step
    dsimp only
    split
    · next hnone => exact absurd (Option.isNone_iff_eq_none.mp hnone) htimeout
    · refine (handleTimeout_rest (.inr ?_)).running
      exact ⟨hunderway.running, hunderway.chronicle, hunderway.reserved, hunderway.fixtures, hunderway.removed,
        hunderway.scheduled, hunderway.resolved⟩

theorem step_deferred {index : Nat} {entry : Nat × Deferred} (hentry : s.deferred[index]? = some entry) :
    s.step d ⟨.deferred index, answers⟩ = (s.fired index).runDeferred d entry.2 answers := by
  unfold step
  dsimp only
  rw [hentry]

/-- What is promised before and after a deferred call takes the call to be in time. -/
theorem inTime_of_promises {event : ModelTestEvent} (hafter : Lifecycle d (s.step d event))
    (hharmless : StaleHarmless d s event) : InTime s event := by
  obtain ⟨callback, answers⟩ := event
  cases callback with
  | deferred index =>
    intro entry hentry
    split
    · -- inference after a cancellation breaks the first promise
      intro hcall hready hcancelled
      obtain ⟨first, hfirst, hsame, hcancel⟩ := hcancelled
      have hlog := beginTranscription_log (d := d) (s.fired index) hready
      have hpairs := hafter.cancelled
      rw [step_deferred hentry, hcall] at hpairs
      have hlast := (List.pairwise_append.mp (hpairs.sublist hlog.sublist)).2.2 first hfirst _
        (List.mem_singleton_self _)
      exact hlast ⟨hcancel, rfl, hsame.symm⟩
    · next hstale =>
      have hnothing := (hharmless entry hentry).resolve_left hstale
      rw [step_deferred hentry] at hnothing
      exact runDeferred_unchanged (s := s.fired index) hnothing
  | _ => trivial

theorem staleHarmless_of_inTime {event : ModelTestEvent} (hguard : InTime s event) : StaleHarmless d s event := by
  obtain ⟨callback, answers⟩ := event
  cases callback with
  | deferred index =>
    intro entry hentry
    have hintime := hguard entry hentry
    split at hintime
    · next hcurrent => exact .inl hcurrent
    · refine .inr ?_
      rw [step_deferred hentry]
      exact runDeferred_of_idle (s := s.fired index) hintime.1 hintime.2
  | _ => trivial

theorem inv_start (backend : QString) (flashAttention : Bool) : Inv d { backend, flashAttention } :=
  .inl ⟨[], .inl rfl, rfl, ⟨List.Pairwise.nil, rfl, nofun, fun _ _ => rfl⟩, ⟨rfl, rfl⟩, rfl, fun _ => rfl, nofun, nofun⟩

/-- **Model tests**: the runs in which every deferred call is in time are exactly those in which, in every state,
    no inference is asked for after an accepted cancellation, each announced test has one end unless it still runs,
    the worker is reserved just while a test runs, no audio file outlives its test, and in which no deferred call of
    a test that has ended does anything. -/
theorem modelTest_lifecycle (d : ModelTestDependencies) (backend : QString) (flashAttention : Bool)
    (events : List ModelTestEvent) :
    ((∀ s ∈ states (step d) { backend, flashAttention } events, Lifecycle d s) ∧
      Guarded (step d) (StaleHarmless d) { backend, flashAttention } events) ↔
    Guarded (step d) InTime { backend, flashAttention } events := by
  constructor
  · generalize ({ backend, flashAttention } : ModelTestController) = s
    rintro ⟨hall, hharmless⟩
    induction events generalizing s with
    | nil => trivial
    | cons event rest ih =>
      have hnext : ∀ other ∈ states (step d) (s.step d event) rest, Lifecycle d other := fun other hother =>
        hall other (List.mem_cons_of_mem _ hother)
      have hafter : Lifecycle d (s.step d event) := hnext _ (by cases rest <;> exact List.mem_cons_self ..)
      exact ⟨inTime_of_promises hafter hharmless.1, ih _ hnext hharmless.2⟩
  · intro hguarded
    have hstates := states_invariant step_inv (inv_start (d := d) backend flashAttention) hguarded
    exact ⟨fun s hs => lifecycle_of_inv (hstates s hs), hguarded.imp fun s event => staleHarmless_of_inTime⟩

/-- An application with one installed model. -/
def oneModel : ModelTestDependencies where
  modelPath := fun _ => qs "model.bin"
  expectedSha256 := fun _ => List.replicate 64 0x61
  temporaryDirectory := qs "/tmp"

def reply (type : MessageType) (requestId : QString) (jobId : QString := []) : ModelTestCallback :=
  .envelope { type, requestId, jobId }

/-- A test from its beginning to its end is in time. -/
example : Guarded (step oneModel) InTime {}
    [⟨.testModel (qs "m") {}, { requestId := qs "1" }⟩, ⟨reply .ModelLoaded (qs "1"), {}⟩,
      ⟨.deferred 0, { requestId := qs "2" }⟩, ⟨reply .TranscriptionCompleted (qs "2") (qs "model-test-"), {}⟩,
      ⟨.deferred 0, { requestId := qs "3" }⟩, ⟨reply .UnloadModel (qs "3"), {}⟩] := by
  decide

/-- A test is cancelled between the reply to `LoadModel` and the call that goes on with it. -/
def cancelledBetween : List ModelTestEvent :=
  [⟨.testModel (qs "m") {}, { requestId := qs "1" }⟩, ⟨reply .ModelLoaded (qs "1"), {}⟩, ⟨.cancel, {}⟩,
    ⟨.deferred 0, { requestId := qs "2" }⟩]

/-- The worker refuses to unload the model and stops, and the next test begins before the next attempt. -/
def unloadedLate : List ModelTestEvent :=
  [⟨.testModel (qs "m") {}, { requestId := qs "1" }⟩, ⟨reply .ModelLoaded (qs "1"), {}⟩,
    ⟨.deferred 0, { requestId := qs "2" }⟩, ⟨reply .TranscriptionCompleted (qs "2") (qs "model-test-"), {}⟩,
    ⟨.deferred 0, { requestId := qs "3" }⟩, ⟨reply .Error (qs "3"), {}⟩, ⟨.signal .disconnected, {}⟩,
    ⟨.testModel (qs "m") {}, { ready := false }⟩, ⟨.deferred 0, { ready := false }⟩]

/-- Inference begins after an accepted cancellation; and a test ends without a word. -/
theorem modelTest_outOfTime :
    (¬ (run (step oneModel) {} cancelledBetween).log.Pairwise
      fun earlier later => ¬ StartsCancelled earlier later) ∧
    milestones 2 (run (step oneModel) {} unloadedLate).log = [.announced] ∧
      (run (step oneModel) {} unloadedLate).isRunning = false := by
  decide

end BreezeDesk.ModelTest
