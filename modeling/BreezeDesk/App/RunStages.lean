/-
  The stages of a run keep the invariant.

  A stage begins with a run that is at some place (`Going`), and ends with the invariant: it has left something
  behind that goes on, or it has begun to end the run.  What it does in between keeps the run where it is
  (`ensures_plain`, `ensures_advanceOrReturn`, `ensures_requireRecording`), or takes it to another place.
-/
import BreezeDesk.App.RunPlaces

namespace BreezeDesk.TranscriptionCoordinator

open App Effect Ipc Worker

variable {w : World} {α : Type} {moment : Moment} {φ ψ : Place → Prop} {E S : Coordinator → Prop}

/-- Where a stage may begin that comes before the plan. -/
def Place.Unstarted (p : Place) : Prop := p.Idle ∧ p.current = none

def Place.Prepares (p : Place) : Prop := p.Idle ∧ p.current = none ∧ p.state ≠ .waitingForModel

def Place.Planned (p : Place) : Prop := p.Idle ∧ p.current = none ∧ p.plan ≠ []

def Place.AtBoundary (p : Place) : Prop := p.Idle ∧ Between p.chunks p.current ∧ p.plan ≠ []

def Place.AtChunk (p : Place) : Prop := p.Idle ∧ InChunk p.chunks p.current ∧ p.plan ≠ []

/-- All chunks are committed. -/
def Place.Complete (p : Place) : Prop := p.Idle ∧ p.plan ≠ [] ∧ p.commits = openIds p.plan

/-- The place that a download of the model would come back to. -/
def Place.Resumes (continuation : VadModelContinuation) (p : Place) : Prop :=
  p.Idle ∧ CallbackFits p.plan p.chunks p.current p.state (.vadDownloadFinished 0 [] [] continuation)

section Stages

variable (hw : w.Fresh)
include hw

/-! ## On the way -/

theorem ensures_failAndReturn {Q : α → Coordinator → Prop} (code : String) (message : QString) :
    Ensures (Sound w) (failAndReturn w code message) Q E (Sound w) :=
  ensures_bind (keeps_failActiveJob hw _ message) fun _ => ensures_stop fun _ h => h

omit hw in
theorem ensures_askGoing {question : Nat → α} :
    Ensures (Going w moment φ) (ask question) (fun _ => Going w moment φ) E S :=
  ensures_ask fun _ h _ => h.asked

omit hw in
/-- A plain write leaves the run where it is. -/
theorem ensures_plain {change : Write} (hmoment : moment ≠ .ended) (hplain : change.plain = true) :
    Ensures (Going w moment φ) (write w change) (fun _ => Going w moment φ) E S :=
  ensures_bind ensures_askGoing fun _ =>
    ensures_bind (Q := fun _ => Going w moment φ) (ensures_update fun _ h => h.wrote hmoment hplain) fun _ =>
      ensures_pure fun _ h => h

/-- A plain write after which the job goes on, or fails. -/
theorem ensures_writeOrFail {change : Write} (hplain : change.plain = true) :
    Ensures (Going w .between φ) (writeOrFail w change) (fun _ => Going w .between φ) E (Sound w) := by
  refine ensures_bind (ensures_plain (fun hmoment => by cases hmoment) hplain) fun refused => ?_
  cases refused with
  | none => exact ensures_pure fun _ h => h
  | some error => exact (ensures_failAndReturn hw _ _).pre fun _ h => h.sound

/-- Progress that is not saved ends the run. -/
theorem ensures_advanceProgress (hmoment : moment ≠ .ended) (stage : JobStage) (fraction : Rat)
    (lastCompletedChunk : Int) :
    Ensures (Going w moment φ) (advanceProgress w stage fraction lastCompletedChunk)
      (fun saved s => (saved = true → Going w moment φ s) ∧ (saved = false → Sound w s)) E S := by
  unfold advanceProgress
  refine ensures_start fun a ha => ?_
  refine ensures_ite (fun hnone => absurd hnone ha.active) fun _ => ?_
  refine ensures_bind (ensures_here ha (ensures_plain hmoment rfl)) fun refused => ?_
  cases refused with
  | none =>
    refine ensures_bind (Q := fun _ => Going w moment φ) (ensures_update fun s h => ?_) fun _ =>
      ensures_pure fun s h => ⟨fun _ => h, fun hno => by cases hno⟩
    exact ⟨{ h.sound with }, h.active, h.undecided, h.place⟩
  | some error =>
    have hover : Ensures (Sound w) (pure false : Task Bool)
        (fun saved s => (saved = true → Going w moment φ s) ∧ (saved = false → Sound w s)) E S :=
      ensures_pure fun s h => ⟨fun hno => (by cases hno), fun _ => h⟩
    refine ensures_ite (fun _ => ?_) fun _ => ?_
    · exact ensures_bind ((ensures_abandon hw _).pre fun _ h => h.sound.nearly hmoment) fun _ => hover
    · exact ensures_bind ((ensures_failActiveJob hw _ _).pre fun _ h => h.sound.nearly hmoment) fun _ => hover

theorem ensures_advanceOrReturn (stage : JobStage) (fraction : Rat) (lastCompletedChunk : Int) :
    Ensures (Going w .between φ) (advanceOrReturn w stage fraction lastCompletedChunk) (fun _ => Going w .between φ) E
      (Sound w) := by
  refine ensures_bind (ensures_advanceProgress hw (fun hmoment => by cases hmoment) _ _ _) fun saved => ?_
  cases saved with
  | true => exact ensures_pure fun _ h => h.1 rfl
  | false => exact ensures_stop fun _ h => h.2 rfl

/-- A transition on the way changes the place of the run only in the state of the job. -/
theorem ensures_enterState {state : JobState} (hstate : isStopped state = false)
    (hplace : ∀ p : Place, φ p → ψ { p with state } ∧
      (state = .waitingForModel → p.plan ≠ [] ∧ p.carried = 0)) :
    Ensures (Going w .between φ) (enterState w state) (fun _ => Going w .between ψ) E (Sound w) := by
  refine ensures_bind (ensures_plain (fun hmoment => by cases hmoment)
    (by show (!isStopped state) = true; rw [hstate]; rfl)) fun refused => ?_
  cases refused with
  | some error => exact (ensures_failAndReturn hw _ _).pre fun _ h => h.sound
  | none =>
    refine ensures_update fun s h => ?_
    obtain ⟨hψ, hwaiting⟩ := hplace _ h.place
    refine ⟨{ h.sound with
      tokens := { h.sound.tokens with callback := fun callback hmem hcarries => ?_ }
      cursor := { h.sound.cursor with waiting := fun hsame => (hwaiting hsame).1 } }, h.active, h.undecided, hψ⟩
    by_cases hsame : state = .waitingForModel
    · exact absurd ((carried_none (hwaiting hsame).2 callback hmem).symm.trans hcarries) Bool.false_ne_true
    · exact (h.sound.tokens.callback callback hmem hcarries).entered hsame

/-- A transition that leaves the run where it is. -/
theorem ensures_passState {state : JobState} (hstate : isStopped state = false) (hnot : state ≠ .waitingForModel)
    (hplace : ∀ p : Place, φ p → φ { p with state }) :
    Ensures (Going w .between φ) (enterState w state) (fun _ => Going w .between φ) E (Sound w) :=
  ensures_enterState hw hstate fun p h => ⟨hplace p h, fun hsame => absurd hsame hnot⟩

theorem ensures_requireRecording {code : String} {gone : QString} {broken : UserFacingError → QString} :
    Ensures (Going w .between φ) (requireRecording w code gone broken) (fun _ => Going w .between φ) E (Sound w) := by
  refine ensures_bind ensures_askGoing fun answer => ?_
  cases answer with
  | error error => exact (ensures_failAndReturn hw _ _).pre fun _ h => h.sound
  | ok recording =>
    cases recording with
    | none => exact (ensures_failAndReturn hw _ _).pre fun _ h => h.sound
    | some recording => exact ensures_pure fun _ h => h

/-! ## Leaving something behind -/

omit hw in
/-- A callback is left behind, and the handler is done. -/
theorem ensures_postOnward {callback : Callback} :
    Ensures (fun s => Going w .between (·.Idle) s ∧ Onward callback s) (post callback) (fun _ => Sound w) E S :=
  ensures_update fun _ h => h.1.posted h.1.place h.2 fun hsome => absurd (h.1.no_waveform h.1.place) hsome

omit hw in
theorem ensures_sendRequest {P : Coordinator → Prop} {Q : QString → Coordinator → Prop} {kind : RequestKind}
    (hdown : ∀ s, P s → s.worker.ready = false → Q [] s)
    (hup : ∀ s, P s → s.worker.ready = true → Q (w.uuid s.drawn)
      { s with drawn := s.drawn + 1, worker := { s.worker with
        serving := if kind.usesRuntime then s.worker.serving ++ [w.uuid s.drawn] else s.worker.serving } }) :
    Ensures P (sendRequest w kind) Q E S where
  done s hs id s' hrun := by
    unfold sendRequest at hrun
    split at hrun
    · cases hrun
      exact hdown s hs ‹_›
    · cases hrun
      exact hup s hs (by simpa using ‹¬ s.worker.ready = false›)
  failed s _ e s' hrun := by
    unfold sendRequest at hrun
    split at hrun <;> cases hrun
  stopped s _ s' hrun := by
    unfold sendRequest at hrun
    split at hrun <;> cases hrun

/-- A request is sent, or the job fails. -/
theorem ensures_request (kind : RequestKind) (message : String) :
    Ensures (Going w .between fun p => p.Idle ∧ p.Fits kind) (request w kind message)
      (fun _ => Going w .between fun p => p.requestId ≠ []) E (Sound w) := by
  unfold request
  refine ensures_from fun a ha => ?_
  refine ensures_bind (Q := fun _ s => s = { a with requestKind := kind })
    (ensures_update fun s hs => by rw [hs]) fun _ => ?_
  have hsend : Ensures (fun s => s = { a with requestKind := kind }) (sendRequest w kind)
      (fun requestId s => (requestId = [] ∧ Sound w { s with requestId }) ∨
        (Going w .between (fun p => p.requestId ≠ []) { s with requestId })) E (Sound w) := by
    refine ensures_sendRequest (fun s hs _ => Or.inl ⟨rfl, ?_⟩) fun s hs hready => Or.inr ?_
    · subst hs
      exact ha.unsent ha.place.1 _
    · subst hs
      exact ⟨ha.sent hw ha.place.1 ha.place.2 hready, ha.active, ha.undecided, hw.ne_nil _⟩
  refine ensures_bind hsend fun requestId => ?_
  refine ensures_bind (Q := fun _ s =>
    (requestId = [] ∧ Sound w s) ∨ Going w .between (fun p => p.requestId ≠ []) s) (ensures_update fun s h => h)
    fun _ => ?_
  refine ensures_ite (fun hnone => ?_) fun hsome => ?_
  · exact (ensures_failAndReturn hw _ _).pre fun s h => h.elim (fun h => h.2) fun h => h.sound
  · exact ensures_pure fun s h => h.resolve_left fun hnone => hsome hnone.1

/-! ## The model of the speech detection -/

theorem ensures_appendVadModelEvent (eventType message : String) :
    Ensures (Going w .between φ) (appendVadModelEvent w eventType message)
      (fun saved s => (saved = true → Going w .between φ s) ∧ (saved = false → Sound w s)) E S := by
  unfold appendVadModelEvent
  refine ensures_start fun a ha => ?_
  refine ensures_ite (fun hnone => absurd hnone ha.active) fun _ => ?_
  refine ensures_bind (ensures_here ha (ensures_plain (fun hmoment => by cases hmoment) rfl)) fun refused => ?_
  cases refused with
  | none => exact ensures_pure fun s h => ⟨fun _ => h, fun hno => by cases hno⟩
  | some error =>
    have hover : Ensures (Sound w) (pure false : Task Bool)
        (fun saved s => (saved = true → Going w .between φ s) ∧ (saved = false → Sound w s)) E S :=
      ensures_pure fun s h => ⟨fun hno => (by cases hno), fun _ => h⟩
    refine ensures_ite (fun _ => ?_) fun _ => ?_
    · exact ensures_bind ((keeps_abandon hw _).pre fun _ h => h.sound) fun _ => hover
    · exact ensures_bind ((keeps_failActiveJob hw _ _).pre fun _ h => h.sound) fun _ => hover

/-- The model is there, or the handler is done: it is downloaded first, or the run ends. -/
theorem ensures_vadModelAvailable {continuation : VadModelContinuation} (forceDownload : Bool)
    (hplace : ∀ p, φ p → p.Resumes continuation) :
    Ensures (Going w .between φ) (ensureVadModelAvailable w continuation forceDownload)
      (fun _ => Going w .between φ) E (Sound w) := by
  unfold ensureVadModelAvailable
  refine ensures_start fun a ha => ?_
  refine ensures_ite (fun _ => ensures_stop fun s hs => hs ▸ ha.sound) fun _ => ?_
  -- whom the callback is for is read at the beginning
  let ψ (p : Place) : Prop := φ p ∧ p.jobId = a.activeJob.id ∧ p.ownerToken = a.ownerToken
  have hstart : Going w .between ψ a := ha.imp fun h => ⟨h, rfl, rfl⟩
  refine ensures_bind (ensures_here hstart ensures_askGoing) fun present => ?_
  refine ensures_ite (fun _ => ensures_pure fun _ h => h.imp (·.1)) fun _ => ?_
  refine ensures_bind ensures_askGoing fun verified => ?_
  refine ensures_ite (fun _ => ensures_update fun s h => ?_) fun _ => ?_
  · exact ⟨{ h.sound with }, h.active, h.undecided, h.place.1⟩
  refine ensures_ite (fun _ => ensures_stop fun _ h => h.sound) fun _ => ?_
  refine ensures_bind ensures_askGoing fun download => ?_
  cases download with
  | none => exact (ensures_failAndReturn hw _ _).pre fun _ h => h.sound
  | some operation =>
    refine ensures_bind (Q := fun _ => Going w .between ψ) (ensures_update fun s h => ?_) fun _ => ?_
    · exact ⟨{ h.sound with }, h.active, h.undecided, h.place⟩
    refine ensures_bind (ensures_appendVadModelEvent hw _ _) fun appended => ?_
    refine ensures_ite (fun happended => ?_) fun hfailed => ensures_stop fun s h => h.2 (by simpa using hfailed)
    refine ensures_bind (Q := fun _ => Going w .between ψ) (ensures_update fun s h => ?_) fun _ => ?_
    · have hgoing := h.1 happended
      exact hgoing.disconnected (hplace _ hgoing.place.1).1
    · refine ensures_bind (Q := fun _ => Sound w) (ensures_postOnward.pre fun s h => ?_) fun _ =>
        ensures_stop fun _ h => h
      obtain ⟨hφ, hjob, howner⟩ := h.place
      obtain ⟨hidle, hfits⟩ := hplace _ hφ
      have hjob' : s.activeJob.id = a.activeJob.id := hjob
      have howner' : s.ownerToken = a.ownerToken := howner
      refine ⟨h.imp fun _ => hidle, by rw [howner']; rfl, ?_, ?_, fun _ _ _ hsame => by cases hsame⟩
      · rw [hjob', howner']
        simp [carries, ha.active]
      · cases continuation <;> exact hfits

/-! ## Transcribing -/

omit hw in
/-- The last write of a run that is complete. -/
theorem ensures_completeAndActivate :
    Ensures (Going w .between Place.Complete) (write w .completeAndActivate)
      (fun refused s => (refused = none → SoundBut w .ended s ∧ s.worker.serving = []) ∧
        (refused ≠ none → Sound w s)) E S := by
  refine ensures_bind ensures_askGoing fun refused => ?_
  refine ensures_bind (Q := fun _ s =>
    SoundBut w ((Act.write .completeAndActivate refused.isNone).leaves .between) s ∧ s.worker.serving = [])
    (ensures_update fun s h => ⟨?_, h.quiet h.place.1⟩) fun _ => ensures_pure fun s h => ?_
  · have hpermitted : Permitted (.write .completeAndActivate refused.isNone) s :=
      h.permitted rfl fun _ => h.place.2
    exact h.sound.noted (fun hmoment => by cases hmoment) hpermitted (fun chunks hplan => by cases hplan)
      (by cases refused.isNone <;> rfl)
  · cases refused with
    | none => exact ⟨fun _ => h, fun hno => absurd rfl hno⟩
    | some error => exact ⟨fun hno => (by cases hno), fun _ => h.1⟩

/-- **The run is complete**, unless a cancellation overtakes it. -/
theorem ensures_completeActiveJob :
    Ensures (Going w .between Place.Complete) (completeActiveJob w) (fun _ => Sound w) E (Sound w) := by
  unfold completeActiveJob
  have hwins : Ensures (Going w .between Place.Complete) (durableCancellationWins w)
      (fun _ => Going w .between Place.Complete) E (Sound w) :=
    ensures_durableCancellationWins (fun _ h => h.asked) fun _ h =>
      ⟨h.sound.cancelling, h.active, h.undecided, h.place⟩
  have hfinish : Ensures (Sound w) (finishCancellation w) (fun _ => Sound w) E (Sound w) :=
    (ensures_finishCancellation hw).pre fun _ h => Sound.nearly h
  -- an error means that a cancellation came first, or that the job fails
  have hrefused : ∀ code message, Ensures (Sound w)
      (do if ← durableCancellationWins w then finishCancellation w else failActiveJob w code message)
      (fun _ => Sound w) E (Sound w) := fun code message =>
    ensures_bind (ensures_durableCancellationWins (fun _ h => SoundBut.asked h) fun _ h => SoundBut.cancelling h)
      fun _ => ensures_ite (fun _ => hfinish) fun _ => keeps_failActiveJob hw code message
  refine ensures_bind hwins fun wins => ?_
  refine ensures_ite (fun _ => hfinish.pre fun _ h => h.sound) fun _ => ?_
  refine ensures_bind (ensures_plain (fun hmoment => by cases hmoment) rfl) fun refused => ?_
  cases refused with
  | some error => exact (hrefused _ _).pre fun _ h => h.sound
  | none =>
    refine ensures_bind (Q := fun _ => Going w .between Place.Complete) (ensures_update fun s h => ?_) fun _ => ?_
    · exact ⟨h.sound.entered fun hstate => (by cases hstate), h.active, h.undecided, h.place⟩
    refine ensures_start fun a ha => ?_
    refine ensures_bind (ensures_here ha (ensures_advanceOrReturn hw _ _ _)) fun _ => ?_
    refine ensures_bind ensures_completeAndActivate fun refused => ?_
    cases refused with
    | some error => exact (hrefused _ _).pre fun _ h => h.2 fun hno => by cases hno
    | none => exact (ensures_leaveJob hw keeps_postScheduleNext).pre fun _ h => h.1 rfl

/-- **The current chunk** goes to the worker. -/
theorem ensures_transcribeCurrentChunk :
    Ensures (Going w .between Place.AtChunk) (transcribeCurrentChunk w) (fun _ => Sound w) E (Sound w) := by
  unfold transcribeCurrentChunk
  refine ensures_start fun a ha => ?_
  refine ensures_here ha (ensures_ite (fun _ => ?_) fun _ => ?_)
  · exact (ensures_finishCancellation hw).pre fun _ h => Sound.nearly h.sound
  cases a.currentChunkIndex with
  | none => exact (ensures_failAndReturn hw _ _).pre fun _ h => h.sound
  | some index =>
    refine ensures_ite (fun _ => (ensures_failAndReturn hw _ _).pre fun _ h => h.sound) fun _ => ?_
    refine ensures_bind (Q := fun _ => Going w .between Place.AtChunk) (ensures_onlyIf
      (fun _ => ensures_vadModelAvailable hw false fun p h => ⟨h.1, h.2⟩) fun _ h => h) fun _ => ?_
    refine ensures_bind ensures_askGoing fun existing => ?_
    refine ensures_bind (Q := fun _ => Going w .between Place.AtChunk) (ensures_update fun s h =>
      ⟨{ h.sound with }, h.active, h.undecided, h.place⟩) fun _ => ?_
    refine ensures_bind ((ensures_request hw .TranscribeChunk _).pre fun s h => h.imp fun hplace =>
      ⟨hplace.1, Or.inr hplace.2.1, hplace.2.2⟩) fun _ => ?_
    refine ensures_start fun b hb => ensures_here hb ?_
    exact (ensures_advanceOrReturn hw _ _ _).imp (fun _ h => h) (fun _ _ h => h.sound) (fun _ h => h) fun _ h => h

/-- **The next open chunk** is begun; without one, the run is complete. -/
theorem ensures_startNextChunk :
    Ensures (Going w .between Place.AtBoundary) (startNextChunk w) (fun _ => Sound w) E (Sound w) := by
  unfold startNextChunk
  refine ensures_start fun a ha => ?_
  refine ensures_here ha (ensures_ite (fun _ => ?_) fun _ => ?_)
  · exact (ensures_finishCancellation hw).pre fun _ h => Sound.nearly h.sound
  refine ensures_bind (Q := fun _ => Going w .between Place.AtBoundary) (ensures_onlyIf
    (fun _ => ensures_vadModelAvailable hw false fun p h => ⟨h.1, h.2⟩) fun _ h => h) fun _ => ?_
  refine ensures_start fun b hb => ?_
  dsimp only
  cases hnext : b.chunks[nextOpen b.chunks (following b.currentChunkIndex)]? with
  | none =>
    refine ensures_here ?_ (ensures_completeActiveJob hw)
    exact hb.imp fun h => ⟨h.1, h.2.2, hb.all_done h.2.1 hnext⟩
  | some chunk =>
    refine ensures_bind (Q := fun _ s => s = { b with calls := b.calls + 1 }) (ensures_ask fun s hs _ => by rw [hs])
      fun now => ?_
    refine ensures_bind (Q := fun _ => Going w .between Place.AtChunk) (ensures_update fun s hs => ?_) fun _ => ?_
    · subst hs
      have hstarted : Going w .between Place.AtBoundary { b with calls := b.calls + 1 } := hb.asked
      obtain ⟨hlt, -⟩ := List.getElem?_eq_some_iff.mp hnext
      refine ⟨hstarted.started hb.place.1 hb.place.2.1 hnext rfl fun hrunning => (by cases hrunning), hb.active,
        hb.undecided, hb.place.1, ⟨_, _, rfl, List.getElem?_set_self hlt, fun hrunning => by cases hrunning⟩,
        hb.place.2.2⟩
    · exact ensures_bind (ensures_writeOrFail hw rfl) fun _ => ensures_transcribeCurrentChunk hw

/-! ## Loading the model -/

omit hw in
theorem ensures_persistLoadedRuntimeInfo (model : LoadedModel) :
    Ensures (Going w .between φ) (persistLoadedRuntimeInfo w model) (fun _ => Going w .between φ) E S := by
  refine ensures_ite (fun _ => ensures_pure fun _ h => h) fun _ => ?_
  refine ensures_bind (ensures_plain (fun hmoment => by cases hmoment) rfl) fun refused => ?_
  cases refused with
  | some error => exact ensures_pure fun _ h => h
  | none =>
    refine ensures_bind (Q := fun _ => Going w .between φ) (ensures_update fun s h => ?_) fun _ =>
      ensures_pure fun _ h => h
    exact ⟨{ h.sound with }, h.active, h.undecided, h.place⟩

/-- The model is loaded: the first chunk is next. -/
theorem ensures_beginTranscribing :
    Ensures (Going w .between Place.Planned) (do enterState w .transcribing; startNextChunk w) (fun _ => Sound w) E
      (Sound w) := by
  refine ensures_bind (ensures_passState hw rfl (fun hstate => by cases hstate) fun p h => h) fun _ => ?_
  exact (ensures_startNextChunk hw).pre fun s h => h.imp fun hplace =>
    ⟨hplace.1, fun index hindex => (by rw [hplace.2.1] at hindex; cases hindex), hplace.2.2⟩

theorem ensures_loadModel :
    Ensures (Going w .between Place.Planned) (loadModel w) (fun _ => Sound w) E (Sound w) := by
  unfold loadModel
  refine ensures_start fun a ha => ?_
  refine ensures_bind (ensures_here ha ensures_askGoing) fun present => ?_
  refine ensures_ite (fun _ => (ensures_failAndReturn hw _ _).pre fun _ h => h.sound) fun _ => ?_
  refine ensures_ite (fun _ => (ensures_failAndReturn hw _ _).pre fun _ h => h.sound) fun _ => ?_
  refine ensures_bind (ensures_passState hw rfl (fun hstate => by cases hstate) fun p h => h) fun _ => ?_
  refine ensures_bind (ensures_advanceOrReturn hw _ _ _) fun _ => ensures_start fun b hb => ensures_here hb ?_
  cases modelIsLoaded w b with
  | some model =>
    refine ensures_bind (ensures_persistLoadedRuntimeInfo model) fun failed => ?_
    cases failed with
    | some error => exact (ensures_failAndReturn hw _ _).pre fun _ h => h.sound
    | none => exact ensures_beginTranscribing hw
  | none =>
    exact ((ensures_request hw .LoadModel _).pre fun s h => h.imp fun hplace => ⟨hplace.1, hplace.2⟩).imp
      (fun _ h => h) (fun _ _ h => h.sound) (fun _ h => h) fun _ h => h

/-! ## Preparing -/

theorem ensures_analyzeSpeech :
    Ensures (Going w .between Place.Unstarted) (analyzeSpeech w) (fun _ => Sound w) E (Sound w) := by
  unfold analyzeSpeech
  refine ensures_start fun a ha => ensures_here ha ?_
  refine ensures_ite (fun _ => ensures_pure fun _ h => h.sound) fun _ => ?_
  refine ensures_bind (ensures_vadModelAvailable hw false fun p h => h) fun _ => ?_
  exact ((ensures_request hw .AnalyzeSpeech _).pre fun s h => h).imp (fun _ h => h) (fun _ _ h => h.sound)
    (fun _ h => h) fun _ h => h

omit hw in
/-- A callback is left behind for the job and the run that its values were read from. -/
theorem ensures_postFor {callback : Callback} {job owner : QString} (htoken : callback.ownerToken? = some owner)
    (hcarries : job ≠ [] → carries job owner callback = true)
    (hfits : ∀ p : Place, φ p → p.Idle ∧ CallbackFits p.plan p.chunks p.current p.state callback)
    (hoperation : ∀ operation jobId ownerToken, callback ≠ .normalizationFinished operation jobId ownerToken) :
    Ensures (Going w .between fun p => φ p ∧ p.jobId = job ∧ p.ownerToken = owner) (post callback)
      (fun _ => Sound w) E S := by
  refine ensures_postOnward.pre fun s h => ?_
  obtain ⟨hφ, hjob, howner⟩ := h.place
  obtain ⟨hidle, hcallback⟩ := hfits _ hφ
  refine ⟨h.imp fun _ => hidle, htoken.trans (congrArg some howner.symm), ?_, hcallback,
    fun _ _ _ hsame => absurd hsame (hoperation _ _ _)⟩
  have hactive : job ≠ [] := fun hnone => h.active (hjob.trans hnone)
  rw [← hcarries hactive, ← hjob, ← howner]
  rfl

theorem ensures_continuePreparingJob :
    Ensures (Going w .between Place.Unstarted) (continuePreparingJob w) (fun _ => Sound w) E (Sound w) := by
  unfold continuePreparingJob
  refine ensures_start fun a ha => ?_
  refine ensures_ite (fun _ => ensures_pure fun s hs => hs ▸ ha.sound) fun hstate => ?_
  have hprepares : Going w .between Place.Prepares a := ha.imp fun h =>
    ⟨h.1, h.2, fun hwaiting => hstate fun hsame => by cases hsame.symm.trans hwaiting⟩
  refine ensures_bind (ensures_here hprepares (ensures_advanceOrReturn hw _ _ _)) fun _ => ?_
  refine ensures_bind (ensures_requireRecording hw) fun recording => ?_
  refine ensures_bind ensures_askGoing fun managed => ?_
  refine ensures_bind (Q := fun _ => Going w .between Place.Prepares) (ensures_update fun s h =>
    ⟨{ h.sound with }, h.active, h.undecided, h.place⟩) fun _ => ?_
  refine ensures_bind ensures_askGoing fun present => ?_
  refine ensures_ite (fun _ => (ensures_failAndReturn hw _ _).pre fun _ h => h.sound) fun _ => ?_
  refine ensures_start fun b hb => ensures_here (P := Going w .between fun p => p.Prepares ∧
    p.jobId = b.activeJob.id ∧ p.ownerToken = b.ownerToken) (hb.imp fun h => ⟨h, rfl, rfl⟩) ?_
  exact ensures_postFor rfl (fun hactive => by simp [carries, hactive]) (fun p h => ⟨h.1, h.2⟩)
    fun _ _ _ hsame => by cases hsame

/-- The stages that wait for the worker. -/
theorem ensures_continueAfterWorkerPreflight :
    Ensures (Going w .between Place.Unstarted) (continueAfterWorkerPreflight w) (fun _ => Sound w) E (Sound w) := by
  unfold continueAfterWorkerPreflight
  refine ensures_start fun a ha => ?_
  refine ensures_ite (fun _ => ensures_pure fun s hs => hs ▸ ha.sound) fun _ => ?_
  refine ensures_ite (fun _ => (ensures_finishCancellation hw).pre fun s hs => hs ▸ Sound.nearly ha.sound) fun _ => ?_
  refine ensures_ite (fun _ => (keeps_failActiveJob hw _ _).pre fun s hs => hs ▸ ha.sound) fun _ => ?_
  refine ensures_ite (fun _ => ensures_pure fun s hs => hs ▸ ha.sound) fun _ => ?_
  cases hstate : a.activeJob.state with
  | preparing => exact ensures_here ha (ensures_continuePreparingJob hw)
  | analyzingSpeech => exact ensures_here ha (ensures_analyzeSpeech hw)
  | waitingForModel =>
    refine ensures_here ?_ (ensures_loadModel hw)
    exact ha.imp fun h => ⟨h.1, h.2, ha.sound.cursor.waiting hstate⟩
  | _ => exact ensures_pure fun s hs => hs ▸ ha.sound

theorem ensures_requestWorkerCapabilities :
    Ensures (Going w .between Place.Unstarted) (requestWorkerCapabilities w) (fun _ => Sound w) E (Sound w) := by
  unfold requestWorkerCapabilities
  refine ensures_start fun a ha => ensures_here ha ?_
  refine ensures_ite (fun _ => ensures_pure fun _ h => h.sound) fun _ => ?_
  refine ensures_bind ((ensures_request hw .GetCapabilities _).pre fun s h => h) fun _ => ?_
  refine ensures_start fun b hb => ensures_postAside.pre fun s hs => ?_
  subst hs
  refine ⟨hb.sound, fun token htoken => ?_, rfl, fun _ _ _ hsame => by cases hsame⟩
  obtain rfl := Option.some.inj htoken
  exact hb.sound.names.owner (hb.sound.names.job hb.active)

omit hw in
theorem ensures_startWorker (hplace : ∀ p : Place, φ p → φ { p with serving := [] }) :
    Ensures (Going w .between φ) (startWorker w) (fun _ => Going w .between φ) E S := by
  unfold startWorker
  refine ensures_start fun a ha => ensures_here ha ?_
  refine ensures_ite (fun _ => ensures_pure fun _ h => h) fun _ => ?_
  refine ensures_bind ensures_askGoing fun starts => ?_
  cases starts with
  | ok =>
    refine ensures_bind (Q := fun _ => Going w .between φ) (ensures_update fun s h => ?_) fun _ =>
      ensures_pure fun _ h => h
    exact ⟨h.sound.workerStarted, h.active, h.undecided, hplace _ h.place⟩
  | error failure =>
    refine ensures_bind (Q := fun _ => Going w .between φ) (ensures_onlyIf (fun _ => ensures_update fun s h => ?_)
      fun _ h => h) fun _ => ensures_pure fun _ h => h
    exact ⟨h.sound.workerTried, h.active, h.undecided, h.place⟩

/-- **Waiting for the worker**, for the run that asked for it. -/
theorem ensures_ensureWorkerReady (jobId : QString) (attempt : Nat) (ownerToken : QString) :
    Ensures (Going w .between fun p => p.Unstarted ∧ p.ownerToken = ownerToken)
      (ensureWorkerReady w jobId attempt ownerToken) (fun _ => Sound w) E (Sound w) := by
  unfold ensureWorkerReady
  refine ensures_start fun a ha => ?_
  refine ensures_ite (fun _ => ensures_pure fun s hs => hs ▸ ha.sound) fun hmatches => ?_
  have hjob : a.activeJob.id = jobId := by
    unfold activeJobMatches at hmatches
    simp only [Bool.not_eq_false, Bool.and_eq_true, decide_eq_true_eq] at hmatches
    exact hmatches.1.2
  refine ensures_here (P := Going w .between fun p => p.Unstarted ∧ p.jobId = jobId ∧ p.ownerToken = ownerToken)
    (ha.imp fun h => ⟨h.1, hjob, h.2⟩) ?_
  refine ensures_ite (fun _ => (ensures_finishCancellation hw).pre fun s h => Sound.nearly h.sound) fun _ => ?_
  refine ensures_ite (fun _ => ensures_ite (fun _ => ?_) fun _ => ?_) fun _ => ?_
  · exact (ensures_requestWorkerCapabilities hw).pre fun s h => h.imp (·.1)
  · exact (ensures_continueAfterWorkerPreflight hw).pre fun s h => h.imp (·.1)
  refine ensures_ite (fun _ => (keeps_failActiveJob hw _ _).pre fun s h => h.sound) fun _ => ?_
  refine ensures_bind (ensures_ite (fun _ => ensures_startWorker fun p h => h) fun _ => ensures_pure fun _ h => h) fun failed => ?_
  cases failed with
  | some lastError => exact (keeps_failActiveJob hw _ _).pre fun s h => h.sound
  | none =>
    exact ensures_postFor rfl (fun hactive => by simp [carries, hactive]) (fun p h => h) fun _ _ _ hsame => by
      cases hsame

theorem ensures_awaitWorkerReady :
    Ensures (Going w .between Place.Unstarted) (awaitWorkerReady w) (fun _ => Sound w) E (Sound w) := by
  refine ensures_start fun a ha => ?_
  exact ensures_here (ha.imp fun h => ⟨h, rfl⟩) (ensures_ensureWorkerReady hw a.activeJob.id 0 a.ownerToken)

theorem ensures_beginWaitingForModel :
    Ensures (Going w .between Place.Planned) (beginWaitingForModel w) (fun _ => Sound w) E (Sound w) := by
  have henter : Ensures (Going w .between Place.Planned) (enterState w .waitingForModel)
      (fun _ => Going w .between Place.Planned) E (Sound w) :=
    ensures_enterState hw rfl fun p h => ⟨h, fun _ => ⟨h.2.2, h.1.2⟩⟩
  refine ensures_bind henter fun _ => ?_
  refine ensures_bind (ensures_advanceOrReturn hw _ _ _) fun _ => ?_
  exact (ensures_awaitWorkerReady hw).pre fun s h => h.imp fun hplace => ⟨hplace.1, hplace.2.1⟩

omit hw in
/-- The plan of the run is known from here on. -/
theorem ensures_adoptPlan {chunks : List JobChunk}
    (hplace : ∀ p : Place, φ p → p.current = none ∧ p.carried = 0 ∧
      (p.requestId ≠ [] ∨ p.state = .waitingForModel → chunks ≠ []) ∧ ψ { p with plan := chunks, chunks }) :
    Ensures (Going w .between φ) (adoptPlan chunks) (fun _ => Going w .between ψ) E S := by
  refine ensures_update fun s h => ?_
  obtain ⟨hcurrent, hcarried, hsome, hψ⟩ := hplace _ h.place
  refine ⟨h.adopted chunks hcurrent hcarried hsome, h.active, h.undecided, ?_⟩
  have hplan : planOf s.ownerToken (noted (.planned chunks) { s with chunks }).log = chunks := by
    show planOf s.ownerToken (s.log ++ [_]) = _
    rw [planOf_concat]
    exact if_pos rfl
  have hcommits : commitsOf s.ownerToken (noted (.planned chunks) { s with chunks }).log =
      commitsOf s.ownerToken s.log := commitsOf_noted { s with chunks } rfl
  have hsame : (noted (.planned chunks) { s with chunks }).place = { s.place with plan := chunks, chunks } :=
    congrArg₂ (fun plan commits => { s.place with plan, commits, chunks }) hplan hcommits
  rw [hsame]
  exact hψ

/-- A plan is saved, and is the plan of the run; without chunks the job fails. -/
theorem ensures_saveChunkPlan {chunks : List JobChunk}
    (hplace : ∀ p : Place, φ p → p.current = none ∧ p.carried = 0 ∧
      (chunks ≠ [] → ψ { p with plan := chunks, chunks })) :
    Ensures (Going w .between φ) (saveChunkPlan w chunks) (fun _ => Going w .between ψ) E (Sound w) := by
  refine ensures_ite (fun _ => (ensures_failAndReturn hw _ _).pre fun _ h => h.sound) fun hsome => ?_
  refine ensures_bind (ensures_writeOrFail hw rfl) fun _ => ensures_adoptPlan fun p h => ?_
  obtain ⟨hcurrent, hcarried, hψ⟩ := hplace p h
  exact ⟨hcurrent, hcarried, fun _ => hsome, hψ hsome⟩

omit hw in
/-- More UUIDs are drawn. -/
theorem Going.drawn {s : Coordinator} (h : Going w moment φ s) {drawn : Nat} (hle : s.drawn ≤ drawn) :
    Going w moment φ { s with drawn } :=
  ⟨{ h.sound with names := h.sound.names.mono hle }, h.active, h.undecided, h.place⟩

theorem ensures_planWithoutSpeech (durationMs : Int) :
    Ensures (Going w .between Place.Unstarted) (planWithoutSpeech w durationMs)
      (fun _ => Going w .between Place.Planned) E (Sound w) := by
  unfold planWithoutSpeech
  refine ensures_start fun a ha => ensures_here ha ?_
  refine ensures_bind (Q := fun _ => Going w .between Place.Unstarted) (ensures_update fun s h =>
    h.drawn (Nat.le_add_right _ _)) fun _ => ?_
  exact ensures_saveChunkPlan hw fun p h => ⟨h.2, h.1.2, fun hsome => ⟨h.1, h.2, hsome⟩⟩

/-- **The chunks of the job**: those it had, or a new plan. -/
theorem ensures_prepareChunks :
    Ensures (Going w .between Place.Prepares) (prepareChunks w) (fun _ => Sound w) E (Sound w) := by
  unfold prepareChunks
  refine ensures_bind (Q := fun _ => Going w .between Place.Prepares) (ensures_view fun _ h => h) fun duration => ?_
  refine ensures_ite (fun _ => (ensures_failAndReturn hw _ _).pre fun _ h => h.sound) fun _ => ?_
  refine ensures_bind ensures_askGoing fun answer => ?_
  cases answer with
  | error error => exact (ensures_failAndReturn hw _ _).pre fun _ h => h.sound
  | ok existing =>
    have hadopt : Ensures (Going w .between Place.Prepares) (adoptPlan existing)
        (fun _ => Going w .between fun p => p.Prepares ∧ p.plan = existing) E (Sound w) :=
      ensures_adoptPlan fun p h => ⟨h.2.1, h.1.2, fun hno => (hno.elim (absurd h.1.1) (absurd · h.2.2)),
        ⟨h.1, h.2.1, h.2.2⟩, rfl⟩
    refine ensures_bind hadopt fun _ => ensures_start fun b hb => ensures_here hb ?_
    refine ensures_ite (fun hsome => ?_) fun _ => ensures_ite (fun _ => ?_) fun _ => ?_
    · -- the job is resumed, or tried again
      refine ensures_ite (fun _ => (ensures_failAndReturn hw _ _).pre fun _ h => h.sound) fun _ => ?_
      have hplanned : ∀ s, Going w .between (fun p => p.Prepares ∧ p.plan = existing) s →
          Going w .between Place.Planned s := fun s h =>
        h.imp fun hplace => ⟨hplace.1.1, hplace.1.2.1, fun hnone => hsome (hplace.2.symm.trans hnone)⟩
      refine ensures_bind (Q := fun _ => Going w .between Place.Planned) (ensures_onlyIf (fun _ => ?_) hplanned)
        fun _ => ensures_beginWaitingForModel hw
      exact (ensures_planWithoutSpeech hw _).pre fun s h => h.imp fun hplace => ⟨hplace.1.1, hplace.1.2.1⟩
    · refine ensures_bind ((ensures_planWithoutSpeech hw _).pre fun s h => h.imp fun hplace =>
        ⟨hplace.1.1, hplace.1.2.1⟩) fun _ => ensures_beginWaitingForModel hw
    · have hvad : Ensures (Going w .between Place.Prepares) (ensureVadModelAvailable w .PrepareChunks false)
          (fun _ => Going w .between Place.Prepares) E (Sound w) := ensures_vadModelAvailable hw false fun p h => h
      refine ensures_bind (hvad.pre fun s h => h.imp (·.1)) fun _ => ?_
      refine ensures_bind (ensures_passState hw rfl (fun hstate => by cases hstate) fun p h =>
        ⟨h.1, h.2.1, fun hstate => by cases hstate⟩) fun _ => ?_
      refine ensures_bind (ensures_advanceOrReturn hw _ _ _) fun _ => ?_
      exact (ensures_awaitWorkerReady hw).pre fun s h => h.imp fun hplace => ⟨hplace.1, hplace.2.1⟩

theorem ensures_persistNormalizedDuration (durationMs : Int) :
    Ensures (Going w .between φ) (persistNormalizedDuration w durationMs) (fun _ => Going w .between φ) E
      (Sound w) := by
  refine ensures_ite (fun _ => (ensures_failAndReturn hw _ _).pre fun _ h => h.sound) fun _ => ?_
  refine ensures_bind (ensures_requireRecording hw) fun recording => ?_
  refine ensures_bind (ensures_writeOrFail hw rfl) fun _ => ensures_update fun s h => ?_
  exact ⟨{ h.sound with }, h.active, h.undecided, h.place⟩

theorem ensures_inspectMedia :
    Ensures (Going w .between Place.Prepares) (inspectMedia w) (fun _ => Sound w) E (Sound w) := by
  refine ensures_bind ensures_askGoing fun available => ?_
  cases available with
  | error error => exact (ensures_failAndReturn hw _ _).pre fun _ h => h.sound
  | ok =>
    refine ensures_bind (ensures_advanceOrReturn hw _ _ _) fun _ => ensures_start fun b hb => ?_
    refine ensures_here (P := Going w .between fun p => p.Prepares ∧ p.jobId = b.activeJob.id ∧
      p.ownerToken = b.ownerToken) (hb.imp fun h => ⟨h, rfl, rfl⟩) ?_
    exact ensures_postFor rfl (fun hactive => by simp [carries, hactive]) (fun p h => ⟨h.1, h.2⟩)
      fun _ _ _ hsame => by cases hsame

/-- **The normalization** is begun: the operation is a new one. -/
theorem ensures_beginNormalization :
    Ensures (Going w .between Place.Prepares) (beginNormalization w) (fun _ => Sound w) E (Sound w) := by
  refine ensures_bind ensures_askGoing fun available => ?_
  cases available with
  | error error => exact (ensures_failAndReturn hw _ _).pre fun _ h => h.sound
  | ok =>
    refine ensures_bind (ensures_passState hw rfl (fun hstate => by cases hstate) fun p h =>
      ⟨h.1, h.2.1, fun hstate => by cases hstate⟩) fun _ => ?_
    have hask : Ensures (Going w .between Place.Prepares) (ask id) (fun operation s =>
        Going w .between Place.Prepares s ∧ operation < s.calls ∧ ∀ other jobId ownerToken,
          .normalizationFinished other jobId ownerToken ∈ s.callbacks → other < operation) E (Sound w) :=
      ensures_asked fun s h => ⟨h.asked, Nat.lt_succ_self _, h.sound.background.operations⟩
    refine ensures_bind hask fun operation => ?_
    refine ensures_bind (Q := fun _ s => Going w .between Place.Prepares s ∧ operation < s.calls)
      (ensures_update fun s h => ?_) fun _ => ensures_start fun b hb => ensures_postOnward.pre fun s hs => ?_
    · obtain ⟨hgoing, hlt, hfresh⟩ := h
      refine ⟨⟨{ hgoing.sound with
        background := { hgoing.sound.background with
          mine := fun other jobId ownerToken hsame hmem => ?_
          idle := fun hnone => absurd hnone hgoing.active } }, hgoing.active, hgoing.undecided, hgoing.place⟩, hlt⟩
      cases hsame
      exact absurd (hfresh _ _ _ hmem) (Nat.lt_irrefl _)
    · subst hs
      refine ⟨hb.1.imp (·.1), rfl, by simp [carries, hb.1.active], hb.1.place.2, fun other jobId owner hsame => ?_⟩
      cases hsame
      exact hb.2

/-- **The waveform** is begun. -/
theorem ensures_beginWaveformGeneration :
    Ensures (Going w .between Place.Prepares) (beginWaveformGeneration w) (fun _ => Sound w) E (Sound w) := by
  unfold beginWaveformGeneration
  refine ensures_start fun a ha => ?_
  -- whom the callback is for is read at the beginning
  let ψ (p : Place) : Prop := p.Prepares ∧ p.jobId = a.activeJob.id ∧ p.ownerToken = a.ownerToken
  have hstart : Going w .between ψ a := ha.imp fun h => ⟨h, rfl, rfl⟩
  refine ensures_here hstart (ensures_bind (Q := fun _ => Going w .between ψ) (ensures_onlyIf (fun _ =>
    ensures_passState hw rfl (fun hstate => by cases hstate) fun p h =>
      ⟨⟨h.1.1, h.1.2.1, fun hstate => by cases hstate⟩, h.2⟩) fun _ h => h) fun _ => ?_)
  refine ensures_bind (ensures_advanceOrReturn hw _ _ _) fun _ => ?_
  refine ensures_bind ensures_askGoing fun cancellation => ?_
  -- the flag and the callback are set together
  refine ensures_bind (Q := fun _ s => ∃ b, Going w .between ψ b ∧
    s = { b with waveformCancellation := some cancellation }) (ensures_update fun s h => ⟨s, h, rfl⟩) fun _ => ?_
  refine ensures_update fun s h => ?_
  obtain ⟨b, hb, rfl⟩ := h
  obtain ⟨hprepares, hjob, howner⟩ := hb.place
  have hjob' : b.activeJob.id = a.activeJob.id := hjob
  have howner' : b.ownerToken = a.ownerToken := howner
  have honward : Onward (.waveformGenerated a.activeJob.id a.ownerToken a.activeJob.recordingId
      a.activeNormalizedPath cancellation) b := by
    refine ⟨congrArg some howner'.symm, ?_, hprepares.2, fun _ _ _ hsame => by cases hsame⟩
    rw [hjob', howner']
    simp [carries, ha.active]
  exact hb.posted hprepares.1 honward fun _ => rfl

/-! ## The next job -/

omit hw in
/-- A UUID that nothing has used. -/
structure Unused (w : World) (token : QString) (s : Coordinator) : Prop where
  drawn : Drawn w s.drawn token
  entry : ∀ e ∈ s.log, e.ownerToken ≠ token
  callback : ∀ callback ∈ s.callbacks, callback.ownerToken? ≠ some token

omit hw in
theorem carries_token {job owner : QString} {callback : Callback} (h : carries job owner callback = true) :
    callback.ownerToken? = some owner := by
  cases callback with
  | capabilitiesTimeout | failAgain | cancelAgain | interruptAgain | scheduleNext => cases h
  | _ => simp only [carries, Bool.and_eq_true, decide_eq_true_eq] at h; exact congrArg some h.2

/-- **A job is taken**: the run begins with nothing planned and nothing committed. -/
theorem Sound.claimed {s : Coordinator} {token : QString} (h : Sound w s) (hidle : s.activeJob.id = [])
    (hunused : Unused w token s) (job : TranscriptionJob) (hstate : job.state ≠ .waitingForModel) :
    Sound w { s with ownerToken := token, activeJob := job } ∧
      (job.id ≠ [] → Going w .between Place.Unstarted { s with ownerToken := token, activeJob := job }) := by
  obtain ⟨hrequest, hchunks, hcurrent, hnormalization, hwaveform⟩ := h.background.idle hidle
  have hpending : s.pendingTerminalAction = .None := by
    by_contra hne
    exact (h.barrier.waits hne).2.2 hidle
  have hcarried : ∀ callback ∈ s.callbacks, carries job.id token callback = false := fun callback hmem =>
    Bool.eq_false_iff.mpr fun hcarries => hunused.callback callback hmem (carries_token hcarries)
  have hzero : s.callbacks.countP (carries job.id token) = 0 :=
    List.countP_eq_zero.mpr fun callback hmem => Bool.eq_false_iff.mp (hcarried callback hmem)
  have hsound : Sound w { s with ownerToken := token, activeJob := job } := by
    refine ⟨{ h.barrier with waits := fun hne => absurd hpending hne },
      { h.names with owner := fun _ => hunused.drawn, job := fun _ => hunused.drawn.ne_nil hw },
      ⟨?_, fun callback hmem hcarries => ?_, fun hne => absurd hrequest hne⟩, ?_, ?_, ?_⟩
    · show s.callbacks.countP (carries job.id token) + (if s.requestId = [] then 0 else 1) ≤ 1
      rw [hzero, if_pos hrequest]
      exact Nat.zero_le 1
    · exact absurd ((hcarried callback hmem).symm.trans hcarries) Bool.false_ne_true
    · exact ⟨h.background.operations, fun _ _ _ hsome => (by rw [hnormalization] at hsome; cases hsome),
        fun hsome => absurd hwaveform hsome, fun _ => ⟨hrequest, hchunks, hcurrent, hnormalization, hwaveform⟩⟩
    · show Cursor (planOf token s.log) (commitsOf token s.log) s.chunks s.currentChunkIndex job.state
      rw [planOf_fresh hunused.entry, commitsOf_fresh hunused.entry, hchunks, hcurrent]
      exact ⟨rfl, rfl, fun index hindex => (by cases hindex), fun hwaiting => absurd hwaiting hstate⟩
    · exact ⟨h.books.allowed, fun e hmem howner => absurd howner (hunused.entry e hmem),
        fun e hmem howner => absurd howner (hunused.entry e hmem)⟩
  exact ⟨hsound, fun hactive => ⟨hsound, hactive, hpending, ⟨hrequest, hzero⟩, hcurrent⟩⟩

/-- A run is begun for a job that was claimed. -/
theorem ensures_beginJob (job : TranscriptionJob) :
    Ensures (fun s => ∃ b token, Sound w b ∧ b.activeJob.id = [] ∧ Unused w token b ∧
      s = { b with ownerToken := token, leaseHeartbeat := true }) (beginJob w job) (fun _ => Sound w) E (Sound w) := by
  refine ensures_bind (Q := fun _ s => Sound w s ∧ (s.activeJob.id ≠ [] → Going w .between Place.Unstarted s))
    (ensures_update fun s hs => ?_) fun _ => ?_
  · obtain ⟨b, token, hsound, hidle, hunused, rfl⟩ := hs
    obtain ⟨hclaimed, hgoing⟩ := hsound.claimed hw hidle hunused { job with state := .preparing }
      fun hstate => by cases hstate
    refine ⟨{ hclaimed with }, fun hactive => ?_⟩
    have hrun := hgoing hactive
    exact ⟨{ hrun.sound with }, hrun.active, hrun.undecided, hrun.place⟩
  · refine ensures_from fun a ha => ?_
    by_cases hactive : a.activeJob.id = []
    · -- a claim without a job id begins nothing
      have hadvance : Ensures (fun s => s = a) (advanceProgress w .preparing 0 (-1))
          (fun saved s => saved = false ∧ Sound w s) E (Sound w) :=
        ensures_start fun b hb => ensures_ite (fun _ => ensures_pure fun s hs => ⟨rfl, by rw [hs, hb]; exact ha.1⟩)
          fun hsome => absurd (by rw [hb]; exact hactive) hsome
      refine ensures_bind (Q := fun _ _ => False) (ensures_bind hadvance fun saved => ?_) fun _ =>
        ensures_known (fun _ h => h) False.elim
      exact ensures_ite (fun hsaved => ensures_pure fun s h => Bool.false_ne_true (h.1.symm.trans hsaved))
        fun _ => ensures_stop fun s h => h.2
    · refine ensures_bind (ensures_here (ha.2 hactive) (ensures_advanceOrReturn hw _ _ _)) fun _ => ?_
      exact ensures_awaitWorkerReady hw

omit hw in
theorem ensures_observeLease :
    Ensures (fun s => Sound w s ∧ s.activeJob.id = []) (observeLease w)
      (fun _ s => Sound w s ∧ s.activeJob.id = []) E (Sound w) := by
  refine ensures_bind (Q := fun _ s => Sound w s ∧ s.activeJob.id = [])
    (ensures_ask fun s h _ => ⟨h.1.asked, h.2⟩) fun answer => ?_
  cases answer with
  | error error =>
    exact ensures_bind (keeps_scheduleLeaseRetry.pre fun s h => h.1) fun _ => ensures_stop fun _ h => h
  | ok lease =>
    exact ensures_bind (Q := fun _ s => Sound w s ∧ s.activeJob.id = [])
      (ensures_ask fun s h _ => ⟨h.1.asked, h.2⟩) fun _ => ensures_pure fun _ h => h

omit hw in
theorem ensures_recoverAndObserve :
    Ensures (fun s => Sound w s ∧ s.activeJob.id = []) (recoverAndObserve w)
      (fun _ s => Sound w s ∧ s.activeJob.id = []) E (Sound w) := by
  refine ensures_bind (Q := fun _ s => Sound w s ∧ s.activeJob.id = [])
    (ensures_ask fun s h _ => ⟨h.1.asked, h.2⟩) fun answer => ?_
  cases answer with
  | error error =>
    exact ensures_bind (keeps_scheduleLeaseRetry.pre fun s h => h.1) fun _ => ensures_stop fun _ h => h
  | ok => exact ensures_observeLease

theorem ensures_claimNext :
    Ensures (fun s => Sound w s ∧ s.activeJob.id = []) (claimNext w) (fun _ => Sound w) E (Sound w) := by
  have hdraw : Ensures (fun s => Sound w s ∧ s.activeJob.id = []) (createUuid w)
      (fun token s => Sound w s ∧ s.activeJob.id = [] ∧ Unused w token s) E (Sound w) := by
    refine ⟨fun s hs token s' hrun => ?_, fun s _ e s' hrun => (by cases hrun), fun s _ s' hrun => by cases hrun⟩
    cases hrun
    refine ⟨{ hs.1 with names := hs.1.names.mono (Nat.le_succ _) }, hs.2, ⟨s.drawn, Nat.lt_succ_self _, rfl⟩,
      fun e hmem => (hs.1.names.entry e hmem).ne_fresh hw, fun callback hmem htoken => ?_⟩
    exact (hs.1.names.callback callback hmem _ htoken).ne_fresh hw rfl
  refine ensures_bind hdraw fun token => ?_
  refine ensures_bind (Q := fun _ s => Sound w s ∧ s.activeJob.id = [] ∧ Unused w token s)
    (ensures_ask fun s h _ => ⟨h.1.asked, h.2.1, { h.2.2 with }⟩) fun claim => ?_
  have hretry : Ensures (fun s => Sound w s ∧ s.activeJob.id = [] ∧ Unused w token s) scheduleLeaseRetry
      (fun _ => Sound w) E (Sound w) := keeps_scheduleLeaseRetry.pre fun s h => h.1
  cases claim with
  | error error => exact hretry
  | ok claim =>
    dsimp only
    cases claim.job with
    | none => exact hretry
    | some job =>
      refine ensures_ite (fun _ => ?_) fun _ => hretry
      exact ensures_bind (ensures_update fun s h => ⟨s, token, h.1, h.2.1, h.2.2, rfl⟩) fun _ =>
        ensures_beginJob hw job

/-- **The next job**, if none runs and the lease is free. -/
theorem ensures_scheduleNext : Ensures (Sound w) (scheduleNext w) (fun _ => Sound w) E (Sound w) := by
  unfold scheduleNext
  refine ensures_start fun a ha => ?_
  refine ensures_ite (fun _ => ensures_pure fun s hs => hs ▸ ha) fun hmay => ?_
  have hidle : a.activeJob.id = [] := by
    by_contra hactive
    exact hmay (Or.inr (Or.inr hactive))
  refine ensures_here (P := fun s => Sound w s ∧ s.activeJob.id = []) ⟨ha, hidle⟩ ?_
  have hclaim : ∀ holder : QString, Ensures (fun s => Sound w s ∧ s.activeJob.id = [])
      (do
        let s ← view id
        if holder ≠ [] ∨ s.pauseAfterCurrent ∨ s.externalWorkerReserved ∨ s.worker.forcedCancellation.isSome then
          scheduleLeaseRetry
        else claimNext w) (fun _ => Sound w) E (Sound w) := fun holder =>
    ensures_start fun b hb => ensures_here (P := fun s => Sound w s ∧ s.activeJob.id = []) hb
      (ensures_ite (fun _ => keeps_scheduleLeaseRetry.pre fun s h => h.1) fun _ => ensures_claimNext hw)
  refine ensures_bind ensures_observeLease fun observed => ensures_ite (fun _ => ?_) fun _ => ?_
  · exact ensures_bind ensures_recoverAndObserve hclaim
  · exact ensures_bind (ensures_pure fun _ h => h) hclaim

end Stages

end BreezeDesk.TranscriptionCoordinator
