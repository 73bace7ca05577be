/-
  What the coordinator has left behind keeps the invariant when it comes back.

  A callback that goes on with the run is the only one that does, so that its handler begins with nothing else
  going on (`Sound.resumed`).  A callback that was overtaken is dropped; one that tries an end again may find
  the run anywhere.
-/
import BreezeDesk.App.RunMessages
import Mathlib.Data.List.Perm.Basic

namespace BreezeDesk.TranscriptionCoordinator

open App Effect Ipc Worker

variable {w : World} {φ ψ : Place → Prop} {E S : Coordinator → Prop} {s : Coordinator} {index : Nat}
  {callback : Callback}

/-! ## A callback comes back -/

theorem fired_perm (hget : s.callbacks[index]? = some callback) :
    (callback :: s.callbacks.eraseIdx index).Perm s.callbacks := by
  obtain ⟨hlt, rfl⟩ := List.getElem?_eq_some_iff.mp hget
  exact List.getElem_cons_eraseIdx_perm hlt

/-- A callback is gone once it fires. -/
theorem Sound.fired (h : Sound w s) (hget : s.callbacks[index]? = some callback) (waveformCancellation : Option Nat)
    (hwaveform : waveformCancellation ≠ none → waveformCancellation = s.waveformCancellation ∧
      (callback.isWaveform && carries s.activeJob.id s.ownerToken callback) = false) :
    Sound w { s with callbacks := s.callbacks.eraseIdx index, waveformCancellation } := by
  have hperm := fired_perm hget
  have hold : ∀ other ∈ s.callbacks.eraseIdx index, other ∈ s.callbacks := fun other hmem =>
    hperm.subset (List.mem_cons_of_mem _ hmem)
  exact {
    barrier := h.barrier
    names := { h.names with callback := fun other hmem => h.names.callback other (hold other hmem) }
    tokens := {
      one := by
        have hone := h.tokens.one
        rw [← hperm.countP_eq, List.countP_cons] at hone
        show (s.callbacks.eraseIdx index).countP (carries s.activeJob.id s.ownerToken) +
          (if s.requestId = [] then 0 else 1) ≤ 1
        omega
      callback := fun other hmem => h.tokens.callback other (hold other hmem)
      request := h.tokens.request }
    background := {
      operations := fun _ _ _ hmem => h.background.operations _ _ _ (hold _ hmem)
      mine := fun _ _ _ hsome hmem => h.background.mine _ _ _ hsome (hold _ hmem)
      carried := fun hsome => by
        obtain ⟨hsame, hnot⟩ := hwaveform hsome
        obtain ⟨other, hmem, hkind, hcarries⟩ := h.background.carried (hsame ▸ hsome)
        rcases List.mem_cons.mp (hperm.symm.subset hmem) with rfl | hthere
        · rw [hkind, hcarries] at hnot
          cases hnot
        · exact ⟨other, hthere, hkind, hcarries⟩
      idle := fun hnone => by
        obtain ⟨hrequest, hchunks, hcurrent, hnormalization, hcancellation⟩ := h.background.idle hnone
        refine ⟨hrequest, hchunks, hcurrent, hnormalization, ?_⟩
        by_contra hsome
        exact hsome ((hwaveform hsome).1.trans hcancellation) }
    cursor := h.cursor
    books := h.books }

/-- **A callback that goes on with the run** finds nothing else that does. -/
theorem Sound.resumed (h : Sound w s) (hget : s.callbacks[index]? = some callback)
    (hcarries : carries s.activeJob.id s.ownerToken callback = true) (waveformCancellation : Option Nat)
    (hwaveform : waveformCancellation ≠ none → waveformCancellation = s.waveformCancellation ∧
      callback.isWaveform = false) :
    Going w .between (fun p => p.Idle ∧ CallbackFits p.plan p.chunks p.current p.state callback)
      { s with callbacks := s.callbacks.eraseIdx index, waveformCancellation } := by
  have hmem : callback ∈ s.callbacks := List.mem_of_getElem? hget
  have hone := h.tokens.one
  rw [← (fired_perm hget).countP_eq, List.countP_cons, if_pos hcarries] at hone
  have hrequest : s.requestId = [] := by
    by_contra hsome
    rw [if_neg hsome] at hone
    omega
  refine ⟨h.fired hget waveformCancellation fun hsome => ?_, fun hnone => ?_, ?_, ⟨hrequest, ?_⟩,
    h.tokens.callback callback hmem hcarries⟩
  · obtain ⟨hsame, hkind⟩ := hwaveform hsome
    exact ⟨hsame, by rw [hkind]; rfl⟩
  · have hnone' : s.activeJob.id = [] := hnone
    rw [hnone', carries_nil] at hcarries
    cases hcarries
  · by_contra hpending
    exact (h.barrier.waits hpending).1 hrequest
  · show (s.callbacks.eraseIdx index).countP (carries s.activeJob.id s.ownerToken) = 0
    omega

/-- A callback that is still wanted goes on with the run, if it is of that kind. -/
theorem activeJobMatches_iff {jobId ownerToken : QString} (hsome : ownerToken ≠ []) :
    activeJobMatches jobId ownerToken s = true ↔ jobId ≠ [] ∧ s.activeJob.id = jobId ∧ s.ownerToken = ownerToken := by
  unfold activeJobMatches
  simp [hsome, and_assoc]

section Callbacks

variable (hw : w.Fresh)
include hw

/-! ## Preparing -/

theorem ensures_bindSource :
    Ensures (Going w .between φ) (bindSource w) (fun _ => Going w .between φ) E (Sound w) := by
  refine ensures_bind ensures_askGoing fun answer => ?_
  cases answer with
  | error error => exact (ensures_failAndReturn hw _ _).pre fun _ h => h.sound
  | ok chunks =>
    refine ensures_start fun a ha => ensures_here ha ?_
    dsimp only
    refine ensures_ite (fun _ => (ensures_failAndReturn hw _ _).pre fun _ h => h.sound) fun _ => ?_
    refine ensures_ite (fun _ => ?_) fun _ => ensures_pure fun _ h => h
    exact ensures_bind (ensures_writeOrFail hw rfl) fun _ => ensures_update fun s h =>
      ⟨{ h.sound with }, h.active, h.undecided, h.place⟩

omit hw in
theorem ensures_cachedDuration (recording : Recording) :
    Ensures (Going w .between φ) (cachedDuration w recording) (fun _ => Going w .between φ) E S := by
  refine ensures_start fun a ha => ensures_here ha (ensures_ite (fun _ => ?_) fun _ => ensures_pure fun _ h => h)
  refine ensures_bind ensures_askGoing fun reusable => ensures_ite (fun _ => ?_) fun _ => ensures_pure fun _ h => h
  refine ensures_bind ensures_askGoing fun answer => ?_
  cases answer <;> exact ensures_pure fun _ h => h

theorem ensures_sourceHashed (report : Report) :
    Ensures (Going w .between Place.Prepares) (sourceHashed w report) (fun _ => Sound w) E (Sound w) := by
  unfold sourceHashed
  refine ensures_start fun a ha => ensures_here ha ?_
  refine ensures_ite (fun _ => (ensures_finishCancellation hw).pre fun _ h => Sound.nearly h.sound) fun _ => ?_
  refine ensures_ite (fun _ => (keeps_failActiveJob hw _ _).pre fun _ h => h.sound) fun _ => ?_
  refine ensures_bind (Q := fun _ => Going w .between Place.Prepares) (ensures_update fun s h =>
    ⟨{ h.sound with }, h.active, h.undecided, h.place⟩) fun _ => ?_
  refine ensures_bind (ensures_requireRecording hw) fun recording => ?_
  refine ensures_bind (ensures_bindSource hw) fun _ => ?_
  refine ensures_bind (ensures_cachedDuration recording) fun cached => ?_
  cases cached with
  | some durationMs =>
    refine ensures_bind (ensures_persistNormalizedDuration hw durationMs) fun _ => ?_
    refine ensures_bind ensures_askGoing fun waveform => ?_
    exact ensures_ite (fun _ => ensures_prepareChunks hw) fun _ => ensures_beginWaveformGeneration hw
  | none =>
    refine ensures_bind (ensures_writeOrFail hw rfl) fun _ => ?_
    exact ensures_bind (Q := fun _ => Going w .between Place.Prepares) (ensures_update fun s h =>
      ⟨{ h.sound with }, h.active, h.undecided, h.place⟩) fun _ => ensures_inspectMedia hw

theorem ensures_inspected (report : Report) :
    Ensures (Going w .between Place.Prepares) (inspected w report) (fun _ => Sound w) E (Sound w) := by
  unfold inspected
  refine ensures_start fun a ha => ensures_here ha ?_
  refine ensures_ite (fun _ => ensures_pure fun _ h => h.sound) fun _ => ?_
  refine ensures_ite (fun _ => (keeps_failActiveJob hw _ _).pre fun _ h => h.sound) fun _ => ?_
  refine ensures_bind (ensures_requireRecording hw) fun recording => ?_
  refine ensures_bind (ensures_writeOrFail hw rfl) fun _ => ?_
  refine ensures_bind (Q := fun _ => Going w .between Place.Prepares) (ensures_update fun s h =>
    ⟨{ h.sound with }, h.active, h.undecided, h.place⟩) fun _ => ?_
  exact ensures_bind (ensures_advanceOrReturn hw _ _ _) fun _ => ensures_beginNormalization hw

theorem ensures_normalizationFinished (report : Report) :
    Ensures (Going w .between Place.Prepares) (normalizationFinished w report) (fun _ => Sound w) E (Sound w) := by
  unfold normalizationFinished
  refine ensures_start fun a ha => ensures_here (P := Going w .between fun p => p.Prepares ∧
    p.jobId = a.activeJob.id ∧ p.ownerToken = a.ownerToken) (ha.imp fun h => ⟨h, rfl, rfl⟩) ?_
  refine ensures_ite (fun _ => (ensures_finishCancellation hw).pre fun _ h => Sound.nearly h.sound) fun _ => ?_
  refine ensures_ite (fun _ => (keeps_failActiveJob hw _ _).pre fun _ h => h.sound) fun _ => ?_
  refine ensures_bind (Q := fun _ => Going w .between fun p => p.Prepares ∧ p.jobId = a.activeJob.id ∧
    p.ownerToken = a.ownerToken) (ensures_update fun s h => ⟨{ h.sound with }, h.active, h.undecided, h.place⟩)
    fun _ => ?_
  refine ensures_bind ensures_askGoing fun answer => ?_
  cases answer with
  | error error => exact (keeps_failActiveJob hw _ _).pre fun _ h => h.sound
  | ok durationMs =>
    exact ensures_postFor rfl (fun hactive => by simp [carries, hactive]) (fun p h => ⟨h.1, h.2⟩)
      fun _ _ _ hsame => by cases hsame

theorem ensures_normalizedSourceHashed (durationMs : Int) (report : Report) :
    Ensures (Going w .between Place.Prepares) (normalizedSourceHashed w durationMs report) (fun _ => Sound w) E
      (Sound w) := by
  unfold normalizedSourceHashed
  refine ensures_start fun a ha => ensures_here ha ?_
  refine ensures_ite (fun _ => (keeps_failActiveJob hw _ _).pre fun _ h => h.sound) fun _ => ?_
  exact ensures_bind (ensures_persistNormalizedDuration hw durationMs) fun _ => ensures_beginWaveformGeneration hw

/-- The waveform is there; until the handler has begun, its flag is still set. -/
theorem ensures_waveformGenerated (normalizedPath : QString) (cancellation : Nat) (report : Report) :
    Ensures (fun s => Going w .between Place.Prepares { s with waveformCancellation := none })
      (waveformGenerated w normalizedPath cancellation report) (fun _ => Sound w) E (Sound w) := by
  refine ensures_bind (Q := fun _ => Going w .between Place.Prepares) (ensures_update fun _ h => h) fun _ => ?_
  refine ensures_start fun a ha => ensures_here ha ?_
  refine ensures_ite (fun _ => (ensures_finishCancellation hw).pre fun _ h => Sound.nearly h.sound) fun _ => ?_
  refine ensures_ite (fun _ => (keeps_failActiveJob hw _ _).pre fun _ h => h.sound) fun _ => ?_
  refine ensures_bind (ensures_requireRecording hw) fun recording => ?_
  refine ensures_bind (ensures_writeOrFail hw rfl) fun _ => ?_
  exact ensures_bind (ensures_advanceOrReturn hw _ _ _) fun _ => ensures_prepareChunks hw

theorem ensures_continueWith (continuation : VadModelContinuation) :
    Ensures (Going w .between (Place.Resumes continuation)) (continueWith w continuation) (fun _ => Sound w) E
      (Sound w) := by
  cases continuation with
  | PrepareChunks => exact ensures_prepareChunks hw
  | AnalyzeSpeech => exact ensures_analyzeSpeech hw
  | StartNextChunk => exact ensures_startNextChunk hw
  | TranscribeCurrentChunk => exact ensures_transcribeCurrentChunk hw

theorem ensures_vadDownloadFinished (continuation : VadModelContinuation) (report : Report) :
    Ensures (Going w .between (Place.Resumes continuation)) (vadDownloadFinished w continuation report)
      (fun _ => Sound w) E (Sound w) := by
  refine ensures_bind (Q := fun _ => Going w .between (Place.Resumes continuation)) (ensures_update fun s h =>
    ⟨{ h.sound with }, h.active, h.undecided, h.place⟩) fun _ => ?_
  refine ensures_start fun a ha => ensures_here ha ?_
  refine ensures_ite (fun _ => (ensures_finishCancellation hw).pre fun _ h => Sound.nearly h.sound) fun _ => ?_
  refine ensures_ite (fun _ => (keeps_failActiveJob hw _ _).pre fun _ h => h.sound) fun _ => ?_
  refine ensures_bind ensures_askGoing fun verified => ?_
  refine ensures_ite (fun _ => (keeps_failActiveJob hw _ _).pre fun _ h => h.sound) fun _ => ?_
  refine ensures_bind (Q := fun _ => Going w .between (Place.Resumes continuation)) (ensures_update fun s h =>
    ⟨{ h.sound with }, h.active, h.undecided, h.place⟩) fun _ => ?_
  refine ensures_bind (ensures_appendVadModelEvent hw _ _) fun appended => ?_
  refine ensures_ite (fun hyes => (ensures_continueWith hw continuation).pre fun _ h => h.1 hyes) fun hno => ?_
  exact ensures_pure fun s h => h.2 (by simpa using hno)

/-! ## One callback -/

theorem matched {jobId ownerToken : QString} (ha : Sound w s) (hmem : callback ∈ s.callbacks)
    (htoken : callback.ownerToken? = some ownerToken) (hmatches : activeJobMatches jobId ownerToken s = true) :
    jobId ≠ [] ∧ s.activeJob.id = jobId ∧ s.ownerToken = ownerToken :=
  (activeJobMatches_iff ((ha.names.callback callback hmem ownerToken htoken).ne_nil hw)).mp hmatches

/-- A callback that tries an interruption again. -/
def Callback.isInterruption : Callback → Bool
  | .interruptAgain .. => true
  | _ => false

/-- The handler of a callback that is still wanted. -/
theorem ensures_runCallback (report : Report) (ha : Sound w s) (hget : s.callbacks[index]? = some callback)
    (hwanted : stillWanted s callback = true) (hquiet : callback.isInterruption = true → s.worker.serving = []) :
    Ensures (fun t => t = { s with callbacks := s.callbacks.eraseIdx index }) (runCallback w report callback)
      (fun _ => Sound w) E (Sound w) := by
  have hmem : callback ∈ s.callbacks := List.mem_of_getElem? hget
  have hresumed := fun hcarries hkind => ha.resumed hget hcarries s.waveformCancellation fun _ => ⟨rfl, hkind⟩
  have hfired := fun hnot => ha.fired hget s.waveformCancellation fun _ => ⟨rfl, hnot⟩
  cases callback with
  | ensureWorkerReady jobId attempt ownerToken =>
    obtain ⟨hjob, rfl, rfl⟩ := matched hw ha hmem rfl hwanted
    refine ensures_here ((hresumed (by simp [carries, hjob]) rfl).imp ?_) (ensures_ensureWorkerReady hw _ _ _)
    exact fun hplace => ⟨hplace, rfl⟩
  | capabilitiesTimeout jobId ownerToken requestId => exact ensures_here (hfired rfl) (keeps_failActiveJob hw _ _)
  | sourceHashed jobId ownerToken =>
    obtain ⟨hjob, rfl, rfl⟩ := matched hw ha hmem rfl hwanted
    exact ensures_here (hresumed (by simp [carries, hjob]) rfl) (ensures_sourceHashed hw report)
  | inspected jobId ownerToken =>
    obtain ⟨hjob, rfl, rfl⟩ := matched hw ha hmem rfl hwanted
    exact ensures_here (hresumed (by simp [carries, hjob]) rfl) (ensures_inspected hw report)
  | normalizationFinished operation jobId ownerToken =>
    obtain ⟨hjob, rfl, rfl⟩ := matched hw ha hmem rfl (Bool.and_eq_true_iff.mp hwanted).2
    exact ensures_here (hresumed (by simp [carries, hjob]) rfl) (ensures_normalizationFinished hw report)
  | normalizedSourceHashed jobId ownerToken durationMs =>
    obtain ⟨hjob, rfl, rfl⟩ := matched hw ha hmem rfl hwanted
    exact ensures_here (hresumed (by simp [carries, hjob]) rfl) (ensures_normalizedSourceHashed hw durationMs report)
  | waveformGenerated jobId ownerToken recordingId normalizedPath cancellation =>
    obtain ⟨hjob, rfl, rfl⟩ := matched hw ha hmem rfl hwanted
    have hnone := ha.resumed hget (by simp [carries, hjob]) none fun hsome => absurd rfl hsome
    exact ensures_here hnone (ensures_waveformGenerated hw normalizedPath cancellation report)
  | vadDownloadFinished operation jobId ownerToken continuation =>
    obtain ⟨hjob, rfl, rfl⟩ := matched hw ha hmem rfl (Bool.and_eq_true_iff.mp hwanted).2
    refine ensures_here ((hresumed (by simp [carries, hjob]) rfl).imp ?_)
      (ensures_vadDownloadFinished hw continuation report)
    intro hplace
    cases continuation <;> exact hplace
  | startNextChunk jobId ownerToken =>
    obtain ⟨hjob, rfl, rfl⟩ := matched hw ha hmem rfl hwanted
    exact ensures_here (hresumed (by simp [carries, hjob]) rfl) (ensures_startNextChunk hw)
  | failAgain jobId ownerToken code message => exact ensures_here (hfired rfl) (keeps_failActiveJob hw _ _)
  | cancelAgain jobId ownerToken => exact ensures_here (hfired rfl).nearly (ensures_finishCancellation hw)
  | interruptAgain jobId ownerToken reason =>
    exact ensures_here ⟨hfired rfl, hquiet rfl⟩ (ensures_interruptActiveJob hw reason)
  | scheduleNext => exact ensures_here (hfired rfl) (ensures_scheduleNext hw)

/-- A waveform that carries the run is wanted. -/
theorem unwanted_waveform (ha : Sound w s) (hunwanted : stillWanted s callback ≠ true) :
    (callback.isWaveform && carries s.activeJob.id s.ownerToken callback) = false := by
  cases callback with
  | waveformGenerated jobId ownerToken recordingId normalizedPath cancellation =>
    by_contra hcarries
    have hcarries' : s.activeJob.id ≠ [] ∧ jobId = s.activeJob.id ∧ ownerToken = s.ownerToken := by
      simpa [Callback.isWaveform, carries, and_assoc] using hcarries
    obtain ⟨hjob, rfl, rfl⟩ := hcarries'
    exact hunwanted ((activeJobMatches_iff ((ha.names.owner (ha.names.job hjob)).ne_nil hw)).mpr ⟨hjob, rfl, rfl⟩)
  | _ => rfl

/-- **A callback fires.**  An interruption that is tried again finds the worker without a request. -/
theorem ensures_fire (index : Nat) (report : Report) :
    Ensures (fun s => Sound w s ∧ ∀ callback, s.callbacks[index]? = some callback →
        callback.isInterruption = true → s.worker.serving = [])
      (fire w index report) (fun _ => Sound w) E (Sound w) := by
  unfold fire
  refine ensures_start fun a ha => ?_
  split
  · exact ensures_pure fun s hs => hs ▸ ha.1
  · rename_i callback hget
    refine ensures_bind (Q := fun _ s => s = { a with callbacks := a.callbacks.eraseIdx index })
      (ensures_update fun s hs => by rw [hs]) fun _ => ?_
    refine ensures_ite (fun hwanted => ensures_runCallback hw report ha.1 hget hwanted (ha.2 callback hget))
      fun hunwanted => ensures_pure fun s hs => ?_
    rw [hs]
    exact ha.1.fired hget a.waveformCancellation fun _ => ⟨rfl, unwanted_waveform hw ha.1 hunwanted⟩

/-- Progress of the normalization is saved while nothing else goes on. -/
theorem ensures_normalizationProgress (index : Nat) (percent : Int) (progress : Rat) :
    Ensures (Sound w) (normalizationProgress w index percent progress) (fun _ => Sound w) E (Sound w) := by
  unfold normalizationProgress
  refine ensures_start fun a ha => ?_
  split
  · rename_i operation jobId ownerToken hget
    refine ensures_ite (fun hrunning => ?_) fun _ => ensures_pure fun s hs => hs ▸ ha
    obtain ⟨hjob, rfl, rfl⟩ := matched hw ha (List.mem_of_getElem? hget) rfl hrunning.2.1
    have hgoing := ha.resumed hget (by simp [carries, hjob]) none fun hsome => absurd rfl hsome
    have hhere : Going w .between (fun _ => True) { a with lastNormalizationPercent := percent } :=
      ⟨{ ha with }, hgoing.active, hgoing.undecided, trivial⟩
    refine ensures_bind (Q := fun _ => Going w .between fun _ => True) (ensures_update fun s hs => hs ▸ hhere)
      fun _ => ?_
    exact (ensures_advanceOrReturn hw _ _ _).imp (fun _ h => h) (fun _ _ h => h.sound) (fun _ h => h) fun _ h => h
  · exact ensures_pure fun s hs => hs ▸ ha

end Callbacks

end BreezeDesk.TranscriptionCoordinator
