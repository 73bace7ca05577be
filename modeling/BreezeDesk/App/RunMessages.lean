/-
  The messages of the worker keep the invariant.

  A message is for the request that the run waits for.  If it ends the request, nothing is left in the worker, and
  the handler forgets the request before it goes on (`Going.forgotten`).  For a chunk that is completed there is a
  moment in between, when the chunk is committed and its request not yet forgotten (`Moment.answered`).
-/
import BreezeDesk.App.RunStages

namespace BreezeDesk.TranscriptionCoordinator

open App Effect Ipc Worker

variable {w : World} {moment : Moment} {φ ψ : Place → Prop} {E S : Coordinator → Prop}

/-- The run waits for a request. -/
def Place.Waits (p : Place) : Prop := p.requestId ≠ []

/-- The request has ended in the worker, and is not forgotten yet. -/
def Place.Answered (p : Place) : Prop := p.requestId ≠ [] ∧ p.serving = []

def Place.AnsweredFor (kind : RequestKind) (p : Place) : Prop := p.Answered ∧ p.kind = kind

/-- The worker has sent something about a chunk. -/
def Place.Transcribes (index : Nat) (chunk : JobChunk) (p : Place) : Prop :=
  p.Answered ∧ p.kind = .TranscribeChunk ∧ p.current = some index ∧ p.chunks[index]? = some chunk

theorem Going.carried_none {s : Coordinator} (h : Going w moment φ s) (hwaits : s.place.Waits) :
    s.place.carried = 0 := by
  have hone := h.sound.tokens.one
  have hid : s.requestId ≠ [] := hwaits
  rw [if_neg hid] at hone
  exact Nat.le_zero.mp (Nat.le_of_succ_le_succ hone)

/-- What the request needed is there. -/
theorem Going.fits {s : Coordinator} (h : Going w .between φ s) (hwaits : s.place.Waits) :
    s.place.Fits s.requestKind := h.sound.tokens.request hwaits h.undecided

/-- **The request is forgotten**, and the handler is all that goes on. -/
theorem Going.forgotten {s : Coordinator} (h : Going w moment φ s) (hmoment : moment ≠ .ended)
    (hanswered : s.place.Answered) : Going w .between Place.Idle (forgetRequest s) where
  sound := {
    barrier := { h.sound.barrier with
      serving := fun request hmem => by
        have hmem' : request ∈ s.worker.serving := hmem
        have hquiet : s.worker.serving = [] := hanswered.2
        rw [hquiet] at hmem'
        cases hmem'
      waits := fun hpending => absurd h.undecided hpending
      forced := fun hpending => absurd h.undecided hpending }
    names := { h.sound.names with request := fun hne => absurd rfl hne }
    tokens := {
      one := by
        have hzero : s.callbacks.countP (carries s.activeJob.id s.ownerToken) = 0 := h.carried_none hanswered.1
        show s.callbacks.countP (carries s.activeJob.id s.ownerToken) + (if ([] : QString) = [] then 0 else 1) ≤ 1
        rw [hzero, if_pos rfl]
        exact Nat.zero_le 1
      callback := h.sound.tokens.callback
      request := fun hne => absurd rfl hne }
    background := { h.sound.background with idle := fun hnone => absurd hnone h.active }
    cursor := h.sound.cursor
    books := h.sound.books.unended hmoment }
  active := h.active
  undecided := h.undecided
  place := ⟨rfl, h.carried_none hanswered.1⟩

section Messages

variable (hw : w.Fresh)
include hw

/-! ## Errors and capabilities -/

theorem ensures_rejected (kind : RequestKind) (payload : QCborMap) :
    Ensures (Sound w) (rejected w kind payload) (fun _ => Sound w) E S :=
  ensures_bind (Q := fun _ => Sound w) (ensures_onlyIf (fun _ => ensures_update fun _ h => { h with }) fun _ h => h)
    fun _ => keeps_failActiveJob hw _ _

/-- **The worker could not do it**: the model of the speech detection is fetched again, or the job fails. -/
theorem ensures_handleError (payload : QCborMap) :
    Ensures (Going w .between Place.Answered) (handleError w payload) (fun _ => Sound w) E (Sound w) := by
  unfold handleError
  refine ensures_start fun a ha => ?_
  refine ensures_ite (fun _ => (ensures_finishCancellation hw).pre fun s hs => hs ▸ Sound.nearly ha.sound) fun _ => ?_
  refine ensures_ite (fun hrecovers => ?_) fun _ => (ensures_rejected hw _ _).pre fun s hs => hs ▸ ha.sound
  have hfits := ha.fits ha.place.1
  refine ensures_bind (Q := fun _ s => s = { a with vadModelVerified := false })
    (ensures_update fun s hs => by rw [hs]) fun _ => ?_
  refine ensures_ite (fun _ => (ensures_rejected hw _ _).pre fun s hs => ?_) fun _ => ?_
  · subst hs
    exact { ha.sound with }
  -- where the run goes on after the download
  let continuation : VadModelContinuation := if a.requestKind = .AnalyzeSpeech then .AnalyzeSpeech
    else .TranscribeCurrentChunk
  refine ensures_bind (Q := fun _ => Going w .between (Place.Resumes continuation)) (ensures_update fun s hs => ?_)
    fun _ => (ensures_vadModelAvailable hw true fun p h => h).imp (fun _ h => h) (fun _ _ h => h.sound) (fun _ h => h)
      fun _ h => h
  subst hs
  have hforgotten := ha.forgotten (fun hmoment => by cases hmoment) ha.place
  refine ⟨{ hforgotten.sound with }, ha.active, ha.undecided, hforgotten.place, ?_⟩
  show CallbackFits (planOf a.ownerToken a.log) a.chunks a.currentChunkIndex a.activeJob.state
    (.vadDownloadFinished 0 [] [] continuation)
  unfold recoversVadModel at hrecovers
  cases hkind : a.requestKind with
  | AnalyzeSpeech =>
    rw [hkind] at hfits
    simp only [continuation, hkind]
    exact hfits
  | TranscribeChunk =>
    rw [hkind] at hfits
    simp only [continuation, hkind]
    exact ⟨hfits.1.resolve_left fun hmoment => hmoment rfl, hfits.2⟩
  | None | GetCapabilities | LoadModel => rw [hkind] at hrecovers; cases hrecovers

theorem ensures_handleCapabilities (envelope : Envelope) :
    Ensures (Going w .between (Place.AnsweredFor .GetCapabilities)) (handleCapabilities w envelope) (fun _ => Sound w) E
      (Sound w) := by
  unfold handleCapabilities
  refine ensures_ite (fun _ => (keeps_failActiveJob hw _ _).pre fun _ h => h.sound) fun _ => ?_
  split
  · refine ensures_bind (Q := fun _ => Going w .between Place.Unstarted) (ensures_update fun s h => ?_) fun _ =>
      ensures_continueAfterWorkerPreflight hw
    have hforgotten := h.forgotten (fun hmoment => by cases hmoment) h.place.1
    have hfits := h.fits h.place.1.1
    have hkind : s.requestKind = .GetCapabilities := h.place.2
    rw [hkind] at hfits
    exact ⟨{ hforgotten.sound with }, h.active, h.undecided, hforgotten.place, hfits⟩
  · exact (keeps_failActiveJob hw _ _).pre fun _ h => h.sound

/-! ## Speech analysis and the model -/

/-- **The speech analysis** brings the plan. -/
theorem ensures_handleAnalysis (envelope : Envelope) :
    Ensures (Going w .between fun p => p.Waits ∧ p.kind = .AnalyzeSpeech ∧
        (envelope.type = .SpeechAnalysisCompleted → p.serving = []))
      (handleAnalysis w envelope) (fun _ => Sound w) E (Sound w) := by
  unfold handleAnalysis
  refine ensures_start fun a ha => ensures_here ha ?_
  refine ensures_ite (fun _ => (ensures_advanceOrReturn hw _ _ _).imp (fun _ h => h) (fun _ _ h => h.sound)
    (fun _ h => h) fun _ h => h) fun _ => ?_
  refine ensures_ite (fun _ => ensures_pure fun _ h => h.sound) fun htype => ?_
  have htype' : envelope.type = .SpeechAnalysisCompleted := not_not.mp htype
  refine ensures_ite (fun _ => (ensures_finishCancellation hw).pre fun _ h => Sound.nearly h.sound) fun _ => ?_
  -- there is no chunk yet
  let φ (p : Place) : Prop := p.Answered ∧ p.current = none ∧ p.carried = 0
  have hbegins : ∀ s, Going w .between (fun p => p.Waits ∧ p.kind = .AnalyzeSpeech ∧
      (envelope.type = .SpeechAnalysisCompleted → p.serving = [])) s → Going w .between φ s := fun s h => by
    have hfits := h.fits h.place.1
    have hkind : s.requestKind = .AnalyzeSpeech := h.place.2.1
    rw [hkind] at hfits
    exact h.imp fun hplace => ⟨⟨hplace.1, hplace.2.2 htype'⟩, hfits, h.carried_none hplace.1⟩
  dsimp only
  split
  · exact (keeps_failActiveJob hw _ _).pre fun _ h => h.sound
  · refine ensures_bind (Q := fun _ => Going w .between φ) (ensures_update fun s h =>
      (hbegins s h).drawn (Nat.le_add_right _ _)) fun _ => ?_
    refine ensures_ite (fun _ => (ensures_failAndReturn hw _ _).pre fun _ h => h.sound) fun _ => ?_
    refine ensures_bind (ensures_requireRecording hw) fun recording => ?_
    refine ensures_bind (ensures_writeOrFail hw rfl) fun _ => ?_
    refine ensures_bind (Q := fun _ => Going w .between φ) (ensures_update fun s h =>
      ⟨{ h.sound with }, h.active, h.undecided, h.place⟩) fun _ => ?_
    refine ensures_bind (ensures_saveChunkPlan (ψ := fun p => p.Answered ∧ p.current = none ∧ p.plan ≠ []) hw
      fun p h => ⟨h.2.1, h.2.2, fun hsome => ⟨h.1, h.2.1, hsome⟩⟩) fun _ => ?_
    refine ensures_bind (Q := fun _ => Going w .between Place.Planned) (ensures_update fun s h => ?_) fun _ =>
      ensures_beginWaitingForModel hw
    have hforgotten := h.forgotten (fun hmoment => by cases hmoment) h.place.1
    exact ⟨hforgotten.sound, h.active, h.undecided, hforgotten.place, h.place.2⟩

/-- **The model is loaded**, and the first chunk is begun. -/
theorem ensures_handleModelLoaded (payload : QCborMap) :
    Ensures (Going w .between (Place.AnsweredFor .LoadModel)) (handleModelLoaded w payload) (fun _ => Sound w) E
      (Sound w) := by
  unfold handleModelLoaded
  refine ensures_start fun a ha => ensures_here ha ?_
  refine ensures_bind (Q := fun _ => Going w .between (Place.AnsweredFor .LoadModel)) (ensures_update fun s h =>
    ⟨{ h.sound with }, h.active, h.undecided, h.place⟩) fun _ => ?_
  refine ensures_bind (ensures_persistLoadedRuntimeInfo _) fun failed => ?_
  cases failed with
  | some error => exact (ensures_failAndReturn hw _ _).pre fun _ h => h.sound
  | none =>
    refine ensures_bind (Q := fun _ => Going w .between Place.Planned) (ensures_update fun s h => ?_) fun _ => ?_
    · have hforgotten := h.forgotten (fun hmoment => by cases hmoment) h.place.1
      have hfits := h.fits h.place.1.1
      have hkind : s.requestKind = .LoadModel := h.place.2
      rw [hkind] at hfits
      exact ⟨hforgotten.sound, h.active, h.undecided, hforgotten.place, hfits⟩
    refine ensures_bind (ensures_advanceOrReturn hw _ _ _) fun _ => ensures_start fun b hb => ensures_here hb ?_
    refine ensures_ite (fun _ => (ensures_finishCancellation hw).pre fun _ h => Sound.nearly h.sound) fun _ => ?_
    exact ensures_beginTranscribing hw

/-! ## Chunks -/

theorem ensures_handlePartialSegment (chunk : JobChunk) (payload : QCborMap) :
    Ensures (Going w .between φ) (handlePartialSegment w chunk payload) (fun _ => Sound w) E (Sound w) := by
  unfold handlePartialSegment
  refine ensures_start fun a ha => ensures_here ha ?_
  dsimp only
  split
  · refine ensures_bind (Q := fun _ => Going w .between φ) (ensures_update fun s h => ?_) fun _ =>
      (ensures_writeOrFail hw rfl).imp (fun _ h => h) (fun _ _ h => h.sound) (fun _ h => h) fun _ h => h
    exact ⟨{ h.sound with names := h.sound.names.mono (Nat.le_succ _) }, h.active, h.undecided, h.place⟩
  · exact (keeps_failActiveJob hw _ _).pre fun _ h => h.sound
  · exact (keeps_failActiveJob hw _ _).pre fun _ h => h.sound

omit hw in
/-- The completion of a chunk is written. -/
theorem ensures_writeCompletion {completed : JobChunk} (hcompleted : completed.state = .completed) :
    Ensures (Going w .between φ) (write w (.updateChunk completed))
      (fun refused s => (refused = none → ∃ b, Going w .between φ b ∧
          s = noted (.write (.updateChunk completed) true) b) ∧ (refused ≠ none → Sound w s)) E S := by
  refine ensures_bind ensures_askGoing fun refused => ?_
  refine ensures_bind (Q := fun _ s => ∃ b, Going w .between φ b ∧
    s = noted (.write (.updateChunk completed) refused.isNone) b) (ensures_update fun s h => ⟨s, h, rfl⟩) fun _ => ?_
  refine ensures_pure fun s h => ?_
  cases refused with
  | none => exact ⟨fun _ => h, fun hno => absurd rfl hno⟩
  | some error =>
    refine ⟨fun hno => (by cases hno), fun _ => ?_⟩
    obtain ⟨b, hb, rfl⟩ := h
    have hpermitted : Permitted (.write (.updateChunk completed) false) b :=
      hb.permitted (by show isStoppedChunk completed.state = false; rw [hcompleted]; rfl) fun hno => by cases hno
    exact hb.sound.noted (fun hmoment => by cases hmoment) hpermitted (fun chunks hplan => by cases hplan) rfl

/-- What a chunk that is finalized comes to: it is committed, or there is the text of an error. -/
def Finalized (w : World) (failed : Option QString) (s : Coordinator) : Prop :=
  (failed = none → Going w .answered (fun p => p.Answered ∧ Between p.chunks p.current ∧ p.plan ≠ []) s) ∧
    (failed ≠ none → Sound w s)

omit hw in
theorem ensures_notFinalized (error : QString) :
    Ensures (Sound w) (pure (some error) : Task (Option QString)) (Finalized w) E S :=
  ensures_pure fun _ h => ⟨fun hno => (by cases hno), fun _ => h⟩

/-- **The current chunk is completed.** -/
theorem ensures_completeChunk {index : Nat} {chunk completed : JobChunk} (hid : completed.id = chunk.id)
    (hcompleted : completed.state = .completed) :
    Ensures (Going w .between (Place.Transcribes index chunk)) (completeChunk w index completed) (Finalized w) E
      (Sound w) := by
  refine ensures_bind (ensures_writeCompletion hcompleted) fun refused => ?_
  cases refused with
  | some error => exact (ensures_notFinalized _).pre fun _ h => h.2 fun hno => by cases hno
  | none =>
    refine ensures_bind (Q := fun _ => Going w .answered fun p => p.Answered ∧ Between p.chunks p.current ∧
      p.plan ≠ []) (ensures_update fun s h => ?_) fun _ => ensures_start fun c hc => ?_
    · obtain ⟨b, hb, rfl⟩ := h.1 rfl
      obtain ⟨hanswered, hkind, hcurrent, hchunk⟩ := hb.place
      have hfits := hb.fits hanswered.1
      have hkind' : b.requestKind = .TranscribeChunk := hkind
      rw [hkind'] at hfits
      obtain ⟨hlt, -⟩ := List.getElem?_eq_some_iff.mp hchunk
      have hcommitted := (hb.imp fun h => ⟨h.1.1, h.2.1⟩).committed hcurrent hchunk hid hcompleted
      refine ⟨{ hcommitted with }, hb.active, hb.undecided, hanswered, fun other hother => ?_, fun hnone => ?_⟩
      · obtain rfl : index = other := Option.some.inj (hcurrent.symm.trans hother)
        exact ⟨_, List.getElem?_set_self hlt, hcompleted⟩
      · exact hfits.2 ((planOf_concat ..).symm.trans hnone)
    · refine ensures_bind (ensures_here hc (ensures_advanceProgress hw (fun hmoment => by cases hmoment) _ _ _))
        fun saved => ?_
      refine ensures_ite (fun hsaved => ?_) fun hsaved => ?_
      · exact ensures_pure fun s h => ⟨fun _ => h.1 hsaved, fun hno => absurd rfl hno⟩
      · exact (ensures_notFinalized _).pre fun s h => h.2 (by simpa using hsaved)

/-- **The current chunk is finalized.** -/
theorem ensures_finalizeCurrentChunk (index : Nat) (chunk : JobChunk) :
    Ensures (Going w .between (Place.Transcribes index chunk)) (finalizeCurrentChunk w index chunk) (Finalized w) E
      (Sound w) := by
  refine ensures_bind ensures_askGoing fun answer => ?_
  cases answer with
  | error error => exact (ensures_notFinalized _).pre fun _ h => h.sound
  | ok allSegments =>
    refine ensures_start fun a ha => ensures_here ha ?_
    refine ensures_bind (Q := fun _ => Going w .between (Place.Transcribes index chunk)) (ensures_update fun s h =>
      ⟨{ h.sound with names := h.sound.names.mono (Nat.le_succ _) }, h.active, h.undecided, h.place⟩) fun _ => ?_
    refine ensures_bind (ensures_plain (fun hmoment => by cases hmoment) rfl) fun refused => ?_
    cases refused with
    | some error => exact (ensures_notFinalized _).pre fun _ h => h.sound
    | none => exact ensures_bind ensures_askGoing fun now => ensures_completeChunk hw rfl rfl

/-- **The worker has completed the current chunk.** -/
theorem ensures_handleChunkCompleted (index : Nat) (chunk : JobChunk) (payload : QCborMap) :
    Ensures (Going w .between (Place.Transcribes index chunk)) (handleChunkCompleted w index chunk payload)
      (fun _ => Sound w) E (Sound w) := by
  refine ensures_bind (Q := fun _ => Going w .between (Place.Transcribes index (chunkDiagnostics payload chunk)))
    (ensures_update fun s h => ?_) fun _ => ?_
  · obtain ⟨hanswered, hkind, hcurrent, hchunk⟩ := h.place
    have hfits := h.fits hanswered.1
    have hkind' : s.requestKind = .TranscribeChunk := hkind
    rw [hkind'] at hfits
    obtain ⟨other, there, hother, hthere, hopen⟩ := hfits.1.resolve_left fun hmoment => hmoment rfl
    obtain rfl := Option.some.inj (hcurrent.symm.trans hother)
    cases hchunk.symm.trans hthere
    obtain ⟨hlt, -⟩ := List.getElem?_eq_some_iff.mp hchunk
    exact ⟨h.sound.setChunk hcurrent hchunk rfl hopen hopen, h.active, h.undecided, hanswered, hkind, hcurrent,
      List.getElem?_set_self hlt⟩
  · refine ensures_bind (ensures_finalizeCurrentChunk hw index _) fun failed => ?_
    cases failed with
    | some error => exact (keeps_failActiveJob hw _ _).pre fun _ h => h.2 fun hno => by cases hno
    | none =>
      refine ensures_bind (Q := fun _ => Going w .between Place.AtBoundary) (ensures_update fun s h => ?_) fun _ => ?_
      · have hgoing := h.1 rfl
        have hforgotten := hgoing.forgotten (fun hmoment => by cases hmoment) hgoing.place.1
        exact ⟨hforgotten.sound, hgoing.active, hgoing.undecided, hforgotten.place, hgoing.place.2⟩
      · refine ensures_start fun c hc => ensures_here (P := Going w .between fun p => p.AtBoundary ∧
          p.jobId = c.activeJob.id ∧ p.ownerToken = c.ownerToken) (hc.imp fun h => ⟨h, rfl, rfl⟩) ?_
        exact ensures_postFor rfl (fun hactive => by simp [carries, hactive]) (fun p h => ⟨h.1, h.2⟩)
          fun _ _ _ hsame => by cases hsame

/-- What the worker sends about a chunk. -/
theorem ensures_handleTranscription (envelope : Envelope) :
    Ensures (Going w .between fun p => p.Waits ∧ p.kind = .TranscribeChunk ∧
        (endsRequest envelope.type = true → p.serving = []))
      (handleTranscription w envelope) (fun _ => Sound w) E (Sound w) := by
  unfold handleTranscription
  refine ensures_start fun a ha => ?_
  cases hcurrent : a.currentChunkIndex with
  | none => exact ensures_pure fun s hs => hs ▸ ha.sound
  | some index =>
    dsimp only
    cases hchunk : a.chunks[index]? with
    | none => exact ensures_pure fun s hs => hs ▸ ha.sound
    | some chunk =>
      have hcompleted : endsRequest envelope.type = true →
          Ensures (fun s => s = a) (handleChunkCompleted w index chunk envelope.payload) (fun _ => Sound w) E
            (Sound w) := fun hends =>
        ensures_here (ha.imp fun h => ⟨⟨h.1, h.2.2 hends⟩, h.2.1, hcurrent, hchunk⟩)
          (ensures_handleChunkCompleted hw index chunk _)
      cases htype : envelope.type with
      | Progress =>
        exact ensures_here ha ((ensures_advanceOrReturn hw _ _ _).imp (fun _ h => h) (fun _ _ h => h.sound)
          (fun _ h => h) fun _ h => h)
      | PartialSegment => exact ensures_here ha (ensures_handlePartialSegment hw chunk _)
      | ChunkCompleted => exact hcompleted (by rw [htype]; rfl)
      | TranscriptionCompleted => exact hcompleted (by rw [htype]; rfl)
      | _ => exact ensures_pure fun s hs => hs ▸ ha.sound

/-! ## Any message -/

/-- **A message of the worker**, whatever it is about. -/
theorem ensures_handleWorkerEnvelope (envelope : Envelope) (hid : envelope.requestId ≠ []) :
    Ensures (fun s => Sound w s ∧ (endsRequest envelope.type = true → envelope.requestId ∉ s.worker.serving))
      (handleWorkerEnvelope w envelope) (fun _ => Sound w) E (Sound w) := by
  unfold handleWorkerEnvelope
  refine ensures_start fun a ha => ?_
  obtain ⟨hsound, hended⟩ := ha
  refine ensures_ite (fun _ => ensures_pure fun s hs => hs ▸ hsound) fun hmine => ?_
  obtain ⟨hbelongs, hpending⟩ := not_or.mp hmine
  unfold belongsToRequest at hbelongs
  simp only [Bool.not_eq_false, Bool.and_eq_true, decide_eq_true_eq] at hbelongs
  obtain ⟨⟨hactive, hsame⟩, -⟩ := hbelongs
  -- the worker has no request but the one that the message is for
  have hquiet : endsRequest envelope.type = true → a.worker.serving = [] := fun hends =>
    List.eq_nil_iff_forall_not_mem.mpr fun request hmem => by
      obtain ⟨rfl, -⟩ := hsound.barrier.serving request hmem
      exact hended hends (hsame ▸ hmem)
  have ha : Going w .between (fun p => p.Waits ∧ (endsRequest envelope.type = true → p.serving = [])) a :=
    ⟨hsound, hactive, not_not.mp hpending, fun hnone => hid (hsame.trans hnone), hquiet⟩
  refine ensures_ite (fun htype => ?_) fun _ => ensures_ite (fun hkind => ?_) fun _ => ensures_ite (fun _ => ?_)
    fun _ => ?_
  · refine ensures_here ?_ (ensures_handleError hw _)
    exact ha.imp fun h => ⟨h.1, h.2 (by rw [htype]; rfl)⟩
  · refine ensures_here ?_ (ensures_handleCapabilities hw envelope)
    have hidle : a.worker.serving = [] := hsound.idle_worker (Bool.eq_false_iff.mpr fun hrun => by
      have huses := (mayStillRun_iff.mp hrun).2
      rw [hkind] at huses
      cases huses)
    exact ha.imp fun h => ⟨⟨h.1, hidle⟩, hkind⟩
  · refine ensures_here hsound (ensures_ite (fun _ => ?_) fun _ => keeps_failActiveJob hw _ _)
    exact (ensures_finishCancellation hw).pre fun _ h => Sound.nearly h
  · cases hkind : a.requestKind with
    | AnalyzeSpeech =>
      refine ensures_here ?_ (ensures_handleAnalysis hw envelope)
      exact ha.imp fun h => ⟨h.1, hkind, fun htype => h.2 (by rw [htype]; rfl)⟩
    | LoadModel =>
      refine ensures_ite (fun htype => ?_) fun _ => ensures_pure fun s hs => hs ▸ hsound
      refine ensures_here ?_ (ensures_handleModelLoaded hw _)
      exact ha.imp fun h => ⟨⟨h.1, h.2 (by rw [htype]; rfl)⟩, hkind⟩
    | TranscribeChunk =>
      refine ensures_here ?_ (ensures_handleTranscription hw envelope)
      exact ha.imp fun h => ⟨h.1, hkind, h.2⟩
    | None | GetCapabilities => exact ensures_pure fun s hs => hs ▸ hsound

end Messages

end BreezeDesk.TranscriptionCoordinator
