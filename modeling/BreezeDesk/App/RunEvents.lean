/-
  The invariant over whole runs of the coordinator.

  1. **One event** keeps the invariant (`ensures_handle`, `step_sound`): one lemma for each handler of the
     application, of the worker process and of the timers.  Two kinds of events come with a condition
     (`Admissible`): the worker answers under ids that were drawn, and an interruption that is tried again finds
     no request in the worker.
  2. **Any run** from the start keeps it (`sound_run`), whatever the order of its events.
-/
import BreezeDesk.App.RunCallbacks

namespace BreezeDesk.TranscriptionCoordinator

open App Effect Ipc Ledger Runs Worker

variable {w : World} {E S : Coordinator → Prop} {s : Coordinator}

/-! ## The requests in the worker -/

/-- A request is answered, and what is remembered of it. -/
def observed (envelope : Envelope) (s : Coordinator) : Coordinator :=
  { s with
    worker := { s.worker with serving := s.worker.serving.filter (· ≠ envelope.requestId) }.remember
      (envelope.jobId, envelope.requestId) }

theorem remember_fields (key : QString × QString) (m : WorkerProcess) :
    ∃ terminalRequests, m.remember key = { m with terminalRequests } ∧
      ∀ other ∈ terminalRequests, other ∈ m.terminalRequests ∨ other = key := by
  unfold WorkerProcess.remember
  split
  · exact ⟨m.terminalRequests, rfl, fun other hmem => Or.inl hmem⟩
  · refine ⟨_, rfl, fun other hmem => ?_⟩
    rcases List.mem_append.mp (List.mem_of_mem_drop hmem) with hold | hnew
    · exact Or.inl hold
    · exact Or.inr (List.mem_singleton.mp hnew)

theorem mem_observed_serving {envelope : Envelope} {request : QString} :
    request ∈ (observed envelope s).worker.serving ↔ request ∈ s.worker.serving ∧ request ≠ envelope.requestId := by
  obtain ⟨remembered, hsame, -⟩ := remember_fields (envelope.jobId, envelope.requestId)
    { s.worker with serving := s.worker.serving.filter (· ≠ envelope.requestId) }
  unfold observed
  rw [hsame]
  simp

/-- An answer takes its request out of the worker. -/
theorem Sound.observed {envelope : Envelope} (h : Sound w s) (hdrawn : Drawn w s.drawn envelope.requestId) :
    Sound w (observed envelope s) := by
  obtain ⟨remembered, hsame, hold⟩ := remember_fields (envelope.jobId, envelope.requestId)
    { s.worker with serving := s.worker.serving.filter (· ≠ envelope.requestId) }
  have hshrinks : ∀ request ∈ s.worker.serving.filter (· ≠ envelope.requestId), request ∈ s.worker.serving ∧
      request ≠ envelope.requestId := fun request hmem => by simpa using hmem
  have hsome : s.worker.serving.filter (· ≠ envelope.requestId) ≠ [] → s.worker.serving ≠ [] := by
    intro hne hnil
    rw [hnil] at hne
    exact hne rfl
  unfold TranscriptionCoordinator.observed
  rw [hsame]
  exact { h with
    barrier := {
      serving := fun request hmem => h.barrier.serving request (hshrinks request hmem).1
      up := h.barrier.up
      alive := fun hne => h.barrier.alive (hsome hne)
      answered := fun key hmem hserving => by
        obtain ⟨hthere, hother⟩ := hshrinks key.2 hserving
        rcases hold key hmem with hkey | rfl
        · exact h.barrier.answered key hkey hthere
        · exact hother rfl
      waits := h.barrier.waits
      forced := fun hpending hne => h.barrier.forced hpending (hsome hne)
      known := fun hconfirmed => by
        obtain ⟨hpending, hnil⟩ := h.barrier.known hconfirmed
        exact ⟨hpending, by rw [hnil]; rfl⟩ }
    names := { h.names with
      terminal := fun key hmem => by
        rcases hold key hmem with hkey | rfl
        · exact h.names.terminal key hkey
        · exact hdrawn } }

/-- The cancellation that the answer settles is that of the request that was waited for. -/
theorem Sound.observed_quiet {envelope : Envelope} (h : Sound w s)
    (hforced : s.worker.forcedCancellation = some (envelope.jobId, envelope.requestId))
    (hpending : s.pendingTerminalAction ≠ .None) :
    (TranscriptionCoordinator.observed envelope s).worker.serving = [] := by
  refine List.eq_nil_iff_forall_not_mem.mpr fun request hmem => ?_
  obtain ⟨hthere, hother⟩ := mem_observed_serving.mp hmem
  obtain ⟨job, hjob⟩ := h.barrier.forced hpending (List.ne_nil_of_mem hthere)
  have hsame : envelope.requestId = s.requestId := by
    rw [hforced] at hjob
    exact congrArg Prod.snd (Option.some.inj hjob)
  exact hother ((h.barrier.serving request hthere).1.trans hsame.symm)

theorem leaves_settleForcedCancellation : Leaves (settleForcedCancellation w) := by
  refine leaves_bind (leaves_view _) fun s => leaves_ite ?_ (leaves_pure _)
  exact leaves_bind (leaves_update fun _ => rfl) fun _ => leaves_finishPendingTerminalCheckpoint

theorem leaves_checkpointInterruption (reason : QString) : Leaves (checkpointInterruption w reason) :=
  leaves_bind (leaves_view _) fun _ => leaves_checkpoint _ _ _ _ _ leaves_scheduleLeaseRetry

theorem leaves_interruptActiveJob (reason : QString) : Leaves (interruptActiveJob w reason) := by
  refine leaves_bind (leaves_update fun _ => rfl) fun _ => leaves_bind (leaves_view _) fun s => ?_
  refine leaves_ite (leaves_pure _) (leaves_ite ?_ ?_)
  · exact leaves_bind (leaves_update fun _ => rfl) fun _ => leaves_finishPendingTerminalCheckpoint
  · refine leaves_bind leaves_activeExecutionLeaseLost fun _ => leaves_ite (leaves_abandonActiveJob _) ?_
    exact leaves_bind leaves_durableCancellationWins fun _ =>
      leaves_ite leaves_checkpointCancellation (leaves_checkpointInterruption reason)

theorem Sound.quiet_of_down (h : Sound w s) (hdown : ¬ s.worker.running = true) : s.worker.serving = [] := by
  by_contra hserving
  exact hdown (h.barrier.alive hserving).1

/-- A process that has ended has no requests. -/
theorem gone_workerExited (reason : QString) :
    Ensures (Sound w) (workerExited w reason) (fun _ s => s.worker.serving = []) (fun s => s.worker.serving = [])
      (fun s => s.worker.serving = []) := by
  unfold workerExited
  refine ensures_start fun a ha => ensures_ite (fun _ => ?_) fun hdown => ensures_pure fun s hs => ?_
  · refine ensures_bind (Q := fun _ s => s.worker.serving = []) (ensures_update fun _ _ => rfl) fun _ => ?_
    exact ensures_ite (fun _ => leaves_settleForcedCancellation []) fun _ => leaves_interruptActiveJob reason []
  · rw [hs]
    exact ha.quiet_of_down hdown

/-- A connection that is made was not there before, so that the process had no request yet. -/
theorem Sound.connected (h : Sound w s) (hrunning : s.worker.running = true) :
    Sound w { s with worker := { s.worker with ready := true } } :=
  { h with barrier := { h.barrier with
      up := fun _ => hrunning
      alive := fun hserving => ⟨(h.barrier.alive hserving).1, fun _ => rfl⟩ } }

theorem Sound.disconnects (h : Sound w s) (runtimeAvailability : RuntimeAvailability) :
    Sound w { s with runtimeAvailability, worker := { s.worker with ready := false, connecting := false } } :=
  { h with barrier := { h.barrier with
      up := fun hready => by cases hready
      alive := fun hserving => ⟨(h.barrier.alive hserving).1, fun hconnecting => by cases hconnecting⟩ } }

theorem Sound.exited (h : Sound w s) : Sound w (exitWorker s) :=
  { h with barrier := {
      serving := fun request hmem => by cases hmem
      up := fun hready => by cases hready
      alive := fun hserving => absurd rfl hserving
      answered := fun key _ hmem => by cases hmem
      waits := h.barrier.waits
      forced := fun _ hserving => absurd rfl hserving
      known := fun hconfirmed => ⟨(h.barrier.known hconfirmed).1, rfl⟩ } }

theorem Sound.uuidDrawn (h : Sound w s) : Sound w { s with drawn := s.drawn + 1 } :=
  { h with names := h.names.mono (Nat.le_succ _) }

/-! ## One lemma for each handler -/

section Handlers

variable (hw : w.Fresh)
include hw

theorem ensures_settleForcedCancellation :
    Ensures (fun s => Sound w s ∧ (s.worker.forcedCancellation.isSome = true → s.pendingTerminalAction ≠ .None →
        s.worker.serving = []))
      (settleForcedCancellation w) (fun _ => Sound w) E (Sound w) := by
  unfold settleForcedCancellation
  refine ensures_start fun a ha => ensures_ite (fun hforced => ?_) fun _ => ensures_pure fun s hs => hs ▸ ha.1
  refine ensures_here (P := fun s => Sound w s ∧ (s.pendingTerminalAction ≠ .None → s.worker.serving = []))
    ⟨ha.1, ha.2 hforced⟩ ?_
  exact ensures_bind (ensures_update fun s hs => ⟨hs.1.settled hs.2, hs.2⟩) fun _ =>
    ensures_finishPendingTerminalCheckpoint hw

theorem ensures_observeEnvelope (envelope : Envelope) :
    Ensures (fun s => Sound w s ∧ Drawn w s.drawn envelope.requestId) (observeEnvelope w envelope)
      (fun _ s => Sound w s ∧ (endsRequest envelope.type = true → envelope.requestId ∉ s.worker.serving)) E
      (Sound w) := by
  unfold observeEnvelope
  refine ensures_ite (fun hends => ?_) fun hnot => ensures_pure fun s hs => ⟨hs.1, fun hends => ?_⟩
  · refine ensures_bind (Q := fun _ s => Sound w s ∧ envelope.requestId ∉ s.worker.serving ∧
        (s.worker.forcedCancellation = some (envelope.jobId, envelope.requestId) →
          s.pendingTerminalAction ≠ .None → s.worker.serving = [])) (ensures_update fun s hs => ?_) fun _ => ?_
    · refine ⟨hs.1.observed hs.2, fun hmem => (mem_observed_serving.mp hmem).2 rfl, fun hforced hpending => ?_⟩
      obtain ⟨remembered, hsame, -⟩ := remember_fields (envelope.jobId, envelope.requestId)
        { s.worker with serving := s.worker.serving.filter (· ≠ envelope.requestId) }
      rw [hsame] at hforced
      exact hs.1.observed_quiet hforced hpending
    · refine ensures_start fun a ha => ensures_ite (fun hforced => ?_) fun _ =>
        ensures_pure fun s hs => hs ▸ ⟨ha.1, fun _ => ha.2.1⟩
      refine ((ensures_settleForcedCancellation hw).and (leaves_settleForcedCancellation a.worker.serving)).imp
        (fun s (hs : s = a) => ?_) (fun _ s hs => ⟨hs.1, fun _ => ?_⟩) (fun s hs => hs.1) fun s hs => hs.1
      · rw [hs]
        exact ⟨⟨ha.1, fun _ => ha.2.2 hforced⟩, rfl⟩
      · rw [hs.2]
        exact ha.2.1
  · exact absurd ⟨hends, hs.2.ne_nil hw⟩ hnot

/-- **A message of the worker.** -/
theorem ensures_receiveEnvelope (envelope : Envelope) :
    Ensures (fun s => Sound w s ∧ Drawn w s.drawn envelope.requestId) (receiveEnvelope w envelope)
      (fun _ => Sound w) (Sound w) (Sound w) := by
  unfold receiveEnvelope
  refine ensures_start fun a ha => ensures_ite (fun _ => ?_) fun _ => ensures_pure fun s hs => hs ▸ ha.1
  exact ensures_here ha (ensures_bind (ensures_observeEnvelope hw envelope) fun _ =>
    ensures_handleWorkerEnvelope hw envelope (ha.2.ne_nil hw))

theorem ensures_workerReady : Ensures (Sound w) (workerReady w) (fun _ => Sound w) E (Sound w) := by
  unfold workerReady
  refine ensures_start fun a ha => ensures_ite (fun hconnects => ?_) fun _ => ensures_pure fun s hs => hs ▸ ha
  obtain ⟨hrunning, hconnecting, hunready⟩ := hconnects
  have hquiet : a.worker.serving = [] := by
    by_contra hserving
    rw [(ha.barrier.alive hserving).2 hconnecting] at hunready
    cases hunready
  refine ensures_bind (Q := fun _ s => Sound w s ∧ (s.worker.forcedCancellation.isSome = true →
    s.pendingTerminalAction ≠ .None → s.worker.serving = [])) (ensures_update fun s hs => ?_) fun _ => ?_
  · rw [hs]
    exact ⟨ha.connected hrunning, fun _ _ => hquiet⟩
  · exact ensures_ite (fun _ => ensures_settleForcedCancellation hw) fun _ => ensures_pure fun s hs => hs.1

theorem ensures_workerExited (reason : QString) :
    Ensures (Sound w) (workerExited w reason) (fun _ => Sound w) E (Sound w) := by
  unfold workerExited
  refine ensures_start fun a ha => ensures_here ha (ensures_ite (fun _ => ?_) fun _ => ensures_pure fun _ h => h)
  refine ensures_bind (Q := fun _ s => Sound w s ∧ s.worker.serving = [])
    (ensures_update fun s h => ⟨h.exited, rfl⟩) fun _ => ?_
  exact ensures_ite (fun _ => (ensures_settleForcedCancellation hw).pre fun s hs => ⟨hs.1, fun _ _ => hs.2⟩)
    fun _ => ensures_interruptActiveJob hw reason

/-- A process that is stopped has no connection attempts left, or no request. -/
theorem ensures_stopWorker (exits : Bool) (reason : QString) :
    Ensures (Sound w) (stopWorker w exits reason) (fun _ => Sound w) E (Sound w) := by
  unfold stopWorker
  refine ensures_bind (Q := fun _ s => Sound w s ∧ s.worker.connecting = false) (ensures_update fun s h => ?_)
    fun _ => ?_
  · exact ⟨{ h with barrier := { h.barrier with
      alive := fun hserving => ⟨(h.barrier.alive hserving).1, fun hconnecting => by cases hconnecting⟩ } }, rfl⟩
  refine ensures_bind (Q := fun _ s => Sound w s ∧ (s.worker.connecting = true → s.worker.serving = []))
    (ensures_onlyIf (fun _ => ?_) fun s hs => ⟨hs.1, fun hconnecting => ?_⟩) fun _ => ?_
  · exact ((ensures_workerExited hw reason).and (gone_workerExited reason)).imp (fun s hs => ⟨hs.1, hs.1⟩)
      (fun _ s hs => ⟨hs.1, fun _ => hs.2⟩) (fun s hs => hs.1) fun s hs => hs.1
  · rw [hs.2] at hconnecting
    cases hconnecting
  refine ensures_bind (Q := fun _ s => Sound w s ∧ (s.worker.running = false → s.worker.serving = []))
    (ensures_update fun s hs => ?_) fun _ => ?_
  · have hgone : s.worker.running = false → s.worker.serving = [] := fun hdown =>
      hs.1.quiet_of_down (Bool.eq_false_iff.mp hdown)
    exact ⟨{ hs.1 with barrier := { hs.1.barrier with
      up := fun hready => by cases hready
      alive := fun hserving => ⟨(hs.1.barrier.alive hserving).1, fun hconnecting =>
        absurd (hs.2 hconnecting) hserving⟩ } }, hgone⟩
  refine ensures_start fun a ha => ensures_ite (fun hdown => ?_) fun _ => ensures_pure fun s hs => hs ▸ ha.1
  exact ensures_here ⟨ha.1, fun _ _ => ha.2 hdown⟩ (ensures_settleForcedCancellation hw)

/-! ## Calls of the application -/

omit hw in
theorem ensures_setUp : Ensures (Sound w) (setUp w) (fun _ => Sound w) E S := by
  unfold setUp
  refine ensures_start fun a ha => ensures_here ha (ensures_ite (fun _ => ensures_pure fun _ h => h) fun _ => ?_)
  refine ensures_bind (ensures_ask fun s h _ => h.asked) fun answer => ?_
  cases answer with
  | error error => exact ensures_pure fun _ h => h
  | ok _ => exact ensures_bind (ensures_update fun s h => { h with }) fun _ => keeps_postScheduleNext

theorem ensures_cancel (jobId : QString) : Ensures (Sound w) (cancel w jobId) (fun _ => Sound w) E (Sound w) := by
  unfold cancel
  refine ensures_bind (ensures_ask fun s h _ => h.asked) fun answer => ?_
  cases answer with
  | error error => exact ensures_pure fun _ h => h
  | ok found =>
    cases found with
    | none => exact ensures_pure fun _ h => h
    | some job =>
      refine ensures_bind (ensures_ask fun s h _ => h.asked) fun refused => ?_
      refine ensures_ite (fun _ => ensures_pure fun _ h => h) fun _ => ?_
      refine ensures_start fun a ha => ensures_here ha (ensures_ite (fun _ => ?_) fun _ => ensures_pure fun _ h => h)
      exact ensures_bind (ensures_update fun s h => h.cancelling) fun _ =>
        ensures_ite (fun _ => ensures_abortActiveOperation hw) fun _ => ensures_pure fun _ h => h

theorem ensures_observeCancellation :
    Ensures (Sound w) (observeCancellation w) (fun _ => Sound w) E (Sound w) := by
  refine ensures_bind (ensures_ask fun s h _ => h.asked) fun answer => ?_
  cases answer with
  | error error => exact ensures_pure fun _ h => h
  | ok found =>
    cases found with
    | none => exact ensures_pure fun _ h => h
    | some job =>
      refine ensures_ite (fun _ => ?_) fun _ => ensures_pure fun _ h => h
      refine ensures_start fun a ha => ensures_here ha ?_
      exact ensures_bind (ensures_update fun s h => h.cancelling) fun _ =>
        ensures_ite (fun _ => ensures_abortActiveOperation hw) fun _ => ensures_pure fun _ h => h

theorem ensures_renewActiveLease : Ensures (Sound w) (renewActiveLease w) (fun _ => Sound w) E (Sound w) := by
  unfold renewActiveLease
  refine ensures_start fun a ha => ensures_here ha ?_
  refine ensures_ite (fun _ => ensures_update fun s h => { h with }) fun _ => ?_
  refine ensures_bind (ensures_observeCancellation hw) fun _ => ?_
  refine ensures_start fun b hb => ensures_here hb (ensures_ite (fun _ => ensures_pure fun _ h => h) fun _ => ?_)
  refine ensures_bind (ensures_ask fun s h _ => h.asked) fun refused => ?_
  exact ensures_ite (fun _ => keeps_abandon hw _) fun _ => ensures_pure fun _ h => h

omit hw in
/-- While a callback goes on with the run, the worker has no request. -/
theorem Sound.halts (h : Sound w s) (hactive : s.activeJob.id ≠ [])
    (hidle : s.requestId = [] ∨ activeWorkerRequestMayStillRun s = false) : Halts false s := by
  have hnone : activeWorkerRequestMayStillRun s = false := by
    rcases hidle with hrequest | hnone
    · exact Bool.eq_false_iff.mpr fun hrun => (mayStillRun_iff.mp hrun).1 hrequest
    · exact hnone
  have hpending := SoundBut.not_pending h hnone
  refine ⟨SoundBut.idle_worker h hnone, hactive, ?_, fun _ => ?_⟩
  · rw [hpending]
    intro habandon
    cases habandon
  · rw [hpending]
    intro hcancel
    cases hcancel

omit hw in
theorem Sound.no_request {callback : Callback} (h : Sound w s) (hmem : callback ∈ s.callbacks)
    (hcarries : carries s.activeJob.id s.ownerToken callback = true) : s.requestId = [] := by
  by_contra hsome
  have hone := h.tokens.one
  rw [if_neg hsome] at hone
  have hpos : 0 < s.callbacks.countP (carries s.activeJob.id s.ownerToken) := List.countP_pos_iff.mpr
    ⟨callback, hmem, hcarries⟩
  omega

omit hw in
theorem Sound.normalizing (h : Sound w s) (hactive : s.activeJob.id ≠ []) (hrunning : normalizationRunning s = true) :
    s.requestId = [] := by
  unfold normalizationRunning at hrunning
  split at hrunning
  · rename_i operation hoperation
    obtain ⟨callback, hmem, hkind⟩ := List.any_eq_true.mp hrunning
    cases callback with
    | normalizationFinished other jobId ownerToken =>
      obtain rfl : other = operation := of_decide_eq_true hkind
      obtain ⟨rfl, rfl⟩ := h.background.mine other jobId ownerToken hoperation hmem
      exact h.no_request hmem (by simp [carries, hactive])
    | _ => cases hkind
  · cases hrunning

/-- **Closing the application.** -/
theorem ensures_shutdown : Ensures (Sound w) (shutdown w) (fun _ => Sound w) E (Sound w) := by
  unfold shutdown
  refine ensures_start fun a ha => ensures_ite (fun _ => ensures_pure fun s hs => hs ▸ ha) fun _ => ?_
  have hclosing : Sound w { a with shuttingDown := true, pauseAfterCurrent := true } := { ha with }
  refine ensures_bind (Q := fun _ s => s = { a with shuttingDown := true, pauseAfterCurrent := true })
    (ensures_update fun s hs => by rw [hs]) fun _ => ?_
  refine ensures_ite (fun _ => ensures_update fun s hs => ?_) fun hactive => ?_
  · rw [hs]
    exact { ha with }
  refine ensures_ite (fun hrunning => ?_) fun _ => ensures_ite (fun hwaveform => ?_) fun _ => ?_
  · exact ensures_here ⟨hclosing, hclosing.halts hactive (Or.inl (ha.normalizing hactive hrunning))⟩
      (ensures_checkpointInterruption hw _)
  · obtain ⟨callback, hmem, -, hcarries⟩ := ha.background.carried (Option.isSome_iff_ne_none.mp hwaveform)
    have hrequest := ha.no_request hmem hcarries
    refine ensures_bind (Q := fun _ => Stops w false) (ensures_update fun s hs => ?_) fun _ =>
      ensures_checkpointInterruption hw _
    rw [hs]
    have hcancelled : Sound w (cancelWaveform { a with shuttingDown := true, pauseAfterCurrent := true }) :=
      { ha with }
    exact ⟨hcancelled, hcancelled.halts hactive (Or.inl hrequest)⟩
  · refine ensures_ite (fun hrun => ?_) fun hidle => ?_
    · refine ensures_bind (Q := fun _ s => Sound w s ∧ activeWorkerRequestMayStillRun s = true ∧
        s.activeJob.id ≠ []) (ensures_ask fun s hs _ => ?_) fun refused => ?_
      · rw [hs]
        exact ⟨hclosing.asked, hrun, hactive⟩
      refine ensures_ite (fun _ => (keeps_abandon hw _).pre fun s hs => hs.1) fun _ => ?_
      refine ensures_bind ((ensures_awaitWorkerQuiescence .Interrupt _ _ fun hsame => by cases hsame).pre
        fun s hs => ⟨hs.1.nearly, hs.2⟩) fun waits => ?_
      refine ensures_ite (fun _ => ensures_pure fun s hs => hs.1) fun hdone => ?_
      exact (ensures_finishPendingTerminalCheckpoint hw).pre fun s hs =>
        ⟨hs.1, fun _ => hs.2.2 (by simpa using hdone)⟩
    · exact ensures_here ⟨hclosing, hclosing.halts hactive (Or.inr (Bool.eq_false_iff.mpr hidle))⟩
        (ensures_checkpointInterruption hw _)

end Handlers

/-! ## One event -/

/-- The worker answers requests under ids that were drawn.  An interruption that is tried again finds no request
    in the worker: the source does not see to this when the run has gone on in between. -/
def Admissible (w : World) (s : Coordinator) : Event → Prop
  | .envelope envelope => Drawn w s.drawn envelope.requestId
  | .fire index _ => (s.callbacks[index]?).any Callback.isInterruption = true → s.worker.serving = []
  | _ => True

instance drawnDecidable (drawn : Nat) (id : QString) : Decidable (Drawn w drawn id) :=
  decidable_of_iff ((List.range drawn).any fun n => w.uuid n = id) (by simp [Drawn])

instance admissibleDecidable (s : Coordinator) : ∀ event, Decidable (Admissible w s event)
  | .envelope envelope => inferInstanceAs (Decidable (Drawn w s.drawn envelope.requestId))
  | .fire index _ =>
    inferInstanceAs (Decidable ((s.callbacks[index]?).any Callback.isInterruption = true → s.worker.serving = []))
  | .setUp | .shutdown | .jobQueued | .cancel _ | .setPauseAfterCurrent _ | .setExternalWorkerReserved _
  | .invalidateLoadedModel | .leaseHeartbeat | .leaseRetry | .normalizationProgress .. | .workerStarted
  | .workerNotStarted | .workerReady | .channelFailed | .workerExited _ | .stopWorker .. | .uuidDrawn => isTrue trivial

/-- **One event** keeps the invariant. -/
theorem ensures_handle (hw : w.Fresh) (event : Event) :
    Ensures (fun s => Sound w s ∧ Admissible w s event) (handle w event) (fun _ => Sound w) (Sound w) (Sound w) := by
  cases event with
  | setUp => exact ensures_setUp.pre fun s hs => hs.1
  | shutdown => exact (ensures_shutdown hw).pre fun s hs => hs.1
  | jobQueued => exact (ensures_scheduleNext hw).pre fun s hs => hs.1
  | cancel jobId => exact (ensures_cancel hw jobId).pre fun s hs => hs.1
  | setPauseAfterCurrent enabled =>
    refine ensures_bind (Q := fun _ => Sound w) (ensures_update fun s hs => { hs.1 with }) fun _ => ?_
    exact ensures_ite (fun _ => ensures_pure fun _ h => h) fun _ => ensures_scheduleNext hw
  | setExternalWorkerReserved reserved =>
    refine ensures_start fun a ha => ensures_here ha.1 ?_
    refine ensures_bind (Q := fun _ => Sound w) (ensures_update fun s h => { h with }) fun _ => ?_
    exact ensures_ite (fun _ => ensures_pure fun _ h => h) fun _ => ensures_scheduleNext hw
  | invalidateLoadedModel =>
    refine ensures_update fun s hs => ?_
    split
    · exact { hs.1 with }
    · exact hs.1
  | leaseHeartbeat =>
    refine ensures_start fun a ha => ensures_here ha.1 ?_
    exact ensures_ite (fun _ => ensures_renewActiveLease hw) fun _ => ensures_pure fun _ h => h
  | leaseRetry =>
    refine ensures_start fun a ha => ensures_here ha.1 (ensures_ite (fun _ => ?_) fun _ => ensures_pure fun _ h => h)
    exact ensures_bind (Q := fun _ => Sound w) (ensures_update fun s h => { h with }) fun _ => ensures_scheduleNext hw
  | fire index report =>
    refine (ensures_fire hw index report).pre fun s hs => ⟨hs.1, fun callback hget hagain => hs.2 ?_⟩
    rw [hget]
    exact hagain
  | normalizationProgress index percent progress =>
    exact (ensures_normalizationProgress hw index percent progress).pre fun s hs => hs.1
  | envelope envelope => exact ensures_receiveEnvelope hw envelope
  | workerStarted =>
    refine ensures_update fun s hs => ?_
    split
    · exact hs.1
    · exact hs.1.workerStarted
  | workerNotStarted =>
    refine ensures_update fun s hs => ?_
    split
    · exact hs.1
    · exact hs.1.workerTried
  | workerReady => exact (ensures_workerReady hw).pre fun s hs => hs.1
  | channelFailed =>
    refine ensures_update fun s hs => ?_
    split
    · exact Sound.disconnects hs.1 .Unknown
    · exact hs.1
  | workerExited reason => exact (ensures_workerExited hw reason).pre fun s hs => hs.1
  | stopWorker exits reason => exact (ensures_stopWorker hw exits reason).pre fun s hs => hs.1
  | uuidDrawn => exact ensures_update fun s hs => Sound.uuidDrawn hs.1

theorem step_sound (hw : w.Fresh) : StepKeeps (step w) (Admissible w) (Sound w) := fun _ event h hok =>
  (ensures_handle hw event).state ⟨h, hok⟩

/-! ## Whole runs -/

theorem sound_start : Sound w {} where
  barrier := {
    serving := fun request hmem => by cases hmem
    up := fun hready => by cases hready
    alive := fun hserving => absurd rfl hserving
    answered := fun key hmem => by cases hmem
    waits := fun hpending => absurd rfl hpending
    forced := fun hpending => absurd rfl hpending
    known := fun hconfirmed => by cases hconfirmed }
  names := {
    request := fun hsome => absurd rfl hsome
    owner := fun hsome => absurd rfl hsome
    job := fun hsome => absurd rfl hsome
    callback := fun callback hmem => by cases hmem
    terminal := fun key hmem => by cases hmem
    entry := fun e hmem => by cases hmem }
  tokens := {
    one := by decide
    callback := fun callback hmem => by cases hmem
    request := fun hsome => absurd rfl hsome }
  background := {
    operations := fun _ _ _ hmem => by cases hmem
    mine := fun _ _ _ hsome => by cases hsome
    carried := fun hsome => absurd rfl hsome
    idle := fun _ => ⟨rfl, rfl, rfl, rfl, rfl⟩ }
  cursor := {
    commits := rfl
    rest := rfl
    here := fun index hsome => by cases hsome
    waiting := fun hwaiting => by cases hwaiting }
  books := {
    allowed := justified_nil
    ends := fun e hmem => by cases hmem
    decided := fun e hmem => by cases hmem }

/-- **A whole run** keeps the invariant, whatever the order of its events. -/
theorem sound_run (hw : w.Fresh) {events : List Event} (hok : Guarded (step w) (Admissible w) {} events) :
    Sound w (run (step w) {} events) := run_invariant (step_sound hw) sound_start hok

end BreezeDesk.TranscriptionCoordinator
