/-
  The ends of a run keep the invariant.

  Each function of the source has one rule here, and its callers use it.  The rules go from the hand-over after
  the loss of the lease, which all others may come to, up to `failActiveJob`, which may be called anywhere:

  * `ensures_finishLeaseLossHandoff`, `ensures_abandon`  — the lease is lost;
  * `ensures_stopChunk`, `ensures_checkpointCancellation`, `ensures_checkpoint` — checkpoints, with nothing left in
    the worker;
  * `ensures_finishPendingWith`                          — a pending action, once its request has ended;
  * `keeps_failActiveJob`, `ensures_finishCancellation`, `ensures_interruptActiveJob` — the causes.
-/
import BreezeDesk.App.RunSteps

namespace BreezeDesk.TranscriptionCoordinator

open Effect Ipc Ledger

variable {w : World} {α : Type} {P : Coordinator → Prop} {E S : Coordinator → Prop}

/-! ## Questions -/

theorem ensures_asked {question : Nat → α} {Q : α → Coordinator → Prop}
    (h : ∀ s, P s → Q (question s.calls) { s with calls := s.calls + 1 }) : Ensures P (ask question) Q E S where
  done s hs a s' hrun := by
    cases hrun
    exact h s hs
  failed s _ e s' hrun := by cases hrun
  stopped s _ s' hrun := by cases hrun

/-- Whatever the answer. -/
theorem ensures_ask {question : Nat → α} {Q : α → Coordinator → Prop}
    (h : ∀ s, P s → ∀ a, Q a { s with calls := s.calls + 1 }) : Ensures P (ask question) Q E S :=
  ensures_asked fun s hs => h s hs _

theorem ensures_activeExecutionLeaseLost (hasked : ∀ s, P s → P { s with calls := s.calls + 1 }) :
    Ensures P (activeExecutionLeaseLost w) (fun _ => P) E S := by
  unfold activeExecutionLeaseLost
  refine ensures_start fun a ha => ensures_here ha (ensures_ite (fun _ => ensures_pure fun _ h => h) fun _ => ?_)
  refine ensures_bind (Q := fun _ => P) (ensures_ask fun s h _ => hasked s h) fun answer => ?_
  cases answer with
  | error error => exact ensures_pure fun _ h => h
  | ok lease =>
    cases lease with
    | none => exact ensures_pure fun _ h => h
    | some lease =>
      exact ensures_bind (Q := fun _ => P) (ensures_ask fun s h _ => hasked s h) fun _ =>
        ensures_pure fun _ h => h

theorem ensures_terminalTransitionNeedsRetry (hasked : ∀ s, P s → P { s with calls := s.calls + 1 }) :
    Ensures P (terminalTransitionNeedsRetry w) (fun _ => P) E S := by
  unfold terminalTransitionNeedsRetry
  refine ensures_bind (Q := fun _ => P) (ensures_ask fun s h _ => hasked s h) fun answer => ?_
  cases answer with
  | error error => exact ensures_pure fun _ h => h
  | ok job => cases job <;> exact ensures_pure fun _ h => h

/-- The cancellation that wins is known in memory, too. -/
theorem ensures_durableCancellationWins (hasked : ∀ s, P s → P { s with calls := s.calls + 1 })
    (hcancelling : ∀ s, P s → P (setJobState .cancelling s)) :
    Ensures P (durableCancellationWins w) (fun _ => P) E S := by
  unfold durableCancellationWins
  refine ensures_start fun a ha => ?_
  refine ensures_here ha (ensures_ite (fun _ => ensures_pure fun _ h => h) fun _ => ?_)
  refine ensures_ite (fun _ => ensures_pure fun _ h => h) fun _ => ?_
  refine ensures_bind (Q := fun _ => P) (ensures_ask fun s h _ => hasked s h) fun answer => ?_
  cases answer with
  | error error => exact ensures_pure fun _ h => h
  | ok job =>
    cases job with
    | none => exact ensures_pure fun _ h => h
    | some job =>
      refine ensures_ite (fun _ => ?_) fun _ => ensures_pure fun _ h => h
      exact ensures_bind (Q := fun _ => P) (ensures_update hcancelling) fun _ => ensures_pure fun _ h => h

/-! ## Writes -/

/-- A call that writes something the state permits; only what ends the run leaves a mark. -/
theorem ensures_write {change : Write} {φ : Coordinator → Prop}
    (hpermitted : ∀ s, Sound w s → φ s → ∀ accepted, Permitted (.write change accepted) s)
    (hcommit : ∀ accepted, (Act.write change accepted).commit? = none)
    (hasked : ∀ s, φ s → φ { s with calls := s.calls + 1 }) (hnoted : ∀ s act, φ s → φ (noted act s)) :
    Ensures (fun s => Sound w s ∧ φ s) (write w change)
      (fun refused s => SoundBut w ((Act.write change refused.isNone).leaves .between) s ∧ φ s) E S := by
  unfold write
  refine ensures_bind (Q := fun _ s => Sound w s ∧ φ s)
    (ensures_ask fun s h _ => ⟨h.1.asked, hasked s h.2⟩) fun refused => ?_
  refine ensures_bind (Q := fun _ s => SoundBut w ((Act.write change refused.isNone).leaves .between) s ∧ φ s)
    (ensures_update fun s h => ?_) fun _ => ensures_pure fun s h => h
  exact ⟨h.1.noted (fun hmoment => by cases hmoment) (hpermitted s h.1 h.2 _) (fun chunks hplan => by cases hplan)
    (hcommit _), hnoted s _ h.2⟩

theorem keeps_scheduleLeaseRetry : Ensures (Sound w) scheduleLeaseRetry (fun _ => Sound w) E S := by
  refine ensures_update fun s h => ?_
  split
  · exact h
  · exact { h with }

theorem ensures_postAside {callback : Callback} :
    Ensures (fun s => Sound w s ∧ Aside w callback s) (post callback) (fun _ => Sound w) E S :=
  ensures_update fun _ h => h.1.postedAside h.2

theorem keeps_postScheduleNext : Ensures (Sound w) (post .scheduleNext) (fun _ => Sound w) E S :=
  ensures_postAside.pre fun _ h => ⟨h, fun _ htoken => (by cases htoken), rfl, fun _ _ _ hsame => by cases hsame⟩

/-! ## The loss of the lease -/

section Endings

variable (hw : w.Fresh)
include hw

theorem ensures_finishLeaseLossHandoff {moment : Moment} :
    Ensures (fun s => SoundBut w moment s ∧ s.worker.serving = []) finishLeaseLossHandoff (fun _ => Sound w) E S := by
  refine ensures_bind (Q := fun _ => Sound w) (ensures_update fun s h => ?_) fun _ => keeps_scheduleLeaseRetry
  have hforgotten : SoundBut w moment { s with loadedModel := none } :=
    { h.1 with }
  exact hforgotten.cleared hw h.2

/-- What a checkpoint needs: nothing is left in the worker, and the pending action allows it. -/
structure Halts (cancels : Bool) (s : Coordinator) : Prop where
  quiet : s.worker.serving = []
  active : s.activeJob.id ≠ []
  not_abandoned : s.pendingTerminalAction ≠ .AbandonAfterLeaseLoss
  not_cancelled : cancels = false → s.pendingTerminalAction ≠ .Cancel

abbrev Stops (w : World) (cancels : Bool) (s : Coordinator) : Prop := Sound w s ∧ Halts cancels s

/-- **A pending action**, once its request has ended.  `A` are the actions that can be pending there. -/
theorem ensures_finishPendingWith {A : PendingTerminalAction → Prop} {abandon : QString → Task Unit}
    {fails : QString → QString → Task Unit} {cancels : Task Unit} {interrupts : QString → Task Unit}
    (habandon : (∃ action, A action ∧ action ≠ .None ∧ action ≠ .AbandonAfterLeaseLoss) → ∀ reason,
      Ensures (Sound w) (abandon reason) (fun _ => Sound w) E S)
    (hcancels : A .Fail ∨ A .Cancel ∨ A .Interrupt → Ensures (Stops w true) cancels (fun _ => Sound w) E S)
    (hfails : A .Fail → ∀ code message, Ensures (Stops w false) (fails code message) (fun _ => Sound w) E S)
    (hinterrupts : A .Interrupt → ∀ message, Ensures (Stops w false) (interrupts message) (fun _ => Sound w) E S) :
    Ensures (fun s => Sound w s ∧
      (s.pendingTerminalAction ≠ .None → s.worker.serving = [] ∧ A s.pendingTerminalAction))
      (finishPendingWith w abandon fails cancels interrupts) (fun _ => Sound w) E S := by
  unfold finishPendingWith
  refine ensures_start fun a ha => ?_
  obtain ⟨hsound, hpending⟩ := ha
  refine ensures_ite (fun _ => ensures_here hsound keeps_scheduleLeaseRetry) fun hne => ?_
  obtain ⟨hquiet, hA⟩ := hpending hne
  have hactive := (hsound.barrier.waits hne).2.2
  refine ensures_ite (fun hnone => absurd hnone hactive) fun _ => ?_
  -- the pending action stays what it was, until a cancellation is found
  let I (s : Coordinator) : Prop := Sound w s ∧ s.worker.serving = [] ∧ s.activeJob.id ≠ [] ∧
    s.pendingTerminalAction = a.pendingTerminalAction
  refine ensures_bind (Q := fun _ => I) (ensures_update fun s hs => ?_) fun _ => ?_
  · subst hs
    exact ⟨hsound.confirmed hne hquiet, hquiet, hactive, rfl⟩
  refine ensures_ite (fun _ => ?_) fun hnot => ?_
  · exact (ensures_finishLeaseLossHandoff hw).pre fun s h => ⟨h.1, h.2.1⟩
  have hasked : ∀ s, I s → I { s with calls := s.calls + 1 } := fun s h => ⟨h.1.asked, h.2⟩
  refine ensures_bind (ensures_activeExecutionLeaseLost hasked) fun lost => ?_
  refine ensures_ite (fun _ => ?_) fun _ => ?_
  · exact (habandon ⟨_, hA, hne, hnot⟩ _).pre fun s h => h.1
  refine ensures_ite (fun hcancel => ?_) fun hnotCancel => ?_
  · refine (hcancels (Or.inr (Or.inl (hcancel ▸ hA)))).pre fun s h => ?_
    exact ⟨h.1, h.2.1, h.2.2.1, fun habandoned => hnot (h.2.2.2 ▸ habandoned), fun hfalse => by cases hfalse⟩
  have hremaining : A .Fail ∨ A .Cancel ∨ A .Interrupt := by
    cases haction : a.pendingTerminalAction with
    | None => exact absurd haction hne
    | Fail => exact Or.inl (haction ▸ hA)
    | Cancel => exact absurd haction hnotCancel
    | Interrupt => exact Or.inr (Or.inr (haction ▸ hA))
    | AbandonAfterLeaseLoss => exact absurd haction hnot
  refine ensures_bind (ensures_durableCancellationWins hasked fun s h => ⟨h.1.cancelling, h.2⟩) fun wins => ?_
  have hstops : ∀ s, I s → Stops w false s := fun s h =>
    ⟨h.1, h.2.1, h.2.2.1, fun hsame => hnot (h.2.2.2 ▸ hsame), fun _ hsame => hnotCancel (h.2.2.2 ▸ hsame)⟩
  refine ensures_ite (fun _ => ?_) fun _ => ?_
  · refine ensures_bind (Q := fun _ => Stops w true) (ensures_update fun s h => ?_) fun _ => hcancels hremaining
    obtain ⟨hs, hserving, hjob, hsame⟩ := h
    obtain ⟨hid, hkind, -⟩ := hs.barrier.waits (hsame ▸ hne)
    have hpended : Sound w (setPending .Cancel (qs "JobCancelled") cancelledMessage s) :=
      hs.nearly.pended _ _ (mayStillRun_iff.mpr ⟨hid, hkind⟩) hjob
        ⟨fun hnone => (by cases hnone), fun habandoned => absurd (hsame ▸ habandoned) hnot, fun _ => Or.inl rfl⟩
        fun hbusy => absurd hserving hbusy
    exact ⟨hpended, hserving, hjob, fun habandoned => (by cases habandoned), fun hfalse => by cases hfalse⟩
  · refine ensures_ite (fun hfail => ?_) fun hnotFail => ?_
    · exact (hfails (hfail ▸ hA) _ _).pre hstops
    · have hinterrupt : A .Interrupt := by
        cases haction : a.pendingTerminalAction with
        | None => exact absurd haction hne
        | Fail => exact absurd haction hnotFail
        | Cancel => exact absurd haction hnotCancel
        | Interrupt => exact haction ▸ hA
        | AbandonAfterLeaseLoss => exact absurd haction hnot
      exact (hinterrupts hinterrupt _).pre hstops

theorem ensures_finishAbandoned : Ensures (fun s => Sound w s ∧ s.worker.serving = [] ∧
    s.pendingTerminalAction = .AbandonAfterLeaseLoss) (finishAbandoned w) (fun _ => Sound w) E S := by
  refine (ensures_finishPendingWith hw (A := (· = .AbandonAfterLeaseLoss))
    (fun ⟨action, h, _, hne⟩ => absurd h hne) (fun h => ?_) (fun h => by cases h) fun h => by cases h).pre
    fun s h => ⟨h.1, fun _ => ⟨h.2.1, h.2.2⟩⟩
  rcases h with h | h | h <;> cases h

theorem ensures_abortImmediately :
    Ensures (fun s => Sound w s ∧ s.pendingTerminalAction = .AbandonAfterLeaseLoss) (abortImmediately w)
      (fun _ => Sound w) E S := by
  unfold abortImmediately
  refine ensures_bind (Q := fun _ s => Sound w s ∧ s.pendingTerminalAction = .AbandonAfterLeaseLoss)
    (ensures_update fun s h => ⟨?_, h.2⟩) fun _ => ensures_start fun a ha => ?_
  · exact { h.1 with
      barrier := { h.1.barrier with
        up := fun hready => (by cases hready)
        alive := fun hserving => ⟨(h.1.barrier.alive hserving).1, fun hconnecting => by cases hconnecting⟩ } }
  · refine ensures_ite (fun hgone => ?_) fun _ => ensures_pure fun s hs => hs ▸ ha.1
    have hquiet : a.worker.serving = [] := by
      by_contra hserving
      rw [(ha.1.barrier.alive hserving).1] at hgone
      cases hgone.1
    refine ensures_bind (Q := fun _ s => Sound w s ∧ s.worker.serving = [] ∧
      s.pendingTerminalAction = .AbandonAfterLeaseLoss) (ensures_update fun s hs => ?_) fun _ =>
        ensures_finishAbandoned hw
    subst hs
    exact ⟨ha.1.settled fun _ => hquiet, hquiet, ha.2⟩

omit hw in
/-- **The end has to wait**, or the worker is known to have stopped. -/
theorem ensures_awaitWorkerQuiescence (action : PendingTerminalAction) (code message : QString)
    (haction : action ≠ .None) :
    Ensures (fun s => Nearly w s ∧ activeWorkerRequestMayStillRun s = true ∧ s.activeJob.id ≠ [])
      (awaitWorkerQuiescence action code message)
      (fun waits s => Sound w s ∧ Pends action s ∧ (waits = false → s.worker.serving = [])) E S := by
  unfold awaitWorkerQuiescence
  refine ensures_start fun a ha => ?_
  obtain ⟨hsound, hrun, hactive⟩ := ha
  refine ensures_ite (fun hno => by rw [hrun] at hno; cases hno) fun _ => ?_
  refine ensures_bind (Q := fun _ s => s = chosen action code message a)
    (ensures_update fun s hs => by rw [hs]) fun _ => ensures_start fun b hb => ?_
  obtain ⟨hworker, hid, -, hconfirmed⟩ := chosen_keeps action code message a
  refine ensures_ite (fun hknown => ensures_pure fun s hs => ?_) fun _ => ?_
  · -- the worker was known to have stopped before
    subst hs hb
    have hquiet := (hsound.barrier.known (hconfirmed hknown)).2
    refine ⟨Nearly.chosen hsound code message haction hrun hactive fun hbusy => absurd hquiet hbusy,
      chosen_cases code message haction a, fun _ => ?_⟩
    rw [hworker]
    exact hquiet
  · obtain ⟨htold, hforced⟩ := hsound.told hrun
    have hsoundTold : Sound w (told b) := by
      rw [hb, told_chosen]
      exact Nearly.chosen htold code message haction hrun hactive hforced
    have hpends : Pends action (told b) := by
      rw [hb, told_chosen]
      exact chosen_cases code message haction (told a)
    refine ensures_bind (Q := fun _ s => s = told b) (ensures_update fun s hs => by rw [hs]) fun _ =>
      ensures_start fun c hc => ?_
    subst hc
    refine ensures_ite (fun hsettled => ?_) fun _ => ensures_pure fun s hs => ?_
    · have hquiet : (told b).worker.serving = [] := by
        by_contra hbusy
        rw [hb, told_chosen, (chosen_keeps action code message (told a)).1] at hbusy hsettled
        obtain ⟨job, hjob⟩ := hforced hbusy
        rw [hjob] at hsettled
        cases hsettled
      refine ensures_bind (Q := fun _ s => Sound w s ∧ Pends action s ∧ s.worker.serving = [])
        (ensures_update fun s hs => ?_) fun _ => ensures_pure fun s h => ⟨h.1, h.2.1, fun _ => h.2.2⟩
      subst hs
      exact ⟨hsoundTold.confirmed hpends.ne hquiet, ⟨hpends.ne, hpends.abandoned, hpends.cancelled⟩, hquiet⟩
    · subst hs
      exact ⟨hsoundTold, hpends, fun hwaits => by cases hwaits⟩

/-- **The lease is lost.**  Nothing is written any more. -/
theorem ensures_abandon (reason : QString) :
    Ensures (Nearly w) (abandonActiveJobAfterLeaseLoss w reason) (fun _ => Sound w) E S := by
  unfold abandonActiveJobAfterLeaseLoss
  refine ensures_start fun a ha => ?_
  refine ensures_ite (fun hnone => ensures_pure fun s hs => ?_) fun hactive => ?_
  · subst hs
    exact ha.inactive hnone
  -- neither the timer nor the background work matters for the invariant
  let I (s : Coordinator) : Prop := Nearly w s ∧
    activeWorkerRequestMayStillRun s = activeWorkerRequestMayStillRun a ∧ s.activeJob.id ≠ []
  refine ensures_bind (Q := fun _ => I) (ensures_update fun s hs => ?_) fun _ => ?_
  · subst hs
    exact ⟨{ ha with }, rfl, hactive⟩
  refine ensures_bind (Q := fun _ => I) (ensures_onlyIf (fun _ => ensures_update fun s h =>
    ⟨{ h.1 with }, h.2⟩) fun _ h => h) fun _ => ?_
  refine ensures_ite (fun hrun => ?_) fun hrun => ?_
  · refine ensures_bind ((ensures_awaitWorkerQuiescence (w := w) .AbandonAfterLeaseLoss [] reason
      (fun h => by cases h)).pre (fun s h => ⟨h.1, h.2.1.trans hrun, h.2.2⟩)) fun waits => ?_
    refine ensures_ite (fun _ => ?_) fun hwaits => ?_
    · exact (ensures_abortImmediately hw).pre fun s h => ⟨h.1, h.2.1.abandoned rfl⟩
    · exact (ensures_finishAbandoned hw).pre
        (fun s h => ⟨h.1, h.2.2 (by simpa using hwaits), h.2.1.abandoned rfl⟩)
  · refine (ensures_finishLeaseLossHandoff hw).pre fun s h => ⟨h.1, ?_⟩
    exact h.1.idle_worker (h.2.1.trans (by simpa using hrun))

theorem keeps_abandon (reason : QString) :
    Ensures (Sound w) (abandonActiveJobAfterLeaseLoss w reason) (fun _ => Sound w) E S :=
  (ensures_abandon hw reason).pre fun _ h => Sound.nearly h

/-! ## Checkpoints -/

theorem ensures_leaveJob {moment : Moment} {next : Task Unit} (hnext : Ensures (Sound w) next (fun _ => Sound w) E S) :
    Ensures (fun s => SoundBut w moment s ∧ s.worker.serving = []) (leaveJob next) (fun _ => Sound w) E S := by
  refine ensures_bind (Q := fun _ => Sound w) (ensures_update fun s h => ?_) fun _ => hnext
  have hstopped : SoundBut w moment { s with leaseHeartbeat := false } :=
    { h.1 with }
  exact hstopped.cleared hw h.2

omit hw in
theorem chunkToStop_eq {which : ChunkState → Bool} {s : Coordinator} {index : Nat} {chunk : JobChunk}
    (h : chunkToStop which s = some (index, chunk)) :
    s.currentChunkIndex = some index ∧ s.chunks[index]? = some chunk ∧ which chunk.state = true := by
  unfold chunkToStop at h
  cases hcurrent : s.currentChunkIndex with
  | none => rw [hcurrent] at h; cases h
  | some other =>
    rw [hcurrent] at h
    cases hchunk : s.chunks[other]? with
    | none => simp [hchunk] at h
    | some found =>
      simp only [hchunk, Option.bind_eq_bind, Option.bind_some] at h
      split at h
      · cases h
        exact ⟨rfl, hchunk, ‹_›⟩
      · cases h

/-- A change that a checkpoint makes to the current chunk. -/
structure StopsChunk (cancels : Bool) (which : ChunkState → Bool) (change : JobChunk → JobChunk) : Prop where
  stopped : ∀ chunk, isStoppedChunk (change chunk).state = true
  cancelled : ∀ chunk, cancels = true → (change chunk).state = .cancelled
  id : ∀ chunk, (change chunk).id = chunk.id
  which : which .completed = false

omit hw in
theorem isStoppedChunk_ne {state : ChunkState} (h : isStoppedChunk state = true) : state ≠ .completed := by
  rintro rfl
  cases h

omit hw in
theorem permitted_stop {cancels : Bool} {s : Coordinator} {change : Write} (h : Halts cancels s)
    (hstops : ∀ accepted, (Act.write change accepted).stops = true)
    (hcancels : cancels = true → ∀ accepted, (Act.write change accepted).cancels = true)
    (hcompletes : ∀ accepted, (Act.write change accepted).completes = false) (accepted : Bool) :
    Permitted (.write change accepted) s where
  active := h.active
  quiet _ := h.quiet
  undecided _ hno := by rw [hstops] at hno; cases hno
  cancelled hpending _ := by
    cases hc : cancels with
    | true => exact hcancels hc accepted
    | false => exact absurd hpending (h.not_cancelled hc)
  abandoned _ := h.not_abandoned
  decision action haction := by cases haction
  complete hc := by rw [hcompletes] at hc; cases hc

/-- The first half of a checkpoint. -/
theorem ensures_stopChunk {cancels : Bool} {which : ChunkState → Bool} {change : JobChunk → JobChunk}
    {again : Callback} (hchange : StopsChunk cancels which change) :
    Ensures (fun s => Stops w cancels s ∧ Aside w again s) (stopChunk w which change again)
      (fun goesOn s => Sound w s ∧ (goesOn = true → Halts cancels s ∧ Aside w again s)) E S := by
  unfold stopChunk
  refine ensures_start fun a ha => ?_
  cases hchunk : chunkToStop which a with
  | none => exact ensures_pure fun s hs => hs ▸ ⟨ha.1.1, fun _ => ⟨ha.1.2, ha.2⟩⟩
  | some found =>
    obtain ⟨index, chunk⟩ := found
    obtain ⟨hcurrent, hget, hwhich⟩ := chunkToStop_eq hchunk
    have hopen : chunk.state ≠ .completed := by
      intro hcompleted
      rw [hcompleted, hchange.which] at hwhich
      cases hwhich
    have hstopped := isStoppedChunk_ne (hchange.stopped chunk)
    let I (s : Coordinator) : Prop := Halts cancels s ∧ Aside w again s ∧
      s.currentChunkIndex = some index ∧ s.chunks[index]? = some chunk
    have hcommit : ∀ accepted, (Act.write (.updateChunk (change chunk)) accepted).commit? = none := by
      intro accepted
      cases accepted with
      | false => rfl
      | true => exact if_neg hstopped
    have hwrite : Ensures (fun s => Sound w s ∧ I s) (write w (.updateChunk (change chunk)))
        (fun _ s => Sound w s ∧ I s) E S :=
      ensures_write (fun s _ h => permitted_stop h.1 (fun _ => hchange.stopped chunk)
        (fun hc _ => decide_eq_true (hchange.cancelled chunk hc)) fun _ => rfl) hcommit
        (fun s h => ⟨{ h.1 with }, { h.2.1 with }, h.2.2⟩) fun s act h => ⟨{ h.1 with }, { h.2.1 with }, h.2.2⟩
    refine ensures_bind (hwrite.pre (fun s hs => hs ▸ ⟨ha.1.1, ha.1.2, ha.2, hcurrent, hget⟩)) fun refused => ?_
    cases refused with
    | none =>
      refine ensures_bind (Q := fun _ s => Sound w s ∧ Halts cancels s ∧ Aside w again s)
        (ensures_update fun s h => ?_) fun _ => ensures_pure fun s h => ⟨h.1, fun _ => h.2⟩
      obtain ⟨hsound, hhalts, haside, hindex, hthere⟩ := h
      exact ⟨hsound.setChunk hindex hthere (hchange.id chunk) hopen hstopped,
        { hhalts with }, { haside with }⟩
    | some error =>
      refine ensures_ite (fun _ => ?_) fun _ => ?_
      · exact ensures_bind ((keeps_abandon hw _).pre fun s h => h.1) fun _ =>
          ensures_pure fun s h => ⟨h, fun hno => by cases hno⟩
      · exact ensures_bind (ensures_postAside.pre fun s h => ⟨h.1, h.2.2.1⟩) fun _ =>
          ensures_pure fun s h => ⟨h, fun hno => by cases hno⟩

omit hw in
theorem stopped_writes {cancels : Bool} {again : Callback} {change : Write}
    (hstops : ∀ accepted, (Act.write change accepted).stops = true)
    (hcancels : cancels = true → ∀ accepted, (Act.write change accepted).cancels = true)
    (hcompletes : ∀ accepted, (Act.write change accepted).completes = false)
    (hcommit : ∀ accepted, (Act.write change accepted).commit? = none) :
    Ensures (fun s => Sound w s ∧ Halts cancels s ∧ Aside w again s) (write w change)
      (fun refused s => SoundBut w ((Act.write change refused.isNone).leaves .between) s ∧ Halts cancels s ∧
        Aside w again s) E S :=
  ensures_write (fun _ _ h => permitted_stop h.1 hstops hcancels hcompletes) hcommit
    (fun _ h => ⟨{ h.1 with }, { h.2 with }⟩) fun _ _ h => ⟨{ h.1 with }, { h.2 with }⟩

omit hw in
theorem asked_halts {cancels : Bool} {again : Callback} (s : Coordinator)
    (h : Sound w s ∧ Halts cancels s ∧ Aside w again s) : Sound w { s with calls := s.calls + 1 } ∧
      Halts cancels { s with calls := s.calls + 1 } ∧ Aside w again { s with calls := s.calls + 1 } :=
  ⟨h.1.asked, { h.2.1 with }, { h.2.2 with }⟩

/-- A checkpoint that is to be written again, or the run is left although it was not written. -/
theorem ensures_retry {cancels : Bool} {again : Callback} {next : Task Unit}
    (hnext : Ensures (Sound w) next (fun _ => Sound w) E S) :
    Ensures (fun s => Sound w s ∧ Halts cancels s ∧ Aside w again s)
      (do if ← terminalTransitionNeedsRetry w then post again else leaveJob next) (fun _ => Sound w) E S := by
  refine ensures_bind (ensures_terminalTransitionNeedsRetry asked_halts) fun needsRetry => ?_
  refine ensures_ite (fun _ => ?_) fun _ => ?_
  · exact ensures_postAside.pre fun s h => ⟨h.1, h.2.2⟩
  · exact (ensures_leaveJob hw hnext).pre fun s h => ⟨h.1, h.2.1.quiet⟩

omit hw in
/-- A callback that tries the end of the active job again. -/
theorem aside_again {again : Callback} {s : Coordinator} (h : Sound w s) (hactive : s.activeJob.id ≠ [])
    (htoken : again.ownerToken? = some s.ownerToken)
    (hcarries : ∀ job owner, carries job owner again = false)
    (hoperation : ∀ operation jobId ownerToken, again ≠ .normalizationFinished operation jobId ownerToken) :
    Aside w again s where
  drawn token hsome := by
    rw [htoken] at hsome
    obtain rfl := Option.some.inj hsome
    exact h.names.owner (h.names.job hactive)
  carries := hcarries ..
  operation := hoperation

/-- **The job is cancelled.** -/
theorem ensures_checkpointCancellation :
    Ensures (Stops w true) (checkpointCancellation w) (fun _ => Sound w) E S := by
  unfold checkpointCancellation
  refine ensures_start fun a ha => ?_
  have haside : Aside w (.cancelAgain a.activeJob.id a.ownerToken) a :=
    aside_again ha.1 ha.2.active rfl (fun _ _ => rfl) fun _ _ _ hsame => by cases hsame
  have hchange : StopsChunk true (fun state => state = .running || state = .failed || state = .interrupted)
      (fun chunk => { chunk with state := .cancelled, error := cancelledMessage }) :=
    ⟨fun _ => rfl, fun _ _ => rfl, fun _ => rfl, rfl⟩
  refine ensures_bind ((ensures_stopChunk hw hchange).pre fun s hs => by rw [hs]; exact ⟨ha, haside⟩)
    fun goesOn => ?_
  refine ensures_ite (fun hgoes => ?_) fun _ => ensures_pure fun s h => h.1
  refine ensures_bind ((stopped_writes (fun _ => rfl) (fun _ _ => rfl) (fun _ => rfl) fun _ => rfl).pre
    (fun s h => ⟨h.1, h.2 hgoes⟩)) fun refused => ?_
  cases refused with
  | none =>
    exact (ensures_leaveJob hw keeps_postScheduleNext).pre fun s h => ⟨h.1, h.2.1.quiet⟩
  | some error =>
    refine ensures_ite (fun _ => ?_) fun _ => ensures_retry hw keeps_postScheduleNext
    exact (keeps_abandon hw _).pre fun s h => h.1

theorem ensures_finishCancelled : Ensures (fun s => Sound w s ∧ s.worker.serving = [] ∧ Pends .Cancel s)
    (finishCancelled w) (fun _ => Sound w) E S := by
  refine (ensures_finishPendingWith hw
    (A := fun action => action = .Cancel ∨ action = .AbandonAfterLeaseLoss) (fun _ => keeps_abandon hw)
    (fun _ => ensures_checkpointCancellation hw) (fun h => ?_) fun h => ?_).pre
    (fun s h => ⟨h.1, fun _ => ⟨h.2.1, h.2.2.cancelled rfl⟩⟩)
  · rcases h with h | h <;> cases h
  · rcases h with h | h <;> cases h

/-- **A cancellation**, wherever it was found. -/
theorem ensures_finishCancellation :
    Ensures (Nearly w) (finishCancellation w) (fun _ => Sound w) E S := by
  unfold finishCancellation
  refine ensures_start fun a ha => ?_
  refine ensures_ite (fun hnone => ensures_pure fun s hs => ?_) fun hactive => ?_
  · subst hs
    exact Nearly.inactive ha hnone
  let I (s : Coordinator) : Prop := Nearly w s ∧ s.activeJob.id ≠ [] ∧
    activeWorkerRequestMayStillRun s = activeWorkerRequestMayStillRun a
  have hstart : I a := ⟨ha, hactive, rfl⟩
  refine ensures_bind (ensures_here hstart
    (ensures_activeExecutionLeaseLost fun s h => ⟨h.1.asked, h.2⟩)) fun lost => ?_
  refine ensures_ite (fun _ => ?_) fun _ => ?_
  · exact (ensures_abandon hw _).pre fun s h => h.1
  refine ensures_ite (fun hrun => ?_) fun hrun => ?_
  · refine ensures_bind ((ensures_awaitWorkerQuiescence .Cancel _ _ (fun h => by cases h)).pre
      fun s h => ⟨h.1, h.2.2.trans hrun, h.2.1⟩) fun waits => ?_
    refine ensures_ite (fun _ => ensures_pure fun s h => h.1) fun hwaits => ?_
    exact (ensures_finishCancelled hw).pre fun s h => ⟨h.1, h.2.2 (by simpa using hwaits), h.2.1⟩
  · refine (ensures_checkpointCancellation hw).pre fun s h => ?_
    have hno := h.2.2.trans (by simpa using hrun : activeWorkerRequestMayStillRun a = false)
    have hpending := h.1.not_pending hno
    have hsound : Sound w s := Nearly.sound h.1 fun hrun' => by rw [hno] at hrun'; cases hrun'
    exact ⟨hsound, h.1.idle_worker hno, h.2.1, fun habandoned => (by rw [hpending] at habandoned; cases habandoned),
      fun hfalse => by cases hfalse⟩

/-- **The job fails or is interrupted**, unless a cancellation overtakes it. -/
theorem ensures_checkpoint {chunkState : ChunkState} {jobState : JobState} {code message : QString}
    {again : Callback} {next : Task Unit} (hchunk : isStoppedChunk chunkState = true)
    (hjob : isStopped jobState = true) (hnext : Ensures (Sound w) next (fun _ => Sound w) E S) :
    Ensures (fun s => Stops w false s ∧ Aside w again s)
      (checkpoint w chunkState jobState code message again next) (fun _ => Sound w) E S := by
  unfold checkpoint
  have hchange : StopsChunk false (fun state => state = .running)
      (fun chunk => { chunk with state := chunkState, error := message }) :=
    ⟨fun _ => hchunk, fun _ h => (by cases h), fun _ => rfl, rfl⟩
  have hwrite : Ensures (fun s => Sound w s ∧ Halts false s ∧ Aside w again s)
      (write w (.transition jobState code message))
      (fun refused s =>
        SoundBut w ((Act.write (.transition jobState code message) refused.isNone).leaves .between) s ∧
          Halts false s ∧ Aside w again s) E S :=
    stopped_writes (fun _ => hjob) (fun h => by cases h) (fun _ => rfl) fun _ => rfl
  refine ensures_bind (ensures_stopChunk hw hchange) fun goesOn => ?_
  refine ensures_ite (fun hgoes => ?_) fun _ => ensures_pure fun s h => h.1
  refine ensures_bind (hwrite.pre fun s h => ⟨h.1, h.2 hgoes⟩) fun refused => ?_
  cases refused with
  | none =>
    exact (ensures_leaveJob hw hnext).pre fun s h => ⟨h.1, h.2.1.quiet⟩
  | some error =>
    have hleaves : (Act.write (.transition jobState code message) (some error).isNone).leaves .between = .between :=
      if_neg (by show ¬ (isStopped jobState && false) = true; simp)
    rw [hleaves]
    refine ensures_ite (fun _ => ?_) fun _ => ?_
    · exact (keeps_abandon hw _).pre fun s h => h.1
    refine ensures_bind (ensures_durableCancellationWins asked_halts fun s h => ⟨h.1.cancelling,
      { h.2.1 with }, { h.2.2 with }⟩)
      fun wins => ?_
    refine ensures_ite (fun _ => ?_) fun _ => ensures_retry hw hnext
    exact (ensures_finishCancellation hw).pre fun s h => Sound.nearly h.1

theorem ensures_checkpointFailedJob (code message : QString) :
    Ensures (Stops w false) (checkpointFailedJob w code message) (fun _ => Sound w) E S := by
  unfold checkpointFailedJob
  refine ensures_start fun a ha => ?_
  exact (ensures_checkpoint hw rfl rfl keeps_postScheduleNext).pre
    fun s hs => by
      rw [hs]
      exact ⟨ha, aside_again ha.1 ha.2.active rfl (fun _ _ => rfl) fun _ _ _ hsame => by cases hsame⟩


theorem ensures_checkpointInterruption (reason : QString) :
    Ensures (Stops w false) (checkpointInterruption w reason) (fun _ => Sound w) E S := by
  unfold checkpointInterruption
  refine ensures_start fun a ha => ?_
  exact (ensures_checkpoint hw rfl rfl keeps_scheduleLeaseRetry).pre
    fun s hs => by
      rw [hs]
      exact ⟨ha, aside_again ha.1 ha.2.active rfl (fun _ _ => rfl) fun _ _ _ hsame => by cases hsame⟩


/-- **A pending action**, whichever it is. -/
theorem ensures_finishPendingTerminalCheckpoint :
    Ensures (fun s => Sound w s ∧ (s.pendingTerminalAction ≠ .None → s.worker.serving = []))
      (finishPendingTerminalCheckpoint w) (fun _ => Sound w) E S :=
  (ensures_finishPendingWith hw (A := fun _ => True) (fun _ => keeps_abandon hw)
    (fun _ => ensures_checkpointCancellation hw) (fun _ => ensures_checkpointFailedJob hw)
    fun _ => ensures_checkpointInterruption hw).pre fun _ h => ⟨h.1, fun hne => ⟨h.2 hne, trivial⟩⟩

/-! ## The causes -/

/-- **The job fails**, wherever it is. -/
theorem ensures_failActiveJob (code message : QString) :
    Ensures (Nearly w) (failActiveJob w code message) (fun _ => Sound w) E S := by
  unfold failActiveJob
  refine ensures_start fun a ha => ?_
  refine ensures_ite (fun hnone => ensures_pure fun s hs => ?_) fun hactive => ?_
  · subst hs
    exact Nearly.inactive ha hnone
  let I (s : Coordinator) : Prop := Nearly w s ∧ s.activeJob.id ≠ [] ∧
    activeWorkerRequestMayStillRun s = activeWorkerRequestMayStillRun a
  have hstart : I a := ⟨ha, hactive, rfl⟩
  have hasked : ∀ s, I s → I { s with calls := s.calls + 1 } := fun s h => ⟨h.1.asked, h.2⟩
  refine ensures_bind (ensures_here hstart (ensures_activeExecutionLeaseLost hasked)) fun lost => ?_
  refine ensures_ite (fun _ => ?_) fun _ => ?_
  · exact (ensures_abandon hw _).pre fun s h => h.1
  refine ensures_bind (ensures_durableCancellationWins hasked fun s h => ⟨h.1.cancelling, h.2⟩) fun wins => ?_
  refine ensures_ite (fun _ => ?_) fun _ => ?_
  · exact (ensures_finishCancellation hw).pre fun s h => h.1
  refine ensures_ite (fun hrun => ?_) fun hrun => ?_
  · refine ensures_bind ((ensures_awaitWorkerQuiescence .Fail code message (fun h => by cases h)).pre
      fun s h => ⟨h.1, h.2.2.trans hrun, h.2.1⟩) fun waits => ?_
    refine ensures_ite (fun _ => ensures_pure fun s h => h.1) fun hwaits => ?_
    exact (ensures_finishPendingTerminalCheckpoint hw).pre
      fun s h => ⟨h.1, fun _ => h.2.2 (by simpa using hwaits)⟩
  · refine (ensures_checkpointFailedJob hw code message).pre fun s h => ?_
    have hno := h.2.2.trans (by simpa using hrun : activeWorkerRequestMayStillRun a = false)
    have hpending := h.1.not_pending hno
    have hsound : Sound w s := Nearly.sound h.1 fun hrun' => by rw [hno] at hrun'; cases hrun'
    exact ⟨hsound, h.1.idle_worker hno, h.2.1, fun hsame => (by rw [hpending] at hsame; cases hsame),
      fun _ hsame => by rw [hpending] at hsame; cases hsame⟩

theorem keeps_failActiveJob (code message : QString) :
    Ensures (Sound w) (failActiveJob w code message) (fun _ => Sound w) E S :=
  (ensures_failActiveJob hw code message).pre fun _ h => Sound.nearly h

/-- **The worker is gone**, or nothing was left in it. -/
theorem ensures_interruptActiveJob (reason : QString) :
    Ensures (fun s => Sound w s ∧ s.worker.serving = []) (interruptActiveJob w reason) (fun _ => Sound w) E S := by
  unfold interruptActiveJob
  refine ensures_bind (Q := fun _ s => Sound w s ∧ s.worker.serving = []) (ensures_update fun s h =>
    ⟨{ h.1 with }, h.2⟩) fun _ => ensures_start fun a ha => ?_
  refine ensures_ite (fun _ => ensures_pure fun s hs => hs ▸ ha.1) fun hactive => ?_
  refine ensures_ite (fun hpending => ?_) fun hpending => ?_
  · refine ensures_bind (Q := fun _ s => Sound w s ∧ (s.pendingTerminalAction ≠ .None → s.worker.serving = []))
      (ensures_update fun s hs => hs ▸ ⟨ha.1.confirmed hpending ha.2, fun _ => ha.2⟩) fun _ =>
        ensures_finishPendingTerminalCheckpoint hw
  have hnone : a.pendingTerminalAction = .None := not_not.mp hpending
  let I (s : Coordinator) : Prop := Sound w s ∧ s.worker.serving = [] ∧ s.activeJob.id ≠ [] ∧
    s.pendingTerminalAction = .None
  have hstart : I a := ⟨ha.1, ha.2, hactive, hnone⟩
  have hasked : ∀ s, I s → I { s with calls := s.calls + 1 } := fun s h => ⟨h.1.asked, h.2⟩
  have hhalts : ∀ cancels s, I s → Stops w cancels s := fun cancels s h => ⟨h.1, h.2.1, h.2.2.1,
    fun hsame => (by rw [h.2.2.2] at hsame; cases hsame), fun _ hsame => by rw [h.2.2.2] at hsame; cases hsame⟩
  refine ensures_bind (ensures_here hstart (ensures_activeExecutionLeaseLost hasked)) fun lost => ?_
  refine ensures_ite (fun _ => ?_) fun _ => ?_
  · exact (keeps_abandon hw _).pre fun s h => h.1
  refine ensures_bind (ensures_durableCancellationWins hasked fun s h => ⟨h.1.cancelling, h.2⟩) fun wins => ?_
  refine ensures_ite (fun _ => ?_) fun _ => ?_
  · exact (ensures_checkpointCancellation hw).pre (hhalts true)
  · exact (ensures_checkpointInterruption hw reason).pre (hhalts false)

theorem ensures_abortActiveOperation :
    Ensures (Sound w) (abortActiveOperationForCancellation w) (fun _ => Sound w) E S := by
  unfold abortActiveOperationForCancellation
  refine ensures_start fun a ha => ?_
  refine ensures_ite (fun _ => ensures_pure fun s hs => hs ▸ ha) fun _ => ensures_ite (fun _ => ?_) fun _ => ?_
  · exact ensures_update fun s hs => hs ▸ { ha with }
  · exact (ensures_finishCancellation hw).pre fun s hs => hs ▸ Sound.nearly ha

end Endings

end BreezeDesk.TranscriptionCoordinator
