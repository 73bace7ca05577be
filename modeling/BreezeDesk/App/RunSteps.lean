/-
  What single changes of the coordinator keep of the invariant.

  * `SoundBut.noted`      — an entry that the current run allows goes into the log;
  * `SoundBut.cleared`    — the end of a run, once the worker has no request;
  * `Nearly.chosen`, `SoundBut.told` — a decision while a request may run, and the order to the worker;
  * `Sound.postedAside`   — a callback that does not go on with the job is left behind;
  * `SoundBut.setChunk`   — a change of the current chunk that is written in memory.
-/
import BreezeDesk.App.RunFrame
import BreezeDesk.App.RunInvariant

namespace BreezeDesk.TranscriptionCoordinator

open Effect Ipc Ledger

variable {w : World} {s : Coordinator} {moment : Moment}

theorem SoundBut.asked (h : SoundBut w moment s) : SoundBut w moment { s with calls := s.calls + 1 } where
  barrier := h.barrier
  names := h.names
  tokens := h.tokens
  background := ⟨fun operation jobId ownerToken hmem =>
    Nat.lt_succ_of_lt (h.background.operations operation jobId ownerToken hmem), h.background.mine,
    h.background.carried, h.background.idle⟩
  cursor := h.cursor
  books := h.books

/-! ## The log -/

/-- What the state asks of an entry. -/
structure Permitted (act : Act) (s : Coordinator) : Prop where
  active : s.activeJob.id ≠ []
  quiet : act.stops = true → s.worker.serving = []
  undecided : act.decision? = none → act.stops = false → s.pendingTerminalAction = .None
  cancelled : s.pendingTerminalAction = .Cancel → act.stops = true → act.cancels = true
  abandoned : act.decision? = none → s.pendingTerminalAction ≠ .AbandonAfterLeaseLoss
  decision : ∀ action, act.decision? = some action → action = s.pendingTerminalAction ∧ action ≠ .None
  complete : act.completes = true → planOf s.ownerToken s.log ≠ [] ∧
    commitsOf s.ownerToken s.log = openIds (planOf s.ownerToken s.log)

theorem stops_of_decision {act : Act} {action : PendingTerminalAction} (h : act.decision? = some action) :
    act.stops = false := by
  cases act with
  | decided => rfl
  | write | planned => cases h

/-- The moment after an entry. -/
def Act.leaves (act : Act) (moment : Moment) : Moment := if act.ends then .ended else moment

theorem Books.noted {act : Act} (h : Books moment s.log s.ownerToken s.pendingTerminalAction)
    (hmoment : moment ≠ .ended) (hpermitted : Permitted act s) :
    Books (act.leaves moment) (noted act s).log s.ownerToken s.pendingTerminalAction := by
  have hentry : Allowed s.log ⟨s.ownerToken, act, s.pendingTerminalAction, !s.worker.serving.isEmpty⟩ := by
    refine ⟨fun hstops => ?_, fun a hmem howner => ?_, hpermitted.complete⟩
    · simp [hpermitted.quiet hstops]
    · have hdecided := h.decided a hmem howner
      have hgoes : a.act.ends = false := by
        cases hends : a.act.ends with
        | false => rfl
        | true => exact absurd (h.ends a hmem howner hends) hmoment
      cases hdecision : act.decision? with
      | some action =>
        obtain ⟨haction, -⟩ := hpermitted.decision action hdecision
        refine ⟨hgoes, fun _ => Or.inl (by rw [hdecision]; rfl), fun hcancel => ⟨fun hstops => ?_, ?_⟩,
          fun habandon => ?_⟩
        · rw [stops_of_decision hdecision] at hstops
          cases hstops
        · intro other hother
          cases hdecision.symm.trans hother
          rw [haction]
          exact (hdecided .Cancel hcancel).2.1 rfl
        · rw [hdecision, haction, (hdecided .AbandonAfterLeaseLoss habandon).2.2 rfl]
      | none =>
        have hnot := hpermitted.abandoned hdecision
        refine ⟨hgoes, fun hsome => Or.inr ?_, fun hcancel => ⟨fun hstops => ?_, fun _ hother => ?_⟩,
          fun habandon => ?_⟩
        · obtain ⟨action, haction⟩ := Option.isSome_iff_exists.mp hsome
          by_contra hstops
          exact (hdecided action haction).1 (hpermitted.undecided hdecision (by simpa using hstops))
        · rcases (hdecided .Cancel hcancel).2.1 rfl with hpending | hpending
          · exact hpermitted.cancelled hpending hstops
          · exact absurd hpending hnot
        · cases hdecision.symm.trans hother
        · exact absurd ((hdecided .AbandonAfterLeaseLoss habandon).2.2 rfl) hnot
  refine ⟨justified_concat h.allowed hentry, fun e hmem howner hends => ?_, fun e hmem howner action haction => ?_⟩
  · rcases List.mem_append.mp hmem with hold | hnew
    · exact absurd (h.ends e hold howner hends) hmoment
    · rw [List.mem_singleton.mp hnew] at hends
      exact if_pos hends
  · rcases List.mem_append.mp hmem with hold | hnew
    · exact h.decided e hold howner action haction
    · rw [List.mem_singleton.mp hnew] at haction
      obtain ⟨rfl, hnone⟩ := hpermitted.decision action haction
      exact ⟨hnone, fun hcancel => Or.inl hcancel, fun habandon => habandon⟩

/-- What the request needs is no more after the entry. -/
theorem RequestFits.leaving {plan chunks : List JobChunk} {current : Option Nat} {kind : RequestKind} (act : Act)
    (h : RequestFits moment plan chunks current kind) : RequestFits (act.leaves moment) plan chunks current kind := by
  cases kind with
  | TranscribeChunk =>
    refine ⟨?_, h.2⟩
    unfold Act.leaves
    split
    · exact Or.inl fun hmoment => by cases hmoment
    · exact h.1
  | None | GetCapabilities | AnalyzeSpeech | LoadModel => exact h

theorem Names.noted {act : Act} (h : Names w s.drawn s.requestId s.ownerToken s.activeJob.id s.callbacks
    s.worker.terminalRequests s.log) (hactive : s.activeJob.id ≠ []) :
    Names w s.drawn s.requestId s.ownerToken s.activeJob.id s.callbacks s.worker.terminalRequests
      (noted act s).log where
  request := h.request
  owner := h.owner
  job := h.job
  callback := h.callback
  terminal := h.terminal
  entry e hmem := by
    rcases List.mem_append.mp hmem with hold | hnew
    · exact h.entry e hold
    · rw [List.mem_singleton.mp hnew]
      exact h.owner (h.job hactive)

theorem commitsOf_noted {act : Act} (s : Coordinator) (h : act.commit? = none) :
    commitsOf s.ownerToken (noted act s).log = commitsOf s.ownerToken s.log := by
  show commitsOf s.ownerToken (s.log ++ [_]) = _
  rw [commitsOf_concat]
  dsimp only
  rw [h, ite_self]
  exact List.append_nil _

/-- **An entry of the current run** that is no plan and no commit. -/
theorem SoundBut.noted {act : Act} (h : SoundBut w moment s) (hmoment : moment ≠ .ended)
    (hpermitted : Permitted act s) (hplan : ∀ chunks, act ≠ .planned chunks) (hcommit : act.commit? = none) :
    SoundBut w (act.leaves moment) (noted act s) := by
  have hplanOf : planOf s.ownerToken (TranscriptionCoordinator.noted act s).log = planOf s.ownerToken s.log := by
    show planOf s.ownerToken (s.log ++ [_]) = _
    rw [planOf_concat]
    cases act with
    | planned chunks => exact absurd rfl (hplan chunks)
    | write | decided => rfl
  have hcommitsOf : commitsOf s.ownerToken (TranscriptionCoordinator.noted act s).log =
      commitsOf s.ownerToken s.log := commitsOf_noted s hcommit
  refine ⟨h.barrier, h.names.noted hpermitted.active, ?_, h.background, ?_, h.books.noted hmoment hpermitted⟩
  · show Tokens (act.leaves moment) (planOf s.ownerToken _) _ _ _ _ _ _ _ _ _
    rw [hplanOf]
    exact ⟨h.tokens.one, h.tokens.callback, fun hid hpending => (h.tokens.request hid hpending).leaving act⟩
  · show Cursor (planOf s.ownerToken _) (commitsOf s.ownerToken _) _ _ _
    rw [hplanOf, hcommitsOf]
    exact h.cursor

/-! ## The end of a run -/

theorem carries_nil (owner : QString) (callback : Callback) : carries [] owner callback = false := by
  cases callback <;> simp [carries]

/-- **The end of a run**, once the worker has no request. -/
theorem SoundBut.cleared (hw : w.Fresh) (h : SoundBut w moment s) (hquiet : s.worker.serving = []) :
    Sound w (clearActive s) := by
  have hnone : ∀ e ∈ s.log, e.ownerToken ≠ [] := fun e hmem => (h.names.entry e hmem).ne_nil hw
  have hplan : planOf [] s.log = [] := planOf_fresh hnone
  have hcommits : commitsOf [] s.log = [] := commitsOf_fresh hnone
  have hcarries : ∀ callback, carries (clearActive s).activeJob.id (clearActive s).ownerToken callback = false :=
    fun callback => carries_nil _ callback
  refine ⟨?_, ?_, ?_, ?_, ?_, ?_⟩
  · have hserving : (clearActive s).worker.serving = [] := hquiet
    refine ⟨fun request hmem => ?_, h.barrier.up, fun hne => absurd hserving hne, h.barrier.answered,
      fun hp => absurd rfl hp, fun hp => absurd rfl hp, fun hc => by cases hc⟩
    rw [hserving] at hmem
    cases hmem
  · exact ⟨fun hne => absurd rfl hne, fun hne => absurd rfl hne, fun hne => absurd rfl hne,
      fun callback hmem => h.names.callback callback (List.mem_of_mem_filter hmem), h.names.terminal, h.names.entry⟩
  · refine ⟨?_, fun callback _ hcarried => ?_, fun hne => absurd rfl hne⟩
    · rw [List.countP_eq_zero.mpr fun callback _ => by rw [hcarries]; exact Bool.false_ne_true]
      exact Nat.zero_le 1
    · rw [hcarries] at hcarried
      cases hcarried
  · exact ⟨fun operation jobId ownerToken hmem =>
      h.background.operations operation jobId ownerToken (List.mem_of_mem_filter hmem),
      fun _ _ _ hnone => (by cases hnone), fun hne => absurd rfl hne, fun _ => ⟨rfl, rfl, rfl, rfl, rfl⟩⟩
  · show Cursor (planOf [] s.log) (commitsOf [] s.log) [] none .queued
    rw [hplan, hcommits]
    exact ⟨rfl, rfl, fun index hindex => (by cases hindex), fun hstate => by cases hstate⟩
  · exact ⟨h.books.allowed, fun e hmem howner => absurd howner (hnone e hmem),
      fun e hmem howner => absurd howner (hnone e hmem)⟩

/-! ## The state of the job -/

theorem CallbackFits.entered {plan chunks : List JobChunk} {current : Option Nat} {state state' : JobState}
    {callback : Callback} (hstate : state' ≠ .waitingForModel) (h : CallbackFits plan chunks current state callback) :
    CallbackFits plan chunks current state' callback := by
  cases callback with
  | vadDownloadFinished operation jobId ownerToken continuation =>
    cases continuation with
    | PrepareChunks => exact ⟨h.1, hstate⟩
    | AnalyzeSpeech | StartNextChunk | TranscribeCurrentChunk => exact h
  | ensureWorkerReady | startNextChunk => exact h
  | _ => exact ⟨h.1, hstate⟩

theorem SoundBut.entered {state : JobState} (h : SoundBut w moment s) (hstate : state ≠ .waitingForModel) :
    SoundBut w moment (setJobState state s) where
  barrier := h.barrier
  names := h.names
  tokens := { h.tokens with
    callback := fun callback hmem hcarries => (h.tokens.callback callback hmem hcarries).entered hstate }
  background := h.background
  cursor := { h.cursor with waiting := fun hsame => absurd hsame hstate }
  books := h.books

theorem SoundBut.cancelling (h : SoundBut w moment s) : SoundBut w moment (setJobState .cancelling s) :=
  h.entered fun hstate => by cases hstate

/-! ## Decisions -/

/-- A decision keeps to the order of the causes. -/
structure Outranks (action pending : PendingTerminalAction) : Prop where
  ne : action ≠ .None
  abandoned : pending = .AbandonAfterLeaseLoss → action = .AbandonAfterLeaseLoss
  cancelled : pending = .Cancel → action = .Cancel ∨ action = .AbandonAfterLeaseLoss

theorem Books.repend {log : List Entry} {owner : QString} {pending action : PendingTerminalAction}
    (h : Books moment log owner pending) (houtranks : Outranks action pending) : Books moment log owner action where
  allowed := h.allowed
  ends := h.ends
  decided e hmem howner other hother := by
    obtain ⟨-, hcancel, habandon⟩ := h.decided e hmem howner other hother
    refine ⟨houtranks.ne, fun hsame => ?_, fun hsame => houtranks.abandoned (habandon hsame)⟩
    rcases hcancel hsame with hpending | hpending
    · exact houtranks.cancelled hpending
    · exact Or.inr (houtranks.abandoned hpending)

/-- **A decision** while a request may run.  Where the worker still has it, it is to be told already. -/
theorem Nearly.pended {action : PendingTerminalAction} (h : Nearly w s) (code message : QString)
    (hrun : activeWorkerRequestMayStillRun s = true) (hactive : s.activeJob.id ≠ [])
    (houtranks : Outranks action s.pendingTerminalAction)
    (hforced : s.worker.serving ≠ [] → ∃ job, s.worker.forcedCancellation = some (job, s.requestId)) :
    Sound w (setPending action code message s) := by
  obtain ⟨hid, hkind⟩ := mayStillRun_iff.mp hrun
  have hbefore : Sound w { s with
      pendingTerminalAction := action, pendingTerminalCode := code, pendingTerminalMessage := message } :=
    { barrier := ⟨h.barrier.serving, h.barrier.up, h.barrier.alive, h.barrier.answered,
        fun _ => ⟨hid, hkind, hactive⟩, fun _ => hforced, fun hc => ⟨houtranks.ne, (h.barrier.known hc).2⟩⟩
      names := h.names
      tokens := ⟨h.tokens.one, h.tokens.callback, fun _ hnone => absurd hnone houtranks.ne⟩
      background := h.background
      cursor := h.cursor
      books := (h.books.unended fun hmoment => by cases hmoment).repend houtranks }
  have hpermitted : Permitted (.decided action) { s with
      pendingTerminalAction := action, pendingTerminalCode := code, pendingTerminalMessage := message } := by
    refine ⟨hactive, fun hstops => (by cases hstops), fun hnone _ => (by cases hnone),
      fun _ hstops => (by cases hstops), fun hnone => (by cases hnone), fun other hother => ?_,
      fun hcompletes => by cases hcompletes⟩
    cases hother
    exact ⟨rfl, houtranks.ne⟩
  exact hbefore.noted (fun hmoment => by cases hmoment) hpermitted (fun chunks hplan => by cases hplan) rfl

/-- What a decision leaves pending. -/
structure Pends (action : PendingTerminalAction) (s : Coordinator) : Prop where
  ne : s.pendingTerminalAction ≠ .None
  abandoned : action = .AbandonAfterLeaseLoss → s.pendingTerminalAction = .AbandonAfterLeaseLoss
  cancelled : action = .Cancel →
    s.pendingTerminalAction = .Cancel ∨ s.pendingTerminalAction = .AbandonAfterLeaseLoss

theorem chosen_cases {action : PendingTerminalAction} (code message : QString) (haction : action ≠ .None)
    (s : Coordinator) : Pends action (chosen action code message s) := by
  unfold chosen
  split
  · exact ⟨haction, fun h => h, fun h => Or.inl h⟩
  · split
    · exact ⟨haction, fun h => h, fun h => Or.inl h⟩
    · split
      · exact ⟨haction, fun h => h, fun h => Or.inl h⟩
      · rename_i hpending habandon hcancel
        refine ⟨hpending, fun h => absurd h habandon, fun h => ?_⟩
        by_contra hneither
        exact hcancel ⟨h, fun hsame => hneither (Or.inr hsame)⟩

theorem Nearly.chosen {action : PendingTerminalAction} (h : Nearly w s) (code message : QString)
    (haction : action ≠ .None) (hrun : activeWorkerRequestMayStillRun s = true) (hactive : s.activeJob.id ≠ [])
    (hforced : s.worker.serving ≠ [] → ∃ job, s.worker.forcedCancellation = some (job, s.requestId)) :
    Sound w (chosen action code message s) := by
  unfold TranscriptionCoordinator.chosen
  split
  · rename_i hnone
    have hbefore : Nearly w { s with workerQuiescenceConfirmed := false } :=
      { h with barrier := { h.barrier with known := fun hconfirmed => by cases hconfirmed } }
    exact Nearly.pended hbefore code message hrun hactive ⟨haction, fun hp => (by rw [hnone] at hp; cases hp),
      fun hp => by rw [hnone] at hp; cases hp⟩ hforced
  · split
    · rename_i habandon
      exact Nearly.pended h [] message hrun hactive ⟨haction, fun _ => habandon, fun _ => Or.inr habandon⟩ hforced
    · split
      · rename_i hboth
        exact Nearly.pended h code message hrun hactive
          ⟨haction, fun hp => absurd hp hboth.2, fun _ => Or.inl hboth.1⟩ hforced
      · rename_i hpending _ _
        exact Nearly.sound h fun _ => hpending

/-! ## The worker -/

theorem forceCancel_cases {jobId requestId : QString} (m : WorkerProcess) (hid : requestId ≠ []) :
    (((jobId, requestId) ∈ m.terminalRequests ∨ m.forcedCancellation = some (jobId, requestId)) ∧
      m.forceCancelAfterGrace jobId requestId = m) ∨
    m.forceCancelAfterGrace jobId requestId =
      { m with forcedCancellation := some (jobId, requestId), forcedCancellationAwaitingRestart := !m.ready } := by
  unfold WorkerProcess.forceCancelAfterGrace
  rw [if_neg hid]
  split
  · exact Or.inl ⟨‹_›, rfl⟩
  · exact Or.inr rfl

theorem told_cases (hrun : activeWorkerRequestMayStillRun s = true) :
    (((workerJobId s, s.requestId) ∈ s.worker.terminalRequests ∨
      s.worker.forcedCancellation = some (workerJobId s, s.requestId)) ∧ told s = s) ∨
    told s = { s with worker := { s.worker with
      forcedCancellation := some (workerJobId s, s.requestId)
      forcedCancellationAwaitingRestart := !s.worker.ready } } := by
  unfold told
  rcases @forceCancel_cases (workerJobId s) _ s.worker (mayStillRun_iff.mp hrun).1 with ⟨hknown, hsame⟩ | hnew
  · rw [hsame]
    exact Or.inl ⟨hknown, rfl⟩
  · rw [hnew]
    exact Or.inr rfl

/-- **The worker is told**: if it still has the request, then that is the one to be cancelled. -/
theorem SoundBut.told (h : SoundBut w moment s) (hrun : activeWorkerRequestMayStillRun s = true) :
    SoundBut w moment (told s) ∧
    ((told s).worker.serving ≠ [] → ∃ job, (told s).worker.forcedCancellation = some (job, s.requestId)) := by
  rcases told_cases hrun with ⟨hknown, hsame⟩ | hnew
  · rw [hsame]
    refine ⟨h, fun hserving => ?_⟩
    rcases hknown with hanswered | hforced
    · obtain ⟨request, hmem⟩ := List.exists_mem_of_ne_nil _ hserving
      obtain ⟨rfl, -⟩ := h.barrier.serving request hmem
      exact absurd hmem (h.barrier.answered _ hanswered)
    · exact ⟨_, hforced⟩
  · rw [hnew]
    refine ⟨?_, fun _ => ⟨_, rfl⟩⟩
    exact { h with barrier := { h.barrier with forced := fun _ _ => ⟨_, rfl⟩ } }

theorem told_setPending (action : PendingTerminalAction) (code message : QString) (s : Coordinator) :
    told (setPending action code message s) = setPending action code message (told s) := by
  have hserving : (told s).worker.serving = s.worker.serving :=
    forceCancel_serving (workerJobId s) s.requestId s.worker
  unfold setPending noted
  dsimp only
  rw [hserving]
  rfl

/-- The order to the worker does not depend on the decision. -/
theorem told_chosen (action : PendingTerminalAction) (code message : QString) (s : Coordinator) :
    told (chosen action code message s) = chosen action code message (told s) := by
  unfold chosen
  show told (if s.pendingTerminalAction = .None then _ else _) = if s.pendingTerminalAction = .None then _ else _
  split
  · exact told_setPending ..
  · split
    · exact told_setPending ..
    · show told (if action = .Cancel ∧ s.pendingTerminalAction ≠ .AbandonAfterLeaseLoss then _ else _) =
        if action = .Cancel ∧ s.pendingTerminalAction ≠ .AbandonAfterLeaseLoss then _ else _
      split
      · exact told_setPending ..
      · rfl

/-- What a decision leaves alone. -/
theorem chosen_keeps (action : PendingTerminalAction) (code message : QString) (s : Coordinator) :
    (chosen action code message s).worker = s.worker ∧ (chosen action code message s).requestId = s.requestId ∧
      (chosen action code message s).requestKind = s.requestKind ∧
      ((chosen action code message s).workerQuiescenceConfirmed = true → s.workerQuiescenceConfirmed = true) := by
  unfold chosen
  split
  · exact ⟨rfl, rfl, rfl, fun h => by cases h⟩
  · split
    · exact ⟨rfl, rfl, rfl, fun h => h⟩
    · split <;> exact ⟨rfl, rfl, rfl, fun h => h⟩

theorem Sound.confirmed (h : Sound w s) (hpending : s.pendingTerminalAction ≠ .None)
    (hquiet : s.worker.serving = []) : Sound w { s with workerQuiescenceConfirmed := true } :=
  { h with barrier := { h.barrier with known := fun _ => ⟨hpending, hquiet⟩ } }

/-- A cancellation is settled where the request has ended. -/
theorem Sound.settled (h : Sound w s) (hquiet : s.pendingTerminalAction ≠ .None → s.worker.serving = []) :
    Sound w { s with worker := s.worker.settle } :=
  { h with barrier := { h.barrier with forced := fun hpending hserving => absurd (hquiet hpending) hserving } }

/-- Before a process is started, its terminal requests are forgotten. -/
theorem SoundBut.workerTried (h : SoundBut w moment s) : SoundBut w moment { s with worker := s.worker.tried } :=
  { h with
    barrier := { h.barrier with answered := fun key hmem => by cases hmem }
    names := { h.names with terminal := fun key hmem => by cases hmem } }

/-- A process that has just begun has no request. -/
theorem SoundBut.workerStarted (h : SoundBut w moment s) : SoundBut w moment { s with worker := s.worker.started } :=
  { h with
    barrier := {
      serving := fun request hmem => by cases hmem
      up := fun _ => rfl
      alive := fun hserving => absurd rfl hserving
      answered := fun key hmem => by cases hmem
      waits := h.barrier.waits
      forced := fun _ hserving => absurd rfl hserving
      known := fun hconfirmed => ⟨(h.barrier.known hconfirmed).1, rfl⟩ }
    names := { h.names with terminal := fun key hmem => by cases hmem } }

/-- What a callback needs that does not go on with the job. -/
structure Aside (w : World) (callback : Callback) (s : Coordinator) : Prop where
  drawn : ∀ token, callback.ownerToken? = some token → Drawn w s.drawn token
  carries : carries s.activeJob.id s.ownerToken callback = false
  operation : ∀ operation jobId ownerToken, callback ≠ .normalizationFinished operation jobId ownerToken

theorem Sound.postedAside {callback : Callback} (h : Sound w s) (haside : Aside w callback s) :
    Sound w { s with callbacks := s.callbacks ++ [callback] } where
  barrier := h.barrier
  names := { h.names with
    callback := fun other hmem token htoken => by
      rcases List.mem_append.mp hmem with hold | hnew
      · exact h.names.callback other hold token htoken
      · rw [List.mem_singleton.mp hnew] at htoken
        exact haside.drawn token htoken }
  background := by
    have hold : ∀ operation jobId ownerToken,
        .normalizationFinished operation jobId ownerToken ∈ s.callbacks ++ [callback] →
        .normalizationFinished operation jobId ownerToken ∈ s.callbacks := by
      intro operation jobId ownerToken hmem
      rcases List.mem_append.mp hmem with hold | hnew
      · exact hold
      · exact absurd (List.mem_singleton.mp hnew).symm (haside.operation operation jobId ownerToken)
    refine ⟨fun operation jobId ownerToken hmem => h.background.operations _ _ _ (hold _ _ _ hmem),
      fun operation jobId ownerToken hsome hmem => h.background.mine _ _ _ hsome (hold _ _ _ hmem),
      fun hwaveform => ?_, h.background.idle⟩
    obtain ⟨other, hmem, hother⟩ := h.background.carried hwaveform
    exact ⟨other, List.mem_append_left _ hmem, hother⟩
  tokens := by
    refine ⟨?_, fun other hmem hcarries => ?_, h.tokens.request⟩
    · rw [List.countP_append, List.countP_singleton, haside.carries]
      exact h.tokens.one
    · rcases List.mem_append.mp hmem with hold | hnew
      · exact h.tokens.callback other hold hcarries
      · rw [List.mem_singleton.mp hnew, haside.carries] at hcarries
        cases hcarries
  cursor := h.cursor
  books := h.books

/-! ## The current chunk -/

variable {plan chunks : List JobChunk} {index : Nat} {chunk changed : JobChunk}

theorem CallbackFits.set {callback : Callback} {current : Option Nat} {state : JobState}
    (hcurrent : current = some index) (hchunk : chunks[index]? = some chunk) (hopen : chunk.state ≠ .completed)
    (hchanged : changed.state ≠ .completed) (h : CallbackFits plan chunks current state callback) :
    CallbackFits plan (chunks.set index changed) current state callback := by
  obtain ⟨hlt, -⟩ := List.getElem?_eq_some_iff.mp hchunk
  have hin : InChunk (chunks.set index changed) current :=
    ⟨index, changed, hcurrent, List.getElem?_set_self hlt, hchanged⟩
  have hnot : ¬ Between chunks current := by
    intro hbetween
    obtain ⟨other, hother, hcompleted⟩ := hbetween index hcurrent
    cases hchunk.symm.trans hother
    exact hopen hcompleted
  cases callback with
  | vadDownloadFinished operation jobId ownerToken continuation =>
    cases continuation with
    | StartNextChunk => exact absurd h.1 hnot
    | TranscribeCurrentChunk => exact ⟨hin, h.2⟩
    | PrepareChunks | AnalyzeSpeech => exact h
  | startNextChunk jobId ownerToken => exact absurd h.1 hnot
  | _ => exact h

theorem dealt_open {current : Option Nat} (hcurrent : current = some index) (hchunk : chunks[index]? = some chunk)
    (hopen : chunk.state ≠ .completed) : dealt chunks current = index := by
  subst hcurrent
  show (if chunks[index]?.any _ then index + 1 else index) = _
  rw [hchunk]
  exact if_neg (by simpa using hopen)

theorem dealt_completed {current : Option Nat} (hcurrent : current = some index)
    (hchunk : chunks[index]? = some chunk) (hcompleted : chunk.state = .completed) :
    dealt chunks current = index + 1 := by
  subst hcurrent
  show (if chunks[index]?.any _ then index + 1 else index) = _
  rw [hchunk]
  exact if_pos (by simpa using hcompleted)

/-- **The current chunk** changes, and stays open. -/
theorem SoundBut.setChunk (h : SoundBut w moment s) (hcurrent : s.currentChunkIndex = some index)
    (hchunk : s.chunks[index]? = some chunk) (hid : changed.id = chunk.id) (hopen : chunk.state ≠ .completed)
    (hchanged : changed.state ≠ .completed) :
    SoundBut w moment { s with chunks := s.chunks.set index changed } := by
  obtain ⟨hlt, -⟩ := List.getElem?_eq_some_iff.mp hchunk
  have hnew : (s.chunks.set index changed)[index]? = some changed := List.getElem?_set_self hlt
  refine ⟨h.barrier, h.names, ⟨h.tokens.one, fun callback hmem hcarries => ?_, fun hid hpending => ?_⟩,
    { h.background with idle := fun hnone => ?_ }, ⟨?_, ?_, fun other hother => ?_, h.cursor.waiting⟩, h.books⟩
  · exact (h.tokens.callback callback hmem hcarries).set hcurrent hchunk hopen hchanged
  · have hfits := h.tokens.request hid hpending
    show RequestFits moment _ (s.chunks.set index changed) s.currentChunkIndex s.requestKind
    cases hkind : s.requestKind with
    | TranscribeChunk =>
      rw [hkind] at hfits
      exact ⟨Or.inr ⟨index, changed, hcurrent, hnew, hchanged⟩, hfits.2⟩
    | None | GetCapabilities | AnalyzeSpeech | LoadModel =>
      rw [hkind] at hfits
      exact hfits
  · rw [(h.background.idle hnone).2.2.1] at hcurrent
    cases hcurrent
  · show _ = openIds (List.take (dealt (s.chunks.set index changed) s.currentChunkIndex) _)
    rw [dealt_open hcurrent hnew hchanged, h.cursor.commits, dealt_open hcurrent hchunk hopen]
  · show (s.chunks.set index changed).drop (following s.currentChunkIndex) = _
    rw [hcurrent]
    show (s.chunks.set index changed).drop (index + 1) = _
    rw [List.drop_set_of_lt (Nat.lt_succ_self index)]
    have hrest := h.cursor.rest
    rw [hcurrent] at hrest
    exact hrest
  · obtain ⟨old, planned, hold, hplanned, hsame, hstate⟩ := h.cursor.here other hother
    obtain rfl : index = other := Option.some.inj (hcurrent.symm.trans hother)
    cases hchunk.symm.trans hold
    exact ⟨changed, planned, hnew, hplanned, hid.trans hsame, hstate⟩

end BreezeDesk.TranscriptionCoordinator
