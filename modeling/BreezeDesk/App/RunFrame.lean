/-
  The ends of a run leave the requests in the worker alone: what becomes of them is the worker's.

  One lemma for each function that ends a run, in the order of the source.
-/
import BreezeDesk.App.TranscriptionEvents

namespace BreezeDesk.TranscriptionCoordinator

open Effect Ipc

variable {w : World} {α β : Type}

/-- The requests in the worker are the same afterwards. -/
def Leaves (p : Task α) : Prop := ∀ serving, Keeps (fun s => s.worker.serving = serving) p

theorem leaves_pure (a : α) : Leaves (pure a) := fun _ => keeps_pure a

theorem leaves_view (f : Coordinator → α) : Leaves (view f) := fun _ => keeps_view f

theorem leaves_update {f : Coordinator → Coordinator} (h : ∀ s, (f s).worker.serving = s.worker.serving) :
    Leaves (update f) := fun _ => keeps_update fun s hs => (h s).trans hs

theorem leaves_bind {p : Task α} {f : α → Task β} (hp : Leaves p) (hf : ∀ a, Leaves (f a)) : Leaves (p >>= f) :=
  fun serving => keeps_bind (hp serving) fun a => hf a serving

theorem leaves_ite {c : Prop} [Decidable c] {p q : Task α} (hp : Leaves p) (hq : Leaves q) :
    Leaves (if c then p else q) := fun serving => keeps_ite (hp serving) (hq serving)

theorem leaves_onlyIf {c : Prop} [Decidable c] {p : Task Unit} (hp : Leaves p) : Leaves (onlyIf c p) :=
  leaves_ite hp (leaves_pure ())

theorem leaves_ask (question : Nat → α) : Leaves (ask question) := fun _ => {
  done := fun s hs a s' hrun => by
    cases hrun
    exact hs
  failed := fun s _ e s' hrun => by cases hrun
  stopped := fun s _ s' hrun => by cases hrun }

theorem leaves_write (change : Write) : Leaves (write w change) :=
  leaves_bind (leaves_ask _) fun _ => leaves_bind (leaves_update fun _ => rfl) fun _ => leaves_pure _

theorem leaves_post (callback : Callback) : Leaves (post callback) := leaves_update fun _ => rfl

theorem leaves_scheduleLeaseRetry : Leaves scheduleLeaseRetry := leaves_update fun s => by split <;> rfl

theorem leaves_activeExecutionLeaseLost : Leaves (activeExecutionLeaseLost w) := by
  refine leaves_bind (leaves_view _) fun s => leaves_ite (leaves_pure _) (leaves_bind (leaves_ask _) fun answer => ?_)
  cases answer with
  | error error => exact leaves_pure _
  | ok lease =>
    cases lease with
    | none => exact leaves_pure _
    | some lease => exact leaves_bind (leaves_ask _) fun _ => leaves_pure _

theorem leaves_terminalTransitionNeedsRetry : Leaves (terminalTransitionNeedsRetry w) := by
  refine leaves_bind (leaves_ask _) fun answer => ?_
  cases answer with
  | error error => exact leaves_pure _
  | ok job => cases job <;> exact leaves_pure _

theorem leaves_durableCancellationWins : Leaves (durableCancellationWins w) := by
  refine leaves_bind (leaves_view _) fun s => leaves_ite (leaves_pure _) (leaves_ite (leaves_pure _)
    (leaves_bind (leaves_ask _) fun answer => ?_))
  cases answer with
  | error error => exact leaves_pure _
  | ok job =>
    cases job with
    | none => exact leaves_pure _
    | some job =>
      exact leaves_ite (leaves_bind (leaves_update fun _ => rfl) fun _ => leaves_pure _) (leaves_pure _)

theorem chosen_serving (action : PendingTerminalAction) (code message : QString) (s : Coordinator) :
    (chosen action code message s).worker.serving = s.worker.serving := by
  unfold chosen
  split
  · rfl
  · split
    · rfl
    · split <;> rfl

theorem forceCancel_serving (jobId requestId : QString) (m : WorkerProcess) :
    (m.forceCancelAfterGrace jobId requestId).serving = m.serving := by
  unfold WorkerProcess.forceCancelAfterGrace
  split
  · rfl
  · split <;> rfl

theorem leaves_awaitWorkerQuiescence (action : PendingTerminalAction) (code message : QString) :
    Leaves (awaitWorkerQuiescence action code message) := by
  refine leaves_bind (leaves_view _) fun s => leaves_ite (leaves_pure _) ?_
  refine leaves_bind (leaves_update (chosen_serving action code message)) fun _ => ?_
  refine leaves_bind (leaves_view _) fun s => leaves_ite (leaves_pure _) ?_
  refine leaves_bind (leaves_update fun s => forceCancel_serving _ _ _) fun _ => ?_
  refine leaves_bind (leaves_view _) fun s => leaves_ite ?_ (leaves_pure _)
  exact leaves_bind (leaves_update fun _ => rfl) fun _ => leaves_pure _

theorem leaves_finishLeaseLossHandoff : Leaves finishLeaseLossHandoff :=
  leaves_bind (leaves_update fun _ => rfl) fun _ => leaves_scheduleLeaseRetry

theorem leaves_finishPendingWith {abandon : QString → Task Unit} {fails : QString → QString → Task Unit}
    {cancels : Task Unit} {interrupts : QString → Task Unit} (habandon : ∀ reason, Leaves (abandon reason))
    (hfails : ∀ code message, Leaves (fails code message)) (hcancels : Leaves cancels)
    (hinterrupts : ∀ reason, Leaves (interrupts reason)) :
    Leaves (finishPendingWith w abandon fails cancels interrupts) := by
  refine leaves_bind (leaves_view _) fun s => leaves_ite leaves_scheduleLeaseRetry (leaves_ite ?_ ?_)
  · exact leaves_bind (leaves_update fun _ => rfl) fun _ => leaves_scheduleLeaseRetry
  refine leaves_bind (leaves_update fun _ => rfl) fun _ => leaves_ite leaves_finishLeaseLossHandoff ?_
  refine leaves_bind leaves_activeExecutionLeaseLost fun _ => leaves_ite (habandon _) (leaves_ite hcancels ?_)
  refine leaves_bind leaves_durableCancellationWins fun _ => leaves_ite ?_ (leaves_ite (hfails _ _) (hinterrupts _))
  exact leaves_bind (leaves_update fun _ => rfl) fun _ => hcancels

theorem leaves_finishAbandoned : Leaves (finishAbandoned w) :=
  leaves_finishPendingWith (fun _ => leaves_pure _) (fun _ _ => leaves_pure _) (leaves_pure _) fun _ => leaves_pure _

theorem leaves_abortImmediately : Leaves (abortImmediately w) := by
  refine leaves_bind (leaves_update fun _ => rfl) fun _ => leaves_bind (leaves_view _) fun s => leaves_ite ?_ ?_
  · exact leaves_bind (leaves_update fun _ => rfl) fun _ => leaves_finishAbandoned
  · exact leaves_pure _

theorem leaves_abandonActiveJob (reason : QString) : Leaves (abandonActiveJobAfterLeaseLoss w reason) := by
  refine leaves_bind (leaves_view _) fun s => leaves_ite (leaves_pure _) ?_
  refine leaves_bind (leaves_update fun _ => rfl) fun _ => ?_
  refine leaves_bind (leaves_onlyIf (leaves_update fun _ => rfl)) fun _ => ?_
  refine leaves_ite ?_ leaves_finishLeaseLossHandoff
  exact leaves_bind (leaves_awaitWorkerQuiescence _ _ _) fun _ => leaves_ite leaves_abortImmediately
    leaves_finishAbandoned

theorem leaves_leaveJob {next : Task Unit} (hnext : Leaves next) : Leaves (leaveJob next) :=
  leaves_bind (leaves_update fun _ => rfl) fun _ => hnext

theorem leaves_stopChunk (which : ChunkState → Bool) (change : JobChunk → JobChunk) (again : Callback) :
    Leaves (stopChunk w which change again) := by
  refine leaves_bind (leaves_view _) fun s => ?_
  cases chunkToStop which s with
  | none => exact leaves_pure _
  | some found =>
    refine leaves_bind (leaves_write _) fun refused => ?_
    cases refused with
    | none => exact leaves_bind (leaves_update fun _ => rfl) fun _ => leaves_pure _
    | some error =>
      refine leaves_ite ?_ ?_
      · exact leaves_bind (leaves_abandonActiveJob _) fun _ => leaves_pure _
      · exact leaves_bind (leaves_post _) fun _ => leaves_pure _

theorem leaves_checkpointCancellation : Leaves (checkpointCancellation w) := by
  refine leaves_bind (leaves_view _) fun s => leaves_bind (leaves_stopChunk _ _ _) fun _ => leaves_ite ?_ (leaves_pure _)
  refine leaves_bind (leaves_write _) fun refused => ?_
  cases refused with
  | none => exact leaves_leaveJob (leaves_post _)
  | some error =>
    refine leaves_ite (leaves_abandonActiveJob _) (leaves_bind leaves_terminalTransitionNeedsRetry fun _ => ?_)
    exact leaves_ite (leaves_post _) (leaves_leaveJob (leaves_post _))

theorem leaves_finishCancelled : Leaves (finishCancelled w) :=
  leaves_finishPendingWith leaves_abandonActiveJob (fun _ _ => leaves_pure _) leaves_checkpointCancellation
    fun _ => leaves_pure _

theorem leaves_finishCancellation : Leaves (finishCancellation w) := by
  refine leaves_bind (leaves_view _) fun s => leaves_ite (leaves_pure _) ?_
  refine leaves_bind leaves_activeExecutionLeaseLost fun _ => leaves_ite (leaves_abandonActiveJob _) ?_
  refine leaves_ite ?_ leaves_checkpointCancellation
  exact leaves_bind (leaves_awaitWorkerQuiescence _ _ _) fun _ => leaves_ite (leaves_pure _) leaves_finishCancelled

theorem leaves_checkpoint (chunkState : ChunkState) (jobState : JobState) (code message : QString) (again : Callback)
    {next : Task Unit} (hnext : Leaves next) : Leaves (checkpoint w chunkState jobState code message again next) := by
  refine leaves_bind (leaves_stopChunk _ _ _) fun _ => leaves_ite ?_ (leaves_pure _)
  refine leaves_bind (leaves_write _) fun refused => ?_
  cases refused with
  | none => exact leaves_leaveJob hnext
  | some error =>
    refine leaves_ite (leaves_abandonActiveJob _) (leaves_bind leaves_durableCancellationWins fun _ =>
      leaves_ite leaves_finishCancellation (leaves_bind leaves_terminalTransitionNeedsRetry fun _ => ?_))
    exact leaves_ite (leaves_post _) (leaves_leaveJob hnext)

/-- **The end of a run** leaves the requests in the worker alone. -/
theorem leaves_finishPendingTerminalCheckpoint : Leaves (finishPendingTerminalCheckpoint w) :=
  leaves_finishPendingWith leaves_abandonActiveJob
    (fun _ _ => leaves_bind (leaves_view _) fun _ => leaves_checkpoint _ _ _ _ _ (leaves_post _))
    leaves_checkpointCancellation
    fun _ => leaves_bind (leaves_view _) fun _ => leaves_checkpoint _ _ _ _ _ leaves_scheduleLeaseRetry

end BreezeDesk.TranscriptionCoordinator
