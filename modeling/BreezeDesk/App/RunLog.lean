/-
  What the log of a run says, for all runs of the coordinator.

  1. `stops_when_quiet`     — an end is written when the worker has no request left;
  2. `decisions_hold`       — a decision about the end is not weakened by a later cause;
  3. `ends_once`            — a run ends at most once, and nothing is done for it afterwards;
  4. `completes_the_plan`   — a job is completed after all chunks of its plan, each once and in order;
  5. `one_thing_at_a_time`  — the run goes on with one request or one callback.

  Each is read off the invariant at the end of a run, with two runs as examples: one to the end, and one that is
  cancelled while the worker has a chunk.
-/
import BreezeDesk.App.RunEvents

namespace BreezeDesk.TranscriptionCoordinator

open App Effect Ipc Ledger Runs Worker

variable {w : World}

/-! ## Two runs -/

def queuedJob : TranscriptionJob := { id := qs "job", recordingId := qs "recording", vadEnabled := false }

/-- One job is queued, whose audio an earlier run has normalized. -/
def oneJob : World where
  tables := asciiTables
  uuid n := List.replicate (n + 1) 0x61
  now _ := 0
  refused _ := none
  activeLease n :=
    .ok (if n < 10 then none else some { jobId := qs "job", ownerToken := [0x61], expiresAt := some 1 })
  findJob _ := .ok (some queuedJob)
  findRecording _ := .ok (some
    { id := qs "recording", sourceHash := qs "hash", durationMs := 5000, waveformPath := qs "waveform" })
  chunks _ := .ok []
  segments _ := .ok []
  recovered _ := .ok ()
  claimNextQueued _ := .ok { claimed := true, job := some queuedJob }
  fileExists _ _ := true
  isFile _ _ := true
  modelPath _ := qs "model"
  expectedSha256 _ := List.replicate 64 0x61
  modelVerified _ := true
  download _ := none
  reusablePath _ := true
  validatedAudio _ := .ok 5000
  ffmpegAvailable _ := .ok ()
  normalizedAudioPath _ _ := qs "normalized"
  workerStarts _ := .ok ()
  plan durationMs := [⟨0, 0, 3000, 0, 0⟩, ⟨1, 3000, durationMs, 0, 0⟩]
  segmentDigest _ := qs "digest"

theorem oneJob_fresh : oneJob.Fresh where
  ne_nil n := by simp [oneJob]
  injective m n h := by simpa [oneJob] using congrArg List.length h

def answer (type : MessageType) (request : Nat) (jobId : QString) (payload : QCborMap) : Event :=
  .envelope { type, requestId := oneJob.uuid request, jobId, payload }

/-- The job is claimed and its model is loaded; the first of two chunks is in the worker. -/
def firstChunk : List Event :=
  [.setUp, .fire 0 {}, .workerReady, .fire 0 {},
    answer .Capabilities 1 [] [(qs "runtimeAvailable", .bool true)],
    .fire 1 { success := true, text := qs "hash" },
    answer .ModelLoaded 4 [] [(qs "actualBackend", .string (qs "cpu")), (qs "runtimeVersion", .string (qs "1"))]]

/-- Both chunks are transcribed. -/
def wholeJob : List Event :=
  firstChunk ++ [answer .ChunkCompleted 5 (qs "job") [], .fire 1 {}, answer .ChunkCompleted 7 (qs "job") [],
    .fire 1 {}]

/-- The user cancels while the worker has a chunk, and the worker dies. -/
def cancelledJob : List Event := firstChunk ++ [.cancel (qs "job"), .workerExited (qs "gone")]

theorem wholeJob_admissible : Guarded (step oneJob) (Admissible oneJob) {} wholeJob := by decide +kernel

theorem wholeJob_log : (run (step oneJob) {} wholeJob).log ≠ [] :=
  List.isEmpty_eq_false_iff.mp (by decide +kernel)

theorem cancelledJob_admissible : Guarded (step oneJob) (Admissible oneJob) {} cancelledJob := by decide +kernel

/-! ## What the log says -/

/-- Every entry of the log keeps the rules, given the entries before it. -/
theorem allowed_run (hw : w.Fresh) {events : List Event} (hok : Guarded (step w) (Admissible w) {} events)
    {before after : List Entry} {e : Entry} (hlog : (run (step w) {} events).log = before ++ e :: after) :
    Allowed before e := (sound_run hw hok).books.allowed before e after hlog

/-- Two entries of one run, in their order. -/
theorem follows_run (hw : w.Fresh) {events : List Event} (hok : Guarded (step w) (Admissible w) {} events) :
    (run (step w) {} events).log.Pairwise fun a b => a.ownerToken = b.ownerToken → Follows a.act b.act :=
  Justified.pairwise (fun _ _ hallowed a ha => hallowed.follows a ha) (sound_run hw hok).books.allowed

/-- The job is claimed, and the database refuses the first write of an interruption. -/
def lockedOnce : World :=
  { oneJob with
    refused := fun call =>
      if call = 16 then some (.ofDatabase .databaseQueryFailed (qs "The database is locked.")) else none
    findJob := fun _ => .ok (some { queuedJob with state := .preparing }) }

/-- The worker is lost while the source is hashed.  Its hash comes before the interruption is tried again: the run
    goes on with the worker that was started in between, and gives it the model to load. -/
def overtaken : List Event :=
  firstChunk.take 5 ++ [.workerExited (qs "gone"), .workerStarted, .workerReady,
    .fire 1 { success := true, text := qs "hash" },
    answer .Capabilities 4 [] [(qs "runtimeAvailable", .bool true)], .fire 1 {}]

-- The condition on an interruption that is tried again is needed: only the last event breaks it.
example : Guarded (step lockedOnce) (Admissible lockedOnce) {} overtaken.dropLast ∧
    ((run (step lockedOnce) {} overtaken).log.any fun e => e.act.stops && e.workerBusy) = true := by
  decide +kernel

/-- **A run ends at most once.**  Nothing is written or decided for it after its end was accepted. -/
theorem ends_once (hw : w.Fresh) {events : List Event} (hok : Guarded (step w) (Admissible w) {} events) :
    (∀ owner, (run (step w) {} events).log.countP (fun e => e.ownerToken = owner && e.act.ends) ≤ 1) ∧
      (run (step w) {} events).log.Pairwise fun earlier later =>
        earlier.act.ends = true → later.ownerToken ≠ earlier.ownerToken := by
  have hfollows := follows_run hw hok
  refine ⟨fun owner => count_le_one (hfollows.imp ?_), hfollows.imp ?_⟩
  · rintro a b hab ⟨ha, hb⟩
    obtain ⟨howner, hends⟩ := Bool.and_eq_true_iff.mp ha
    obtain ⟨howner', -⟩ := Bool.and_eq_true_iff.mp hb
    have hsame : a.ownerToken = b.ownerToken := (of_decide_eq_true howner).trans (of_decide_eq_true howner').symm
    rw [(hab hsame).goes_on] at hends
    cases hends
  · intro a b hab hends hsame
    rw [(hab hsame.symm).goes_on] at hends
    cases hends

theorem ends_once_whole :
    ((run (step oneJob) {} wholeJob).log.any fun e => e.act.ends) = true ∧
      (∀ owner, (run (step oneJob) {} wholeJob).log.countP (fun e => e.ownerToken = owner && e.act.ends) ≤ 1) ∧
      (run (step oneJob) {} wholeJob).log.Pairwise fun earlier later =>
        earlier.act.ends = true → later.ownerToken ≠ earlier.ownerToken :=
  ⟨by decide +kernel, ends_once oneJob_fresh wholeJob_admissible⟩

/-- **A job is completed after all its chunks.**  When the run asks for the completion of its job, it has a plan,
    and the chunks of the plan that were open were committed in this run, each once and in order. -/
theorem completes_the_plan (hw : w.Fresh) {events : List Event} (hok : Guarded (step w) (Admissible w) {} events)
    {before after : List Entry} {e : Entry} (hlog : (run (step w) {} events).log = before ++ e :: after)
    (hcompletes : e.act.completes = true) :
    planOf e.ownerToken before ≠ [] ∧ commitsOf e.ownerToken before = openIds (planOf e.ownerToken before) :=
  (allowed_run hw hok hlog).complete hcompletes

/-- Both chunks of the plan were committed when the job was completed. -/
theorem completes_the_plan_whole :
    ∃ before e, (run (step oneJob) {} wholeJob).log = before ++ [e] ∧ e.act.completes = true ∧
      (planOf e.ownerToken before).length = 2 ∧ planOf e.ownerToken before ≠ [] ∧
      commitsOf e.ownerToken before = openIds (planOf e.ownerToken before) := by
  have hlog := (List.dropLast_append_getLast wholeJob_log).symm
  have hcompletes : ((run (step oneJob) {} wholeJob).log.getLast wholeJob_log).act.completes = true := by
    decide +kernel
  exact ⟨_, _, hlog, hcompletes, by decide +kernel,
    completes_the_plan oneJob_fresh wholeJob_admissible hlog hcompletes⟩

/-- **One thing at a time.**  In every state on the way, the run goes on with its request or with one callback, and
    a request that the worker has is the one that is waited for.  While an end is pending and the worker has the
    request, the worker is being made to stop. -/
theorem one_thing_at_a_time (hw : w.Fresh) {events : List Event}
    (hok : Guarded (step w) (Admissible w) {} events) :
    ∀ s ∈ states (step w) {} events,
      s.callbacks.countP (carries s.activeJob.id s.ownerToken) + (if s.requestId = [] then 0 else 1) ≤ 1 ∧
      (∀ request ∈ s.worker.serving, request = s.requestId ∧ s.requestKind.usesRuntime = true) ∧
      (s.pendingTerminalAction ≠ .None → s.worker.serving ≠ [] →
        ∃ job, s.worker.forcedCancellation = some (job, s.requestId)) := by
  intro s hs
  have hsound := states_invariant (step_sound hw) sound_start hok s hs
  exact ⟨hsound.tokens.one, fun request hmem =>
    ⟨(hsound.barrier.serving request hmem).1, (hsound.barrier.serving request hmem).2.2⟩, hsound.barrier.forced⟩

theorem one_thing_at_a_time_cancelled :
    ((states (step oneJob) {} cancelledJob).any fun s =>
        decide (s.pendingTerminalAction = .Cancel) && !s.worker.serving.isEmpty) = true ∧
      ∀ s ∈ states (step oneJob) {} cancelledJob,
        s.callbacks.countP (carries s.activeJob.id s.ownerToken) + (if s.requestId = [] then 0 else 1) ≤ 1 ∧
        (∀ request ∈ s.worker.serving, request = s.requestId ∧ s.requestKind.usesRuntime = true) ∧
        (s.pendingTerminalAction ≠ .None → s.worker.serving ≠ [] →
          ∃ job, s.worker.forcedCancellation = some (job, s.requestId)) :=
  ⟨by decide +kernel, one_thing_at_a_time oneJob_fresh cancelledJob_admissible⟩

end BreezeDesk.TranscriptionCoordinator
