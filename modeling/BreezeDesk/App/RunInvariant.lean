/-
  What holds of the coordinator between two events.

  The invariant has six parts, each about the fields that it names.  `Barrier`: the requests that the worker
  still has are the coordinator's own request, and what is known of its end is true.  `Names`: UUIDs in use have
  been drawn.  `Tokens`: at most one thing goes on with the job — a request, or one callback.  `Background`: what
  runs in the background belongs to the job.  `Cursor`: the chunks in memory are the plan, as far as it has been
  worked off.  `Books`: the log keeps its rules.

  `Allowed` are the rules of the log.  An entry is judged by those before it, so that what is proved of one
  entry holds over all runs.
-/
import BreezeDesk.App.TranscriptionEvents
import BreezeDesk.Library.Ledger

namespace BreezeDesk.TranscriptionCoordinator

open Effect Ipc Ledger

/-! ## The rules of the log -/

def isStopped (state : JobState) : Bool := state = .failed || state = .cancelled || state = .interrupted

def isStoppedChunk (state : ChunkState) : Bool := state = .failed || state = .cancelled || state = .interrupted

/-- The checkpoint of an end: the job or its chunk is stopped. -/
def Act.stops : Act → Bool
  | .write (.transition state _ _) _ => isStopped state
  | .write (.updateChunk chunk) _ => isStoppedChunk chunk.state
  | _ => false

def Act.cancels : Act → Bool
  | .write (.transition state _ _) _ => state = .cancelled
  | .write (.updateChunk chunk) _ => chunk.state = .cancelled
  | _ => false

/-- A terminal transition that was accepted. -/
def Act.ends : Act → Bool
  | .write (.transition state _ _) accepted => isStopped state && accepted
  | .write .completeAndActivate accepted => accepted
  | _ => false

def Act.decision? : Act → Option PendingTerminalAction
  | .decided action => some action
  | _ => none

/-- What an entry leaves to the later ones of its run. -/
structure Follows (earlier later : Act) : Prop where
  goes_on : earlier.ends = false
  decided : earlier.decision?.isSome → later.decision?.isSome ∨ later.stops
  cancelled : earlier.decision? = some .Cancel →
    (later.stops → later.cancels) ∧ ∀ action, later.decision? = some action → action = .Cancel ∨
      action = .AbandonAfterLeaseLoss
  abandoned : earlier.decision? = some .AbandonAfterLeaseLoss →
    later.decision? = some .AbandonAfterLeaseLoss

/-- The chunks that the job had when its run began with them, according to the log. -/
def planOf (ownerToken : QString) (log : List Entry) : List JobChunk :=
  (log.filterMap fun e =>
    match e.act with
    | .planned chunks => if e.ownerToken = ownerToken then some chunks else none
    | _ => none).getLast?.getD []

/-- The chunk that an entry commits: its completion was written and accepted. -/
def Act.commit? : Act → Option QString
  | .write (.updateChunk chunk) true => if chunk.state = .completed then some chunk.id else none
  | _ => none

def commitsOf (ownerToken : QString) (log : List Entry) : List QString :=
  log.filterMap fun e => if e.ownerToken = ownerToken then e.act.commit? else none

/-- The chunks of a plan that are not completed. -/
def openIds (plan : List JobChunk) : List QString :=
  (plan.filter fun chunk => chunk.state ≠ .completed).map (·.id)

def Act.completes : Act → Bool
  | .write .completeAndActivate _ => true
  | _ => false

structure Allowed (before : List Entry) (e : Entry) : Prop where
  quiet : e.act.stops = true → e.workerBusy = false
  follows : ∀ a ∈ before, a.ownerToken = e.ownerToken → Follows a.act e.act
  complete : e.act.completes = true →
    planOf e.ownerToken before ≠ [] ∧ commitsOf e.ownerToken before = openIds (planOf e.ownerToken before)

/-! ## The invariant -/

/-- Where in an event the state is.  `answered`: the answer to the request has been worked off, and the request is
    not forgotten yet.  `ended`: a terminal transition was written, and the run is not left yet. -/
inductive Moment where
  | between | answered | ended
  deriving DecidableEq

/-- The requests in the worker, and what is known of them. -/
structure Barrier (m : WorkerProcess) (requestId : QString) (kind : RequestKind) (pending : PendingTerminalAction)
    (confirmed : Bool) (jobId : QString) : Prop where
  serving : ∀ request ∈ m.serving, request = requestId ∧ requestId ≠ [] ∧ kind.usesRuntime = true
  up : m.ready = true → m.running = true
  alive : m.serving ≠ [] → m.running = true ∧ (m.connecting = true → m.ready = true)
  answered : ∀ key ∈ m.terminalRequests, key.2 ∉ m.serving
  waits : pending ≠ .None → requestId ≠ [] ∧ kind.usesRuntime = true ∧ jobId ≠ []
  forced : pending ≠ .None → m.serving ≠ [] → ∃ job, m.forcedCancellation = some (job, requestId)
  known : confirmed = true → pending ≠ .None ∧ m.serving = []

def Drawn (w : World) (drawn : Nat) (id : QString) : Prop := ∃ n < drawn, w.uuid n = id

def Callback.ownerToken? : Callback → Option QString
  | .ensureWorkerReady _ _ ownerToken | .capabilitiesTimeout _ ownerToken _ | .sourceHashed _ ownerToken
  | .inspected _ ownerToken | .normalizationFinished _ _ ownerToken | .normalizedSourceHashed _ ownerToken _
  | .waveformGenerated _ ownerToken _ _ _ | .vadDownloadFinished _ _ ownerToken _ | .startNextChunk _ ownerToken
  | .failAgain _ ownerToken _ _ | .cancelAgain _ ownerToken | .interruptAgain _ ownerToken _ => some ownerToken
  | .scheduleNext => none

structure Names (w : World) (drawn : Nat) (requestId ownerToken jobId : QString) (callbacks : List Callback)
    (terminalRequests : List (QString × QString)) (log : List Entry) : Prop where
  request : requestId ≠ [] → Drawn w drawn requestId
  owner : ownerToken ≠ [] → Drawn w drawn ownerToken
  job : jobId ≠ [] → ownerToken ≠ []
  callback : ∀ callback ∈ callbacks, ∀ token, callback.ownerToken? = some token → Drawn w drawn token
  terminal : ∀ key ∈ terminalRequests, Drawn w drawn key.2
  entry : ∀ e ∈ log, Drawn w drawn e.ownerToken

/-- A callback that goes on with the job that runs. -/
def carries (job owner : QString) : Callback → Bool
  | .ensureWorkerReady jobId _ ownerToken | .sourceHashed jobId ownerToken | .inspected jobId ownerToken
  | .normalizationFinished _ jobId ownerToken | .normalizedSourceHashed jobId ownerToken _
  | .waveformGenerated jobId ownerToken _ _ _ | .vadDownloadFinished _ jobId ownerToken _
  | .startNextChunk jobId ownerToken => job ≠ [] && jobId = job && ownerToken = owner
  | _ => false

def Callback.isWaveform : Callback → Bool
  | .waveformGenerated .. => true
  | _ => false

/-- Before the first chunk, or after one that is completed. -/
def Between (chunks : List JobChunk) (current : Option Nat) : Prop :=
  ∀ index, current = some index → ∃ chunk, chunks[index]? = some chunk ∧ chunk.state = .completed

def InChunk (chunks : List JobChunk) (current : Option Nat) : Prop :=
  ∃ index chunk, current = some index ∧ chunks[index]? = some chunk ∧ chunk.state ≠ .completed

/-- Where a callback goes on, the chunks are ready for it. -/
def CallbackFits (plan chunks : List JobChunk) (current : Option Nat) (state : JobState) : Callback → Prop
  | .startNextChunk _ _ | .vadDownloadFinished _ _ _ .StartNextChunk => Between chunks current ∧ plan ≠ []
  | .vadDownloadFinished _ _ _ .TranscribeCurrentChunk => InChunk chunks current ∧ plan ≠ []
  | .ensureWorkerReady _ _ _ | .vadDownloadFinished _ _ _ .AnalyzeSpeech => current = none
  | _ => current = none ∧ state ≠ .waitingForModel

def RequestFits (moment : Moment) (plan chunks : List JobChunk) (current : Option Nat) : RequestKind → Prop
  | .TranscribeChunk => (moment ≠ .between ∨ InChunk chunks current) ∧ plan ≠ []
  | .LoadModel => current = none ∧ plan ≠ []
  | _ => current = none

structure Tokens (moment : Moment) (plan chunks : List JobChunk) (current : Option Nat) (state : JobState)
    (job owner requestId : QString) (kind : RequestKind) (pending : PendingTerminalAction)
    (callbacks : List Callback) : Prop where
  one : callbacks.countP (carries job owner) + (if requestId = [] then 0 else 1) ≤ 1
  callback : ∀ callback ∈ callbacks, carries job owner callback = true →
    CallbackFits plan chunks current state callback
  request : requestId ≠ [] → pending = .None → RequestFits moment plan chunks current kind

structure Background (calls : Nat) (job owner requestId : QString) (chunks : List JobChunk) (current : Option Nat)
    (normalization waveform : Option Nat) (callbacks : List Callback) : Prop where
  operations : ∀ operation jobId ownerToken, .normalizationFinished operation jobId ownerToken ∈ callbacks →
    operation < calls
  mine : ∀ operation jobId ownerToken, normalization = some operation →
    .normalizationFinished operation jobId ownerToken ∈ callbacks → jobId = job ∧ ownerToken = owner
  carried : waveform ≠ none → ∃ callback ∈ callbacks, callback.isWaveform = true ∧ carries job owner callback = true
  idle : job = [] → requestId = [] ∧ chunks = [] ∧ current = none ∧ normalization = none ∧ waveform = none

/-- How many chunks of the plan have been dealt with. -/
def dealt (chunks : List JobChunk) : Option Nat → Nat
  | none => 0
  | some index => if chunks[index]?.any fun chunk => chunk.state = .completed then index + 1 else index

structure Cursor (plan : List JobChunk) (commits : List QString) (chunks : List JobChunk) (current : Option Nat)
    (state : JobState) : Prop where
  commits : commits = openIds (plan.take (dealt chunks current))
  rest : chunks.drop (following current) = plan.drop (following current)
  here : ∀ index, current = some index → ∃ chunk planned, chunks[index]? = some chunk ∧
    plan[index]? = some planned ∧ chunk.id = planned.id ∧ planned.state ≠ .completed
  waiting : state = .waitingForModel → plan ≠ []

/-- The log, and what the entries of the current run say about the state. -/
structure Books (moment : Moment) (log : List Entry) (ownerToken : QString) (pending : PendingTerminalAction) :
    Prop where
  allowed : Justified Allowed log
  ends : ∀ e ∈ log, e.ownerToken = ownerToken → e.act.ends = true → moment = .ended
  decided : ∀ e ∈ log, e.ownerToken = ownerToken → ∀ action, e.act.decision? = some action →
    pending ≠ .None ∧ (action = .Cancel → pending = .Cancel ∨ pending = .AbandonAfterLeaseLoss) ∧
      (action = .AbandonAfterLeaseLoss → pending = .AbandonAfterLeaseLoss)

structure SoundBut (w : World) (moment : Moment) (s : Coordinator) : Prop where
  barrier : Barrier s.worker s.requestId s.requestKind s.pendingTerminalAction s.workerQuiescenceConfirmed
    s.activeJob.id
  names : Names w s.drawn s.requestId s.ownerToken s.activeJob.id s.callbacks s.worker.terminalRequests s.log
  tokens : Tokens moment (planOf s.ownerToken s.log) s.chunks s.currentChunkIndex s.activeJob.state s.activeJob.id
    s.ownerToken s.requestId s.requestKind s.pendingTerminalAction s.callbacks
  background : Background s.calls s.activeJob.id s.ownerToken s.requestId s.chunks s.currentChunkIndex
    s.normalization s.waveformCancellation s.callbacks
  cursor : Cursor (planOf s.ownerToken s.log) (commitsOf s.ownerToken s.log) s.chunks s.currentChunkIndex
    s.activeJob.state
  books : Books moment s.log s.ownerToken s.pendingTerminalAction

/-- The invariant. -/
abbrev Sound (w : World) : Coordinator → Prop := SoundBut w .between

/-- What is left of it after an answer. -/
abbrev Nearly (w : World) : Coordinator → Prop := SoundBut w .answered

variable {w : World} {s : Coordinator} {moment : Moment}

/-! ## Reading the log -/

theorem planOf_concat (owner : QString) (log : List Entry) (e : Entry) :
    planOf owner (log ++ [e]) =
      match e.act with
      | .planned chunks => if e.ownerToken = owner then chunks else planOf owner log
      | _ => planOf owner log := by
  unfold planOf
  rw [List.filterMap_append]
  cases hact : e.act with
  | planned chunks =>
    by_cases howner : e.ownerToken = owner
    · simp [hact, howner]
    · simp [hact, howner]
  | write change accepted => simp [hact]
  | decided action => simp [hact]

theorem commitsOf_concat (owner : QString) (log : List Entry) (e : Entry) :
    commitsOf owner (log ++ [e]) =
      commitsOf owner log ++ (if e.ownerToken = owner then e.act.commit? else none).toList := by
  unfold commitsOf
  rw [List.filterMap_append]
  by_cases howner : e.ownerToken = owner
  · cases hcommit : e.act.commit? <;> simp [howner, hcommit]
  · simp [howner]

theorem planOf_fresh {owner : QString} {log : List Entry} (h : ∀ e ∈ log, e.ownerToken ≠ owner) :
    planOf owner log = [] := by
  have hnone : (log.filterMap fun e =>
      match e.act with
      | .planned chunks => if e.ownerToken = owner then some chunks else none
      | _ => none) = [] := by
    refine List.filterMap_eq_nil_iff.mpr fun e hmem => ?_
    cases e.act with
    | planned chunks => exact if_neg (h e hmem)
    | write | decided => rfl
  unfold planOf
  rw [hnone]
  rfl

theorem commitsOf_fresh {owner : QString} {log : List Entry} (h : ∀ e ∈ log, e.ownerToken ≠ owner) :
    commitsOf owner log = [] :=
  List.filterMap_eq_nil_iff.mpr fun e hmem => if_neg (h e hmem)

/-! ## Names -/

theorem Drawn.mono {drawn drawn' : Nat} {id : QString} (h : Drawn w drawn id) (hle : drawn ≤ drawn') :
    Drawn w drawn' id := by
  obtain ⟨n, hn, hid⟩ := h
  exact ⟨n, Nat.lt_of_lt_of_le hn hle, hid⟩

theorem Drawn.ne_nil (hw : w.Fresh) {drawn : Nat} {id : QString} (h : Drawn w drawn id) : id ≠ [] := by
  obtain ⟨n, -, rfl⟩ := h
  exact hw.ne_nil n

/-- A UUID that is drawn now is none of those in use. -/
theorem Drawn.ne_fresh (hw : w.Fresh) {drawn : Nat} {id : QString} (h : Drawn w drawn id) : id ≠ w.uuid drawn := by
  obtain ⟨n, hn, rfl⟩ := h
  exact fun hsame => Nat.lt_irrefl _ (hw.injective hsame ▸ hn)

theorem Names.mono {drawn drawn' : Nat} {requestId ownerToken jobId : QString} {callbacks : List Callback}
    {terminalRequests : List (QString × QString)} {log : List Entry}
    (h : Names w drawn requestId ownerToken jobId callbacks terminalRequests log) (hle : drawn ≤ drawn') :
    Names w drawn' requestId ownerToken jobId callbacks terminalRequests log where
  request hne := (h.request hne).mono hle
  owner hne := (h.owner hne).mono hle
  job := h.job
  callback callback hmem token htoken := (h.callback callback hmem token htoken).mono hle
  terminal key hmem := (h.terminal key hmem).mono hle
  entry e hmem := (h.entry e hmem).mono hle

/-! ## What the parts say together -/

theorem mayStillRun_iff : activeWorkerRequestMayStillRun s = true ↔
    s.requestId ≠ [] ∧ s.requestKind.usesRuntime = true := by
  unfold activeWorkerRequestMayStillRun
  rw [Bool.and_eq_true, decide_eq_true_iff]

/-- Without a request that may run, the worker has none. -/
theorem SoundBut.idle_worker (h : SoundBut w moment s) (hnone : activeWorkerRequestMayStillRun s = false) :
    s.worker.serving = [] := by
  refine List.eq_nil_iff_forall_not_mem.mpr fun request hmem => ?_
  obtain ⟨-, hid, hkind⟩ := h.barrier.serving request hmem
  rw [mayStillRun_iff.mpr ⟨hid, hkind⟩] at hnone
  cases hnone

theorem SoundBut.not_pending (h : SoundBut w moment s) (hnone : activeWorkerRequestMayStillRun s = false) :
    s.pendingTerminalAction = .None := by
  by_contra hpending
  obtain ⟨hid, hkind, -⟩ := h.barrier.waits hpending
  rw [mayStillRun_iff.mpr ⟨hid, hkind⟩] at hnone
  cases hnone

/-- Nothing has ended the run. -/
theorem Books.unended {moment' : Moment} {log : List Entry} {owner : QString} {pending : PendingTerminalAction}
    (h : Books moment log owner pending) (hmoment : moment ≠ .ended) : Books moment' log owner pending :=
  ⟨h.allowed, fun e hmem howner hends => absurd (h.ends e hmem howner hends) hmoment, h.decided⟩

theorem SoundBut.nearly (h : SoundBut w moment s) (hmoment : moment ≠ .ended) : Nearly w s where
  barrier := h.barrier
  names := h.names
  tokens := by
    refine ⟨h.tokens.one, h.tokens.callback, fun hid hpending => ?_⟩
    have hfits := h.tokens.request hid hpending
    cases hkind : s.requestKind with
    | TranscribeChunk =>
      rw [hkind] at hfits
      exact ⟨Or.inl fun hmoment => (by cases hmoment), hfits.2⟩
    | None | GetCapabilities | AnalyzeSpeech | LoadModel =>
      rw [hkind] at hfits
      exact hfits
  background := h.background
  cursor := h.cursor
  books := h.books.unended hmoment

theorem Sound.nearly (h : Sound w s) : Nearly w s := SoundBut.nearly h fun hmoment => by cases hmoment

/-- After an answer, the invariant holds again once the request cannot run any more or the end is decided. -/
theorem Nearly.sound (h : Nearly w s)
    (hover : activeWorkerRequestMayStillRun s = true → s.pendingTerminalAction ≠ .None) : Sound w s where
  barrier := h.barrier
  names := h.names
  tokens := by
    refine ⟨h.tokens.one, h.tokens.callback, fun hid hpending => ?_⟩
    have hfits := h.tokens.request hid hpending
    cases hkind : s.requestKind with
    | TranscribeChunk => exact absurd hpending (hover (mayStillRun_iff.mpr ⟨hid, by rw [hkind]; rfl⟩))
    | None | GetCapabilities | AnalyzeSpeech | LoadModel =>
      rw [hkind] at hfits
      exact hfits
  background := h.background
  cursor := h.cursor
  books := h.books.unended fun hmoment => by cases hmoment

theorem Nearly.inactive (h : Nearly w s) (hnone : s.activeJob.id = []) : Sound w s :=
  Nearly.sound h fun hrun => absurd (h.background.idle hnone).1 (mayStillRun_iff.mp hrun).1

end BreezeDesk.TranscriptionCoordinator
