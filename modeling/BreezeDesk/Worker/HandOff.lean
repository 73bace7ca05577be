/-
  The hand-off of the one operation between client, main thread and inference thread.

  The system is the main thread's queue of events, the runner's queue of requests, what the running slot
  still has to post, and the messages on their way in both directions.  A client sends the next request
  that claims the operation after the terminal reply of the one before.

  The operation is free again when `operationFinished` has been dispatched, and the runner posts that
  behind the response which invites the next request.  If the request reaches the queue between the two
  posts it is refused (`refused_betweenPosts`); `neverRefused` says that this is the only way.
  The invariant follows the request on its way (`Phase`), and counts: an active operation is in the
  runner's queue, in the running slot, or its `operationFinished` is queued (`balance`).
-/
import BreezeDesk.Worker.Controller
import BreezeDesk.Library.Runs

namespace BreezeDesk.Worker

open Ipc

/-- An event of the main thread: a message has been read from the socket, or the runner has posted. -/
inductive MainEvent where
  | request (envelope : Envelope)
  | posted (post : Post)

structure WorkerSystem where
  queue : List MainEvent := []
  controller : WorkerController := {}
  tasks : List Task := []
  posts : List Post := []
  toWorker : List Envelope := []
  toClient : List Envelope := []
  awaiting : Option Envelope := none
  used : List QString := []
  refused : List Envelope := []

inductive Move where
  | send (envelope : Envelope)
  | receive
  | arrive
  | dispatch
  | start (run : EngineRun)
  | post

namespace WorkerSystem

local instance lawfulIds : LawfulBEq QString := inferInstance

/-- The client sends a message with a new id; one that claims the operation only when it awaits no
    terminal reply. -/
def send (system : WorkerSystem) (envelope : Envelope) : WorkerSystem :=
  if envelope.requestId ∈ system.used then system
  else if isOperation envelope then
    match system.awaiting with
    | some _ => system
    | none =>
      { system with
        toWorker := system.toWorker ++ [envelope]
        awaiting := some envelope
        used := envelope.requestId :: system.used }
  else
    { system with
      toWorker := system.toWorker ++ [envelope]
      used := envelope.requestId :: system.used }

def receive (system : WorkerSystem) : WorkerSystem :=
  match system.toClient with
  | [] => system
  | answer :: toClient =>
    { system with toClient, awaiting := system.awaiting.filter fun request => !isTerminal request answer }

def arrive (system : WorkerSystem) : WorkerSystem :=
  match system.toWorker with
  | [] => system
  | envelope :: toWorker => { system with toWorker, queue := system.queue ++ [.request envelope] }

/-- The main thread handles the next event of its queue. -/
def handle (system : WorkerSystem) : MainEvent → WorkerSystem
  | .request envelope =>
    let handled := system.controller.handleEnvelope envelope
    { system with
      controller := handled.controller
      toClient := system.toClient ++ handled.replies
      tasks := system.tasks ++ handled.tasks
      refused := if handled.refused then system.refused ++ [envelope] else system.refused }
  | .posted (.response envelope) => { system with toClient := system.toClient ++ [envelope] }
  | .posted .operationFinished => { system with controller := system.controller.operationFinished }

def dispatch (system : WorkerSystem) : WorkerSystem :=
  match system.queue with
  | [] => system
  | event :: queue => if system.controller.quit then system else { system with queue }.handle event

/-- `cancellation == nullptr || cancellation->isRequested()`. -/
def cancelled (system : WorkerSystem) (task : Task) : Bool :=
  match task.cancellation with
  | none => true
  | some flag => system.controller.operation.requested flag

/-- The runner takes its next request. -/
def start (system : WorkerSystem) (run : EngineRun) : WorkerSystem :=
  match system.posts, system.tasks with
  | [], task :: tasks => { system with tasks, posts := slotPosts task.request (system.cancelled task) run }
  | _, _ => system

def post (system : WorkerSystem) : WorkerSystem :=
  match system.posts with
  | [] => system
  | post :: posts => { system with posts, queue := system.queue ++ [.posted post] }

def step (system : WorkerSystem) : Move → WorkerSystem
  | .send envelope => system.send envelope
  | .receive => system.receive
  | .arrive => system.arrive
  | .dispatch => system.dispatch
  | .start run => system.start run
  | .post => system.post

/-- The response that ends the request is posted, and `operationFinished` is not. -/
def betweenPosts (system : WorkerSystem) : Bool :=
  match system.posts with
  | [.operationFinished] => true
  | _ => false

end WorkerSystem

/-- No request for the operation reaches the queue between the two posts. -/
def Timely (system : WorkerSystem) : Move → Prop
  | .arrive => ∀ envelope ∈ system.toWorker.head?, isOperation envelope = true → system.betweenPosts = false
  | _ => True

/-! ## What is on its way -/

/-- A message on its way to the controller, and an answer on its way to the client. -/
def Requested (system : WorkerSystem) (envelope : Envelope) : Prop :=
  envelope ∈ system.toWorker ∨ .request envelope ∈ system.queue

def Answered (system : WorkerSystem) (answer : Envelope) : Prop :=
  answer ∈ system.toClient ∨ .posted (.response answer) ∈ system.queue

/-- Every id in the system has been given out by the client, and other messages than the awaited one
    have other ids. -/
structure Identified (system : WorkerSystem) : Prop where
  requested : ∀ envelope, Requested system envelope → envelope.requestId ∈ system.used
  answered : ∀ answer, Answered system answer → answer.requestId ∈ system.used
  tasks : ∀ task ∈ system.tasks, task.request.requestId ∈ system.used
  posts : ∀ answer, .response answer ∈ system.posts → answer.requestId ∈ system.used
  awaited : ∀ request, system.awaiting = some request → request.requestId ∈ system.used
  apart : ∀ request, system.awaiting = some request → ∀ envelope, Requested system envelope →
    isOperation envelope = false → envelope.requestId ≠ request.requestId

/-- The runner is through, but perhaps for the last post. -/
def HandedOver (system : WorkerSystem) : Prop :=
  system.tasks = [] ∧ (system.posts = [] ∨ system.posts = [.operationFinished])

def NoOperation (system : WorkerSystem) : Prop :=
  ∀ envelope, Requested system envelope → isOperation envelope = false

def Unanswered (system : WorkerSystem) (request : Envelope) : Prop :=
  ∀ answer, Answered system answer → isTerminal request answer = false

/-- Messages that do not claim the operation. -/
def Others (envelopes : List Envelope) : Prop := ∀ envelope ∈ envelopes, isOperation envelope = false

def OtherEvents (events : List MainEvent) : Prop :=
  ∀ envelope, .request envelope ∈ events → isOperation envelope = false

/-- Where the awaited request is. -/
inductive Phase (system : WorkerSystem) : Prop where
  | idle (awaiting : system.awaiting = none) (requests : NoOperation system) (handedOver : HandedOver system)
  | sent (request : Envelope) (before after : List Envelope) (awaiting : system.awaiting = some request)
      (operation : isOperation request = true) (toWorker : system.toWorker = before ++ request :: after) (hbefore : Others before)
      (hafter : Others after) (queue : OtherEvents system.queue) (handedOver : HandedOver system)
      (unanswered : Unanswered system request)
  | arrived (request : Envelope) (before after : List MainEvent) (awaiting : system.awaiting = some request)
      (operation : isOperation request = true) (toWorker : Others system.toWorker)
      (queue : system.queue = before ++ .request request :: after) (hbefore : OtherEvents before)
      (hafter : OtherEvents after) (unfinished : .posted .operationFinished ∉ after) (tasks : system.tasks = [])
      (posts : system.posts = []) (unanswered : Unanswered system request)
  | claimed (request : Envelope) (task : Task) (awaiting : system.awaiting = some request)
      (requests : NoOperation system) (tasks : system.tasks = [task]) (htask : task.request = request)
      (posts : system.posts = []) (unanswered : Unanswered system request)
  | running (request : Envelope) (updates : List Envelope) (last : Envelope)
      (awaiting : system.awaiting = some request) (requests : NoOperation system)
      (tasks : system.tasks = [])
      (posts : system.posts = (updates ++ [last]).map .response ++ [.operationFinished])
      (hupdates : ∀ answer ∈ updates, isTerminal request answer = false)
      (unanswered : Unanswered system request)
  | replied (request : Envelope) (awaiting : system.awaiting = some request)
      (requests : NoOperation system) (handedOver : HandedOver system)

def MainEvent.isFinished : MainEvent → Bool
  | .posted .operationFinished => true
  | _ => false

/-- How often the operation is in the runner's queue, in the running slot, or finished and queued. -/
def occurrences (system : WorkerSystem) : Nat :=
  system.tasks.length + (if system.posts.isEmpty then 0 else 1) + system.queue.countP MainEvent.isFinished

/-- **The invariant.** -/
structure Coherent (system : WorkerSystem) : Prop where
  identified : Identified system
  phase : Phase system
  balance : occurrences system = if system.controller.operation.active then 1 else 0
  refused : system.refused = []

variable {system : WorkerSystem} {envelope request answer : Envelope}

theorem others_append {first second : List Envelope} (h : Others first) (h' : Others second) :
    Others (first ++ second) := fun envelope hmem =>
  (List.mem_append.mp hmem).elim (h envelope) (h' envelope)

theorem others_singleton (h : isOperation envelope = false) : Others [envelope] := fun other hmem => by
  rw [List.mem_singleton.mp hmem]
  exact h

theorem others_nil : Others [] := fun _ hmem => (by cases hmem)

theorem otherEvents_append {first second : List MainEvent} (h : OtherEvents first) (h' : OtherEvents second) :
    OtherEvents (first ++ second) := fun envelope hmem =>
  (List.mem_append.mp hmem).elim (h envelope) (h' envelope)

theorem otherEvents_request (h : isOperation envelope = false) : OtherEvents [.request envelope] := by
  intro other hmem
  cases List.mem_singleton.mp hmem
  exact h

theorem otherEvents_posted (post : Post) : OtherEvents [.posted post] := by
  intro other hmem
  cases List.mem_singleton.mp hmem

theorem noOperation_of (h : Others system.toWorker) (h' : OtherEvents system.queue) : NoOperation system :=
  fun envelope hrequested => hrequested.elim (h envelope) (h' envelope)

theorem NoOperation.toWorker (h : NoOperation system) : Others system.toWorker := fun envelope hmem =>
  h envelope (Or.inl hmem)

theorem NoOperation.queue (h : NoOperation system) : OtherEvents system.queue := fun envelope hmem =>
  h envelope (Or.inr hmem)

/-! ## The client's moves -/

/-- A message with a new id that does not claim the operation. -/
theorem coherent_sendOther (h : Coherent system) (hid : envelope.requestId ∉ system.used)
    (hother : isOperation envelope = false) :
    Coherent { system with
      toWorker := system.toWorker ++ [envelope]
      used := envelope.requestId :: system.used } := by
  obtain ⟨hidentified, hphase, hbalance, hrefused⟩ := h
  have hrequested : ∀ other, Requested { system with
      toWorker := system.toWorker ++ [envelope]
      used := envelope.requestId :: system.used } other → Requested system other ∨ other = envelope := by
    rintro other (hmem | hmem)
    · rcases List.mem_append.mp hmem with hmem | hmem
      · exact Or.inl (Or.inl hmem)
      · exact Or.inr (List.mem_singleton.mp hmem)
    · exact Or.inl (Or.inr hmem)
  refine ⟨⟨fun other hmem => ?_, fun other hmem => ?_, fun task hmem => ?_, fun other hmem => ?_,
    fun request hmem => ?_, fun request hmem other hother' => ?_⟩, ?_, hbalance, hrefused⟩
  · rcases hrequested other hmem with hmem | rfl
    · exact List.mem_cons_of_mem _ (hidentified.requested other hmem)
    · exact List.mem_cons_self ..
  · exact List.mem_cons_of_mem _ (hidentified.answered other hmem)
  · exact List.mem_cons_of_mem _ (hidentified.tasks task hmem)
  · exact List.mem_cons_of_mem _ (hidentified.posts other hmem)
  · exact List.mem_cons_of_mem _ (hidentified.awaited request hmem)
  · rcases hrequested other hother' with hmem' | rfl
    · exact hidentified.apart request hmem other hmem'
    · intro _ heq
      exact hid (heq ▸ hidentified.awaited request hmem)
  · have hquiet : NoOperation system → NoOperation { system with
        toWorker := system.toWorker ++ [envelope]
        used := envelope.requestId :: system.used } := fun h =>
      noOperation_of (others_append h.toWorker (others_singleton hother)) h.queue
    cases hphase with
    | idle hawaiting hrequests hover => exact .idle hawaiting (hquiet hrequests) hover
    | sent request before after hawaiting hoperation htoWorker hbefore hafter hqueue hover hunanswered =>
      refine .sent request before (after ++ [envelope]) hawaiting hoperation ?_ hbefore
        (others_append hafter (others_singleton hother)) hqueue hover hunanswered
      show system.toWorker ++ [envelope] = _
      rw [htoWorker, List.append_assoc, List.cons_append]
    | arrived request before after hawaiting hoperation htoWorker hqueue hbefore hafter hunfinished htasks hposts hunanswered =>
      exact .arrived request before after hawaiting hoperation (others_append htoWorker (others_singleton hother)) hqueue
        hbefore hafter hunfinished htasks hposts hunanswered
    | claimed request task hawaiting hrequests htasks htask hposts hunanswered =>
      exact .claimed request task hawaiting (hquiet hrequests) htasks htask hposts hunanswered
    | running request updates last hawaiting hrequests htasks hposts hupdates hunanswered =>
      exact .running request updates last hawaiting (hquiet hrequests) htasks hposts hupdates hunanswered
    | replied request hawaiting hrequests hover => exact .replied request hawaiting (hquiet hrequests) hover

/-- The next request for the operation. -/
theorem coherent_sendOperation (h : Coherent system) (hid : envelope.requestId ∉ system.used)
    (hoperation : isOperation envelope = true) (hawaiting : system.awaiting = none) :
    Coherent { system with
      toWorker := system.toWorker ++ [envelope]
      awaiting := some envelope
      used := envelope.requestId :: system.used } := by
  obtain ⟨hidentified, hphase, hbalance, hrefused⟩ := h
  have hidle : NoOperation system ∧ HandedOver system := by
    cases hphase with
    | idle _ hrequests hover => exact ⟨hrequests, hover⟩
    | sent request _ _ h => rw [hawaiting] at h; cases h
    | arrived request _ _ h => rw [hawaiting] at h; cases h
    | claimed request _ h => rw [hawaiting] at h; cases h
    | running request _ _ h => rw [hawaiting] at h; cases h
    | replied request h => rw [hawaiting] at h; cases h
  have hnew : ∀ {id : QString}, id ∈ system.used → id ≠ envelope.requestId := fun hmem heq => hid (heq ▸ hmem)
  refine ⟨⟨fun other hmem => ?_, fun other hmem => ?_, fun task hmem => ?_, fun other hmem => ?_,
    fun request hmem => ?_, fun request hmem other hrequested hother => ?_⟩, ?_, hbalance, hrefused⟩
  · rcases hmem with hmem | hmem
    · rcases List.mem_append.mp hmem with hmem | hmem
      · exact List.mem_cons_of_mem _ (hidentified.requested other (Or.inl hmem))
      · rw [List.mem_singleton.mp hmem]
        exact List.mem_cons_self ..
    · exact List.mem_cons_of_mem _ (hidentified.requested other (Or.inr hmem))
  · exact List.mem_cons_of_mem _ (hidentified.answered other hmem)
  · exact List.mem_cons_of_mem _ (hidentified.tasks task hmem)
  · exact List.mem_cons_of_mem _ (hidentified.posts other hmem)
  · cases hmem
    exact List.mem_cons_self ..
  · cases hmem
    rcases hrequested with hmem | hmem
    · rcases List.mem_append.mp hmem with hmem | hmem
      · exact hnew (hidentified.requested other (Or.inl hmem))
      · rw [List.mem_singleton.mp hmem, hoperation] at hother
        cases hother
    · exact hnew (hidentified.requested other (Or.inr hmem))
  · refine .sent envelope system.toWorker [] rfl hoperation rfl hidle.1.toWorker others_nil hidle.1.queue hidle.2 ?_
    intro answer hmem
    have hapart : (answer.requestId == envelope.requestId) = false :=
      beq_eq_false_iff_ne.mpr (hnew (hidentified.answered answer hmem))
    show (_ && _) = false
    rw [hapart]
    exact Bool.false_and _

theorem coherent_send (h : Coherent system) (envelope : Envelope) : Coherent (system.send envelope) := by
  unfold WorkerSystem.send
  split
  · exact h
  next hid =>
    split
    next hoperation =>
      cases hawaiting : system.awaiting with
      | some request => exact h
      | none => exact coherent_sendOperation h hid hoperation hawaiting
    next hother => exact coherent_sendOther h hid (Bool.eq_false_iff.mpr hother)

/-- Messages get fewer, answers and the rest keep to the ids. -/
theorem Identified.shrink {next : WorkerSystem} (h : Identified system) (hused : next.used = system.used)
    (hrequested : ∀ envelope, Requested next envelope → Requested system envelope)
    (hanswered : ∀ answer, Answered next answer → answer.requestId ∈ system.used)
    (htasks : ∀ task ∈ next.tasks, task.request.requestId ∈ system.used)
    (hposts : ∀ answer, .response answer ∈ next.posts → answer.requestId ∈ system.used)
    (hawaiting : ∀ request, next.awaiting = some request → system.awaiting = some request) :
    Identified next := by
  refine ⟨fun envelope hmem => ?_, fun answer hmem => ?_, fun task hmem => ?_, fun answer hmem => ?_,
    fun request hmem => ?_, fun request hmem envelope hmem' => ?_⟩
  · exact hused ▸ h.requested envelope (hrequested envelope hmem)
  · exact hused ▸ hanswered answer hmem
  · exact hused ▸ htasks task hmem
  · exact hused ▸ hposts answer hmem
  · exact hused ▸ h.awaited request (hawaiting request hmem)
  · exact h.apart request (hawaiting request hmem) envelope (hrequested envelope hmem')

/-- The client takes an answer.  The terminal one comes when the runner is through. -/
theorem coherent_receive (h : Coherent system) : Coherent system.receive := by
  unfold WorkerSystem.receive
  split
  · exact h
  next answer toClient htoClient =>
    obtain ⟨hidentified, hphase, hbalance, hrefused⟩ := h
    have hanswer : Answered system answer := Or.inl (by rw [htoClient]; exact List.mem_cons_self ..)
    have hfewer : ∀ {other : Envelope} {events : List MainEvent}, other ∈ toClient ∨ .posted (.response other) ∈ events →
        other ∈ system.toClient ∨ .posted (.response other) ∈ events := fun hmem =>
      hmem.imp_left fun hmem => by rw [htoClient]; exact List.mem_cons_of_mem _ hmem
    have hstill : ∀ {request : Envelope}, system.awaiting = some request → isTerminal request answer = false →
        (system.awaiting.filter fun request => !isTerminal request answer) = some request := by
      intro request hawaiting hnot
      rw [hawaiting, Option.filter_some, hnot]
      rfl
    refine ⟨hidentified.shrink rfl (fun _ hmem => hmem) (fun other hmem => hidentified.answered other (hfewer hmem))
      hidentified.tasks hidentified.posts fun request hmem => (Option.filter_eq_some_iff.mp hmem).1, ?_, hbalance,
      hrefused⟩
    cases hphase with
    | idle hawaiting hrequests hover => exact .idle (by show _ = none; rw [hawaiting]; rfl) hrequests hover
    | sent request before after hawaiting hoperation htoWorker hbefore hafter hqueue hover hunanswered =>
      exact .sent request before after (hstill hawaiting (hunanswered answer hanswer)) hoperation htoWorker hbefore hafter
        hqueue hover fun other hmem => hunanswered other (hfewer hmem)
    | arrived request before after hawaiting hoperation htoWorker hqueue hbefore hafter hunfinished htasks hposts hunanswered =>
      exact .arrived request before after (hstill hawaiting (hunanswered answer hanswer)) hoperation htoWorker hqueue hbefore
        hafter hunfinished htasks hposts fun other hmem => hunanswered other (hfewer hmem)
    | claimed request task hawaiting hrequests htasks htask hposts hunanswered =>
      exact .claimed request task (hstill hawaiting (hunanswered answer hanswer)) hrequests htasks htask hposts
        fun other hmem => hunanswered other (hfewer hmem)
    | running request updates last hawaiting hrequests htasks hposts hupdates hunanswered =>
      exact .running request updates last (hstill hawaiting (hunanswered answer hanswer)) hrequests htasks hposts
        hupdates fun other hmem => hunanswered other (hfewer hmem)
    | replied request hawaiting hrequests hover =>
      cases hterminal : isTerminal request answer with
      | true =>
        have hnone : (system.awaiting.filter fun request => !isTerminal request answer) = none := by
          rw [hawaiting, Option.filter_some, hterminal]
          rfl
        exact .idle hnone hrequests hover
      | false => exact .replied request (hstill hawaiting hterminal) hrequests hover

/-- **A message reaches the queue.** -/
theorem coherent_arrive (h : Coherent system) (htimely : Timely system .arrive) : Coherent system.arrive := by
  unfold WorkerSystem.arrive
  split
  · exact h
  next envelope toWorker htoWorker =>
    obtain ⟨hidentified, hphase, hbalance, hrefused⟩ := h
    have hrequested : ∀ other, Requested { system with
        toWorker
        queue := system.queue ++ [.request envelope] } other → Requested system other := by
      rintro other (hmem | hmem)
      · exact Or.inl (by rw [htoWorker]; exact List.mem_cons_of_mem _ hmem)
      · rcases List.mem_append.mp hmem with hmem | hmem
        · exact Or.inr hmem
        · cases List.mem_singleton.mp hmem
          exact Or.inl (by rw [htoWorker]; exact List.mem_cons_self ..)
    have hanswered : ∀ other, Answered { system with
        toWorker
        queue := system.queue ++ [.request envelope] } other → Answered system other := by
      rintro other (hmem | hmem)
      · exact Or.inl hmem
      · rcases List.mem_append.mp hmem with hmem | hmem
        · exact Or.inr hmem
        · cases List.mem_singleton.mp hmem
    refine ⟨hidentified.shrink rfl hrequested (fun other hmem => hidentified.answered other (hanswered other hmem))
      hidentified.tasks hidentified.posts fun _ hmem => hmem, ?_, ?_, hrefused⟩
    · cases hphase with
      | idle hawaiting hrequests hover =>
        exact .idle hawaiting (fun other hmem => hrequests other (hrequested other hmem)) hover
      | sent request before after hawaiting hoperation hsent hbefore hafter hqueue hover hunanswered =>
        rw [htoWorker] at hsent
        cases before with
        | nil =>
          -- the awaited request itself, and the runner has nothing to post
          obtain ⟨rfl, rfl⟩ := List.cons.inj hsent
          have hbetween : system.betweenPosts = false := htimely envelope (by rw [htoWorker]; rfl) hoperation
          have hposts : system.posts = [] := by
            refine hover.2.resolve_right fun hone => ?_
            unfold WorkerSystem.betweenPosts at hbetween
            rw [hone] at hbetween
            cases hbetween
          exact .arrived envelope system.queue [] hawaiting hoperation hafter rfl hqueue
            (fun _ hmem => (by cases hmem)) (fun hmem => (by cases hmem)) hover.1 hposts
            fun other hmem => hunanswered other (hanswered other hmem)
        | cons first before =>
          obtain ⟨rfl, rfl⟩ := List.cons.inj hsent
          exact .sent request before after hawaiting hoperation rfl (fun other hmem => hbefore other (List.mem_cons_of_mem _ hmem))
            hafter (otherEvents_append hqueue (otherEvents_request (hbefore envelope (List.mem_cons_self ..)))) hover
            fun other hmem => hunanswered other (hanswered other hmem)
      | arrived request before after hawaiting hoperation hothers hqueue hbefore hafter hunfinished htasks hposts hunanswered =>
        have hother : isOperation envelope = false := hothers envelope (by rw [htoWorker]; exact List.mem_cons_self ..)
        refine .arrived request before (after ++ [.request envelope]) hawaiting hoperation
          (fun other hmem => hothers other (by rw [htoWorker]; exact List.mem_cons_of_mem _ hmem)) ?_ hbefore
          (otherEvents_append hafter (otherEvents_request hother)) ?_ htasks hposts
          fun other hmem => hunanswered other (hanswered other hmem)
        · show system.queue ++ _ = _
          rw [hqueue, List.append_assoc, List.cons_append]
        · intro hmem
          rcases List.mem_append.mp hmem with hmem | hmem
          · exact hunfinished hmem
          · cases List.mem_singleton.mp hmem
      | claimed request task hawaiting hrequests htasks htask hposts hunanswered =>
        exact .claimed request task hawaiting (fun other hmem => hrequests other (hrequested other hmem)) htasks htask
          hposts fun other hmem => hunanswered other (hanswered other hmem)
      | running request updates last hawaiting hrequests htasks hposts hupdates hunanswered =>
        exact .running request updates last hawaiting (fun other hmem => hrequests other (hrequested other hmem)) htasks
          hposts hupdates fun other hmem => hunanswered other (hanswered other hmem)
      | replied request hawaiting hrequests hover =>
        exact .replied request hawaiting (fun other hmem => hrequests other (hrequested other hmem)) hover
    · rw [← hbalance]
      show _ + List.countP _ (system.queue ++ [.request envelope]) = _
      rw [List.countP_append]
      rfl

/-! ## The runner's moves -/

theorem mem_slotPosts {cancelled : Bool} {run : EngineRun} (h : .response answer ∈ slotPosts request cancelled run) :
    answer.requestId = request.requestId := by
  rcases List.mem_append.mp h with h | h
  · obtain ⟨reply, hmem, heq⟩ := List.mem_map.mp h
    cases heq
    exact (slotReplies_split request cancelled run).requestId answer hmem
  · cases List.mem_singleton.mp h

/-- **A slot starts**: only an awaited request is in the runner's queue. -/
theorem coherent_start (h : Coherent system) (run : EngineRun) : Coherent (system.start run) := by
  unfold WorkerSystem.start
  split
  next task tasks hposts htasks =>
    obtain ⟨hidentified, hphase, hbalance, hrefused⟩ := h
    have htask : task.request.requestId ∈ system.used :=
      hidentified.tasks task (by rw [htasks]; exact List.mem_cons_self ..)
    refine ⟨hidentified.shrink rfl (fun _ hmem => hmem) hidentified.answered (fun other hmem => ?_)
      (fun answer hmem => ?_) fun _ hmem => hmem, ?_, ?_, hrefused⟩
    · exact hidentified.tasks other (by rw [htasks]; exact List.mem_cons_of_mem _ hmem)
    · rw [mem_slotPosts hmem]
      exact htask
    · have hbusy : ∀ {p : Prop}, system.tasks = [] → p := fun hnil => by
        rw [htasks] at hnil
        cases hnil
      cases hphase with
      | idle _ _ hover => exact hbusy hover.1
      | sent _ _ _ _ _ _ _ _ _ hover => exact hbusy hover.1
      | arrived _ _ _ _ _ _ _ _ _ _ hnil => exact hbusy hnil
      | claimed request other hawaiting hrequests hone hrequest _ hunanswered =>
        rw [htasks] at hone
        obtain ⟨rfl, rfl⟩ := List.cons.inj hone
        obtain ⟨updates, last, hsplit, hupdates⟩ :=
          (slotReplies_split task.request (system.cancelled task) run).split
        refine .running request updates last hawaiting hrequests rfl ?_ (hrequest ▸ hupdates) hunanswered
        show slotPosts task.request _ run = _
        unfold slotPosts
        rw [hsplit]
      | running _ _ _ _ _ hnil => exact hbusy hnil
      | replied _ _ _ hover => exact hbusy hover.1
    · have hnonempty : (slotPosts task.request (system.cancelled task) run).isEmpty = false := by
        unfold slotPosts
        cases (slotReplies task.request (system.cancelled task) run) <;> rfl
      rw [← hbalance]
      unfold occurrences
      dsimp only
      rw [hnonempty, hposts, htasks]
      rfl
  · exact h

/-- `operationFinished` is the last post, and the only one of its kind. -/
theorem Phase.isFinished_post (h : Phase system) {post : Post} {posts : List Post} (hposts : system.posts = post :: posts) :
    (MainEvent.posted post).isFinished = posts.isEmpty := by
  have hlast : system.posts = [] ∨ system.posts = [.operationFinished] →
      (MainEvent.posted post).isFinished = posts.isEmpty := by
    rw [hposts]
    rintro (hnil | hone)
    · cases hnil
    · obtain ⟨rfl, rfl⟩ := List.cons.inj hone
      rfl
  cases h with
  | idle _ _ hover => exact hlast hover.2
  | sent _ _ _ _ _ _ _ _ _ hover => exact hlast hover.2
  | arrived _ _ _ _ _ _ _ _ _ _ _ hnil => exact hlast (Or.inl hnil)
  | claimed _ _ _ _ _ _ hnil => exact hlast (Or.inl hnil)
  | running request updates last _ _ _ hrunning =>
    rw [hposts] at hrunning
    cases updates with
    | nil =>
      obtain ⟨rfl, rfl⟩ := List.cons.inj hrunning
      rfl
    | cons update updates =>
      obtain ⟨rfl, rfl⟩ := List.cons.inj hrunning
      cases updates <;> rfl
  | replied _ _ _ hover => exact hlast hover.2

/-- **A post** goes into the main thread's queue. -/
theorem coherent_post (h : Coherent system) : Coherent system.post := by
  unfold WorkerSystem.post
  split
  · exact h
  next post posts hposts =>
    obtain ⟨hidentified, hphase, hbalance, hrefused⟩ := h
    have hrequested : ∀ other, Requested { system with
        posts
        queue := system.queue ++ [.posted post] } other → Requested system other := by
      rintro other (hmem | hmem)
      · exact Or.inl hmem
      · rcases List.mem_append.mp hmem with hmem | hmem
        · exact Or.inr hmem
        · cases List.mem_singleton.mp hmem
    have hanswered : ∀ other, Answered { system with
        posts
        queue := system.queue ++ [.posted post] } other → Answered system other ∨ post = .response other := by
      rintro other (hmem | hmem)
      · exact Or.inl (Or.inl hmem)
      · rcases List.mem_append.mp hmem with hmem | hmem
        · exact Or.inl (Or.inr hmem)
        · cases List.mem_singleton.mp hmem
          exact Or.inr rfl
    have hquiet : NoOperation system → NoOperation { system with
        posts
        queue := system.queue ++ [.posted post] } := fun h other hmem => h other (hrequested other hmem)
    -- the last post is no answer
    have hlast : system.posts = [] ∨ system.posts = [.operationFinished] → post = .operationFinished ∧ posts = [] := by
      rintro (hnil | hone)
      · rw [hposts] at hnil
        cases hnil
      · rw [hposts] at hone
        exact List.cons.inj hone
    refine ⟨hidentified.shrink rfl hrequested (fun other hmem => ?_) hidentified.tasks (fun other hmem => ?_)
      fun _ hmem => hmem, ?_, ?_, hrefused⟩
    · rcases hanswered other hmem with hmem | rfl
      · exact hidentified.answered other hmem
      · exact hidentified.posts other (by rw [hposts]; exact List.mem_cons_self ..)
    · exact hidentified.posts other (by rw [hposts]; exact List.mem_cons_of_mem _ hmem)
    · cases hphase with
      | idle hawaiting hrequests hover =>
        exact .idle hawaiting (hquiet hrequests) ⟨hover.1, Or.inl (hlast hover.2).2⟩
      | sent request before after hawaiting hoperation htoWorker hbefore hafter hqueue hover hunanswered =>
        refine .sent request before after hawaiting hoperation htoWorker hbefore hafter
          (otherEvents_append hqueue (otherEvents_posted post)) ⟨hover.1, Or.inl (hlast hover.2).2⟩
          fun other hmem => ?_
        rcases hanswered other hmem with hmem | heq
        · exact hunanswered other hmem
        · rw [(hlast hover.2).1] at heq
          cases heq
      | arrived request before after hawaiting hoperation hothers hqueue hbefore hafter hunfinished htasks hnil =>
        rw [hposts] at hnil
        cases hnil
      | claimed request task hawaiting hrequests htasks htask hnil =>
        rw [hposts] at hnil
        cases hnil
      | running request updates last hawaiting hrequests htasks hrunning hupdates hunanswered =>
        rw [hposts] at hrunning
        cases updates with
        | nil =>
          obtain ⟨rfl, rfl⟩ := List.cons.inj hrunning
          exact .replied request hawaiting (hquiet hrequests) ⟨htasks, Or.inr rfl⟩
        | cons update updates =>
          obtain ⟨rfl, rfl⟩ := List.cons.inj hrunning
          refine .running request updates last hawaiting (hquiet hrequests) htasks rfl
            (fun other hmem => hupdates other (List.mem_cons_of_mem _ hmem)) fun other hmem => ?_
          rcases hanswered other hmem with hmem | heq
          · exact hunanswered other hmem
          · cases heq
            exact hupdates update (List.mem_cons_self ..)
      | replied request hawaiting hrequests hover =>
        exact .replied request hawaiting (hquiet hrequests) ⟨hover.1, Or.inl (hlast hover.2).2⟩
    · have hfinished := hphase.isFinished_post hposts
      rw [← hbalance]
      unfold occurrences
      dsimp only
      rw [hposts, List.countP_append, List.countP_singleton, hfinished, List.isEmpty_cons]
      cases posts.isEmpty <;> simp only [if_true, Bool.false_eq_true, if_false] <;> omega

/-! ## The main thread's moves -/

/-- What does not claim the operation leaves it as it is, and is answered under its own id. -/
theorem handleEnvelope_other (controller : WorkerController) (h : isOperation envelope = false) :
    (controller.handleEnvelope envelope).tasks = [] ∧ (controller.handleEnvelope envelope).refused = false ∧
      (controller.handleEnvelope envelope).controller.operation.active = controller.operation.active ∧
      ∀ answer ∈ (controller.handleEnvelope envelope).replies, answer.requestId = envelope.requestId := by
  have hcancel : ∀ jobId, (controller.operation.cancel jobId).active = controller.operation.active := by
    intro jobId
    unfold WorkerOperationState.cancel
    split
    · rfl
    next flag hflag =>
      split
      · rfl
      · rfl
  unfold isOperation at h
  unfold WorkerController.handleEnvelope
  split at h
  · cases h
  · cases h
  · cases h
  · cases h
  next hload hunload hanalyze hstart =>
    split
    · exact ⟨rfl, rfl, rfl, fun answer hmem => by rw [List.mem_singleton.mp hmem]⟩
    next htype => exact absurd htype hload
    next htype => exact absurd htype hunload
    next htype => exact absurd htype hanalyze
    next htype => exact absurd htype hstart
    · exact ⟨rfl, rfl, hcancel envelope.jobId, fun _ hmem => (by cases hmem)⟩
    · exact ⟨rfl, rfl, hcancel [], fun _ hmem => (by cases hmem)⟩
    · exact ⟨rfl, rfl, rfl, fun answer hmem => by rw [List.mem_singleton.mp hmem]; rfl⟩

/-- A free operation is claimed. -/
theorem handleEnvelope_claims (controller : WorkerController) (h : isOperation envelope = true)
    (hfree : controller.operation.active = false) :
    ∃ operation task, controller.handleEnvelope envelope =
        { controller := { controller with operation }, tasks := [task] } ∧
      operation.active = true ∧ task.request = envelope := by
  have hclaim : ∃ operation task, controller.claimOperation envelope =
      { controller := { controller with operation }, tasks := [task] } ∧
      operation.active = true ∧ task.request = envelope := by
    unfold WorkerController.claimOperation WorkerOperationState.claim
    rw [hfree]
    exact ⟨_, _, rfl, rfl, rfl⟩
  unfold isOperation at h
  unfold WorkerController.handleEnvelope
  split at h
  next htype => rw [htype]; exact hclaim
  next htype => rw [htype]; exact hclaim
  next htype => rw [htype]; exact hclaim
  next htype => rw [htype]; exact hclaim
  · cases h

/-- The next event is none that hands the operation over: a message of another kind, or a response. -/
structure Passing (system next : WorkerSystem) (event : MainEvent) (queue : List MainEvent) : Prop where
  front : system.queue = event :: queue
  queue : next.queue = queue
  toWorker : next.toWorker = system.toWorker
  tasks : next.tasks = system.tasks
  posts : next.posts = system.posts
  awaiting : next.awaiting = system.awaiting
  used : next.used = system.used
  refused : next.refused = system.refused
  other : ∀ envelope, event = .request envelope → isOperation envelope = false
  answered : ∀ answer, Answered next answer → Answered system answer ∨
    ∃ envelope, event = .request envelope ∧ answer.requestId = envelope.requestId

variable {next : WorkerSystem} {event : MainEvent} {queue : List MainEvent}

theorem Passing.requested (h : Passing system next event queue) : ∀ other, Requested next other → Requested system other := by
  rintro other (hmem | hmem)
  · exact Or.inl (h.toWorker ▸ hmem)
  · rw [h.queue] at hmem
    exact Or.inr (by rw [h.front]; exact List.mem_cons_of_mem _ hmem)

theorem Passing.identified (h : Passing system next event queue) (hidentified : Identified system) :
    Identified next := by
  refine hidentified.shrink h.used h.requested (fun answer hmem => ?_) (h.tasks ▸ hidentified.tasks)
    (h.posts ▸ hidentified.posts) fun request hmem => h.awaiting ▸ hmem
  rcases h.answered answer hmem with hmem | ⟨envelope, rfl, heq⟩
  · exact hidentified.answered answer hmem
  · rw [heq]
    exact hidentified.requested envelope (Or.inr (by rw [h.front]; exact List.mem_cons_self ..))

/-- The awaited request stays where it is. -/
theorem Passing.phase (h : Passing system next event queue) (hidentified : Identified system)
    (hphase : Phase system) : Phase next := by
  have hquiet : NoOperation system → NoOperation next := fun hrequests other hmem =>
    hrequests other (h.requested other hmem)
  have hover : HandedOver system → HandedOver next := by
    intro hover
    unfold HandedOver
    rw [h.tasks, h.posts]
    exact hover
  have hunanswered : ∀ {request : Envelope}, system.awaiting = some request → Unanswered system request →
      Unanswered next request := by
    intro request hawaiting hnone answer hmem
    rcases h.answered answer hmem with hmem | ⟨envelope, rfl, heq⟩
    · exact hnone answer hmem
    · -- an answer to another message has another id
      have hapart : envelope.requestId ≠ request.requestId :=
        hidentified.apart request hawaiting envelope (Or.inr (by rw [h.front]; exact List.mem_cons_self ..))
          (h.other envelope rfl)
      have hid : (answer.requestId == request.requestId) = false := by
        rw [heq]
        exact beq_eq_false_iff_ne.mpr hapart
      show (_ && _) = false
      rw [hid]
      exact Bool.false_and _
  have hqueue : OtherEvents system.queue → OtherEvents next.queue := by
    intro hevents envelope hmem
    rw [h.queue] at hmem
    exact hevents envelope (by rw [h.front]; exact List.mem_cons_of_mem _ hmem)
  cases hphase with
  | idle hawaiting hrequests hdone => exact .idle (h.awaiting.trans hawaiting) (hquiet hrequests) (hover hdone)
  | sent request before after hawaiting hoperation htoWorker hbefore hafter hevents hdone hnone =>
    exact .sent request before after (h.awaiting.trans hawaiting) hoperation (h.toWorker.trans htoWorker) hbefore
      hafter (hqueue hevents) (hover hdone) (hunanswered hawaiting hnone)
  | arrived request before after hawaiting hoperation hothers hevents hbefore hafter hunfinished htasks hposts hnone =>
    rw [h.front] at hevents
    cases before with
    | nil =>
      obtain ⟨rfl, rfl⟩ := List.cons.inj hevents
      have hother := h.other request rfl
      rw [hoperation] at hother
      cases hother
    | cons first before =>
      obtain ⟨rfl, rfl⟩ := List.cons.inj hevents
      exact .arrived request before after (h.awaiting.trans hawaiting) hoperation (h.toWorker ▸ hothers) h.queue
        (fun envelope hmem => hbefore envelope (List.mem_cons_of_mem _ hmem)) hafter hunfinished
        (h.tasks.trans htasks) (h.posts.trans hposts) (hunanswered hawaiting hnone)
  | claimed request task hawaiting hrequests htasks htask hposts hnone =>
    exact .claimed request task (h.awaiting.trans hawaiting) (hquiet hrequests) (h.tasks.trans htasks) htask
      (h.posts.trans hposts) (hunanswered hawaiting hnone)
  | running request updates last hawaiting hrequests htasks hposts hupdates hnone =>
    exact .running request updates last (h.awaiting.trans hawaiting) (hquiet hrequests) (h.tasks.trans htasks)
      (h.posts.trans hposts) hupdates (hunanswered hawaiting hnone)
  | replied request hawaiting hrequests hdone =>
    exact .replied request (h.awaiting.trans hawaiting) (hquiet hrequests) (hover hdone)

theorem Passing.occurrences (h : Passing system next event queue) :
    Worker.occurrences system = Worker.occurrences next + if event.isFinished then 1 else 0 := by
  unfold Worker.occurrences
  rw [h.tasks, h.posts, h.queue, h.front, List.countP_cons]
  omega

/-- **An awaited request is dispatched** when the operation is free. -/
theorem free_of_arrived (h : Coherent system) {request : Envelope} {queue : List MainEvent}
    (hqueue : system.queue = .request request :: queue) (hoperation : isOperation request = true) :
    system.controller.operation.active = false ∧ system.tasks = [] ∧ system.posts = [] ∧
      system.awaiting = some request ∧ Others system.toWorker ∧ OtherEvents queue ∧ Unanswered system request := by
  have hrequested : Requested system request := Or.inr (by rw [hqueue]; exact List.mem_cons_self ..)
  have hnot : ∀ {p : Prop}, NoOperation system → p := fun hnone => by
    have := hnone request hrequested
    rw [hoperation] at this
    cases this
  obtain ⟨hidentified, hphase, hbalance, -⟩ := h
  cases hphase with
  | idle _ hrequests => exact hnot hrequests
  | sent _ _ _ _ _ _ _ _ hevents =>
    have := hevents request (by rw [hqueue]; exact List.mem_cons_self ..)
    rw [hoperation] at this
    cases this
  | arrived other before after hawaiting _ hothers hevents hbefore hafter hunfinished htasks hposts hnone =>
    rw [hqueue] at hevents
    cases before with
    | nil =>
      obtain ⟨heq, rfl⟩ := List.cons.inj hevents
      cases heq
      refine ⟨?_, htasks, hposts, hawaiting, hothers, hafter, hnone⟩
      -- nothing of the operation is left
      have hcount : queue.countP MainEvent.isFinished = 0 := by
        refine List.countP_eq_zero.mpr fun event hmem hfinished => ?_
        unfold MainEvent.isFinished at hfinished
        split at hfinished
        · exact hunfinished hmem
        · cases hfinished
      have hzero : occurrences system = 0 := by
        unfold occurrences
        rw [htasks, hposts, hqueue, List.countP_cons, hcount]
        rfl
      rw [hzero] at hbalance
      cases hactive : system.controller.operation.active with
      | false => rfl
      | true =>
        rw [hactive] at hbalance
        cases hbalance
    | cons first before =>
      obtain ⟨rfl, rfl⟩ := List.cons.inj hevents
      have := hbefore request (List.mem_cons_self ..)
      rw [hoperation] at this
      cases this
  | claimed _ _ _ hrequests => exact hnot hrequests
  | running _ _ _ _ hrequests => exact hnot hrequests
  | replied _ _ hrequests => exact hnot hrequests

/-- The request is claimed and goes to the runner. -/
theorem coherent_claim (h : Coherent system) (hqueue : system.queue = .request request :: queue)
    (hoperation : isOperation request = true) :
    Coherent ({ system with queue }.handle (.request request)) := by
  obtain ⟨hfree, htasks, hposts, hawaiting, hothers, hevents, hnone⟩ := free_of_arrived h hqueue hoperation
  obtain ⟨operation, task, hhandled, hactive, htask⟩ := handleEnvelope_claims system.controller hoperation hfree
  have hdone : { system with queue }.handle (.request request) =
      { system with
        queue
        controller := { system.controller with operation }
        toClient := system.toClient ++ []
        tasks := system.tasks ++ [task] } := by
    unfold WorkerSystem.handle
    dsimp only
    rw [hhandled]
    rfl
  obtain ⟨hidentified, -, hbalance, hrefused⟩ := h
  rw [hdone, htasks, List.append_nil]
  have hanswered : ∀ answer, answer ∈ system.toClient ∨ .posted (.response answer) ∈ queue → Answered system answer :=
    fun answer hmem => hmem.imp_right fun hmem => by rw [hqueue]; exact List.mem_cons_of_mem _ hmem
  have hrequested : ∀ other, other ∈ system.toWorker ∨ .request other ∈ queue → Requested system other :=
    fun other hmem => hmem.imp_right fun hmem => by rw [hqueue]; exact List.mem_cons_of_mem _ hmem
  refine ⟨hidentified.shrink rfl hrequested (fun answer hmem => hidentified.answered answer (hanswered answer hmem))
    (fun other hmem => ?_) hidentified.posts fun _ hmem => hmem, ?_, ?_, hrefused⟩
  · rw [List.mem_singleton.mp hmem, htask]
    exact hidentified.awaited request hawaiting
  · exact .claimed request task hawaiting (noOperation_of hothers hevents) rfl htask hposts
      fun answer hmem => hnone answer (hanswered answer hmem)
  · unfold occurrences at hbalance ⊢
    rw [htasks, hposts, hqueue, List.countP_cons, hfree] at hbalance
    have hcount : queue.countP MainEvent.isFinished = 0 := by
      simp only [List.length_nil, Bool.false_eq_true, if_false] at hbalance
      omega
    dsimp only
    rw [hposts, hcount, hactive]
    rfl

/-- **The main thread handles its next event.** -/
theorem coherent_dispatch (h : Coherent system) : Coherent system.dispatch := by
  unfold WorkerSystem.dispatch
  split
  · exact h
  next event queue hqueue =>
    split
    · exact h
    · have hfewer : ∀ {answer : Envelope}, .posted (.response answer) ∈ queue → Answered system answer :=
        fun hmem => Or.inr (by rw [hqueue]; exact List.mem_cons_of_mem _ hmem)
      cases event with
      | request envelope =>
        cases hoperation : isOperation envelope with
        | true => exact coherent_claim h hqueue hoperation
        | false =>
          obtain ⟨htasks, hrefused, hactive, hreplies⟩ := handleEnvelope_other system.controller hoperation
          have hpassing : Passing system ({ system with queue }.handle (.request envelope)) (.request envelope) queue := by
            refine ⟨hqueue, rfl, rfl, ?_, rfl, rfl, rfl, ?_, fun other heq => ?_, ?_⟩
            · show system.tasks ++ (system.controller.handleEnvelope envelope).tasks = system.tasks
              rw [htasks, List.append_nil]
            · show (if (system.controller.handleEnvelope envelope).refused then _ else system.refused) = system.refused
              rw [hrefused]
              rfl
            · cases heq
              exact hoperation
            · rintro answer (hmem | hmem)
              · rcases List.mem_append.mp hmem with hmem | hmem
                · exact Or.inl (Or.inl hmem)
                · exact Or.inr ⟨envelope, rfl, hreplies answer hmem⟩
              · exact Or.inl (hfewer hmem)
          refine ⟨hpassing.identified h.identified, hpassing.phase h.identified h.phase, ?_,
            hpassing.refused.trans h.refused⟩
          have hsame := hpassing.occurrences
          rw [h.balance] at hsame
          show _ = if (system.controller.handleEnvelope envelope).controller.operation.active then 1 else 0
          rw [hactive, hsame]
          rfl
      | posted post =>
        cases post with
        | response envelope =>
          have hpassing : Passing system ({ system with queue }.handle (.posted (.response envelope)))
              (.posted (.response envelope)) queue := by
            refine ⟨hqueue, rfl, rfl, rfl, rfl, rfl, rfl, rfl, fun _ heq => (by cases heq), ?_⟩
            rintro answer (hmem | hmem)
            · rcases List.mem_append.mp hmem with hmem | hmem
              · exact Or.inl (Or.inl hmem)
              · rw [List.mem_singleton.mp hmem]
                exact Or.inl (Or.inr (by rw [hqueue]; exact List.mem_cons_self ..))
            · exact Or.inl (hfewer hmem)
          have hsame := hpassing.occurrences
          rw [h.balance] at hsame
          exact ⟨hpassing.identified h.identified, hpassing.phase h.identified h.phase, hsame.symm,
            hpassing.refused.trans h.refused⟩
        | operationFinished =>
          have hpassing : Passing system ({ system with queue }.handle (.posted .operationFinished))
              (.posted .operationFinished) queue := by
            refine ⟨hqueue, rfl, rfl, rfl, rfl, rfl, rfl, rfl, fun _ heq => (by cases heq), ?_⟩
            rintro answer (hmem | hmem)
            · exact Or.inl (Or.inl hmem)
            · exact Or.inl (hfewer hmem)
          have hsame := hpassing.occurrences
          rw [h.balance] at hsame
          refine ⟨hpassing.identified h.identified, hpassing.phase h.identified h.phase, ?_,
            hpassing.refused.trans h.refused⟩
          -- the operation was the one that has finished
          show occurrences _ = 0
          have hfinished : (MainEvent.posted Post.operationFinished).isFinished = true := rfl
          rw [hfinished] at hsame
          cases hactive : system.controller.operation.active <;> rw [hactive] at hsame <;>
            simp only [if_true, Bool.false_eq_true, if_false] at hsame <;> omega

theorem coherent_step : Runs.StepKeeps WorkerSystem.step Timely Coherent := by
  intro system move h htimely
  cases move with
  | send envelope => exact coherent_send h envelope
  | receive => exact coherent_receive h
  | arrive => exact coherent_arrive h htimely
  | dispatch => exact coherent_dispatch h
  | start run => exact coherent_start h run
  | post => exact coherent_post h

theorem coherent_start_of (controller : WorkerController) (h : controller.operation.active = false) :
    Coherent { controller } := by
  refine ⟨⟨?_, ?_, fun _ hmem => (by cases hmem), fun _ hmem => (by cases hmem), fun _ hmem => (by cases hmem),
    fun _ hmem => (by cases hmem)⟩, .idle rfl ?_ ⟨rfl, Or.inl rfl⟩, ?_, rfl⟩
  · rintro _ (hmem | hmem) <;> cases hmem
  · rintro _ (hmem | hmem) <;> cases hmem
  · rintro _ (hmem | hmem) <;> cases hmem
  · show 0 = if controller.operation.active then 1 else 0
    rw [h]
    rfl

/-- **No request is refused** in a run in which none reaches the queue between the two posts. -/
theorem neverRefused (workerVersion : QString) (capabilities : QCborMap) (moves : List Move)
    (htimely : Runs.Guarded WorkerSystem.step Timely { controller := { workerVersion, capabilities } } moves) :
    ∀ system ∈ Runs.states WorkerSystem.step { controller := { workerVersion, capabilities } } moves,
      system.refused = [] := fun system hmem =>
  (Runs.states_invariant coherent_step (coherent_start_of _ rfl) htimely system hmem).refused

instance : ∀ (system : WorkerSystem) (move : Move), Decidable (Timely system move)
  | system, .arrive =>
    inferInstanceAs (Decidable (∀ envelope ∈ system.toWorker.head?,
      isOperation envelope = true → system.betweenPosts = false))
  | _, .send _ | _, .receive | _, .dispatch | _, .start _ | _, .post => isTrue trivial

def loadRequest : Envelope := { type := .LoadModel, requestId := qs "r1" }

def analyzeRequest : Envelope := { type := .AnalyzeSpeech, requestId := qs "r2", jobId := qs "j1" }

/-- The model is loaded, and the client sends the next request. -/
def loadMoves : List Move :=
  [.send loadRequest, .arrive, .dispatch, .start { result := .ok [] }, .post, .dispatch, .receive,
    .send analyzeRequest]

theorem neverRefused_loadMoves :
    (Runs.run WorkerSystem.step {} (loadMoves ++ [.post, .arrive, .dispatch, .dispatch])).refused = [] :=
  neverRefused [] [] (loadMoves ++ [.post, .arrive, .dispatch, .dispatch]) (by decide +kernel) _
    (Runs.run_mem_states _ _)

/-- **The request comes between the posts**: the reply has gone out, `operationFinished` is not posted. -/
theorem refused_betweenPosts :
    let system := Runs.run WorkerSystem.step {} (loadMoves ++ [.arrive, .post, .dispatch])
    system.refused = [analyzeRequest] ∧
      system.toClient = [errorEnvelope (qs "r2") (qs "j1") (WorkerController.busyError [])] :=
  ⟨rfl, rfl⟩

end BreezeDesk.Worker
