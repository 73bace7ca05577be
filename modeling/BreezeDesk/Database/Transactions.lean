/-
  The transactions of the database and what every repository does inside them.

  `immediateTransaction` is `Transaction.atomically`.  `executionLeaseTransaction` refuses the operation
  unless the caller holds the unexpired execution lease of the job; `executionWrite` does so when a
  token is given at all.  `fenced` is the consequence for all writes: with a token that does not hold
  the lease they fail and change nothing.

  The clock is read once per transaction and is a parameter, `now`.
-/
import BreezeDesk.Database.Schema

namespace BreezeDesk

open Transaction

variable (t : CharTables)

/-! ## Reading -/

def findJob (id : QString) : Db (Option TranscriptionJob) := command (fun db => db) (·.job? id)

/-- The job, or the error when it does not exist. -/
def requireJob (id : QString) (error : UserFacingError) : Db TranscriptionJob := do
  let job ← findJob id
  requireSome job error

def findRawLease : Db (Option AsrExecutionLease) := command (fun db => db) (·.leases.head?)

/-! ## Events -/

/-- What `insertEvent` writes for an event. -/
def normalizedEvent (now : Int) (event : JobEvent) : JobEvent :=
  { event with
    eventType := trimmed event.eventType
    severity := if (trimmed event.severity).isEmpty then qs "info" else t.toLower (trimmed event.severity)
    progress := event.progress.map fun value => max 0 (min value 1)
    createdAt := storedTime (if event.createdAt.isSome then event.createdAt else some now) }

def insertEvent (now : Int) (event : JobEvent) : Db Int := do
  require (¬ (event.jobId.isEmpty ∨ (trimmed event.eventType).isEmpty))
    (.validation .invalidArgument (qs "A job event requires a job and event type."))
  insertEventRow (normalizedEvent t now event) "The job event could not be saved."

/-! ## The search index -/

/-- The row of the index for a recording: its metadata and the display texts of its active job.
    The full-text table and its fallback hold the same rows. -/
def searchEntry (db : Database) (recording : Recording) : SearchEntry :=
  { recordingId := recording.id
    title := recording.title
    notes := recording.notes
    tags := joinSpace recording.tags
    transcript := joinSpace ((db.segments.filter fun segment =>
      segment.recordingId == recording.id && recording.activeJobId == some segment.jobId).map
        (·.displayText)) }

def rebuiltIndex (recordingId : QString) (db : Database) : Database :=
  match db.recording? recordingId with
  | none => db
  | some recording =>
    { db with searchIndex :=
        (db.searchIndex.filter fun entry => entry.recordingId != recordingId) ++
          [searchEntry db recording] }

/-- `DatabaseSearchService::rebuildRecording`. -/
def rebuildRecording (recordingId : QString) : Db Unit :=
  command (rebuiltIndex recordingId) (fun _ => ())

/-! ## The execution lease -/

namespace Database

/-- The lease row of the job and owner exists and has not expired. -/
def holdsLease (db : Database) (now : Int) (jobId ownerToken : QString) : Bool :=
  (db.leases.find? fun lease => lease.jobId == jobId && lease.ownerToken == ownerToken).any fun lease =>
    lease.expiresAt.any (now < ·)

end Database

def leaseLostError : UserFacingError :=
  .validation .executionLeaseLost
    (qs "The ASR execution lease is expired or not owned by this process.")

def requireLease (now : Int) (jobId ownerToken : QString) : Db Unit :=
  statement (fun db => db.holdsLease now jobId ownerToken = true) leaseLostError (fun db => db)
    (fun _ => ())

abbrev Transacted (α : Type) := Database → Result α × Database

def immediateTransaction {α : Type} (operation : Db α) : Transacted α := atomically operation

def executionLeaseTransaction {α : Type} (now : Int) (jobId ownerToken : QString) (operation : Db α) :
    Transacted α :=
  if (trimmed jobId).isEmpty ∨ (trimmed ownerToken).isEmpty then fun db =>
    (.error (.validation .invalidArgument (qs "A job and lease owner are required.")), db)
  else immediateTransaction do
    requireLease now jobId ownerToken
    operation

/-- Writes that are also allowed without an executor carry an empty token. -/
def executionWrite {α : Type} (now : Int) (jobId ownerToken : QString) (operation : Db α) :
    Transacted α :=
  if ownerToken.isEmpty then immediateTransaction operation
  else executionLeaseTransaction now jobId ownerToken operation

/-! ## Fencing -/

variable {t} {α : Type} {now : Int} {jobId ownerToken : QString} {operation : Db α} {db db' : Database}

/-- A transaction that succeeds ends where its operation does. -/
theorem immediateTransaction_ok {a : α} (h : immediateTransaction operation db = (.ok a, db')) :
    operation db = .ok (a, db') := by
  have hok := atomically_ok (congrArg Prod.fst h)
  unfold immediateTransaction at h
  rwa [h] at hok

/-- A fenced transaction that succeeds was called by the holder of the lease. -/
theorem executionLeaseTransaction_ok {a : α}
    (h : executionLeaseTransaction now jobId ownerToken operation db = (.ok a, db')) :
    db.holdsLease now jobId ownerToken = true ∧ operation db = .ok (a, db') := by
  unfold executionLeaseTransaction at h
  split at h
  · cases h
  · obtain ⟨_, _, hlease, hop⟩ := bind_eq_ok.mp (immediateTransaction_ok h)
    obtain ⟨hholds, -, rfl⟩ := statement_eq_ok.mp hlease
    exact ⟨hholds, hop⟩

/-- The holder of the lease runs the operation. -/
theorem executionLeaseTransaction_of {a : α}
    (hnamed : ¬ ((trimmed jobId).isEmpty ∨ (trimmed ownerToken).isEmpty))
    (hholds : db.holdsLease now jobId ownerToken = true) (hop : operation db = .ok (a, db')) :
    executionLeaseTransaction now jobId ownerToken operation db = (.ok a, db') := by
  unfold executionLeaseTransaction
  rw [if_neg hnamed]
  exact atomically_of_ok (bind_eq_ok.mpr ⟨(), db, statement_eq_ok.mpr ⟨hholds, rfl, rfl⟩, hop⟩)

theorem executionWrite_ok {a : α}
    (h : executionWrite now jobId ownerToken operation db = (.ok a, db')) :
    (ownerToken = [] ∨ db.holdsLease now jobId ownerToken = true) ∧ operation db = .ok (a, db') := by
  unfold executionWrite at h
  split at h
  next hempty => exact ⟨Or.inl (List.isEmpty_iff.mp hempty), immediateTransaction_ok h⟩
  next =>
    obtain ⟨hholds, hop⟩ := executionLeaseTransaction_ok h
    exact ⟨Or.inr hholds, hop⟩

/-- **Fencing.**  Without the lease a fenced write fails and leaves the database as it was. -/
theorem executionLeaseTransaction_fenced (hnot : db.holdsLease now jobId ownerToken = false) :
    ∃ error, executionLeaseTransaction now jobId ownerToken operation db = (.error error, db) := by
  cases h : executionLeaseTransaction now jobId ownerToken operation db with
  | mk result after =>
    cases result with
    | ok a =>
      have := (executionLeaseTransaction_ok h).1
      rw [hnot] at this
      cases this
    | error error =>
      refine ⟨error, ?_⟩
      unfold executionLeaseTransaction at h
      split at h
      · cases h
        rfl
      · have hsame := atomically_error (congrArg Prod.fst h)
        unfold immediateTransaction at h
        rw [h] at hsame
        dsimp only at hsame
        rw [hsame]

theorem executionWrite_fenced (htoken : ownerToken ≠ [])
    (hnot : db.holdsLease now jobId ownerToken = false) :
    ∃ error, executionWrite now jobId ownerToken operation db = (.error error, db) := by
  unfold executionWrite
  rw [if_neg (by simpa using htoken)]
  exact executionLeaseTransaction_fenced hnot

/-! ## The only lease -/

/-- With one row at most, the first lease is every lease. -/
theorem mem_leases_iff (hone : db.leases.length ≤ 1) {lease : AsrExecutionLease} :
    lease ∈ db.leases ↔ lease ∈ db.leases.head? := by
  match hleases : db.leases with
  | [] => exact ⟨fun hmem => (by cases hmem), fun hmem => (by cases hmem)⟩
  | [row] =>
    rw [List.mem_singleton, List.head?_cons, Option.mem_some_iff]
    exact eq_comm
  | _ :: _ :: _ =>
    rw [hleases] at hone
    simp at hone

theorem lease_eq (hone : db.leases.length ≤ 1) {a b : AsrExecutionLease} (ha : a ∈ db.leases)
    (hb : b ∈ db.leases) : a = b :=
  Option.mem_unique ((mem_leases_iff hone).mp ha) ((mem_leases_iff hone).mp hb)

theorem leased_of_holdsLease (hlease : db.holdsLease now jobId ownerToken = true) :
    ∃ lease ∈ db.leases, lease.jobId = jobId ∧ lease.ownerToken = ownerToken := by
  obtain ⟨held, hfound, -⟩ := (Option.any_eq_true ..).mp hlease
  have hheld := List.find?_some hfound
  rw [Bool.and_eq_true, beq_iff_eq, beq_iff_eq] at hheld
  exact ⟨held, List.mem_of_find?_eq_some hfound, hheld⟩

/-- The caller that gives up its lease leaves none. -/
theorem released_of_holdsLease (hone : db.leases.length ≤ 1)
    (hlease : db.holdsLease now jobId ownerToken = true) :
    (db.leases.filter fun lease =>
      !(lease.jobId == jobId && (ownerToken.isEmpty || lease.ownerToken == ownerToken))) = [] := by
  obtain ⟨held, hmem, hjob, howner⟩ := leased_of_holdsLease hlease
  refine List.filter_eq_nil_iff.mpr fun lease hother => ?_
  rw [lease_eq hone hother hmem, hjob, howner, beq_self_eq_true, beq_self_eq_true, Bool.or_true]
  exact Bool.false_ne_true

/-! ## All or nothing -/

/-- An operation that reports a failure has left the database as it was. -/
def Transactional (operation : Transacted α) : Prop :=
  ∀ db error db', operation db = (.error error, db') → db' = db

theorem transactional_refusal (error : UserFacingError) :
    Transactional (fun db => (.error error, db) : Transacted α) := by
  intro db error' db' h
  cases h
  rfl

theorem transactional_immediate (operation : Db α) : Transactional (immediateTransaction operation) := by
  intro db error db' h
  have hsame := atomically_error (congrArg Prod.fst h)
  rw [← hsame]
  exact (congrArg Prod.snd h).symm

theorem transactional_ite {c : Prop} [Decidable c] {first second : Transacted α}
    (hfirst : Transactional first) (hsecond : Transactional second) :
    Transactional (if c then first else second) := by
  split
  · exact hfirst
  · exact hsecond

theorem transactional_lease (now : Int) (jobId ownerToken : QString) (operation : Db α) :
    Transactional (executionLeaseTransaction now jobId ownerToken operation) :=
  transactional_ite (transactional_refusal _) (transactional_immediate _)

theorem transactional_write (now : Int) (jobId ownerToken : QString) (operation : Db α) :
    Transactional (executionWrite now jobId ownerToken operation) :=
  transactional_ite (transactional_immediate _) (transactional_lease _ _ _ _)

/-- A failed operation changes nothing, so that its success can be assumed. -/
theorem Transactional.after {operation : Transacted α} (htransactional : Transactional operation)
    {P : Database → Prop} (hsame : P db) (hok : ∀ a db', operation db = (.ok a, db') → P db') :
    P (operation db).2 := by
  cases h : operation db with
  | mk result after =>
    cases result with
    | ok a => exact hok a after h
    | error error => exact (htransactional db error after h).symm ▸ hsame

/-! ## What a transaction keeps -/

theorem keeps_requireLease {I : Database → Prop} : Keeps I (requireLease now jobId ownerToken) :=
  keeps_statement fun _ hI _ => hI

theorem executionLeaseTransaction_keeps {I : Database → Prop} (hop : Keeps I operation) (hI : I db) :
    I (executionLeaseTransaction now jobId ownerToken operation db).2 := by
  unfold executionLeaseTransaction
  split
  · exact hI
  · exact (keeps_bind keeps_requireLease fun _ => hop).atomically hI

theorem executionWrite_keeps {I : Database → Prop} (hop : Keeps I operation) (hI : I db) :
    I (executionWrite now jobId ownerToken operation db).2 := by
  unfold executionWrite
  split
  · exact hop.atomically hI
  · exact executionLeaseTransaction_keeps hop hI

/-! ## Events and index change nothing else -/

theorem insertEvent_ok {event : JobEvent} {id : Int} (h : insertEvent t now event db = .ok (id, db')) :
    event.jobId ≠ [] ∧ db' = db.withEvent (normalizedEvent t now event) := by
  obtain ⟨_, _, hrequire, hinsert⟩ := bind_eq_ok.mp h
  obtain ⟨hnamed, rfl⟩ := require_eq_ok.mp hrequire
  obtain ⟨-, -, rfl⟩ := statement_eq_ok.mp hinsert
  exact ⟨fun hempty => hnamed (Or.inl (List.isEmpty_iff.mpr hempty)), rfl⟩

theorem insertEvent_of {event : JobEvent}
    (hnamed : ¬ (event.jobId.isEmpty ∨ (trimmed event.eventType).isEmpty))
    (hjob : (db.job? event.jobId).isSome = true) :
    insertEvent t now event db = .ok (db.lastEventId + 1, db.withEvent (normalizedEvent t now event)) :=
  bind_eq_ok.mpr ⟨(), db, require_eq_ok.mpr ⟨hnamed, rfl⟩, statement_eq_ok.mpr ⟨hjob, rfl, rfl⟩⟩

theorem rebuiltIndex_eq (recordingId : QString) (db : Database) :
    rebuiltIndex recordingId db =
      { db with searchIndex := (rebuiltIndex recordingId db).searchIndex } := by
  unfold rebuiltIndex
  cases db.recording? recordingId <;> rfl

@[simp] theorem rebuiltIndex_tables (recordingId : QString) (db : Database) :
    (rebuiltIndex recordingId db).recordings = db.recordings ∧
      (rebuiltIndex recordingId db).jobs = db.jobs ∧ (rebuiltIndex recordingId db).chunks = db.chunks ∧
      (rebuiltIndex recordingId db).segments = db.segments ∧
      (rebuiltIndex recordingId db).leases = db.leases ∧
      (rebuiltIndex recordingId db).events = db.events := by
  rw [rebuiltIndex_eq]
  exact ⟨rfl, rfl, rfl, rfl, rfl, rfl⟩

theorem rebuildRecording_eq_ok {recordingId : QString} {u : Unit} :
    rebuildRecording recordingId db = .ok (u, db') ↔ db' = rebuiltIndex recordingId db := by
  unfold rebuildRecording
  rw [command_eq_ok]
  exact ⟨fun h => h.2, fun h => ⟨rfl, h⟩⟩

theorem keeps_rebuildRecording {I : Database → Prop}
    (hindex : ∀ db searchIndex, I db → I { db with searchIndex }) {recordingId : QString} :
    Keeps I (rebuildRecording recordingId) :=
  keeps_command fun db hI => by
    rw [rebuiltIndex_eq]
    exact hindex db _ hI

end BreezeDesk
