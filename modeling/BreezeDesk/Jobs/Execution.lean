/-
  `SqliteJobRepository` — the execution lease: who runs a job.

  A process claims a queued job and holds the one lease of the database until it gives it up, completes
  the job or lets the lease expire.  A claim first recovers the job of an expired lease, so that a
  single transaction can end the run of one process and begin the run of another.
-/
import BreezeDesk.Database.Transactions
import Mathlib.Data.List.Sort

namespace BreezeDesk

open Transaction

variable (t : CharTables)

/-! ## The lease -/

def corruptLeaseError : UserFacingError :=
  .ofDatabase .databaseCorrupt (qs "The ASR execution lease is damaged.")

def validateLeaseIdentity (lease : AsrExecutionLease) : Db Unit :=
  statement (fun db => ¬ ((trimmed lease.ownerToken).isEmpty ∨ (trimmed lease.jobId).isEmpty) ∧
      (db.job? lease.jobId).isSome)
    corruptLeaseError (fun db => db) (fun _ => ())

def validateLeaseTimestamps (lease : AsrExecutionLease) : Db Unit :=
  require (lease.acquiredAt.isSome ∧ lease.heartbeatAt.isSome ∧ lease.expiresAt.isSome) corruptLeaseError

def validateLease : Option AsrExecutionLease → Db Unit
  | none => pure ()
  | some lease => do
    validateLeaseIdentity lease
    validateLeaseTimestamps lease

def findLease : Db (Option AsrExecutionLease) := do
  let lease ← findRawLease
  validateLease lease
  return lease

/-- The lease has not expired. -/
def AsrExecutionLease.live (lease : AsrExecutionLease) (now : Int) : Bool :=
  lease.expiresAt.any (now < ·)

def deleteLease : Db Unit := do
  let _ ← deleteLeases fun _ => true

/-! ## Recovery of jobs whose executor is gone -/

/-- The row of a job that is recovered. -/
def recoveredJob (now : Int) (cancellationPending : Bool) (message : QString) (job : TranscriptionJob) :
    TranscriptionJob :=
  if cancellationPending then
    { job with state := .cancelled, errorCode := qs "JobCancelled", errorMessage := message }
  else
    { job with state := .interrupted, interruptedAt := storedTime (some now),
               errorCode := qs "WorkerCrashed", errorMessage := message }

/-- The chunks of a job that are recovered with it. -/
def recoverableChunk (cancellationPending : Bool) (jobId : QString) (chunk : JobChunk) : Bool :=
  chunk.jobId == jobId &&
    if cancellationPending then
      chunk.state == .running || chunk.state == .interrupted || chunk.state == .failed
    else chunk.state == .running

def recoveredChunk (cancellationPending : Bool) (message : QString) (chunk : JobChunk) : JobChunk :=
  { chunk with state := if cancellationPending then .cancelled else .interrupted, error := message }

def recoveryEvent (cancellationPending : Bool) (eventType jobId message : QString) : JobEvent :=
  { jobId
    eventType := if cancellationPending then qs "cancelled" else eventType
    severity := qs "warning"
    state := some (if cancellationPending then .cancelled else .interrupted)
    code := if cancellationPending then qs "JobCancelled" else qs "WorkerCrashed"
    message }

/-- Chunks and event, once the row of the job has been recovered. -/
def recoverChunks (now : Int) (cancellationPending : Bool) (eventType jobId message : QString) :
    Db Unit := do
  updateChunks (recoverableChunk cancellationPending jobId) (recoveredChunk cancellationPending message)
  let _ ← insertEvent t now (recoveryEvent cancellationPending eventType jobId message)

/-- `claimInDatabase` recovers the job of an expired lease. -/
def recoverExpiredJob (now : Int) (expiredJobId : QString) : Db Unit := do
  let expiredJob ← findJob expiredJobId
  let cancellationPending := expiredJob.any fun job => job.state == .cancelling
  let message :=
    if cancellationPending then qs "Cancellation completed after the ASR execution lease expired."
    else qs "The ASR execution lease expired."
  let affected ← updateJobs
    (fun job => job.id == expiredJobId &&
      if cancellationPending then job.state == .cancelling
      else job.state.isRunning && job.state != .cancelling)
    (recoveredJob now cancellationPending message)
    "The expired transcription lease could not be recovered."
  if affected > 0 then
    recoverChunks t now cancellationPending (qs "lease_expired") expiredJobId message
  else pure ()

def recoverExpiredLease (now : Int) : Option AsrExecutionLease → Db Unit
  | none => pure ()
  | some lease => do
    recoverExpiredJob t now lease.jobId
    deleteLease

/-! ## Claiming a job -/

/-- The order of text columns.  The dates and ids compared here are ASCII. -/
def timeBefore : QDateTime → QDateTime → Bool
  | none, none => false
  | none, some _ => true
  | some _, none => false
  | some left, some right => left < right

def queueBefore (left right : TranscriptionJob) : Bool :=
  left.queuePosition < right.queuePosition ||
    (left.queuePosition == right.queuePosition &&
      (timeBefore left.createdAt right.createdAt ||
        (left.createdAt == right.createdAt && decide (left.id < right.id))))

def queuedJobs (db : Database) : List TranscriptionJob :=
  db.jobs.filter fun job => job.state == .queued && !job.queueHidden

/-- The job that is next in the queue, or the requested one. -/
def candidateJob (requestedJobId : Option QString) (db : Database) : Option TranscriptionJob :=
  match requestedJobId with
  | some id => db.job? id
  | none => ((queuedJobs db).insertionSort fun left right => ¬ queueBefore right left = true).head?

def claimedJob (now : Int) (job : TranscriptionJob) : TranscriptionJob :=
  { job with
    state := .preparing
    startedAt := if job.startedAt.isSome then job.startedAt else storedTime (some now) }

def claimedEvent (selected : TranscriptionJob) : JobEvent :=
  { jobId := selected.id, eventType := qs "claimed", state := some .preparing,
    stage := some selected.stage, progress := some selected.progress }

def acquiredLease (now leaseDurationMs : Int) (ownerToken jobId : QString) : AsrExecutionLease :=
  { ownerToken, jobId, acquiredAt := storedTime (some now), heartbeatAt := storedTime (some now),
    expiresAt := storedTime (some (now + leaseDurationMs)) }

/-- The claim that is answered without claiming anything. -/
def unclaimed : JobClaimResult := {}

/-- A queued job gets an executor. -/
def claimSelected (now : Int) (selected : TranscriptionJob) (ownerToken : QString)
    (leaseDurationMs : Int) : Db JobClaimResult := do
  require (selected.state = .queued) (.validation .invalidStateTransition
    (qs "Only queued transcription jobs can be claimed."))
  let affected ← updateJobs (fun job => job.id == selected.id && job.state == .queued) (claimedJob now)
    "The queued transcription job could not be claimed."
  if affected = 0 then return unclaimed
  else
    insertLease (acquiredLease now leaseDurationMs ownerToken selected.id)
      "The ASR execution lease could not be acquired."
    let _ ← insertEvent t now (claimedEvent selected)
    let claimed ← findJob selected.id
    let job ← requireSome claimed (.ofDatabase .notFound
      (qs "The claimed transcription job no longer exists."))
    return { claimed := true, job := some job, activeJobId := selected.id,
             lease := some { ownerToken, jobId := selected.id, acquiredAt := some now,
                             heartbeatAt := some now, expiresAt := some (now + leaseDurationMs) } }

/-- `claimInDatabase` when no lease is in the way any more. -/
def claimIdle (now : Int) (requestedJobId : Option QString) (ownerToken : QString)
    (leaseDurationMs : Int) : Db JobClaimResult := do
  let active ← command (fun db => db) (·.runningJobs.head?)
  match active with
  | some job => return { unclaimed with activeJobId := job.id }
  | none =>
    let selected ← command (fun db => db) (candidateJob requestedJobId)
    match selected with
    | some job => claimSelected t now job ownerToken leaseDurationMs
    | none =>
      require (requestedJobId = none) (.validation .notFound
        (qs "The queued transcription job does not exist."))
      return unclaimed

/-- `claimInDatabase` when the lease is held: its owner gets its own job again. -/
def claimHeld (lease : AsrExecutionLease) (requestedJobId : Option QString) (ownerToken : QString) :
    Db JobClaimResult := do
  let current ← findJob lease.jobId
  if lease.ownerToken = ownerToken ∧ (requestedJobId = none ∨ requestedJobId = some lease.jobId) ∧
      current.isSome then
    return { claimed := true, job := current, lease := some lease, activeJobId := lease.jobId }
  else return { unclaimed with lease := some lease, activeJobId := lease.jobId }

def claimInDatabase (now : Int) (requestedJobId : Option QString) (ownerToken : QString)
    (leaseDurationMs : Int) : Db JobClaimResult := do
  let lease ← findLease
  match lease.filter fun lease => lease.live now with
  | some held => claimHeld held requestedJobId ownerToken
  | none => do
    recoverExpiredLease t now lease
    claimIdle t now requestedJobId ownerToken leaseDurationMs

def claimNextQueued (now : Int) (ownerToken : QString) (leaseDurationMs : Int) :
    Transacted JobClaimResult :=
  if (trimmed ownerToken).isEmpty ∨ leaseDurationMs < 1000 then fun db =>
    (.error (.validation .invalidArgument
      (qs "A lease owner and a duration of at least one second are required.")), db)
  else immediateTransaction (claimInDatabase t now none ownerToken leaseDurationMs)

def claimQueued (now : Int) (jobId ownerToken : QString) (leaseDurationMs : Int) :
    Transacted JobClaimResult :=
  if jobId.isEmpty ∨ (trimmed ownerToken).isEmpty ∨ leaseDurationMs < 1000 then fun db =>
    (.error (.validation .invalidArgument
      (qs "A queued job, lease owner, and valid lease duration are required.")), db)
  else immediateTransaction (claimInDatabase t now (some jobId) ownerToken leaseDurationMs)

/-! ## Keeping and giving up the lease -/

def leaseNotOwnedError : UserFacingError :=
  .validation .executionLeaseLost
    (qs "The ASR execution lease is no longer owned by this process.")

def renewedLease (now leaseDurationMs : Int) (lease : AsrExecutionLease) : AsrExecutionLease :=
  { lease with
    acquiredAt := if lease.acquiredAt.isSome then lease.acquiredAt else some now
    heartbeatAt := some now
    expiresAt := some (now + leaseDurationMs) }

/-- The row keeps times as texts. -/
def storedLease (lease renewed : AsrExecutionLease) : AsrExecutionLease :=
  { lease with
    acquiredAt := storedTime renewed.acquiredAt
    heartbeatAt := storedTime renewed.heartbeatAt
    expiresAt := storedTime renewed.expiresAt }

def renewLease (now : Int) (jobId ownerToken : QString) (leaseDurationMs : Int) :
    Transacted AsrExecutionLease :=
  if jobId.isEmpty ∨ (trimmed ownerToken).isEmpty ∨ leaseDurationMs < 1000 then fun db =>
    (.error (.validation .invalidArgument
      (qs "A job, lease owner, and valid lease duration are required.")), db)
  else immediateTransaction do
    let current ← findRawLease
    let lease ← requireSome (current.filter fun lease =>
      lease.jobId == jobId && lease.ownerToken == ownerToken) leaseNotOwnedError
    validateLeaseIdentity lease
    require (¬ lease.expiresAt.any (· ≤ now)) leaseNotOwnedError
    let renewed := renewedLease now leaseDurationMs lease
    let affected ← updateLeases (fun row => row.jobId == jobId && row.ownerToken == ownerToken)
      (storedLease · renewed)
    require (affected ≠ 0) (.validation .executionLeaseLost (qs "The ASR execution lease was lost."))
    return renewed

def releaseLease (jobId ownerToken : QString) : Transacted Unit :=
  if jobId.isEmpty ∨ (trimmed ownerToken).isEmpty then fun db =>
    (.error (.validation .invalidArgument (qs "A job and lease owner are required.")), db)
  else immediateTransaction do
    let affected ← deleteLeases fun lease => lease.jobId == jobId && lease.ownerToken == ownerToken
    require (affected ≠ 0) (.validation .invalidStateTransition
      (qs "The ASR execution lease is not owned by this process."))

end BreezeDesk
