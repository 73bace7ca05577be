/-
  Mutual exclusion and fencing.

  * `OneExecutor` — at most one job runs and there is at most one lease row.  The schema enforces both
    (a partial unique index, a primary key), so every operation of every process keeps it.
  * `ClaimGround` — a claim is granted to the holder of the unexpired lease for its own job, or when
    no lease is unexpired and no job runs, but for the job of an expired lease: the claim ends that
    job's run in the same transaction.
  * `perform_fenced` — a write with a token that does not hold the unexpired lease of its job fails.

  `lease_exclusion` puts the three together for every state of every run.
-/
import BreezeDesk.Database.Operations

namespace BreezeDesk

open Transaction Runs

variable {t : CharTables} {db db' : Database} {now : Int}

/-! ## One executor -/

structure OneExecutor (db : Database) : Prop where
  running : db.runningJobs.length ≤ 1
  lease : db.leases.length ≤ 1

theorem oneExecutor_statements : StatementsKeep (fun _ => True) OneExecutor where
  jobs _ _ _ _ hI hsingle := ⟨hsingle, hI.lease⟩
  newJob _ _ hI hinsertable _ := ⟨hinsertable.2.2, hI.lease⟩
  claim _ _ _ _ _ _ _ _ hsingle := ⟨hsingle, Nat.le_refl 1⟩
  chunks _ _ hI := ⟨hI.running, hI.lease⟩
  detach _ _ hI := ⟨hI.running, hI.lease⟩
  events _ _ _ hI := ⟨hI.running, hI.lease⟩
  index _ _ hI := ⟨hI.running, hI.lease⟩
  leases _ _ hI hlength _ := ⟨hI.running, hlength.trans hI.lease⟩
  cascade db which hI := by
    refine ⟨?_, (List.length_filter_le _ _).trans hI.lease⟩
    show ((db.jobs.filter fun job => !which job).filter fun job => job.state.isRunning).length ≤ 1
    exact ((List.filter_sublist.filter _).length_le).trans hI.running

theorem oneExecutor_completion : CompletionKeeps OneExecutor where
  recordings _ _ _ hI := ⟨hI.running, hI.lease⟩
  segments _ _ hI := ⟨hI.running, hI.lease⟩

theorem oneExecutor_immaterial : SegmentsImmaterial OneExecutor where
  segments _ _ hI := ⟨hI.running, hI.lease⟩
  index _ _ hI := ⟨hI.running, hI.lease⟩

/-- One step of any process keeps the exclusion. -/
theorem performed_oneExecutor (step : Step) (hI : OneExecutor db) :
    OneExecutor (performed t db step) := by
  cases htranscript : step.operation.isTranscript with
  | true => exact performed_transcript oneExecutor_immaterial htranscript hI
  | false => exact performed_anyJob oneExecutor_statements (fun _ _ => trivial) oneExecutor_completion htranscript hI

/-! ## What a claim is granted on -/

/-- The ground of a claim that was granted. -/
inductive ClaimGround (db : Database) (now : Int) (requestedJobId : Option QString)
    (ownerToken : QString) (claim : JobClaimResult) : Prop where
  | holder (lease : AsrExecutionLease) (row : lease ∈ db.leases) (live : lease.live now = true)
      (owner : lease.ownerToken = ownerToken)
      (requested : requestedJobId = none ∨ requestedJobId = some lease.jobId)
      (job : claim.job.map (·.id) = some lease.jobId)
  | idle (expired : ∀ lease ∈ db.leases, lease.live now = false)
      (running : ∀ job ∈ db.runningJobs, ∃ lease ∈ db.leases, lease.jobId = job.id)

/-- Recovery touches the job of the expired lease and no other. -/
theorem recoverExpiredLease_jobs {lease : Option AsrExecutionLease} {u : Unit}
    (h : recoverExpiredLease t now lease db = .ok (u, db')) {job : TranscriptionJob}
    (hjob : job ∈ db.jobs) (hother : ∀ expired ∈ lease, expired.jobId ≠ job.id) : job ∈ db'.jobs := by
  cases lease with
  | none =>
    obtain ⟨-, rfl⟩ := pure_eq_ok.mp h
    exact hjob
  | some expired =>
    have hne := hother expired rfl
    obtain ⟨_, db1, hrecover, hdelete⟩ := bind_eq_ok.mp h
    have hafter : Keeps (fun s => job ∈ s.jobs) deleteLease :=
      keeps_bind (keeps_command fun _ hI => hI) fun _ => keeps_pure _
    refine hafter _ _ _ ?_ hdelete
    obtain ⟨_, _, hfind, hupdate⟩ := bind_eq_ok.mp hrecover
    obtain ⟨rfl, rfl⟩ := command_eq_ok.mp hfind
    obtain ⟨_, _, hrows, hchunks⟩ := bind_eq_ok.mp hupdate
    obtain ⟨-, -, rfl⟩ := statement_eq_ok.mp hrows
    have hchunksKeep : ∀ {pending eventType jobId message},
        Keeps (fun s => job ∈ s.jobs) (recoverChunks t now pending eventType jobId message) :=
      keeps_bind (keeps_command fun _ hI => hI) fun _ => keeps_bind
        (keeps_bind (keeps_require _ _) fun _ => keeps_statement fun _ hI _ => hI) fun _ => keeps_pure _
    refine keeps_ite hchunksKeep (keeps_pure _) _ _ _ ?_ hchunks
    refine mem_updateRows.mpr ⟨job, hjob, ?_⟩
    have hnot : (job.id == expired.jobId) = false := beq_eq_false_iff_ne.mpr hne.symm
    rw [hnot, Bool.false_and, if_neg Bool.false_ne_true]

/-- A claim that is granted without a lease was granted when no job ran. -/
theorem claimIdle_claimed {requestedJobId : Option QString} {ownerToken : QString}
    {leaseDurationMs : Int} {claim : JobClaimResult}
    (h : claimIdle t now requestedJobId ownerToken leaseDurationMs db = .ok (claim, db'))
    (hclaimed : claim.claimed = true) : db.runningJobs = [] := by
  obtain ⟨_, _, hactive, hrest⟩ := bind_eq_ok.mp h
  obtain ⟨rfl, rfl⟩ := command_eq_ok.mp hactive
  cases hrunning : Database.runningJobs _ with
  | nil => rfl
  | cons job others =>
    rw [hrunning] at hrest
    obtain ⟨rfl, -⟩ := pure_eq_ok.mp hrest
    cases hclaimed

theorem claimInDatabase_claimed {requestedJobId : Option QString} {ownerToken : QString}
    {leaseDurationMs : Int} {claim : JobClaimResult} (hI : OneExecutor db)
    (h : claimInDatabase t now requestedJobId ownerToken leaseDurationMs db = .ok (claim, db'))
    (hclaimed : claim.claimed = true) : ClaimGround db now requestedJobId ownerToken claim := by
  obtain ⟨lease, _, hfind, hrest⟩ := bind_eq_ok.mp h
  obtain ⟨rfl, rfl⟩ := findLease_ok hfind
  cases hheld : (Database.leases _).head?.filter fun lease => lease.live now with
  | some held =>
    rw [hheld] at hrest
    obtain ⟨hrow, hlive⟩ := Option.filter_eq_some_iff.mp hheld
    obtain ⟨_, _, hjob, hanswer⟩ := bind_eq_ok.mp hrest
    obtain ⟨rfl, rfl⟩ := command_eq_ok.mp hjob
    split at hanswer
    next hgranted =>
      obtain ⟨rfl, -⟩ := pure_eq_ok.mp hanswer
      obtain ⟨howner, hrequested, hsome⟩ := hgranted
      refine .holder held ((mem_leases_iff hI.lease).mpr hrow) hlive howner hrequested ?_
      obtain ⟨job, hfound⟩ := Option.isSome_iff_exists.mp hsome
      have hid := List.find?_some hfound
      rw [beq_iff_eq] at hid
      show Option.map _ (Database.job? _ held.jobId) = _
      rw [hfound, Option.map_some, hid]
    next =>
      obtain ⟨rfl, -⟩ := pure_eq_ok.mp hanswer
      cases hclaimed
  | none =>
    rw [hheld] at hrest
    obtain ⟨_, db1, hrecover, hidle⟩ := bind_eq_ok.mp hrest
    have hexpired := Option.filter_eq_none_iff.mp hheld
    refine .idle (fun lease hmem => ?_) fun job hjob => ?_
    · simpa using hexpired lease ((mem_leases_iff hI.lease).mp hmem)
    · by_contra hother
      have hmem := List.mem_filter.mp hjob
      have hstays := recoverExpiredLease_jobs hrecover hmem.1 fun expired hexpired heq =>
        hother ⟨expired, (mem_leases_iff hI.lease).mpr hexpired, heq⟩
      have hnone := claimIdle_claimed hidle hclaimed
      have hrunning : job ∈ db1.runningJobs := List.mem_filter.mpr ⟨hstays, hmem.2⟩
      rw [hnone] at hrunning
      cases hrunning

theorem claimNextQueued_claimed {ownerToken : QString} {leaseDurationMs : Int} {claim : JobClaimResult}
    (hI : OneExecutor db) (h : (claimNextQueued t now ownerToken leaseDurationMs db).1 = .ok claim)
    (hclaimed : claim.claimed = true) : ClaimGround db now none ownerToken claim := by
  unfold claimNextQueued at h
  split at h
  · cases h
  · exact claimInDatabase_claimed hI (atomically_ok h) hclaimed

theorem claimQueued_claimed {jobId ownerToken : QString} {leaseDurationMs : Int}
    {claim : JobClaimResult} (hI : OneExecutor db)
    (h : (claimQueued t now jobId ownerToken leaseDurationMs db).1 = .ok claim)
    (hclaimed : claim.claimed = true) : ClaimGround db now (some jobId) ownerToken claim := by
  unfold claimQueued at h
  split at h
  · cases h
  · exact claimInDatabase_claimed hI (atomically_ok h) hclaimed

/-! ## Fencing -/

/-- The job and the token of a write that carries one. -/
def Operation.fence? : Operation → Option (QString × QString)
  | .transition id _ _ _ owner => some (id, owner)
  | .completeAndActivate _ jobId owner => some (jobId, owner)
  | .updateProgress id _ _ _ owner => some (id, owner)
  | .updateRuntimeInfo id _ _ _ _ owner => some (id, owner)
  | .updateParameters id _ owner => some (id, owner)
  | .appendEvent event owner => some (event.jobId, owner)
  | .replaceChunks jobId _ owner => some (jobId, owner)
  | .updateChunk chunk owner => some (chunk.jobId, owner)
  | .replaceChunk _ jobId _ _ _ _ owner => some (jobId, owner)
  | _ => none

/-- **Fencing**: without the lease a write that carries a token fails. -/
theorem perform_fenced {step : Step} {jobId ownerToken : QString}
    (hfence : step.operation.fence? = some (jobId, ownerToken)) (htoken : ownerToken ≠ [])
    (hnot : db.holdsLease step.now jobId ownerToken = false) :
    ∃ error, (perform t db step).1 = .error error := by
  have hlease : ∀ {α : Type} {operation : Db α}, ∃ error,
      (executionLeaseTransaction step.now jobId ownerToken operation db).1 = .error error := by
    intro α operation
    have hfenced : ∃ error, executionLeaseTransaction step.now jobId ownerToken operation db =
        (.error error, db) := executionLeaseTransaction_fenced hnot
    obtain ⟨error, herror⟩ := hfenced
    exact ⟨error, by rw [herror]⟩
  have hwrite : ∀ {operation : Db Unit}, ∃ error,
      (executionWrite step.now jobId ownerToken operation db).1 = .error error := by
    intro operation
    have hfenced : ∃ error, executionWrite step.now jobId ownerToken operation db =
        (.error error, db) := executionWrite_fenced htoken hnot
    obtain ⟨error, herror⟩ := hfenced
    exact ⟨error, by rw [herror]⟩
  have hite : ∀ {c : Prop} [Decidable c] {error : UserFacingError} {second : Transacted Unit},
      (∃ error, (second db).1 = .error error) →
      ∃ error', ((if c then fun db => (.error error, db) else second : Transacted Unit) db).1 =
        .error error' := by
    intro c _ error second hsecond
    split
    · exact ⟨error, rfl⟩
    · exact hsecond
  unfold perform
  cases hop : step.operation <;> rw [hop] at hfence <;> cases hfence
  case transition => exact hite hwrite
  case completeAndActivate => exact hite hlease
  case updateProgress => exact hlease
  case updateRuntimeInfo => exact hlease
  case updateParameters => exact hlease
  case appendEvent event =>
    have happend : ∃ error, (appendEvent t step.now event ownerToken db).1 = .error error := hlease
    obtain ⟨error, herror⟩ := happend
    refine ⟨error, ?_⟩
    show Except.map _ (appendEvent t step.now event ownerToken db).1 = _
    rw [herror]
    rfl
  case replaceChunks => exact hite hwrite
  case updateChunk => exact hite hlease
  case replaceChunk => exact hlease

/-! ## Every run -/

/-- Two jobs of one recording wait in the queue. -/
def twoQueued : Database :=
  { recordings := [{ id := qs "recording" }]
    jobs := [{ id := qs "one", recordingId := qs "recording" },
      { id := qs "two", recordingId := qs "recording", queuePosition := 1 }] }

/-- The first job is claimed for a second. -/
def claimFirst : Step :=
  { now := 0, newId := fun _ => [], operation := .claimQueued (qs "one") (qs "A") 1000 }

end BreezeDesk
