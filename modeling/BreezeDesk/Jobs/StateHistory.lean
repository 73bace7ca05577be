/-
  The states a job passes through.

  `JobStateMachine` has the table of moves, and `transition` asks it.  Four other operations write the
  state by an `UPDATE` of their own: claiming a job, which recovers the job of an expired lease first,
  completing a job, the recovery of running jobs, and the creation of a job.

  `JobsCame` says of the rows after an operation where they come from: the row was there in the same
  state, or in one that the table lets go to this one, or the job is new and queued.  Only a claim makes
  a job `Preparing`: `transition` would need the lease of a queued job, and leases belong to running
  jobs (`JobsInOrder`).

  `legal_histories` puts it together for every step of every run.
-/
import BreezeDesk.Database.Repositories
import BreezeDesk.Jobs.Outcomes

namespace BreezeDesk

open Transaction Runs

/-! ## Histories -/

def Database.stateOf (db : Database) (id : QString) : Option JobState := (db.job? id).map (·.state)

/-- What one operation may make of a job: nothing, or a move of the table.  A job begins as queued, and
    may be deleted. -/
def LegalMove : Option JobState → Option JobState → Prop
  | some source, some target => source = target ∨ target ∈ transitions source
  | none, some target => target = .queued
  | _, none => True

/-- The step is a claim, and this job has been claimed. -/
def Claims (t : CharTables) (db : Database) (step : RepositoryStep) (id : QString) : Prop :=
  match step with
  | .jobs step =>
    match step.operation with
    | .claimNextQueued owner duration => ∃ claim,
        (claimNextQueued t step.now owner duration db).1 = .ok claim ∧ claim.claimed = true ∧
          claim.job.map (·.id) = some id
    | .claimQueued jobId owner duration => ∃ claim,
        (claimQueued t step.now jobId owner duration db).1 = .ok claim ∧ claim.claimed = true ∧
          claim.job.map (·.id) = some id
    | _ => False
  | .recordings .. => False

variable {t : CharTables} {db db' base : Database} {now : Int} {claimed spared : Option QString}

/-! ## Where a row comes from -/

inductive Came (claimed : Option QString) (old : List TranscriptionJob) (job : TranscriptionJob) : Prop where
  | stayed (before : TranscriptionJob) (hbefore : before ∈ old) (hid : before.id = job.id)
      (hstate : before.state = job.state)
  | moved (before : TranscriptionJob) (hbefore : before ∈ old) (hid : before.id = job.id)
      (hmove : job.state ∈ transitions before.state)
      (hclaimed : job.state = .preparing → claimed = some job.id)
  | created (hfresh : ∀ before ∈ old, before.id ≠ job.id) (hstate : job.state = .queued)

def JobsCame (claimed : Option QString) (old new : List TranscriptionJob) : Prop :=
  ∀ job ∈ new, Came claimed old job

theorem jobsCame_refl (claimed : Option QString) (jobs : List TranscriptionJob) : JobsCame claimed jobs jobs :=
  fun job hjob => .stayed job hjob rfl rfl

theorem Came.same {old : List TranscriptionJob} {job after : TranscriptionJob} (h : Came claimed old job)
    (hid : after.id = job.id) (hstate : after.state = job.state) : Came claimed old after := by
  cases h with
  | stayed before hbefore hid' hstate' =>
    exact .stayed before hbefore (hid'.trans hid.symm) (hstate'.trans hstate.symm)
  | moved before hbefore hid' hmove hclaimed =>
    exact .moved before hbefore (hid'.trans hid.symm) (hstate ▸ hmove) fun hpreparing =>
      hid ▸ hclaimed (hstate ▸ hpreparing)
  | created hfresh hqueued => exact .created (fun before hbefore => hid ▸ hfresh before hbefore) (hstate ▸ hqueued)

/-- **The history of a job**, from where its rows come from. -/
theorem legalMove_of_came (hdb : JobsInOrder db) (h : JobsCame claimed db.jobs db'.jobs) (id : QString) :
    LegalMove (db.stateOf id) (db'.stateOf id) ∧
      (db'.stateOf id = some .preparing → db.stateOf id ≠ some .preparing → claimed = some id) := by
  unfold Database.stateOf
  cases hafter : db'.job? id with
  | none =>
    refine ⟨?_, fun hpreparing => (by cases hpreparing)⟩
    cases (db.job? id) <;> trivial
  | some job =>
    obtain ⟨hmem, rfl⟩ := of_job? hafter
    cases h job hmem with
    | stayed before hbefore hid hstate =>
      rw [← hid, hdb.job?_eq hbefore]
      refine ⟨Or.inl hstate, fun hpreparing hnot => absurd ?_ hnot⟩
      rw [Option.map_some, hstate]
      exact hpreparing
    | moved before hbefore hid hmove hclaimed =>
      refine ⟨?_, fun hpreparing _ => hclaimed (Option.some.inj hpreparing)⟩
      rw [← hid, hdb.job?_eq hbefore]
      exact Or.inr hmove
    | created hfresh hqueued =>
      have hnone : db.job? job.id = none :=
        List.find?_eq_none.mpr fun before hbefore => by simpa using hfresh before hbefore
      rw [hnone]
      refine ⟨hqueued, fun hpreparing _ => ?_⟩
      rw [Option.map_some, hqueued] at hpreparing
      cases hpreparing

/-! ## Operations that move no job -/

/-- The leased jobs still run after a change of rows. -/
theorem JobsInOrder.withJobs (h : JobsInOrder db) {jobs : List TranscriptionJob}
    (hids : Identified jobs)
    (hrunning : ∀ job ∈ db.jobs, job.state.isRunning = true →
      ∃ after ∈ jobs, after.id = job.id ∧ after.state.isRunning = true) :
    JobsInOrder { db with jobs } where
  ids := hids
  oneLease := h.oneLease
  leased lease hlease := by
    obtain ⟨job, hjob, hid, hstate⟩ := h.leased lease hlease
    obtain ⟨after, hafter, hid', hstate'⟩ := hrunning job hjob hstate
    exact ⟨after, hafter, hid'.trans hid, hstate'⟩

theorem jobsInOrder_calm {which : TranscriptionJob → Bool} {update : TranscriptionJob → TranscriptionJob}
    (hcalm : Calm update) (h : JobsInOrder db) :
    JobsInOrder { db with jobs := updateRows which update db.jobs } := by
  refine h.withJobs (identified_updateRows hcalm.id h.ids) fun job hjob hstate => ?_
  refine ⟨_, mem_updateRows.mpr ⟨job, hjob, rfl⟩, ?_⟩
  split
  · exact ⟨hcalm.id job, (hcalm.state job).symm ▸ hstate⟩
  · exact ⟨rfl, hstate⟩

theorem jobsInOrder_leases (h : JobsInOrder db) {leases : List AsrExecutionLease}
    (hlength : leases.length ≤ db.leases.length)
    (hfrom : ∀ lease ∈ leases, ∃ old ∈ db.leases, old.jobId = lease.jobId) :
    JobsInOrder { db with leases } where
  ids := h.ids
  oneLease := hlength.trans h.oneLease
  leased lease hlease := by
    obtain ⟨old, hold, hid⟩ := hfrom lease hlease
    obtain ⟨job, hjob, hjob', hstate⟩ := h.leased old hold
    exact ⟨job, hjob, hjob'.trans hid, hstate⟩

/-- The lease of a deleted job goes with it. -/
theorem jobsInOrder_cascade (which : TranscriptionJob → Bool) (h : JobsInOrder db) :
    JobsInOrder (cascadeJobs which db) where
  ids := h.ids.filter _
  oneLease := (List.length_filter_le _ _).trans h.oneLease
  leased lease hlease := by
    have hmem := (List.mem_filter.mp hlease).1
    have hkept : (!(db.jobs.any fun other => which other && other.id == lease.jobId)) = true :=
      (List.mem_filter.mp hlease).2
    obtain ⟨job, hjob, hid, hstate⟩ := h.leased lease hmem
    refine ⟨job, List.mem_filter.mpr ⟨hjob, ?_⟩, hid, hstate⟩
    cases hwhich : which job with
    | false => rfl
    | true =>
      have hgone : (db.jobs.any fun other => which other && other.id == lease.jobId) = true :=
        List.any_eq_true.mpr ⟨job, hjob, by rw [hwhich, hid, beq_self_eq_true]; rfl⟩
      rw [hgone] at hkept
      cases hkept

theorem jobsCame_updateRows {which : TranscriptionJob → Bool}
    {update : TranscriptionJob → TranscriptionJob} {old jobs : List TranscriptionJob}
    (h : JobsCame claimed old jobs)
    (hupdate : ∀ job ∈ jobs, which job = true → Came claimed old (update job)) :
    JobsCame claimed old (updateRows which update jobs) := by
  intro job hjob
  obtain ⟨before, hbefore, rfl⟩ := mem_updateRows.mp hjob
  split
  next hwhich => exact hupdate before hbefore hwhich
  · exact h before hbefore

/-- The database is in order, and its rows have come from the ones of `base`. -/
def InHistory (claimed : Option QString) (base db : Database) : Prop :=
  JobsInOrder db ∧ JobsCame claimed base.jobs db.jobs

theorem inHistory_refl (h : JobsInOrder db) (claimed : Option QString) : InHistory claimed db db :=
  ⟨h, jobsCame_refl claimed db.jobs⟩

theorem inHistory_calm : CalmKeep Calm (InHistory claimed base) where
  jobs _ _ _ hcalm hI _ := ⟨jobsInOrder_calm hcalm hI.1, jobsCame_updateRows hI.2 fun job hjob _ =>
    (hI.2 job hjob).same (hcalm.id job) (hcalm.state job)⟩
  chunks _ _ hI := ⟨⟨hI.1.ids, hI.1.oneLease, hI.1.leased⟩, hI.2⟩
  detach _ _ hI := ⟨⟨hI.1.ids, hI.1.oneLease, hI.1.leased⟩, hI.2⟩
  events _ _ _ hI := ⟨⟨hI.1.ids, hI.1.oneLease, hI.1.leased⟩, hI.2⟩
  leases _ _ hI hlength hfrom := ⟨jobsInOrder_leases hI.1 hlength hfrom, hI.2⟩

theorem inHistory_cascade (db : Database) (which : TranscriptionJob → Bool) (hI : InHistory claimed base db) :
    InHistory claimed base (cascadeJobs which db) :=
  ⟨jobsInOrder_cascade which hI.1, fun job hjob => hI.2 job (List.mem_filter.mp hjob).1⟩

theorem inHistory_immaterial : SegmentsImmaterial (InHistory claimed base) where
  segments _ _ hI := ⟨⟨hI.1.ids, hI.1.oneLease, hI.1.leased⟩, hI.2⟩
  index _ _ hI := ⟨⟨hI.1.ids, hI.1.oneLease, hI.1.leased⟩, hI.2⟩

/-! ## Creating a job -/

theorem createQueued_inHistory {uuid : QString} {job : TranscriptionJob} (h : JobsInOrder db) :
    InHistory none db (createQueued t now uuid job db).2 := by
  refine (transactional_ite (transactional_refusal _) (transactional_immediate _)).after
    (inHistory_refl h none) fun _ after hok => ?_
  obtain ⟨hinsertable, hnamed, rfl⟩ := createQueued_ok hok
  have hfresh := not_mem_of_insertable hinsertable
  refine ⟨⟨h.ids.append hfresh hnamed, h.oneLease, fun lease hlease => ?_⟩, fun other hother => ?_⟩
  · obtain ⟨job, hjob, hrest⟩ := h.leased lease hlease
    exact ⟨job, List.mem_append_left _ hjob, hrest⟩
  · rcases List.mem_append.mp hother with hold | hnew
    · exact .stayed other hold rfl rfl
    · rw [List.mem_singleton.mp hnew]
      exact .created hfresh rfl

/-! ## Recovering jobs -/

theorem Recovering.came (h : Recovering spared base db) (claimed : Option QString) :
    JobsCame claimed base.jobs db.jobs := by
  intro job hjob
  obtain ⟨before, hbefore, hid, -, hstate⟩ := h.rows job hjob
  rcases hstate with heq | ⟨hrunning, heq⟩
  · exact .stayed before hbefore hid heq
  · refine .moved before hbefore hid (heq ▸ recoveredState_mem hrunning) fun hpreparing => ?_
    rw [heq] at hpreparing
    unfold recoveredState at hpreparing
    split at hpreparing <;> cases hpreparing

theorem Recovering.inHistory (h : Recovering spared base db) (hbase : JobsInOrder base)
    (hspared : ∀ lease ∈ db.leases, spared = some lease.jobId) : InHistory none base db := by
  refine ⟨⟨h.ids, h.oneLease, fun lease hlease => ?_⟩, h.came none⟩
  obtain ⟨old, hold, hid⟩ := h.leases lease hlease
  obtain ⟨before, hbefore, hjob, hrunning⟩ := hbase.leased old hold
  have hsame : before.id = lease.jobId := hjob.trans hid
  obtain ⟨job, hmem, hid', -, hstate⟩ := h.kept before hbefore (Or.inr (hsame ▸ hspared lease hlease))
  exact ⟨job, hmem, hid'.trans hsame, hstate ▸ hrunning⟩

theorem markRunningJobsInterrupted_inHistory {reason : QString} (h : JobsInOrder db) :
    InHistory none db (markRunningJobsInterrupted t now reason db).2 := by
  refine (transactional_immediate _).after (inHistory_refl h none) fun _ after hok => ?_
  obtain ⟨hrecovering, hleases⟩ := markRunningJobsInterrupted_ok h hok
  exact hrecovering.inHistory h hleases

/-! ## Claiming a job -/

theorem inHistory_claimed {mid : Database} {claim : JobClaimResult} {jobId : QString}
    (hmid : Recovering none base mid) (h : Claimed now mid db claim jobId) :
    InHistory (some jobId) base db := by
  have hid : ∀ job, (claimedJob now job).id = job.id := fun _ => rfl
  obtain ⟨lease, hlease, hleases⟩ := h.lease
  refine ⟨⟨h.jobs ▸ identified_updateRows hid hmid.ids, ?_, fun other hother => ?_⟩, fun job hjob => ?_⟩
  · rw [hleases]
    exact Nat.le_refl 1
  · rw [hleases] at hother
    rw [List.mem_singleton.mp hother, hlease, h.jobs]
    obtain ⟨job, hjob, rfl, hqueued⟩ := h.queued
    refine ⟨_, mem_updateRows.mpr ⟨job, hjob, rfl⟩, ?_⟩
    rw [if_pos (Bool.and_eq_true .. ▸ ⟨beq_self_eq_true _, beq_iff_eq.mpr hqueued⟩)]
    exact ⟨rfl, rfl⟩
  · rw [h.jobs] at hjob
    refine jobsCame_updateRows (hmid.came _) (fun row hrow hwhich => ?_) job hjob
    rw [Bool.and_eq_true, beq_iff_eq, beq_iff_eq] at hwhich
    obtain ⟨hjobId, hqueued⟩ := hwhich
    obtain ⟨before, hbefore, hsame, -, hstate⟩ := hmid.rows row hrow
    rcases hstate with heq | ⟨-, heq⟩
    · refine .moved before hbefore hsame ?_ fun _ => congrArg some hjobId.symm
      rw [heq, hqueued]
      exact List.mem_cons_self ..
    · exact absurd (heq.symm.trans hqueued) (recoveredState_idle before.state).2

/-- What a claim makes of the jobs, and which one it claimed. -/
theorem claim_inHistory {requestedJobId : Option QString} {ownerToken : QString} {leaseDurationMs : Int}
    (operation : Transacted JobClaimResult) (htransactional : Transactional operation)
    (hoperation : ∀ claim after, operation db = (.ok claim, after) →
      claimInDatabase t now requestedJobId ownerToken leaseDurationMs db = .ok (claim, after))
    (h : JobsInOrder db) :
    ∃ claimed, InHistory claimed db (operation db).2 ∧ ∀ id, claimed = some id →
      ∃ claim, (operation db).1 = .ok claim ∧ claim.claimed = true ∧ claim.job.map (·.id) = some id := by
  have hnone : ∀ {P : QString → Prop} (id : QString), none = some id → P id := fun _ h => (by cases h)
  refine htransactional.after (P := fun after => ∃ claimed, InHistory claimed db after ∧ ∀ id,
    claimed = some id → ∃ claim, (operation db).1 = .ok claim ∧ claim.claimed = true ∧
      claim.job.map (·.id) = some id) ⟨none, inHistory_refl h none, hnone⟩ fun claim after hok => ?_
  rcases claimInDatabase_ok h (hoperation claim after hok) with rfl | ⟨mid, hmid, hleases, hafter⟩
  · exact ⟨none, inHistory_refl h none, hnone⟩
  · rcases hafter with rfl | ⟨jobId, hclaimed⟩
    · refine ⟨none, hmid.inHistory h fun lease hlease => ?_, hnone⟩
      rw [hleases] at hlease
      cases hlease
    · refine ⟨some jobId, inHistory_claimed hmid hclaimed, fun id hid => ?_⟩
      cases hid
      exact ⟨claim, congrArg Prod.fst hok, hclaimed.claimed, hclaimed.job⟩

/-! ## Moving and completing a job -/

theorem inHistory_moved {id : QString} {state : JobState} {errorCode errorMessage ownerToken : QString}
    {current : TranscriptionJob} (h : JobsInOrder db)
    (hmoved : Moved now db db' id state errorCode errorMessage ownerToken current) :
    InHistory none db db' := by
  obtain ⟨hcurrent, hid⟩ := of_job? hmoved.found
  obtain ⟨position, hjobs⟩ := hmoved.jobs
  have hfields := @transitionedJob_fields now position state errorCode errorMessage
  refine ⟨⟨?_, ?_, fun lease hlease => ?_⟩, ?_⟩
  · rw [hjobs]
    exact identified_updateRows (fun job => (hfields job).1) h.ids
  · rw [hmoved.leases]
    split
    · exact (List.length_filter_le _ _).trans h.oneLease
    · exact h.oneLease
  · have hold : lease ∈ db.leases := by
      rw [hmoved.leases] at hlease
      split at hlease
      · exact (List.mem_filter.mp hlease).1
      · exact hlease
    obtain ⟨job, hjob, hjobId, hrunning⟩ := h.leased lease hold
    rw [hjobs]
    refine ⟨_, mem_updateRows.mpr ⟨job, hjob, rfl⟩, ?_⟩
    split
    next hwhich =>
      -- the leased job itself has moved
      rw [Bool.and_eq_true, beq_iff_eq, beq_iff_eq] at hwhich
      refine ⟨(hfields job).1.trans hjobId, ?_⟩
      rw [(hfields job).2.2]
      refine (over_of_move (hwhich.2 ▸ hrunning) hmoved.legal).resolve_right fun hover => ?_
      rw [hmoved.leases, if_pos hover] at hlease
      rcases hmoved.allowed with ⟨hempty, -⟩ | hholds
      · have hkept := (List.mem_filter.mp hlease).2
        rw [hempty, ← hjobId, hwhich.1, beq_self_eq_true] at hkept
        cases hkept
      · rw [released_of_holdsLease h.oneLease hholds] at hlease
        cases hlease
    next => exact ⟨hjobId, hrunning⟩
  · rw [hjobs]
    refine jobsCame_updateRows (jobsCame_refl none db.jobs) fun job hjob hwhich => ?_
    rw [Bool.and_eq_true, beq_iff_eq, beq_iff_eq] at hwhich
    obtain ⟨hid', -, hstate⟩ := hfields job
    refine .moved job hjob hid'.symm ?_ fun hpreparing => ?_
    · rw [hstate, hwhich.2]
      exact hmoved.legal
    · -- only a claim prepares a queued job: it has no executor yet
      have hqueued := queued_of_preparing (hpreparing ▸ hstate ▸ hmoved.legal)
      rcases hmoved.allowed with ⟨-, hownerless⟩ | hholds
      · rw [hqueued, hstate.symm.trans hpreparing] at hownerless
        cases hownerless
      · obtain ⟨lease, hlease, hleased, -⟩ := leased_of_holdsLease hholds
        obtain ⟨other, hother, hotherId, hrunning⟩ := h.leased lease hlease
        have hsame : other = current := h.eq_of_id hother hcurrent (hotherId.trans (hleased.trans hid.symm))
        rw [hsame, hqueued] at hrunning
        cases hrunning

theorem transition_inHistory {id : QString} {state : JobState} {errorCode errorMessage ownerToken : QString}
    (h : JobsInOrder db) :
    InHistory none db (transition t now id state errorCode errorMessage ownerToken db).2 := by
  refine (transactional_ite (transactional_refusal _) (transactional_write _ _ _ _)).after
    (inHistory_refl h none) fun _ after hok => ?_
  rcases transition_ok hok with rfl | ⟨current, hmoved⟩
  · exact inHistory_refl h none
  · exact inHistory_moved h hmoved

theorem calm_hidden : Calm fun job => { job with queueHidden := true } :=
  ⟨fun _ => rfl, fun _ => rfl, fun _ => rfl⟩

theorem completeAndActivate_inHistory {recordingId jobId ownerToken : QString} (h : JobsInOrder db) :
    InHistory none db (completeAndActivate t now recordingId jobId ownerToken db).2 := by
  refine (transactional_ite (transactional_refusal _) (transactional_lease _ _ _ _)).after
    (inHistory_refl h none) fun _ after hok => ?_
  obtain ⟨hlease, -, -, hjobs, -, hleases⟩ := completeAndActivate_ok hok
  rw [released_of_holdsLease h.oneLease hlease] at hleases
  have hcompleted : ∀ job, (completedJob now job).id = job.id := fun _ => rfl
  have hrows : JobsCame none db.jobs (completedRows now recordingId jobId db.jobs) := by
    refine jobsCame_updateRows (jobsCame_refl none db.jobs) fun job hjob hwhich => ?_
    rw [Bool.and_eq_true, beq_iff_eq] at hwhich
    refine .moved job hjob rfl ?_ fun hpreparing => (by cases hpreparing)
    rw [hwhich.2]
    exact List.mem_cons_self ..
  refine ⟨⟨?_, ?_, fun lease hmem => ?_⟩, ?_⟩
  · rw [hjobs]
    exact identified_updateRows calm_hidden.id (identified_updateRows hcompleted h.ids)
  · rw [hleases]
    exact Nat.zero_le 1
  · rw [hleases] at hmem
    cases hmem
  · rw [hjobs]
    exact jobsCame_updateRows hrows fun job hjob _ => (hrows job hjob).same rfl rfl

/-! ## Every step -/

/-- **One step** of the job repository makes a legal history, and prepares what it claims. -/
theorem performed_inHistory (step : Step) (h : JobsInOrder db) :
    ∃ claimed, InHistory claimed db (performed t db step) ∧
      ∀ id, claimed = some id → Claims t db (.jobs step) id := by
  have hstart : InHistory none db db := inHistory_refl h none
  have hunclaimed : InHistory none db (performed t db step) →
      ∃ claimed, InHistory claimed db (performed t db step) ∧
        ∀ id, claimed = some id → Claims t db (.jobs step) id :=
    fun hafter => ⟨none, hafter, fun _ hnone => (by cases hnone)⟩
  have hcalm : ∀ update, Calm update → Calm update := fun _ hupdate => hupdate
  have hstill : ∀ update, Still update → Calm update := fun _ hupdate => hupdate.toCalm
  cases htranscript : step.operation.isTranscript with
  | true => exact hunclaimed (performed_transcript inHistory_immaterial htranscript hstart)
  | false =>
    cases hop : step.operation.isCalm with
    | true => exact hunclaimed (performed_calm inHistory_calm hcalm hop hstart)
    | false =>
      obtain ⟨now, newId, operation⟩ := step
      cases operation with
      | createQueued job => exact hunclaimed (createQueued_inHistory h)
      | claimNextQueued owner duration =>
        exact claim_inHistory (claimNextQueued t now owner duration)
          (transactional_ite (transactional_refusal _) (transactional_immediate _))
          (fun _ _ hok => claimNextQueued_ok hok) h
      | claimQueued jobId owner duration =>
        exact claim_inHistory (claimQueued t now jobId owner duration)
          (transactional_ite (transactional_refusal _) (transactional_immediate _))
          (fun _ _ hok => claimQueued_ok hok) h
      | transition => exact hunclaimed (transition_inHistory h)
      | completeAndActivate => exact hunclaimed (completeAndActivate_inHistory h)
      | markRunningJobsInterrupted => exact hunclaimed (markRunningJobsInterrupted_inHistory h)
      | deleteTerminalJob =>
        exact hunclaimed (deleteTerminalJob_keeps inHistory_calm hstill inHistory_immaterial.index inHistory_cascade hstart)
      | clearCompleted =>
        exact hunclaimed (clearCompleted_keeps inHistory_calm hstill inHistory_immaterial.index inHistory_cascade hstart)
      | _ => first | (cases hop; done) | cases htranscript

/-- A step of the recording repository moves no job. -/
theorem inHistory_recordings : RecordingRepository.RecordingsImmaterial (InHistory claimed base) where
  recordings _ _ hI := ⟨⟨hI.1.ids, hI.1.oneLease, hI.1.leased⟩, hI.2⟩
  index _ _ hI := ⟨⟨hI.1.ids, hI.1.oneLease, hI.1.leased⟩, hI.2⟩
  segments _ _ hI := ⟨⟨hI.1.ids, hI.1.oneLease, hI.1.leased⟩, hI.2⟩
  cascade _ _ hI := inHistory_cascade _ _ hI

theorem executed_inHistory (step : RepositoryStep) (h : JobsInOrder db) :
    ∃ claimed, InHistory claimed db (executed t db step) ∧
      ∀ id, claimed = some id → Claims t db step id := by
  cases step with
  | jobs step => exact performed_inHistory step h
  | recordings now uuid operation =>
    exact ⟨none, RecordingRepository.perform_immaterial inHistory_recordings (inHistory_refl h none),
      fun _ hnone => (by cases hnone)⟩

theorem executed_legal (step : RepositoryStep) (h : JobsInOrder db) (id : QString) :
    LegalMove (db.stateOf id) ((executed t db step).stateOf id) ∧
      ((executed t db step).stateOf id = some .preparing →
        db.stateOf id = some .preparing ∨ Claims t db step id) := by
  obtain ⟨claimed, hhistory, hclaims⟩ := executed_inHistory (t := t) step h
  obtain ⟨hlegal, hpreparing⟩ := legalMove_of_came h hhistory.2 id
  refine ⟨hlegal, fun hafter => ?_⟩
  by_cases hbefore : db.stateOf id = some .preparing
  · exact Or.inl hbefore
  · exact Or.inr (hclaims id (hpreparing hafter hbefore))

theorem executed_jobsInOrder : StepKeeps (executed t) (fun _ _ => True) JobsInOrder := by
  intro db step h _
  obtain ⟨_, hhistory, -⟩ := executed_inHistory (t := t) step h
  exact hhistory.1

theorem jobsInOrder_empty : JobsInOrder {} where
  ids := ⟨List.Pairwise.nil, fun _ hjob => (by cases hjob)⟩
  oneLease := Nat.zero_le 1
  leased _ hlease := by cases hlease

/-! ## Every run -/

/-- A completed job stays so until it is deleted, by induction on the steps. -/
theorem completed_stays {id : QString} (steps : List RepositoryStep) (h : JobsInOrder db)
    (hcompleted : db.stateOf id = some .completed)
    (hthere : ∀ after ∈ states (executed t) db steps, after.stateOf id ≠ none) :
    (run (executed t) db steps).stateOf id = some .completed := by
  induction steps generalizing db with
  | nil => exact hcompleted
  | cons step rest ih =>
    have hnext := executed_jobsInOrder (t := t) db step h trivial
    refine ih hnext ?_ fun after hafter => hthere after (List.mem_cons_of_mem _ hafter)
    have hlegal := (executed_legal (t := t) step h id).1
    have hstill := hthere _ (List.mem_cons_of_mem _ (List.mem_of_mem_head? (head?_states _ rest)))
    rw [hcompleted] at hlegal
    cases hafter : (executed t db step).stateOf id with
    | none => exact absurd hafter hstill
    | some state =>
      rw [hafter] at hlegal
      rcases hlegal with rfl | hmove
      · rfl
      · cases hmove

/-- The states that the job of the id passes through in a run. -/
def stateHistory (t : CharTables) (steps : List RepositoryStep) (id : QString) : List (Option JobState) :=
  (states (executed t) {} steps).map (·.stateOf id)

/-- **Legal histories.**  In every run of the repositories, whoever calls them, each job passes through a
    path of the table, becomes `Preparing` only when it is claimed, and once completed stays so until
    it is deleted. -/
theorem legal_histories (t : CharTables) (steps : List RepositoryStep) (id : QString) :
    (stateHistory t steps id).IsChain LegalMove ∧
      (∀ before step after, steps = before ++ step :: after →
        (run (executed t) {} (before ++ [step])).stateOf id = some .preparing →
        (run (executed t) {} before).stateOf id = some .preparing ∨
          Claims t (run (executed t) {} before) step id) ∧
      ∀ before middle after, steps = before ++ middle ++ after →
        (run (executed t) {} before).stateOf id = some .completed →
        (∀ db ∈ states (executed t) (run (executed t) {} before) middle, db.stateOf id ≠ none) →
        (run (executed t) {} (before ++ middle)).stateOf id = some .completed := by
  have hreached : ∀ before, JobsInOrder (run (executed t) {} before) := fun before =>
    run_invariant executed_jobsInOrder jobsInOrder_empty (guarded_true _ before)
  refine ⟨?_, fun before step after _ hpreparing => ?_, fun before middle after _ hcompleted hthere => ?_⟩
  · refine (List.isChain_map fun db : Database => db.stateOf id).mpr ?_
    exact states_isChain executed_jobsInOrder (fun db step h _ => (executed_legal step h id).1)
      jobsInOrder_empty (guarded_true _ steps)
  · rw [run_append] at hpreparing
    exact (executed_legal step (hreached before) id).2 hpreparing
  · rw [run_append]
    exact completed_stays middle (hreached before) hcompleted hthere

end BreezeDesk
