/-
  The source media of a job: one content over all runs of the program.

  A job is bound to its source by a hash among its parameters.  `bindSourceMedia` writes it once, and later
  runs compare what they are offered with it.  `Desk` runs one process after the other on a database that
  others use as well, and records under which hash a process was bound when it worked on a job.

  Main results:
  * `keeps_perform`   — what an operation keeps of the job's source hash: everything, unless it writes it first;
  * `ensures_bindSourceMedia` — a process that is bound was offered the hash that the job has;
  * `desk_oneSource`  — over all runs, all that is recorded of a job is recorded under one hash, and a process
    that is offered another one is refused and changes nothing.
-/
import BreezeDesk.Cli.Persistence
import BreezeDesk.Jobs.Parameters
import BreezeDesk.Jobs.StateHistory
import BreezeDesk.Library.Runs

namespace BreezeDesk.Cli

open Effect Resume Runs
open Transaction (bind_eq_ok command_eq_ok requireSome_eq_ok)

variable {t : CharTables} {host : Host} {J own : QString} {P : QString → Prop} {db db' : Database}

/-! ## Who may write the hash -/

/-- The step gives no parameters to the job. -/
def LeavesAlone (J : QString) : RepositoryStep → Prop
  | .jobs step =>
    match step.operation with
    | .createQueued job => (if job.id.isEmpty then step.newId 0 else job.id) ≠ J
    | .updateParameters id _ _ => id ≠ J
    | _ => True
  | .recordings .. => True

/-- All that the database says of the job's source hash. -/
def HashIs (J : QString) (P : QString → Prop) (db : Database) : Prop :=
  ∀ job ∈ db.jobs, job.id = J → P (sourceHashOf job)

def HasJob (J : QString) (db : Database) : Prop := ∃ job ∈ db.jobs, job.id = J

theorem HashIs.inherits (h : HashIs J P db) (hinherits : Inherits db db') : HashIs J P db' := by
  intro job hjob hid
  obtain ⟨old, hold, hsame, hparameters⟩ := hinherits job hjob
  have hhash : sourceHashOf job = sourceHashOf old := by
    show ((job.parameters.value _).toText) = _
    rw [← hparameters]
    rfl
  rw [hhash]
  exact h old hold (hsame.trans hid)

/-- An update by the id either misses the job or writes its hash anew. -/
theorem hashIs_update {id : QString} {update : TranscriptionJob → TranscriptionJob}
    (hjobs : db'.jobs = updateRows (fun job => job.id == id) update db.jobs)
    (hupdate : ∀ job, (update job).id = job.id) (hwrites : id = J → ∀ job, P (sourceHashOf (update job)))
    (h : id ≠ J → HashIs J P db) : HashIs J P db' := by
  intro job hjob hid
  rw [hjobs] at hjob
  obtain ⟨old, hold, rfl⟩ := mem_updateRows.mp hjob
  by_cases hthis : (old.id == id) = true
  · rw [if_pos hthis] at hid ⊢
    have hsame : old.id = id := beq_iff_eq.mp hthis
    exact hwrites (by rw [← hsame, ← hid, hupdate]) old
  · rw [if_neg hthis] at hid ⊢
    exact h (fun hJ => hthis (beq_iff_eq.mpr (hid.trans hJ.symm))) old hold hid

theorem hashIs_createQueued {step : Step} {row : TranscriptionJob} (hop : step.operation = .createQueued row)
    (hnew : (if row.id.isEmpty then step.newId 0 else row.id) ≠ J) (h : HashIs J P db) :
    HashIs J P (performed t db step) := by
  rcases accepted_or_unchanged t db step with haccepted | hsame
  swap
  · rw [hsame]
    exact h
  have hok := accepted_eq haccepted
  unfold perform at hok
  rw [hop] at hok
  obtain ⟨created, hcreated⟩ := answered_ok hok
  obtain ⟨-, -, hdb⟩ := createQueued_ok hcreated
  rw [hdb]
  intro job hjob hid
  rcases List.mem_append.mp hjob with hold | hadded
  · exact h job hold hid
  · rw [List.mem_singleton.mp hadded] at hid
    exact absurd hid hnew

theorem hashIs_updateParameters {now : Int} {id owner : QString} {parameters : QJsonObject}
    (hwrites : id = J → P (parameters.value (qs "sourceHash")).toText) (h : HashIs J P db) :
    HashIs J P (updateParameters now id parameters owner db).2 := by
  let step : Step := ⟨now, fun _ => [], .updateParameters id parameters owner⟩
  rcases accepted_or_unchanged asciiTables db step with haccepted | hsame
  · exact hashIs_update (updateParameters_ok (accepted_eq haccepted)) (fun _ => rfl) (fun hid _ => hwrites hid)
      fun _ => h
  · rw [show (updateParameters now id parameters owner db).2 = db from hsame]
    exact h

theorem hashIs_executed {step : RepositoryStep} (hstep : LeavesAlone J step) (h : HashIs J P db) :
    HashIs J P (executed t db step) := by
  cases step with
  | recordings => exact h.inherits (inherits_executed fun jobStep heq => by cases heq)
  | jobs step =>
    cases hgives : step.operation.givesParameters with
    | false =>
      refine h.inherits (inherits_executed fun jobStep heq => ?_)
      cases heq
      exact hgives
    | true =>
      unfold LeavesAlone at hstep
      dsimp only at hstep
      cases hop : step.operation <;> rw [hop] at hgives hstep
      case createQueued row => exact hashIs_createQueued hop hstep h
      case updateParameters id parameters owner =>
        show HashIs J P (perform t db step).2
        unfold perform
        rw [hop]
        exact hashIs_updateParameters (fun hid => absurd hid hstep) h
      all_goals cases hgives

/-! ## What the operations keep of it -/

/-- The session is about the job `own`, and what the database says of `J`'s source hash. -/
structure Holds (J : QString) (P : QString → Prop) (own : QString) (s : Persistence) : Prop where
  order : JobsInOrder s.db
  session : s.identity.jobId = own
  chunks : ∀ chunk ∈ s.identity.chunks, chunk.jobId = own
  hash : HashIs J P s.db

/-- Whatever the others do, it is not about the hash. -/
def OthersLeave (host : Host) (J : QString) : Prop := ∀ n, ∀ step ∈ (host.turns n).others, LeavesAlone J step

theorem Holds.executed {s : Persistence} {step : RepositoryStep} (hstep : LeavesAlone J step)
    (h : Holds J P own s) : Holds J P own { s with db := executed t s.db step } where
  order := executed_jobsInOrder s.db step h.order trivial
  session := h.session
  chunks := h.chunks
  hash := hashIs_executed hstep h.hash

theorem Holds.awaited (hothers : OthersLeave host J) {s : Persistence} (h : Holds J P own s) :
    Holds J P own (s.awaited host t) := by
  have hall : ∀ steps : List RepositoryStep, (∀ step ∈ steps, LeavesAlone J step) → ∀ {s : Persistence},
      Holds J P own s → Holds J P own { s with db := steps.foldl (BreezeDesk.executed t) s.db } := by
    intro steps
    induction steps with
    | nil => exact fun _ {s} h => h
    | cons step rest ih =>
      intro hleaves s h
      exact ih (fun other hmem => hleaves other (List.mem_cons_of_mem _ hmem))
        (h.executed (hleaves step (List.mem_cons_self ..)))
  have hlast := hall _ (hothers s.calls) h
  exact ⟨hlast.order, hlast.session, hlast.chunks, hlast.hash⟩

theorem leavesAlone_of_isQuiet {step : RepositoryStep} (h : isQuiet step = true) : LeavesAlone J step := by
  cases step with
  | recordings => trivial
  | jobs step =>
    unfold isQuiet at h
    unfold LeavesAlone
    dsimp only at h ⊢
    cases hop : step.operation <;> rw [hop] at h <;> trivial

theorem endures_holds (hothers : OthersLeave host J) : Endures t host (Holds J P own) where
  others _ h := h.awaited hothers
  quiet _ _ hquiet h := h.executed (leavesAlone_of_isQuiet hquiet)
  active _ _ h := ⟨h.order, h.session, h.chunks, h.hash⟩

section Operations

variable {α : Type} (hothers : OthersLeave host J)

include hothers

/-- A step of the process itself. -/
theorem keeps_ownStep {operation : Turn → Transacted α} (step : Turn → RepositoryStep)
    (hstep : ∀ turn db, (operation turn db).2 = executed t db (step turn))
    (hleaves : ∀ n, LeavesAlone J (step (host.turns n))) : Keeps (Holds J P own) (call t host operation) := by
  refine keeps_call (endures_holds hothers).others fun n s h => ?_
  rw [hstep]
  exact h.executed (hleaves n)

theorem keeps_updateChunk (chunk : JobChunk) (owner : QString) :
    Keeps (Holds J P own) (updateChunk t host chunk owner) :=
  keeps_ownStep hothers (fun turn => turn.step (.updateChunk chunk owner)) (fun _ _ => rfl) fun _ => trivial

omit hothers in
theorem keeps_setChunks {chunks : List JobChunk} (hown : ∀ chunk ∈ chunks, chunk.jobId = own) :
    Keeps (Holds J P own) (setChunks chunks) :=
  keeps_update fun _ h => ⟨h.order, h.session, hown, h.hash⟩

omit hothers in
theorem mem_refreshed {changed chunk : JobChunk} {chunks : List JobChunk} (h : chunk ∈ refreshed changed chunks) :
    chunk = changed ∨ chunk ∈ chunks := by
  induction chunks with
  | nil => cases h
  | cons saved rest ih =>
    unfold refreshed at h
    split at h
    · exact (List.mem_cons.mp h).imp_right (List.mem_cons_of_mem _)
    · rcases List.mem_cons.mp h with rfl | hrest
      · exact Or.inr (List.mem_cons_self ..)
      · exact (ih hrest).imp_right (List.mem_cons_of_mem _)

omit hothers in
theorem Holds.refreshed {s : Persistence} {chunk : JobChunk} (h : Holds J P own s) (hown : chunk.jobId = own) :
    Holds J P own { s with identity := { s.identity with chunks := refreshed chunk s.identity.chunks } } where
  order := h.order
  session := h.session
  chunks other hmem := by
    rcases mem_refreshed hmem with rfl | hbefore
    · exact hown
    · exact h.chunks other hbefore
  hash := h.hash

omit hothers in
theorem keeps_refreshChunk {chunk : JobChunk} (hown : chunk.jobId = own) :
    Keeps (Holds J P own) (refreshChunk chunk) := keeps_update fun _ h => h.refreshed hown

theorem keeps_rewriteChunks {which : JobChunk → Bool} {change : JobChunk → JobChunk}
    {onError : UserFacingError → Session Unit} (hchange : ∀ chunk, (change chunk).jobId = chunk.jobId)
    (herror : ∀ error, Keeps (Holds J P own) (onError error)) (chunks : List JobChunk) :
    ∀ before : List JobChunk, (∀ chunk ∈ before ++ chunks, chunk.jobId = own) →
      Keeps (Holds J P own) (rewriteChunks t host which change onError before chunks) := by
  induction chunks with
  | nil => exact fun before _ => keeps_pure ()
  | cons saved rest ih =>
    intro before hown
    have hchanged : ∀ chunk ∈ before ++ change saved :: rest, chunk.jobId = own := by
      intro chunk hmem
      rcases List.mem_append.mp hmem with hbefore | hafter
      · exact hown chunk (List.mem_append_left _ hbefore)
      · rcases List.mem_cons.mp hafter with rfl | hrest
        · rw [hchange]
          exact hown saved (List.mem_append_right _ (List.mem_cons_self ..))
        · exact hown chunk (List.mem_append_right _ (List.mem_cons_of_mem _ hrest))
    unfold rewriteChunks
    split
    · refine ih (before ++ [saved]) ?_
      rwa [List.append_assoc, List.singleton_append]
    · refine keeps_bind (keeps_setChunks hchanged) fun _ => keeps_bind (keeps_view _) fun owner => ?_
      refine keeps_bind (keeps_attempt (keeps_updateChunk hothers _ _)) fun updated => ?_
      cases updated with
      | ok =>
        refine ih (before ++ [change saved]) ?_
        rwa [List.append_assoc, List.singleton_append]
      | error error => exact herror error

/-- The chunks of a job are its own. -/
theorem ensures_savedChunks (jobId : QString) : Ensures (Holds J P own) (savedChunks t host jobId)
    (fun chunks s => Holds J P own s ∧ ∀ chunk ∈ chunks, chunk.jobId = jobId) (Holds J P own) (Holds J P own) := by
  refine (ensures_query (endures_holds hothers).others).imp (fun _ h => h) (fun chunks s h => ⟨h.1, ?_⟩)
    (fun _ h => h) fun _ h => h
  intro chunk hmem
  rw [h.2] at hmem
  have hfiltered := (List.perm_insertionSort ..).mem_iff.mp hmem
  exact beq_iff_eq.mp (List.mem_filter.mp hfiltered).2

omit hothers in
theorem ensures_chunkOf (ordinal : Int) : Ensures (Holds J P own) (chunkOf ordinal)
    (fun chunk s => Holds J P own s ∧ chunk.jobId = own) (Holds J P own) (Holds J P own) := by
  refine ensures_bind
    (ensures_look (φ := fun chunks => ∀ chunk ∈ chunks, chunk.jobId = own) fun s h => h.chunks)
    fun chunks => ensures_given fun hown => ?_
  refine ensures_requireSome (fun chunk hfind s h => ⟨h, ?_⟩) fun _ h => h
  exact hown chunk (List.mem_of_find?_eq_some hfind)

omit hothers in
/-- A chunk is updated of a job that there is. -/
theorem updateChunk_job {now : Int} {chunk : JobChunk} {owner : QString}
    (h : BreezeDesk.updateChunk t now chunk owner db = (.ok (), db')) : HasJob chunk.jobId db' := by
  have hjobs : db'.jobs = db.jobs := by
    have hkept : (BreezeDesk.updateChunk t now chunk owner db).2.jobs = db.jobs :=
      updateChunk_keeps (jobsAre_calm db.jobs) rfl
    rwa [h] at hkept
  unfold BreezeDesk.updateChunk at h
  split at h
  · cases h
  obtain ⟨-, hop⟩ := executionLeaseTransaction_ok h
  obtain ⟨_, _, hchunk, hop1⟩ := bind_eq_ok.mp hop
  obtain ⟨rfl, rfl⟩ := command_eq_ok.mp hchunk
  obtain ⟨previous, _, hprevious, hop2⟩ := bind_eq_ok.mp hop1
  obtain ⟨-, rfl⟩ := requireSome_eq_ok.mp hprevious
  obtain ⟨job, _, hfind, -⟩ := bind_eq_ok.mp hop2
  obtain ⟨_, _, hquery, hsome⟩ := bind_eq_ok.mp hfind
  obtain ⟨rfl, rfl⟩ := command_eq_ok.mp hquery
  obtain ⟨hfound, rfl⟩ := requireSome_eq_ok.mp hsome
  obtain ⟨hmem, hid⟩ := of_job? hfound
  exact ⟨job, hjobs ▸ hmem, hid⟩

theorem ensures_updateChunk (chunk : JobChunk) (owner : QString) :
    Ensures (Holds J P own) (updateChunk t host chunk owner)
      (fun _ s => Holds J P own s ∧ HasJob chunk.jobId s.db) (Holds J P own) (Holds J P own) := by
  refine (keeps_updateChunk hothers chunk owner).ensures fun s _ _ s' hrun => ?_
  obtain ⟨db, hok, rfl⟩ := call_done hrun
  exact updateChunk_job hok

/-- A chunk is begun of the session's job. -/
theorem ensures_beginChunk (ordinal : Int) : Ensures (Holds J P own) (beginChunk t host ordinal)
    (fun chunk s => Holds J P own s ∧ chunk.jobId = own ∧ HasJob own s.db) (Holds J P own) (Holds J P own) := by
  have hI : Endures t host (Holds J P own) := endures_holds hothers
  refine ensures_bind (keeps_requireActive hI.others) fun _ => ?_
  refine ensures_bind (ensures_chunkOf ordinal) fun chunk => ensures_given fun hown => ?_
  refine ensures_bind (keeps_require _ _) fun _ => ensures_bind (keeps_view _) fun now => ?_
  refine ensures_bind (keeps_view _) fun owner => ensures_bind (ensures_updateChunk hothers _ _) fun _ => ?_
  refine ensures_bind (Q := fun _ s => Holds J P own s ∧ HasJob own s.db) ?_ fun _ => ?_
  · refine ensures_update fun s h => ⟨?_, hown ▸ h.2⟩
    exact h.1.refreshed hown
  · exact ensures_pure fun s h => ⟨h.1, hown, h.2⟩

theorem keeps_completeChunk (ordinal : Int) (segments : List TranscriptSegment) :
    Keeps (Holds J P own) (completeChunk t host ordinal segments) := by
  have hI : Endures t host (Holds J P own) := endures_holds hothers
  refine ensures_bind (ensures_chunkOf ordinal) fun chunk => ensures_given fun hown => ?_
  refine keeps_bind (keeps_saveChunkSegments hI ..) fun _ => keeps_bind (keeps_view _) fun now => ?_
  refine keeps_bind (keeps_view _) fun owner => keeps_bind (keeps_updateChunk hothers _ _) fun _ => ?_
  refine keeps_bind (keeps_refreshChunk hown) fun _ => keeps_bind (keeps_view _) fun identity => ?_
  exact keeps_updateProgress hI ..

theorem keeps_cancelChunks (reason : QString) : ∀ chunks : List JobChunk, (∀ chunk ∈ chunks, chunk.jobId = own) →
    Keeps (Holds J P own) (cancelChunks t host reason chunks) := by
  intro chunks
  induction chunks with
  | nil => exact fun _ => keeps_pure ()
  | cons saved rest ih =>
    intro hown
    have hrest := ih fun chunk hmem => hown chunk (List.mem_cons_of_mem _ hmem)
    unfold cancelChunks
    split
    · refine keeps_bind (keeps_view _) fun owner => keeps_bind (keeps_updateChunk hothers _ _) fun _ => ?_
      exact keeps_bind (keeps_refreshChunk (hown saved (List.mem_cons_self ..))) fun _ => hrest
    · exact hrest

theorem keeps_cancel (reason : QString) : Keeps (Holds J P own) (cancel t host reason) := by
  have hI : Endures t host (Holds J P own) := endures_holds hothers
  refine keeps_bind (keeps_view _) fun active => keeps_ite ?_ ?_
  · exact keeps_bind (keeps_attempt (keeps_currentJob hI.others)) fun _ => keeps_require _ _
  · refine keeps_bind (keeps_askForCancellation hI) fun state => keeps_ite (keeps_setActive hI _) ?_
    refine ensures_bind (ensures_look (φ := fun jobId => jobId = own) fun s h => h.session)
      fun jobId => ensures_given fun hjobId => ?_
    refine ensures_bind (ensures_savedChunks hothers jobId) fun chunks => ensures_given fun hown => ?_
    refine keeps_bind (keeps_cancelChunks hothers reason chunks fun chunk hmem => ?_) fun _ => ?_
    · exact (hown chunk hmem).trans hjobId
    · exact keeps_bind (keeps_transitionTo hI ..) fun _ => keeps_setActive hI _

theorem keeps_finishCancellationIfRequested (reason : QString) :
    Keeps (Holds J P own) (finishCancellationIfRequested t host reason) :=
  keeps_bind (keeps_cancellationRequested (endures_holds hothers).others) fun _ =>
    keeps_ite (keeps_bind (keeps_cancel hothers _) fun _ => keeps_pure _) (keeps_pure _)

theorem keeps_stopSession (chunkState : ChunkState) (jobState : JobState) (errorCode message : QString) :
    Keeps (Holds J P own) (stopSession t host chunkState jobState errorCode message) := by
  have hI : Endures t host (Holds J P own) := endures_holds hothers
  refine keeps_bind (keeps_finishCancellationIfRequested hothers _) fun _ => keeps_bind (keeps_require _ _) fun _ => ?_
  refine keeps_bind (keeps_requireActive hI.others) fun _ => ?_
  refine ensures_bind (ensures_look (φ := fun chunks => ∀ chunk ∈ chunks, chunk.jobId = own) fun s h => h.chunks)
    fun chunks => ensures_given fun hown => ?_
  have hchange : ∀ chunk, (stopChunk chunkState message chunk).jobId = chunk.jobId := fun _ => rfl
  refine keeps_bind (keeps_rewriteChunks hothers hchange keeps_fail chunks [] hown) fun _ => ?_
  refine keeps_bind (keeps_attempt (keeps_transitionTo hI ..)) fun result => ?_
  cases result with
  | ok => exact keeps_setActive hI _
  | error error =>
    exact keeps_bind (keeps_finishCancellationIfRequested hothers _) fun _ =>
      keeps_ite (keeps_fail _) (keeps_fail _)

theorem keeps_complete : Keeps (Holds J P own) (complete t host) := by
  have hI : Endures t host (Holds J P own) := endures_holds hothers
  refine keeps_bind (keeps_finishCancellationIfRequested hothers _) fun _ => keeps_bind (keeps_require _ _) fun _ => ?_
  refine keeps_bind (keeps_requireActive hI.others) fun _ => keeps_bind (keeps_view _) fun identity => ?_
  refine keeps_bind (keeps_query hI.others) fun chunks => keeps_bind (keeps_require _ _) fun _ => ?_
  refine keeps_bind (keeps_transitionTo hI ..) fun _ => keeps_bind (keeps_view _) fun owner => ?_
  refine keeps_bind (keeps_updateProgress hI ..) fun _ => ?_
  refine keeps_bind (keeps_attempt (keeps_ownStep hothers
    (fun turn => turn.step (.completeAndActivate identity.recordingId identity.jobId owner)) (fun turn db => ?_)
    fun _ => trivial)) fun completed => ?_
  · rfl
  · cases completed with
    | ok => exact keeps_setActive hI _
    | error error =>
      exact keeps_bind (keeps_finishCancellationIfRequested hothers _) fun _ =>
        keeps_ite (keeps_fail _) (keeps_fail _)

theorem keeps_replaceChunkPlan (chunks : List JobChunk) : Keeps (Holds J P own) (replaceChunkPlan t host chunks) := by
  have hI : Endures t host (Holds J P own) := endures_holds hothers
  refine keeps_bind (keeps_requireActive hI.others) fun _ => keeps_bind (keeps_require _ _) fun _ => ?_
  refine ensures_bind (ensures_look (φ := fun identity => identity.jobId = own) fun s h => h.session)
    fun identity => ensures_given fun hidentity => ?_
  refine keeps_bind (keeps_query hI.others) fun found => keeps_bind (keeps_requireSome _ _) fun recording => ?_
  refine keeps_bind (keeps_liftResult _) fun _ => keeps_bind (keeps_require _ _) fun _ => ?_
  refine keeps_bind (keeps_require _ _) fun _ => keeps_bind (keeps_view _) fun owner => ?_
  refine keeps_bind (keeps_ownStep hothers (fun turn => turn.step (.replaceChunks identity.jobId _ owner))
    (fun _ _ => rfl) fun _ => trivial) fun _ => ?_
  refine ensures_bind (ensures_savedChunks hothers identity.jobId) fun saved => ensures_given fun hown => ?_
  exact keeps_setChunks fun chunk hmem => (hown chunk hmem).trans hidentity

/-! ### Binding -/

omit hothers in
theorem value_insertValue (object : QJsonObject) (key : QString) (value : QJsonValue) :
    (insertValue object key value).value key = value := by
  have hnone : (object.filter fun entry => entry.1 != key).find? (fun entry => entry.1 == key) = none := by
    refine List.find?_eq_none.mpr fun entry hmem => ?_
    simpa using (List.mem_filter.mp hmem).2
  unfold insertValue QJsonObject.value
  rw [List.find?_append, hnone]
  simp

theorem ensures_currentJob : Ensures (Holds J P own) (currentJob t host)
    (fun job s => Holds J P own s ∧ job ∈ s.db.jobs ∧ job.id = own) (Holds J P own) (Holds J P own) := by
  refine ensures_bind (ensures_look (φ := fun jobId => jobId = own) fun s h => h.session)
    fun jobId => ensures_given fun hjobId => ?_
  refine ensures_bind (ensures_query (endures_holds hothers).others) fun found => ?_
  refine ensures_requireSome (fun job hfound s h => ⟨h.1, ?_⟩) fun _ h => h.1
  have hjob := of_job? (h.2.symm.trans hfound)
  exact ⟨hjob.1, hjob.2.trans hjobId⟩

/-- A hash that is there is not written again, and one that is not says nothing. -/
theorem keeps_bindSourceMedia (sourceHash : QString) (hP : own = J → P [] → ∀ hash, P hash) :
    Keeps (Holds J P own) (bindSourceMedia t host sourceHash) := by
  have hI : Endures t host (Holds J P own) := endures_holds hothers
  refine keeps_bind (keeps_requireActive hI.others) fun _ => keeps_bind (keeps_requireSome _ _) fun hash => ?_
  refine ensures_bind (Q := fun job s => Holds J P own s ∧ (own = J → P (sourceHashOf job)))
    ((ensures_currentJob hothers).imp (fun _ h => h) (fun job s h => ⟨h.1, fun hown => ?_⟩) (fun _ h => h)
      fun _ h => h) fun job => ensures_given fun hjob => ?_
  · exact h.1.hash job h.2.1 (h.2.2.trans hown)
  refine ensures_ite (fun _ => keeps_ite (keeps_fail _) (keeps_renewExecutionLease hI)) fun hempty => ?_
  have hfree : own = J → ∀ hash, P hash := by
    intro hown
    have hnil : sourceHashOf job = [] := by simpa using hempty
    exact hP hown (hnil ▸ hjob hown)
  refine ensures_bind (ensures_look (φ := fun identity => identity.jobId = own) fun s h => h.session)
    fun identity => ensures_given fun hidentity => ?_
  refine keeps_bind (keeps_view _) fun stage => keeps_bind (keeps_require _ _) fun _ => ?_
  refine keeps_bind (keeps_view _) fun owner => keeps_call hI.others fun n s h => ?_
  let step := (host.turns n).step (.updateParameters identity.jobId
    (insertValue job.parameters (qs "sourceHash") (.string hash)) owner)
  refine ⟨executed_jobsInOrder (t := t) s.db step h.order trivial, h.session, h.chunks, ?_⟩
  exact hashIs_updateParameters (fun hid => hfree (hidentity.symm.trans hid) _) h.hash

/-- The hash `stored` of a job is the one that was offered. -/
def Fits (t : CharTables) (hash stored : QString) : Prop := stored ≠ [] ∧ t.equalIgnoringCase stored hash = true

omit hothers in
theorem Holds.imp {P' : QString → Prop} {s : Persistence} (h : Holds J P own s) (hP : ∀ hash, P hash → P' hash) :
    Holds J P' own s := ⟨h.order, h.session, h.chunks, fun job hjob hid => hP _ (h.hash job hjob hid)⟩

omit hothers in
theorem normalizeSha256_ne_nil {offered hash : QString} (h : normalizeSha256 t offered = some hash) : hash ≠ [] := by
  unfold normalizeSha256 at h
  dsimp only at h
  split at h
  · rename_i hlength
    obtain rfl := Option.some.inj h
    intro hnil
    rw [hnil] at hlength
    exact absurd hlength.1 (by decide)
  · cases h

/-- **A process that is bound was offered the hash that the job has**, or the job had none. -/
theorem ensures_bindSourceMedia (offered : QString) :
    Ensures (Holds J P J) (bindSourceMedia t host offered)
      (fun _ s => ∃ hash before, normalizeSha256 t offered = some hash ∧ Holds J (Fits t hash) J s ∧ P before ∧
        (before = [] ∨ Fits t hash before))
      (fun _ => True) (fun _ => True) := by
  have hE : ∀ {α : Type} {p : Session α} {A : Persistence → Prop}, Keeps A p →
      Ensures A p (fun _ => A) (fun _ => True) (fun _ => True) :=
    fun h => h.imp (fun _ h => h) (fun _ _ h => h) (fun _ _ => trivial) (fun _ _ => trivial)
  refine ensures_bind (hE (keeps_requireActive (endures_holds hothers).others)) fun _ => ?_
  refine ensures_bind (ensures_requireSome (Q := fun hash s => Holds J P J s ∧ normalizeSha256 t offered = some hash)
    (fun hash hsome s h => ⟨h, hsome⟩) fun _ _ => trivial) fun hash => ensures_given fun hhash => ?_
  refine ensures_bind
    (Q := fun job s => Holds J (fun stored => stored = sourceHashOf job) J s ∧ P (sourceHashOf job))
    ((ensures_currentJob hothers).imp (fun _ h => h)
      (fun job s h => ⟨⟨h.1.order, h.1.session, h.1.chunks, ?_⟩, h.1.hash job h.2.1 h.2.2⟩)
      (fun _ _ => trivial) fun _ _ => trivial) fun job => ensures_given fun hread => ?_
  · -- the id names one job
    intro other hother hid
    rw [h.1.order.ids.eq_of_id hother h.2.1 (hid.trans h.2.2.symm)]
  refine ensures_ite (fun hbound => ensures_ite (fun _ => ensures_fail fun _ _ => trivial) fun hequal => ?_)
    fun hempty => ?_
  · have hfits : Fits t hash (sourceHashOf job) := ⟨by simpa using hbound, by simpa using hequal⟩
    refine (hE (keeps_renewExecutionLease (endures_holds hothers))).imp (fun _ h => h)
      (fun _ s h => ⟨hash, sourceHashOf job, hhash, h.imp ?_, hread, Or.inr hfits⟩) (fun _ h => h) fun _ h => h
    rintro _ rfl
    exact hfits
  · have hnil : sourceHashOf job = [] := by simpa using hempty
    refine ensures_bind (ensures_view (Q := fun identity s => Holds J (fun _ => True) J s ∧ identity.jobId = J)
      fun s h => ⟨h.imp fun _ _ => trivial, h.session⟩) fun identity => ensures_given fun hidentity => ?_
    refine ensures_bind (hE (keeps_view _)) fun stage => ensures_bind (hE (keeps_require _ _)) fun _ => ?_
    refine ensures_bind (hE (keeps_view _)) fun owner => ?_
    refine ensures_call (fun s h _ db hok => ⟨hash, [], hhash, ?_, hnil ▸ hread, Or.inl rfl⟩)
      (fun _ _ _ _ _ => trivial) fun _ _ => ⟨trivial, trivial⟩
    have hawaited := h.awaited (t := t) hothers
    let step := (host.turns s.calls).step (.updateParameters identity.jobId
      (insertValue job.parameters (qs "sourceHash") (.string hash)) owner)
    have hstored : db = executed t (s.awaited host t).db step := (congrArg Prod.snd hok).symm
    refine ⟨hstored ▸ executed_jobsInOrder _ step hawaited.order trivial, hawaited.session, hawaited.chunks, ?_⟩
    refine hashIs_update (updateParameters_ok hok) (fun _ => rfl) (fun _ row => ?_) fun hid => absurd hidentity hid
    show Fits t hash (QJsonValue.toText (QJsonObject.value (insertValue _ _ _) _))
    rw [value_insertValue]
    exact ⟨normalizeSha256_ne_nil hhash, t.equalIgnoringCase_refl hash⟩

/-! ### Beginning -/

/-- A session about some job. -/
def Sound (J : QString) (P : QString → Prop) (s : Persistence) : Prop := ∃ own, Holds J P own s

omit hothers in
theorem ensures_sound {p : Session α} (h : Keeps (Holds J P own) p) :
    Ensures (Holds J P own) p (fun _ => Sound J P) (Sound J P) (Sound J P) :=
  h.imp (fun _ h => h) (fun _ _ h => ⟨own, h⟩) (fun _ h => ⟨own, h⟩) fun _ h => ⟨own, h⟩

omit hothers in
theorem keeps_sound {p : Session α} (h : ∀ own, Keeps (Holds J P own) p) : Keeps (Sound J P) p :=
  ensures_exists fun own => ensures_sound (h own)

theorem endures_sound : Endures t host (Sound J P) where
  others _ h := h.imp fun _ hown => hown.awaited hothers
  quiet _ _ hquiet h := h.imp fun _ hown => hown.executed (leavesAlone_of_isQuiet hquiet)
  active _ _ h := h.imp fun _ hown => ⟨hown.order, hown.session, hown.chunks, hown.hash⟩

theorem keeps_recoverAfterAbnormalShutdown : Keeps (Sound J P) (recoverAfterAbnormalShutdown t host) := by
  refine keeps_sound fun own => keeps_bind (keeps_ownStep hothers
    (fun turn => turn.step (.markRunningJobsInterrupted _)) (fun _ _ => rfl) fun _ => trivial) fun _ => keeps_pure ()

theorem keeps_waitForExecutionClaim (jobId : QString) :
    ∀ polls, Keeps (Holds J P own) (waitForExecutionClaim t host jobId polls) := by
  have hI : Endures t host (Holds J P own) := endures_holds hothers
  intro polls
  induction polls with
  | zero => exact keeps_stop
  | succ polls ih =>
    refine keeps_bind (keeps_view _) fun calls => keeps_ite ?_ ?_
    · exact keeps_bind (keeps_cancelJob hI jobId) fun _ => keeps_fail _
    refine keeps_bind (keeps_query hI.others) fun current => keeps_bind (keeps_requireSome _ _) fun job => ?_
    refine keeps_ite (keeps_fail _) (keeps_bind (keeps_view _) fun owner => keeps_bind ?_ fun claim => ?_)
    · exact keeps_attempt (keeps_ownStep hothers (fun turn => turn.step (.claimQueued jobId owner leaseDurationMs))
        (fun _ _ => rfl) fun _ => trivial)
    · cases claim with
      | error error =>
        exact keeps_bind (keeps_attempt (keeps_query hI.others)) fun raced =>
          keeps_ite (keeps_fail _) (keeps_fail _)
      | ok claim => exact keeps_ite (keeps_pure ()) ih

theorem keeps_claimExecution (jobId : QString) : Keeps (Holds J P own) (claimExecution t host jobId) := by
  refine keeps_bind (keeps_attempt (keeps_waitForExecutionClaim hothers jobId _)) fun claimed => ?_
  cases claimed with
  | ok => exact keeps_pure ()
  | error error => exact keeps_bind (keeps_setActive (t := t) (endures_holds hothers) _) fun _ => keeps_fail _

theorem keeps_ensureRecording (recording : Recording) : Keeps (Sound J P) (ensureRecording t host recording) := by
  have hI := endures_sound (t := t) (P := P) hothers
  refine keeps_bind (keeps_query hI.others) fun existing => ?_
  cases existing with
  | some row => exact keeps_pure row
  | none =>
    refine keeps_bind (keeps_view _) fun uuid => keeps_bind (keeps_call hI.others fun n s h => ?_) fun _ => keeps_pure _
    let turn := host.turns n
    exact hI.quiet s (.recordings turn.now (turn.newId 0) (.create turn.filesExist _)) rfl h

/-- The id may be drawn. -/
def Draws (host : Host) (J : QString) : Prop := ∃ n k, (host.turns n).newId k = J

omit hothers in
theorem ite_ne_of {c : Prop} [Decidable c] {a b x : QString} (ha : a ≠ x) (hb : b ≠ x) :
    (if c then a else b) ≠ x := by
  split
  · exact ha
  · exact hb

theorem keeps_enqueue {job : TranscriptionJob} (hnew : Draws host J ∨ job.id = J → ∀ hash, P hash) :
    Keeps (Sound J P) (JobQueue.enqueue t host job) := by
  refine ensures_bind (ensures_view (Q := fun uuid s => Sound J P s ∧ (uuid = J → Draws host J))
    fun s h => ⟨h, fun hdrawn => ⟨_, _, hdrawn⟩⟩) fun uuid => ensures_given fun huuid => ?_
  refine keeps_bind (keeps_sound fun own => ?_) fun created => keeps_pure _
  by_cases hcreates : Draws host J ∨ job.id = J
  · refine keeps_call (endures_holds hothers).others fun n s h => ?_
    let step := (host.turns n).step (.createQueued { job with
      id := if job.id.isEmpty then uuid else job.id
      state := .queued
      stage := .preparing
      progress := 0 })
    exact ⟨executed_jobsInOrder (t := t) s.db step h.order trivial, h.session, h.chunks,
      fun _ _ _ => hnew hcreates _⟩
  · refine keeps_ownStep hothers (fun turn => turn.step (.createQueued _)) (fun _ _ => rfl) fun n => ?_
    have hdraws : ¬ Draws host J := fun hdraws => hcreates (Or.inl hdraws)
    have hfresh : ∀ n k, (host.turns n).newId k ≠ J := fun n k hdrawn => hdraws ⟨n, k, hdrawn⟩
    exact ite_ne_of (hfresh n 0)
      (ite_ne_of (fun hdrawn => hdraws (huuid hdrawn)) fun hjob => hcreates (Or.inr hjob))

theorem ensures_orCancelJob {jobId : QString} {p : Session α} {Q : α → Persistence → Prop}
    (h : Ensures (Sound J P) p Q (Sound J P) (Sound J P)) :
    Ensures (Sound J P) (orCancelJob t host jobId p) Q (Sound J P) (Sound J P) := by
  refine ensures_bind (Q := fun result s => result.casesOn (fun _ => Sound J P s) fun a => Q a s)
    (ensures_attempt h (fun _ _ h => h) fun _ _ h => h) fun result => ?_
  cases result with
  | ok a => exact ensures_pure fun _ h => h
  | error error =>
    exact ensures_bind (keeps_attempt (keeps_cancelJob (endures_sound hothers) jobId)) fun _ =>
      ensures_fail fun _ h => h

omit hothers in
/-- The session begins, with chunks of its job. -/
theorem ensures_begun {recordingId jobId : QString} {chunks : List JobChunk} {stage : JobStage} {resumed : Bool}
    (hown : ∀ chunk ∈ chunks, chunk.jobId = jobId) :
    Ensures (Sound J P) (update fun s => { s with
      identity := { recordingId, jobId, chunks, resumed }
      sourceBindingStage := stage
      active := true } : Session Unit) (fun _ => Holds J P jobId) (Sound J P) (Sound J P) :=
  ensures_update fun _ h => h.elim fun _ hbefore => ⟨hbefore.order, rfl, hown, hbefore.hash⟩

theorem ensures_savedChunks_sound (jobId : QString) : Ensures (Sound J P) (savedChunks t host jobId)
    (fun chunks s => Sound J P s ∧ ∀ chunk ∈ chunks, chunk.jobId = jobId) (Sound J P) (Sound J P) :=
  ensures_exists fun own => (ensures_savedChunks hothers jobId).imp (fun _ h => h) (fun _ _ h => ⟨⟨own, h.1⟩, h.2⟩)
    (fun _ h => ⟨own, h⟩) fun _ h => ⟨own, h⟩

/-- A new session leaves the job alone that it does not create. -/
theorem keeps_beginNew {descriptor : DurableTranscriptionDescriptor}
    (hnew : Draws host J ∨ descriptor.job.id = J → ∀ hash, P hash) :
    Keeps (Sound J P) (beginNew t host descriptor) := by
  have hI := endures_sound (t := t) (P := P) hothers
  refine keeps_bind (keeps_view _) fun active => keeps_bind (keeps_require _ _) fun _ => ?_
  refine keeps_bind (keeps_require _ _) fun _ => keeps_bind (keeps_liftResult _) fun _ => ?_
  refine keeps_bind (keeps_recoverAfterAbnormalShutdown hothers) fun _ => ?_
  refine keeps_bind (keeps_ensureRecording hothers _) fun recording => ?_
  refine ensures_bind (ensures_view (Q := fun uuid s => Sound J P s ∧ (uuid = J → Draws host J))
    fun s h => ⟨h, fun hdrawn => ⟨_, _, hdrawn⟩⟩) fun uuid => ensures_given fun huuid => ?_
  refine keeps_bind (keeps_enqueue hothers fun hcreates => hnew ?_) fun _ => ?_
  · refine hcreates.elim Or.inl fun hid => ?_
    dsimp only at hid
    split at hid
    · exact Or.inl (huuid hid)
    · exact Or.inr hid
  refine keeps_bind (ensures_orCancelJob hothers (keeps_sound fun own => keeps_ownStep hothers
    (fun turn => turn.step (.replaceChunks _ _ [])) (fun _ _ => rfl) fun _ => trivial)) fun _ => ?_
  refine ensures_bind (ensures_orCancelJob hothers (ensures_savedChunks_sound hothers _)) fun saved =>
    ensures_given fun hown => ?_
  refine ensures_bind (ensures_begun hown) fun _ => ensures_sound ?_
  have hholds : ∀ own, Endures t host (Holds J P own) := fun own => endures_holds hothers
  refine keeps_bind (keeps_claimExecution hothers _) fun _ => keeps_bind (keeps_view _) fun owner => ?_
  refine keeps_bind (keeps_attempt (keeps_updateProgress (hholds _) ..)) fun progress => ?_
  cases progress with
  | ok => exact keeps_pure ()
  | error error => exact keeps_checkpointFailedStart (hholds _) error

theorem ensures_loadSnapshot (jobId sourcePath : QString) :
    Ensures (Sound J P) (loadSnapshot t host jobId sourcePath)
      (fun snapshot s => Sound J P s ∧ ∀ chunk ∈ snapshot.2.2, chunk.jobId = jobId) (Sound J P) (Sound J P) := by
  have hI := endures_sound (t := t) (P := P) hothers
  refine ensures_bind (keeps_query hI.others) fun found => ensures_bind (keeps_requireSome _ _) fun job => ?_
  refine ensures_bind (keeps_query hI.others) fun row => ensures_bind (keeps_requireSome _ _) fun recording => ?_
  refine ensures_bind (keeps_require _ _) fun _ => ?_
  refine ensures_bind (ensures_savedChunks_sound hothers jobId) fun chunks => ensures_given fun hown => ?_
  exact ensures_bind (keeps_require _ _) fun _ => ensures_pure fun s h => ⟨h, hown⟩

theorem keeps_resume (jobId sourcePath : QString) : Keeps (Sound J P) (resume t host jobId sourcePath) := by
  have hI := endures_sound (t := t) (P := P) hothers
  refine keeps_bind (keeps_view _) fun active => keeps_bind (keeps_require _ _) fun _ => ?_
  refine ensures_bind (ensures_loadSnapshot hothers jobId sourcePath) fun preflight => ensures_given fun _ => ?_
  refine keeps_bind (keeps_require _ _) fun _ => keeps_bind (keeps_require _ _) fun _ => ?_
  refine keeps_bind (keeps_liftResult _) fun _ => keeps_bind (keeps_recoverAfterAbnormalShutdown hothers) fun _ => ?_
  refine ensures_bind (ensures_loadSnapshot hothers jobId sourcePath) fun snapshot => ensures_given fun hown => ?_
  refine keeps_bind (keeps_require _ _) fun _ => keeps_bind (keeps_require _ _) fun _ => ?_
  refine keeps_bind (keeps_liftResult _) fun _ => ensures_bind (ensures_begun hown) fun _ => ensures_sound ?_
  have hholds : Endures t host (Holds J P jobId) := endures_holds hothers
  refine keeps_bind (keeps_attempt (keeps_ite (keeps_transition hholds ..) (keeps_resumeJob hholds _)))
    fun resumed => ?_
  cases resumed with
  | error error => exact keeps_bind (keeps_setActive hholds _) fun _ => keeps_fail _
  | ok =>
    refine keeps_bind (keeps_claimExecution hothers jobId) fun _ => ?_
    have hchange : ∀ chunk, (resetChunk chunk).jobId = chunk.jobId := fun _ => rfl
    exact keeps_rewriteChunks hothers hchange (keeps_checkpointFailedStart hholds) snapshot.2.2 [] hown

/-! ### All operations -/

/-- The operation begins a session. -/
def SessionOperation.begins : SessionOperation → Bool
  | .beginNew _ | .resume .. => true
  | _ => false

/-- **What an operation keeps of the job's source hash**: all that is known of it, unless it is the first to
    write it. -/
theorem keeps_perform {operation : SessionOperation} (hbegins : operation.begins = false)
    (hP : own = J → P [] → ∀ hash, P hash) : Keeps (Holds J P own) (operation.perform t host) := by
  have hI : Endures t host (Holds J P own) := endures_holds hothers
  cases operation with
  | beginNew => cases hbegins
  | resume => cases hbegins
  | bindSourceMedia sourceHash => exact keeps_beginsNone (keeps_bindSourceMedia hothers sourceHash hP)
  | beginNormalization => exact keeps_beginsNone (keeps_entered hI _ (keeps_reported hI _ _))
  | updateNormalizationProgress => exact keeps_beginsNone (keeps_reported hI _ _)
  | updateNormalizedAudio => exact keeps_beginsNone (keeps_updateNormalizedAudio hI ..)
  | beginModelLoad => exact keeps_beginsNone (keeps_entered hI _ (keeps_updateProgressMonotonically hI _ _))
  | beginSpeechAnalysis => exact keeps_beginsNone (keeps_entered hI _ (keeps_reported hI _ _))
  | updateSpeechAnalysisProgress => exact keeps_beginsNone (keeps_reported hI _ _)
  | replaceChunkPlan => exact keeps_beginsNone (keeps_replaceChunkPlan hothers _)
  | beginTranscription => exact keeps_beginsNone (keeps_entered hI _ (keeps_reported hI _ _))
  | updateTranscriptionProgress => exact keeps_beginsNone (keeps_reported hI _ _)
  | beginChunk ordinal =>
    refine keeps_bind ?_ fun chunk => keeps_pure (some chunk)
    exact (ensures_beginChunk hothers ordinal).imp (fun _ h => h) (fun _ _ h => h.1) (fun _ h => h) fun _ h => h
  | saveChunkSegments => exact keeps_beginsNone (keeps_saveChunkSegments hI ..)
  | completeChunk => exact keeps_beginsNone (keeps_completeChunk hothers ..)
  | renewExecutionLease => exact keeps_beginsNone (keeps_renewExecutionLease hI)
  | finishCancellationIfRequested =>
    exact keeps_beginsNone (keeps_finishCancellationIfRequested hothers _)
  | cancel => exact keeps_beginsNone (keeps_cancel hothers _)
  | interrupt => exact keeps_beginsNone (keeps_stopSession hothers ..)
  | fail => exact keeps_beginsNone (keeps_stopSession hothers ..)
  | complete => exact keeps_beginsNone (keeps_complete hothers)

end Operations

/-! ## One process after the other -/

/-- A process worked on the job, bound to that hash. -/
structure SourceUse where
  jobId : QString
  hash : Option QString

/-- The program is run again and again on a database that others use as well.  `bound` is the hash that was
    offered when the session was bound, `uses` is the record of all runs. -/
structure Desk where
  host : Host
  session : Persistence
  alive : Bool := true
  bound : Option QString := none
  uses : List SourceUse := []

inductive DeskLabel where
  | launch (host : Host) (ownerToken : QString)
  | operate (operation : SessionOperation)

variable (t) in
def boundAfter (bound : Option QString) : SessionOperation → Option QString
  | .beginNew _ | .resume .. => none
  | .bindSourceMedia offered => normalizeSha256 t offered
  | _ => bound

/-- What is recorded: that the session was bound, or a chunk was begun. -/
def recorded (session : Persistence) (bound : Option QString) :
    SessionOperation → Option JobChunk → List SourceUse
  | .bindSourceMedia _, _ => [⟨session.identity.jobId, bound⟩]
  | .beginChunk _, some chunk => [⟨chunk.jobId, bound⟩]
  | _, _ => []

namespace Desk

variable (t) in
def operate (desk : Desk) (operation : SessionOperation) : Desk :=
  match operation.perform t desk.host desk.session with
  | (.done begun, session) =>
    let bound := boundAfter t desk.bound operation
    { desk with session, bound, uses := desk.uses ++ recorded session bound operation begun }
  | (.failed _, session) => { desk with session, bound := if operation.begins then none else desk.bound }
  | (.stopped, session) => { desk with session, bound := none, alive := false }

variable (t) in
def step (desk : Desk) : DeskLabel → Desk
  | .launch host ownerToken =>
    { desk with host, session := { db := desk.session.db, ownerToken }, bound := none, alive := true }
  | .operate operation => if desk.alive then desk.operate t operation else desk

/-- Nobody else writes the job's parameters, a chunk is begun by a session that is bound, and once the job is
    recorded no other is created under its id. -/
def Admissible (J : QString) (desk : Desk) : DeskLabel → Prop
  | .launch host _ => OthersLeave host J
  | .operate (.beginChunk _) => desk.bound ≠ none
  | .operate (.beginNew descriptor) =>
    (∃ use ∈ desk.uses, use.jobId = J) → ¬ (Draws desk.host J ∨ descriptor.job.id = J)
  | .operate _ => True

end Desk

/-- Only what others have done is changed. -/
def Untouched (t : CharTables) (host : Host) (db : Database) (s : Persistence) : Prop :=
  ∃ steps : List RepositoryStep, (∀ step ∈ steps, ∃ n, step ∈ (host.turns n).others) ∧
    s.db = steps.foldl (executed t) db

/-- Binding fails, and the process has changed nothing. -/
structure Refused (t : CharTables) (host : Host) (offered : QString) (s : Persistence) : Prop where
  fails : ∀ s', bindSourceMedia t host offered s ≠ (.done (), s')
  untouched : Untouched t host s.db (bindSourceMedia t host offered s).2

theorem untouched_awaited {s : Persistence} (h : Untouched t host db s) :
    Untouched t host db (s.awaited host t) := by
  obtain ⟨steps, hsteps, hdb⟩ := h
  refine ⟨steps ++ (host.turns s.calls).others, fun step hmem => ?_, ?_⟩
  · rcases List.mem_append.mp hmem with hbefore | hnow
    · exact hsteps step hbefore
    · exact ⟨s.calls, hnow⟩
  · rw [List.foldl_append, ← hdb]
    rfl

theorem refused_of_differs (hothers : OthersLeave host J) {stored offered hash : QString} {s : Persistence}
    (hstored : stored ≠ []) (hnormalized : normalizeSha256 t offered = some hash)
    (hdiffers : t.equalIgnoringCase stored hash = false) (h : Holds J (fun other => other = stored) J s) :
    Refused t host offered s := by
  let I (s' : Persistence) := Holds J (fun other => other = stored) J s' ∧ Untouched t host s.db s'
  have hawaited : ∀ s', I s' → I (s'.awaited host t) := fun s' h => ⟨h.1.awaited hothers, untouched_awaited h.2⟩
  have hrefused : Ensures I (bindSourceMedia t host offered) (fun _ _ => False) I I := by
    refine ensures_bind (keeps_requireActive hawaited) fun _ => ?_
    refine ensures_bind (ensures_requireSome (Q := fun other s => I s ∧ other = hash)
      (fun other hsome s h => ⟨h, Option.some.inj (hsome.symm.trans hnormalized)⟩) fun _ h => h)
      fun other => ensures_given fun hother => ?_
    have hread : Ensures I (currentJob t host) (fun job s => I s ∧ sourceHashOf job = stored) I I :=
      ((ensures_currentJob hothers).and (keeps_currentJob fun s' h => untouched_awaited h)).imp (fun _ h => h)
        (fun job s h => ⟨⟨h.1.1, h.2⟩, h.1.1.hash job h.1.2.1 h.1.2.2⟩) (fun _ h => h) fun _ h => h
    refine ensures_bind hread fun job => ensures_given fun hjob => ?_
    refine ensures_ite (fun _ => ensures_ite (fun _ => ensures_fail fun _ h => h) fun hequal => ?_) fun hempty => ?_
    · rw [hjob, hother] at hequal
      exact absurd hdiffers hequal
    · rw [hjob] at hempty
      exact absurd (by simpa using hempty) hstored
  have hI : I s := ⟨h, [], fun step hmem => (by cases hmem), rfl⟩
  have hkeeps : Keeps I (bindSourceMedia t host offered) :=
    hrefused.imp (fun _ h => h) (fun _ _ h => h.elim) (fun _ h => h) fun _ h => h
  exact ⟨fun s' hdone => hrefused.done s hI () s' hdone, (hkeeps.state hI).2⟩

/-! ## All runs -/

/-- What is known of a desk: the session's chunks are its own, and the job that it was bound to has the hash that
    was offered. -/
structure Desk.Tracked (t : CharTables) (J : QString) (desk : Desk) : Prop where
  others : OthersLeave desk.host J
  sound : Sound J (fun _ => True) desk.session
  normalized : ∀ hash, desk.bound = some hash → hash ≠ []
  fits : ∀ hash, desk.bound = some hash → desk.session.identity.jobId = J →
    Holds J (Fits t hash) J desk.session

/-- The job is recorded. -/
def Desk.Recorded (J : QString) (desk : Desk) : Prop := ∃ use ∈ desk.uses, use.jobId = J

/-- All that is recorded of the job is recorded under this hash, which it has. -/
structure Desk.Bound (t : CharTables) (J stored : QString) (desk : Desk) : Prop where
  hash : HashIs J (fun other => other = stored) desk.session.db
  uses : ∀ use ∈ desk.uses, use.jobId = J → ∃ hash, use.hash = some hash ∧ Fits t hash stored

theorem keeps_begins (hothers : OthersLeave host J) {operation : SessionOperation} (hbegins : operation.begins = true)
    (hnew : ∀ descriptor, operation = .beginNew descriptor →
      Draws host J ∨ descriptor.job.id = J → ∀ hash, P hash) : Keeps (Sound J P) (operation.perform t host) := by
  cases operation <;> try cases hbegins
  case beginNew descriptor => exact keeps_beginsNone (keeps_beginNew hothers (hnew descriptor rfl))
  case resume jobId sourcePath => exact keeps_beginsNone (keeps_resume hothers jobId sourcePath)

/-- Whatever the operation, the session is a sound one. -/
theorem keeps_perform_sound (hothers : OthersLeave host J) (operation : SessionOperation) :
    Keeps (Sound J fun _ => True) (operation.perform t host) := by
  cases hbegins : operation.begins with
  | true => exact keeps_begins hothers hbegins fun _ _ _ _ => trivial
  | false => exact keeps_sound fun own => keeps_perform hothers hbegins fun _ _ _ => trivial

theorem ensures_beginsNone {α : Type} {p : Session α} {A E S : Persistence → Prop} {Q : α → Persistence → Prop}
    (h : Ensures A p Q E S) : Ensures A (beginsNone p) (fun begun s => begun = none ∧ ∃ a, Q a s) E S :=
  ensures_bind h fun a => ensures_pure fun _ hq => ⟨rfl, a, hq⟩

namespace Desk

variable {desk : Desk} {operation : SessionOperation} {stored : QString} {label : DeskLabel}

/-- An operation of a session is about the session's job. -/
theorem Tracked.session (h : Tracked t J desk) (hbegins : operation.begins = false) :
    Holds J (fun _ => True) desk.session.identity.jobId (operation.perform t desk.host desk.session).2 := by
  obtain ⟨own, hown⟩ := h.sound
  rw [hown.session]
  exact (keeps_perform h.others hbegins fun _ _ _ => trivial).state hown

theorem Tracked.fits_kept (h : Tracked t J desk) (hbegins : operation.begins = false) {hash : QString}
    (hbound : desk.bound = some hash)
    (hJ : (operation.perform t desk.host desk.session).2.identity.jobId = J) :
    Holds J (Fits t hash) J (operation.perform t desk.host desk.session).2 := by
  have hown : desk.session.identity.jobId = J := (h.session hbegins).session.symm.trans hJ
  exact (keeps_perform h.others hbegins fun _ hnil => absurd rfl hnil.1).state (h.fits hash hbound hown)

theorem boundAfter_ne_nil (h : Tracked t J desk) {hash : QString}
    (hbound : boundAfter t desk.bound operation = some hash) : hash ≠ [] := by
  cases operation with
  | beginNew => cases hbound
  | resume => cases hbound
  | bindSourceMedia offered => exact normalizeSha256_ne_nil hbound
  | _ => exact h.normalized hash hbound

theorem fits_boundAfter (h : Tracked t J desk) {begun : Option JobChunk} {session : Persistence} {hash : QString}
    (hrun : operation.perform t desk.host desk.session = (.done begun, session))
    (hbound : boundAfter t desk.bound operation = some hash) (hJ : session.identity.jobId = J) :
    Holds J (Fits t hash) J session := by
  have hafter : (operation.perform t desk.host desk.session).2 = session := congrArg Prod.snd hrun
  have hold : operation.begins = false → desk.bound = some hash → Holds J (Fits t hash) J session := by
    intro hbegins hbefore
    rw [← hafter]
    exact h.fits_kept hbegins hbefore (hafter ▸ hJ)
  cases operation with
  | beginNew => cases hbound
  | resume => cases hbound
  | bindSourceMedia offered =>
    have hown := ((h.session rfl).session :
      (SessionOperation.perform t desk.host (.bindSourceMedia offered) desk.session).2.identity.jobId =
        desk.session.identity.jobId)
    rw [hafter] at hown
    have hbefore : Holds J (fun _ => True) J desk.session := by
      obtain ⟨own, hown'⟩ := h.sound
      rwa [show own = J from hown'.session.symm.trans (hown.symm.trans hJ)] at hown'
    obtain ⟨-, -, other, -, hnormalized, hfits, -⟩ :=
      (ensures_beginsNone (ensures_bindSourceMedia h.others offered)).done desk.session hbefore begun session hrun
    obtain rfl : other = hash := Option.some.inj (hnormalized.symm.trans hbound)
    exact hfits
  | _ => exact hold rfl hbound

theorem tracked_operate (h : Tracked t J desk) : Tracked t J (desk.operate t operation) := by
  have hsound := (keeps_perform_sound (t := t) h.others operation).state h.sound
  unfold operate
  rcases hrun : operation.perform t desk.host desk.session with ⟨outcome, session⟩
  have hafter : (operation.perform t desk.host desk.session).2 = session := congrArg Prod.snd hrun
  rw [hafter] at hsound
  cases outcome with
  | done begun =>
    exact ⟨h.others, hsound, fun hash hbound => boundAfter_ne_nil h hbound, fun hash => fits_boundAfter h hrun⟩
  | failed error =>
    have hkept : ∀ {hash}, (if operation.begins then none else desk.bound) = some hash →
        operation.begins = false ∧ desk.bound = some hash := by
      intro hash hbound
      split at hbound
      · cases hbound
      · exact ⟨by simpa using ‹¬ operation.begins = true›, hbound⟩
    refine ⟨h.others, hsound, fun hash hbound => h.normalized hash (hkept hbound).2, fun hash hbound hJ => ?_⟩
    rw [← hafter]
    exact h.fits_kept (hkept hbound).1 (hkept hbound).2 (hafter ▸ hJ)
  | stopped => exact ⟨h.others, hsound, fun hash hbound => (by cases hbound), fun hash hbound => by cases hbound⟩

theorem tracked_step : StepKeeps (step t) (Admissible J) (Tracked t J) := by
  intro desk label h hok
  cases label with
  | launch host ownerToken =>
    obtain ⟨own, hown⟩ := h.sound
    refine ⟨hok, ⟨[], hown.order, rfl, fun chunk hmem => (by cases hmem), fun _ _ _ => trivial⟩, ?_, ?_⟩
    · exact fun hash hbound => by cases hbound
    · exact fun hash hbound => by cases hbound
  | operate operation =>
    show Tracked t J (if desk.alive then desk.operate t operation else desk)
    split
    · exact tracked_operate h
    · exact h

theorem beginChunk_done (hothers : OthersLeave host J) {ordinal : Int} {before session : Persistence}
    {begun : Option JobChunk} (hbefore : Holds J P own before)
    (hrun : (SessionOperation.beginChunk ordinal).perform t host before = (.done begun, session)) :
    ∃ chunk, begun = some chunk ∧ chunk.jobId = own ∧ HasJob own session.db := by
  have hdone : Ensures (Holds J P own) ((SessionOperation.beginChunk ordinal).perform t host)
      (fun begun s => ∃ chunk, begun = some chunk ∧ chunk.jobId = own ∧ HasJob own s.db) (Holds J P own)
      (Holds J P own) :=
    ensures_bind (ensures_beginChunk hothers ordinal) fun chunk => ensures_pure fun s h => ⟨chunk, rfl, h.2⟩
  exact hdone.done before hbefore begun session hrun

/-- Work on the job is recorded by a session that is about it and bound. -/
theorem recorded_bound (h : Tracked t J desk) (hok : Admissible J desk (.operate operation))
    {begun : Option JobChunk} {session : Persistence}
    (hrun : operation.perform t desk.host desk.session = (.done begun, session)) {use : SourceUse}
    (huse : use ∈ recorded session (boundAfter t desk.bound operation) operation begun) (hJ : use.jobId = J) :
    session.identity.jobId = J ∧ ∃ hash, boundAfter t desk.bound operation = some hash ∧ use.hash = some hash := by
  have hown : operation.begins = false → session.identity.jobId = desk.session.identity.jobId := by
    intro hbegins
    have hafter := (h.session hbegins).session
    rwa [hrun] at hafter
  cases operation <;> try cases huse
  case bindSourceMedia.head offered =>
    have hbefore : Holds J (fun _ => True) J desk.session := by
      obtain ⟨own, hown'⟩ := h.sound
      rwa [show own = J from hown'.session.symm.trans ((hown rfl).symm.trans hJ)] at hown'
    obtain ⟨-, -, hash, -, hnormalized, -⟩ :=
      (ensures_beginsNone (ensures_bindSourceMedia h.others offered)).done desk.session hbefore begun session hrun
    exact ⟨hJ, hash, hnormalized, hnormalized⟩
  case bindSourceMedia.tail offered htail => cases htail
  case beginChunk ordinal =>
    obtain ⟨own, hholds⟩ := h.sound
    obtain ⟨chunk, rfl, hchunk, -⟩ := beginChunk_done h.others hholds hrun
    obtain rfl := List.mem_singleton.mp huse
    obtain ⟨hash, hhash⟩ := Option.ne_none_iff_exists'.mp hok
    exact ⟨(hown rfl).trans (hholds.session.trans (hchunk.symm.trans hJ)), hash, hhash, hhash⟩

/-- The hash that the job is known to have is the one that was offered. -/
theorem recorded_known (h : Tracked t J desk) (hok : Admissible J desk (.operate operation)) (hstored : stored ≠ [])
    (hknown : HashIs J (fun other => other = stored) desk.session.db) {begun : Option JobChunk}
    {session : Persistence} (hrun : operation.perform t desk.host desk.session = (.done begun, session))
    {use : SourceUse} (huse : use ∈ recorded session (boundAfter t desk.bound operation) operation begun)
    (hJ : use.jobId = J) : ∃ hash, use.hash = some hash ∧ Fits t hash stored := by
  obtain ⟨hsession, hash, hbound, hhash⟩ := recorded_bound h hok hrun huse hJ
  have hfits := fits_boundAfter h hrun hbound hsession
  refine ⟨hash, hhash, ?_⟩
  obtain ⟨own, hown⟩ := h.sound
  have hholds : Holds J (fun other => other = stored) own desk.session :=
    ⟨hown.order, hown.session, hown.chunks, hknown⟩
  have hsame : operation.begins = false → own = J := by
    intro hbegins
    have hafter := (h.session hbegins).session
    rw [hrun, hsession] at hafter
    exact hown.session.symm.trans hafter.symm
  cases operation <;> try cases huse
  case bindSourceMedia.head offered =>
    obtain rfl := hsame rfl
    obtain ⟨-, -, other, before, hnormalized, -, rfl, hempty | hbefore⟩ :=
      (ensures_beginsNone (ensures_bindSourceMedia h.others offered)).done desk.session hholds begun session hrun
    · exact absurd hempty hstored
    · obtain rfl : other = hash := Option.some.inj (hnormalized.symm.trans hbound)
      exact hbefore
  case bindSourceMedia.tail offered htail => cases htail
  case beginChunk ordinal =>
    obtain rfl := hsame rfl
    obtain ⟨chunk, -, -, job, hjob, hid⟩ := beginChunk_done h.others hholds hrun
    have hkeeps : Keeps (Holds own (· = stored) own) ((SessionOperation.beginChunk ordinal).perform t desk.host) :=
      keeps_perform h.others rfl fun _ hnil => absurd hnil.symm hstored
    have hkept := hkeeps.state hholds
    rw [hrun] at hkept
    rw [← hkept.hash job hjob hid]
    exact hfits.hash job hjob hid

/-- The first work on the job that is recorded. -/
theorem bound_first (h : Tracked t J desk) (hok : Admissible J desk label) (hnone : ¬ Recorded J desk)
    (hrecorded : Recorded J (desk.step t label)) : ∃ stored, stored ≠ [] ∧ Bound t J stored (desk.step t label) := by
  cases label with
  | launch host ownerToken => exact absurd hrecorded hnone
  | operate operation =>
    have hstep : desk.step t (.operate operation) = if desk.alive then desk.operate t operation else desk := rfl
    rw [hstep] at hrecorded ⊢
    split at hrecorded
    swap
    · exact absurd hrecorded hnone
    rename_i halive
    rw [if_pos halive]
    unfold operate at hrecorded ⊢
    rcases hrun : operation.perform t desk.host desk.session with ⟨outcome, session⟩
    rw [hrun] at hrecorded
    cases outcome with
    | failed error => exact absurd hrecorded hnone
    | stopped => exact absurd hrecorded hnone
    | done begun =>
      have hnew : ∀ use ∈ desk.uses ++ recorded session (boundAfter t desk.bound operation) operation begun,
          use.jobId = J → use ∈ recorded session (boundAfter t desk.bound operation) operation begun := by
        intro use huse hJ
        exact (List.mem_append.mp huse).resolve_left fun hold => hnone ⟨use, hold, hJ⟩
      obtain ⟨first, hfirst, hJ⟩ := hrecorded
      obtain ⟨hsession, hash, hbound, -⟩ := recorded_bound h hok hrun (hnew first hfirst hJ) hJ
      have hfits := fits_boundAfter h hrun hbound hsession
      have huses : ∀ use ∈ desk.uses ++ recorded session (boundAfter t desk.bound operation) operation begun,
          use.jobId = J → use.hash = some hash := by
        intro use huse hJ
        obtain ⟨-, other, hother, hhash⟩ := recorded_bound h hok hrun (hnew use huse hJ) hJ
        rw [hhash, ← hother, hbound]
      by_cases hjob : HasJob J session.db
      · obtain ⟨job, hmem, hid⟩ := hjob
        refine ⟨sourceHashOf job, (hfits.hash job hmem hid).1, fun other hother hid' => ?_, fun use huse hJ => ?_⟩
        · rw [hfits.order.ids.eq_of_id hother hmem (hid'.trans hid.symm)]
        · exact ⟨hash, huses use huse hJ, hfits.hash job hmem hid⟩
      · have hhash := boundAfter_ne_nil h hbound
        refine ⟨hash, hhash, fun job hmem hid => absurd ⟨job, hmem, hid⟩ hjob, fun use huse hJ => ?_⟩
        exact ⟨hash, huses use huse hJ, hhash, t.equalIgnoringCase_refl hash⟩

/-- From then on the hash is kept. -/
theorem bound_step (hstored : stored ≠ []) : StepKeeps (step t) (Admissible J)
    (fun desk => Tracked t J desk ∧ Recorded J desk ∧ Bound t J stored desk) := by
  rintro desk label ⟨h, hrecorded, hbound⟩ hok
  have htracked := tracked_step desk label h hok
  refine ⟨htracked, ?_⟩
  cases label with
  | launch host ownerToken => exact ⟨hrecorded, hbound.hash, hbound.uses⟩
  | operate operation =>
    show Recorded J (if desk.alive then desk.operate t operation else desk) ∧
      Bound t J stored (if desk.alive then desk.operate t operation else desk)
    split
    swap
    · exact ⟨hrecorded, hbound⟩
    have hkept : HashIs J (fun other => other = stored) (operation.perform t desk.host desk.session).2.db := by
      obtain ⟨own, hown⟩ := h.sound
      have hholds : Holds J (fun other => other = stored) own desk.session :=
        ⟨hown.order, hown.session, hown.chunks, hbound.hash⟩
      cases hbegins : operation.begins with
      | false =>
        exact ((keeps_perform (t := t) h.others hbegins fun _ hnil => absurd hnil.symm hstored).state hholds).hash
      | true =>
        have hkeeps : Keeps (Sound J fun other => other = stored) (operation.perform t desk.host) := by
          refine keeps_begins h.others hbegins fun descriptor hop hcreates => ?_
          rw [hop] at hok
          exact absurd hcreates (hok hrecorded)
        obtain ⟨_, hafter⟩ := hkeeps.state ⟨own, hholds⟩
        exact hafter.hash
    unfold operate
    rcases hrun : operation.perform t desk.host desk.session with ⟨outcome, session⟩
    rw [hrun] at hkept
    cases outcome with
    | failed error => exact ⟨hrecorded, hkept, hbound.uses⟩
    | stopped => exact ⟨hrecorded, hkept, hbound.uses⟩
    | done begun =>
      obtain ⟨use, huse, hJ⟩ := hrecorded
      refine ⟨⟨use, List.mem_append_left _ huse, hJ⟩, hkept, fun other hother hJ' => ?_⟩
      rcases List.mem_append.mp hother with hold | hnew
      · exact hbound.uses other hold hJ'
      · exact recorded_known h hok hstored hbound.hash hrun hnew hJ'

theorem states_bound (labels : List DeskLabel) : ∀ desk : Desk, Tracked t J desk →
    Guarded (step t) (Admissible J) desk labels →
    (Recorded J desk → ∃ stored, stored ≠ [] ∧ Bound t J stored desk) →
    ∃ stored, ∀ after ∈ states (step t) desk labels,
      Tracked t J after ∧ (Recorded J after → stored ≠ [] ∧ Bound t J stored after) := by
  induction labels with
  | nil =>
    intro desk h _ hbound
    by_cases hrecorded : Recorded J desk
    · obtain ⟨stored, hstored⟩ := hbound hrecorded
      refine ⟨stored, fun after hafter => ?_⟩
      rw [List.mem_singleton.mp hafter]
      exact ⟨h, fun _ => hstored⟩
    · refine ⟨[], fun after hafter => ?_⟩
      rw [List.mem_singleton.mp hafter]
      exact ⟨h, fun hthere => absurd hthere hrecorded⟩
  | cons label rest ih =>
    intro desk h hok hbound
    by_cases hrecorded : Recorded J desk
    · obtain ⟨stored, hstored, hthere⟩ := hbound hrecorded
      refine ⟨stored, fun after hafter => ?_⟩
      obtain ⟨htracked, -, hkept⟩ := states_invariant (bound_step hstored) ⟨h, hrecorded, hthere⟩ hok after hafter
      exact ⟨htracked, fun _ => ⟨hstored, hkept⟩⟩
    · obtain ⟨stored, hstored⟩ := ih (desk.step t label) (tracked_step desk label h hok.1) hok.2
        (bound_first h hok.1 hrecorded)
      refine ⟨stored, fun after hafter => ?_⟩
      rcases List.mem_cons.mp hafter with rfl | hlater
      · exact ⟨h, fun hthere => absurd hthere hrecorded⟩
      · exact hstored after hlater

end Desk

def oneTalk : DurableTranscriptionDescriptor where
  recording := { title := qs "Talk", sourcePath := qs "/talk.wav" }
  job := { id := qs "job" }
  chunks := [{ ordinal := 0, startMs := 0, endMs := 30000 }]

/-- The job is created and bound, and the next run offers another hash. -/
def boundTwice : List DeskLabel :=
  [.operate (.beginNew oneTalk), .operate (.bindSourceMedia (List.replicate 64 0x61)),
    .launch quietHost (qs "second"), .operate (.resume (qs "job") (qs "/talk.wav")),
    .operate (.bindSourceMedia (List.replicate 64 0x62))]

end BreezeDesk.Cli
