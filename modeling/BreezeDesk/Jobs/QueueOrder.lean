/-
  The order of the queue.

  A job waits while it is queued and not hidden.  `queue` is the order in which `claimNextQueued` would take
  the waiting jobs: by position, then by date of creation, then by id.  Creating, requeuing and reordering
  give positions independently, so nothing in a row says when the job came.

  Without a reorder the queue is nevertheless in the order of arrival (`queue_of_logged`): a row that stays
  keeps its place, and a row that comes gets a position behind all others.
-/
import BreezeDesk.Jobs.Steps
import BreezeDesk.Library.Queue
import Mathlib.Data.List.Lex
import Mathlib.Data.Prod.Lex
import Mathlib.Order.WithBot

namespace BreezeDesk

open Transaction Runs

/-! ## The queue -/

/-- The jobs that wait, in no order. -/
def waiting (db : Database) : List QString := (queuedJobs db).map (·.id)

/-- The jobs that wait, in the order in which they are claimed. -/
def queue (db : Database) : List QString :=
  ((queuedJobs db).insertionSort fun left right => ¬ queueBefore right left = true).map (·.id)

variable {t : CharTables} {db db' mid : Database} {now : Int} {written appended : List JobEvent}
  {job left right : TranscriptionJob}

/-- An invalid date comes first. -/
def dateKey (dateTime : QDateTime) : WithBot ℤ := dateTime

/-- The sort key of the queue, as one element of a linear order. -/
def placeKey (job : TranscriptionJob) : ℤ ×ₗ WithBot ℤ ×ₗ List ℕ :=
  toLex (job.queuePosition, toLex (dateKey job.createdAt, job.id.map UInt16.toNat))

theorem timeBefore_iff {first second : QDateTime} :
    timeBefore first second = true ↔ dateKey first < dateKey second := by
  cases first with
  | none =>
    cases second with
    | none => exact ⟨fun h => (by cases h), fun h => absurd h (lt_irrefl (⊥ : WithBot ℤ))⟩
    | some time => exact ⟨fun _ => WithBot.bot_lt_coe time, fun _ => rfl⟩
  | some time =>
    cases second with
    | none => exact ⟨fun h => (by cases h), fun h => absurd h not_lt_bot⟩
    | some other =>
      show decide (time < other) = true ↔ (time : WithBot ℤ) < (other : WithBot ℤ)
      rw [decide_eq_true_eq, WithBot.coe_lt_coe]

theorem id_lt_iff (first second : QString) : first < second ↔ first.map UInt16.toNat < second.map UInt16.toNat := by
  induction first generalizing second with
  | nil =>
    cases second with
    | nil => exact ⟨fun h => absurd h (List.not_lt_nil _), fun h => absurd h (List.not_lt_nil _)⟩
    | cons head tail => exact ⟨fun _ => List.nil_lt_cons .., fun _ => List.nil_lt_cons ..⟩
  | cons head tail ih =>
    cases second with
    | nil => exact ⟨fun h => absurd h (List.not_lt_nil _), fun h => absurd h (List.not_lt_nil _)⟩
    | cons head' tail' =>
      rw [List.map_cons, List.map_cons, List.cons_lt_cons_iff, List.cons_lt_cons_iff, ih, UInt16.lt_iff_toNat_lt,
        UInt16.toNat_inj]

theorem queueBefore_iff : queueBefore left right = true ↔ placeKey left < placeKey right := by
  unfold queueBefore placeKey
  rw [Prod.Lex.toLex_lt_toLex, Prod.Lex.toLex_lt_toLex]
  simp only [Bool.or_eq_true, Bool.and_eq_true, decide_eq_true_eq, beq_iff_eq, timeBefore_iff, id_lt_iff]
  rfl

theorem not_queueBefore_iff : ¬ queueBefore right left = true ↔ placeKey left ≤ placeKey right := by
  rw [queueBefore_iff, not_lt]

theorem id_eq_of_placeKey (h : placeKey left = placeKey right) : left.id = right.id := by
  have hids : left.id.map UInt16.toNat = right.id.map UInt16.toNat :=
    congrArg (fun key => (ofLex (ofLex key).2).2) h
  exact List.map_injective_iff.mpr (fun _ _ => UInt16.toNat_inj.mp) hids

theorem mem_queuedJobs : job ∈ queuedJobs db ↔ job ∈ db.jobs ∧ job.state = .queued ∧ job.queueHidden = false := by
  unfold queuedJobs
  rw [List.mem_filter, Bool.and_eq_true, beq_iff_eq, Bool.not_eq_true']

theorem mem_waiting {id : QString} :
    id ∈ waiting db ↔ ∃ job ∈ db.jobs, job.id = id ∧ job.state = .queued ∧ job.queueHidden = false := by
  unfold waiting
  rw [List.mem_map]
  constructor
  · rintro ⟨job, hjob, hid⟩
    obtain ⟨hmem, hplace⟩ := mem_queuedJobs.mp hjob
    exact ⟨job, hmem, hid, hplace⟩
  · rintro ⟨job, hmem, hid, hplace⟩
    exact ⟨job, mem_queuedJobs.mpr ⟨hmem, hplace⟩, hid⟩

theorem queue_perm (db : Database) : (queue db).Perm (waiting db) :=
  (List.perm_insertionSort _ _).map _

theorem mem_queue {id : QString} : id ∈ queue db ↔ id ∈ waiting db := (queue_perm db).mem_iff

theorem nodup_waiting (h : JobsInOrder db) : (waiting db).Nodup :=
  List.pairwise_map.mpr (h.ids.filter _).unique

theorem nodup_queue (h : JobsInOrder db) : (queue db).Nodup := (queue_perm db).nodup_iff.mpr (nodup_waiting h)

theorem head?_queue (db : Database) : (queue db).head? = (candidateJob none db).map (·.id) := List.head?_map

/-! ## The order -/

/-- One waiting job is claimed before another. -/
def Ahead (db : Database) (first second : QString) : Prop :=
  ∃ left ∈ queuedJobs db, ∃ right ∈ queuedJobs db, left.id = first ∧ right.id = second ∧ placeKey left < placeKey right

theorem Ahead.asymm (h : JobsInOrder db) (first second : QString) (hahead : Ahead db first second) :
    ¬ Ahead db second first := by
  obtain ⟨left, hleft, right, hright, rfl, rfl, hlt⟩ := hahead
  rintro ⟨right', hright', left', hleft', hid', hid, hlt'⟩
  rw [h.eq_of_id (mem_queuedJobs.mp hleft').1 (mem_queuedJobs.mp hleft).1 hid,
    h.eq_of_id (mem_queuedJobs.mp hright').1 (mem_queuedJobs.mp hright).1 hid'] at hlt'
  exact absurd hlt (lt_asymm hlt')

instance : Std.Total fun left right : TranscriptionJob => ¬ queueBefore right left = true :=
  ⟨fun left right => by rw [not_queueBefore_iff, not_queueBefore_iff]; exact le_total ..⟩

instance : IsTrans TranscriptionJob fun left right => ¬ queueBefore right left = true :=
  ⟨fun left middle right => by
    rw [not_queueBefore_iff, not_queueBefore_iff, not_queueBefore_iff]
    exact le_trans⟩

theorem pairwise_queue (h : JobsInOrder db) : (queue db).Pairwise (Ahead db) := by
  have hsorted := List.pairwise_insertionSort (fun left right => ¬ queueBefore right left = true) (queuedJobs db)
  have hids : ((queuedJobs db).insertionSort fun left right => ¬ queueBefore right left = true).Pairwise
      fun a b => a.id ≠ b.id := List.pairwise_map.mp (nodup_queue h)
  refine List.pairwise_map.mpr ((hsorted.and hids).imp_of_mem fun hleft hright hboth => ?_)
  refine ⟨_, (List.mem_insertionSort _).mp hleft, _, (List.mem_insertionSort _).mp hright, rfl, rfl, ?_⟩
  exact lt_of_le_of_ne (not_queueBefore_iff.mp hboth.1) fun heq => hboth.2 (id_eq_of_placeKey heq)

/-- **The first of the queue** has the smallest position. -/
theorem head_smallest {id : QString} (hhead : (queue db).head? = some id) :
    ∃ job ∈ queuedJobs db, job.id = id ∧ ∀ other ∈ queuedJobs db, job.queuePosition ≤ other.queuePosition := by
  rw [head?_queue, Option.map_eq_some_iff] at hhead
  obtain ⟨job, hcandidate, hid⟩ := hhead
  have hsorted := List.pairwise_insertionSort (fun left right => ¬ queueBefore right left = true) (queuedJobs db)
  unfold candidateJob at hcandidate
  obtain ⟨rest, hrest⟩ := List.head?_eq_some_iff.mp hcandidate
  rw [hrest, List.pairwise_cons] at hsorted
  have hmem : ∀ other, other ∈ queuedJobs db ↔ other ∈ job :: rest := fun other => by
    rw [← hrest, List.mem_insertionSort]
  refine ⟨job, (hmem job).mpr (List.mem_cons_self ..), hid, fun other hother => ?_⟩
  rcases List.mem_cons.mp ((hmem other).mp hother) with rfl | hbehind
  · exact le_refl _
  · have hle := not_queueBefore_iff.mp (hsorted.1 other hbehind)
    unfold placeKey at hle
    rw [Prod.Lex.toLex_le_toLex] at hle
    rcases hle with hlt | ⟨heq, -⟩
    · exact hlt.le
    · exact le_of_eq heq

/-! ## The order of arrival -/

/-- The next position is behind every queued job, hidden or not. -/
theorem lt_nextQueuePosition (hjob : job ∈ db.jobs) (hqueued : job.state = .queued) :
    job.queuePosition < nextQueuePosition db := by
  have hmem : job.queuePosition ∈ (db.jobs.filter fun job => job.state == .queued).map (·.queuePosition) :=
    List.mem_map_of_mem (List.mem_filter.mpr ⟨hjob, beq_iff_eq.mpr hqueued⟩)
  unfold nextQueuePosition
  generalize (db.jobs.filter fun job => job.state == .queued).map (·.queuePosition) = positions at hmem
  refine Int.lt_add_one_iff.mpr ?_
  induction positions with
  | nil => cases hmem
  | cons position rest ih =>
    rcases List.mem_cons.mp hmem with rfl | hrest
    · exact le_max_left _ _
    · exact (ih hrest).trans (le_max_right _ _)

/-- A waiting job has waited before in the same place, or it has come to the end. -/
theorem Logged.waits (hdb : JobsInOrder db) (h : Logged false db written job) (hqueued : job.state = .queued)
    (hvisible : job.queueHidden = false) :
    (∃ before ∈ queuedJobs db, before.id = job.id ∧ placeKey before = placeKey job) ∨
      (∀ before ∈ queuedJobs db, before.id ≠ job.id) ∧
        job.queuePosition = nextQueuePosition db ∧ ∃ event ∈ arrivals written, event.jobId = job.id := by
  have harrived : (eventsOf written job.id).map (·.state) = [some .queued] →
      ∃ event ∈ arrivals written, event.jobId = job.id := by
    intro hone
    have hmem : some JobState.queued ∈ (eventsOf written job.id).map (·.state) := by
      rw [hone]
      exact List.mem_singleton_self _
    obtain ⟨event, hevent, hstate⟩ := List.mem_map.mp hmem
    obtain ⟨hwritten, habout⟩ := List.mem_filter.mp hevent
    exact ⟨event, List.mem_filter.mpr ⟨hwritten, beq_iff_eq.mpr hstate⟩, beq_iff_eq.mp habout⟩
  cases h with
  | stayed before hbefore hid hstate hplace hwritten =>
    obtain ⟨hhidden, hposition, hcreated⟩ := hplace rfl hqueued
    refine Or.inl ⟨before, mem_queuedJobs.mpr ⟨hbefore, hstate.trans hqueued, hhidden.symm.trans hvisible⟩, hid, ?_⟩
    unfold placeKey
    rw [hposition, hcreated, hid]
  | moved before hbefore hid hstate hplace hwritten =>
    refine Or.inr ⟨fun other hother => ?_, hplace hqueued, harrived (hqueued ▸ hwritten)⟩
    intro hsame
    obtain ⟨hmem, hwaits, -⟩ := mem_queuedJobs.mp hother
    rw [hdb.eq_of_id hmem hbefore (hsame.trans hid.symm)] at hwaits
    exact hstate (hwaits.trans hqueued.symm)
  | created hfresh hstate hplace hwritten =>
    exact Or.inr ⟨fun other hother => hfresh other (mem_queuedJobs.mp hother).1, hplace, harrived hwritten⟩

theorem Logged.sameTurn {before : TranscriptionJob} (h : Logged false db written job) (hdb : JobsInOrder db)
    (hjob : job ∈ db'.jobs ∧ job.state = .queued ∧ job.queueHidden = false) (hbefore : before ∈ queuedJobs db)
    (hid : before.id = job.id) : placeKey before = placeKey job := by
  rcases Logged.waits hdb h hjob.2.1 hjob.2.2 with ⟨other, hother, hid', hplace⟩ | ⟨hfresh, -⟩
  · rw [← hplace, hdb.eq_of_id (mem_queuedJobs.mp hbefore).1 (mem_queuedJobs.mp hother).1 (hid.trans hid'.symm)]
  · exact absurd hid (hfresh before hbefore)

theorem Logged.arrived (h : Logged false db written job) (hdb : JobsInOrder db)
    (hjob : job ∈ db'.jobs ∧ job.state = .queued ∧ job.queueHidden = false) (hfresh : job.id ∉ queue db) :
    job.queuePosition = nextQueuePosition db ∧ ∃ event ∈ arrivals written, event.jobId = job.id := by
  rcases Logged.waits hdb h hjob.2.1 hjob.2.2 with ⟨other, hother, hid, -⟩ | ⟨-, harrived⟩
  · exact absurd (mem_queue.mpr (List.mem_map.mpr ⟨other, hother, hid⟩)) hfresh
  · exact harrived

/-- **A step without a reorder** leaves the queue in the order of arrival. -/
theorem queue_of_logged (hdb : JobsInOrder db) (hafter : JobsInOrder db')
    (h : StepLogged false db db' written appended) : queue db' = Queue.arrive (waiting db') (queue db) := by
  have hwaits : ∀ id ∈ waiting db', ∃ job ∈ queuedJobs db', job.id = id ∧ Logged false db written job := by
    intro id hid
    obtain ⟨job, hjob, rfl⟩ := List.mem_map.mp hid
    exact ⟨job, hjob, rfl, h.rows job (mem_queuedJobs.mp hjob).1⟩
  refine Queue.eq_arrive (Ahead.asymm hafter) (fun _ => mem_queue) (nodup_queue hafter) (nodup_waiting hafter)
    (nodup_queue hdb) (pairwise_queue hafter) ?_ (fun a hold hstill b hnew hfresh => ?_)
    fun a hnew hfresh b hnew' hfresh' => ?_
  · -- who stays keeps its key
    refine (pairwise_queue hdb).imp fun hahead hstill hstill' => ?_
    obtain ⟨left, hleft, right, hright, rfl, rfl, hlt⟩ := hahead
    obtain ⟨left', hleft', hleftId, hleftLogged⟩ := hwaits _ hstill
    obtain ⟨right', hright', hrightId, hrightLogged⟩ := hwaits _ hstill'
    rw [hleftLogged.sameTurn hdb (mem_queuedJobs.mp hleft') hleft hleftId.symm,
      hrightLogged.sameTurn hdb (mem_queuedJobs.mp hright') hright hrightId.symm] at hlt
    exact ⟨left', hleft', right', hright', hleftId, hrightId, hlt⟩
  · obtain ⟨left, hleft, rfl⟩ := List.mem_map.mp (mem_queue.mp hold)
    obtain ⟨left', hleft', hleftId, hleftLogged⟩ := hwaits _ hstill
    obtain ⟨right', hright', rfl, hrightLogged⟩ := hwaits _ hnew
    refine ⟨left', hleft', right', hright', hleftId, rfl, ?_⟩
    rw [← hleftLogged.sameTurn hdb (mem_queuedJobs.mp hleft') hleft hleftId.symm]
    have hposition := (hrightLogged.arrived hdb (mem_queuedJobs.mp hright') hfresh).1
    have hbehind := lt_nextQueuePosition (mem_queuedJobs.mp hleft).1 (mem_queuedJobs.mp hleft).2.1
    unfold placeKey
    rw [Prod.Lex.toLex_lt_toLex]
    exact Or.inl (hposition ▸ hbehind)
  · obtain ⟨left, hleft, rfl, hleftLogged⟩ := hwaits a hnew
    obtain ⟨right, hright, rfl, hrightLogged⟩ := hwaits b hnew'
    obtain ⟨-, event, hevent, habout⟩ := hleftLogged.arrived hdb (mem_queuedJobs.mp hleft) hfresh
    obtain ⟨-, event', hevent', habout'⟩ := hrightLogged.arrived hdb (mem_queuedJobs.mp hright) hfresh'
    have hone := h.arrival
    match hlist : arrivals written with
    | [] =>
      rw [hlist] at hevent
      cases hevent
    | [only] =>
      rw [hlist, List.mem_singleton] at hevent hevent'
      rw [← habout, ← habout', hevent, hevent']
    | _ :: _ :: _ =>
      rw [hlist, List.length_cons, List.length_cons] at hone
      omega

/-! ## Claims -/

/-- The recovery of an expired lease is no matter to the queue. -/
theorem queue_of_recovered (hdb : JobsInOrder db) (h : recoverExpiredLease t now db.leases.head? db = .ok ((), mid)) :
    JobsInOrder mid ∧ queue mid = queue db := by
  obtain ⟨hrecovering, hleases⟩ := recoverExpiredLease_ok hdb h
  obtain ⟨first, hfirst, hnotQueued⟩ := recoverExpiredLease_journaled hdb h
  have hmid : JobsInOrder mid := (hrecovering.inHistory hdb fun lease hlease => by
    rw [hleases] at hlease
    cases hlease).1
  have hrows : ∀ job ∈ mid.jobs, job.state = .queued → Unmoved false db job := fun job hjob hqueued =>
    (hfirst.rows job hjob).unmoved ((hfirst.rows job hjob).nothing_of_queued hqueued hnotQueued)
  refine ⟨hmid, ?_⟩
  rw [queue_of_logged hdb hmid (hfirst.logged (by rw [arrivals_none hnotQueued]; exact Nat.zero_le 1))]
  refine Queue.arrive_same fun id => ?_
  rw [mem_queue, mem_waiting, mem_waiting]
  constructor
  · rintro ⟨job, hjob, hid, hqueued, hvisible⟩
    obtain ⟨before, hbefore, hid', hstate, hplace⟩ := hrows job hjob hqueued
    exact ⟨before, hbefore, hid'.trans hid, hstate.trans hqueued,
      (hplace rfl hqueued).queueHidden.symm.trans hvisible⟩
  · rintro ⟨before, hbefore, hid, hqueued, hvisible⟩
    have hidle : before.state.isRunning = false := by
      rw [hqueued]
      rfl
    obtain ⟨job, hjob, hid', -, hstate⟩ := hrecovering.kept before hbefore (Or.inl hidle)
    obtain ⟨other, hother, hid'', -, hplace⟩ := hrows job hjob (hstate.trans hqueued)
    refine ⟨job, hjob, hid'.trans hid, hstate.trans hqueued, ?_⟩
    rw [(hplace rfl (hstate.trans hqueued)).queueHidden, hdb.eq_of_id hother hbefore (hid''.trans hid'), hvisible]

/-- The claimed job leaves the queue. -/
theorem queue_of_claimed {selected : TranscriptionJob} {ownerToken : QString} {leaseDurationMs : Int}
    (hdb : JobsInOrder db) (hafter : JobsInOrder (claimedDatabase t now selected ownerToken leaseDurationMs db))
    (hselected : selected ∈ db.jobs) (hqueued : selected.state = .queued)
    (hhead : (queue db).head? = some selected.id) :
    queue (claimedDatabase t now selected ownerToken leaseDurationMs db) = (queue db).tail := by
  obtain ⟨hjournaled, hpreparing⟩ :=
    @journaled_claimed t db now selected selected ownerToken leaseDurationMs hdb hselected rfl hqueued
  obtain ⟨rest, hrest⟩ := List.head?_eq_some_iff.mp hhead
  have hnodup := nodup_queue hdb
  rw [queue_of_logged hdb hafter (hjournaled.logged (List.length_filter_le _ _)), hrest]
  rw [hrest] at hnodup
  refine Queue.arrive_leave hnodup fun id => ?_
  have hmem : id ∈ rest ↔ id ∈ waiting db ∧ id ≠ selected.id := by
    rw [← mem_queue, hrest, List.mem_cons]
    constructor
    · exact fun hid => ⟨Or.inr hid, fun heq => (List.nodup_cons.mp hnodup).1 (heq ▸ hid)⟩
    · exact fun hid => hid.1.resolve_left hid.2
  rw [hmem, mem_waiting, mem_waiting]
  constructor
  · rintro ⟨job, hjob, rfl, hwaits, hvisible⟩
    have hother : job.id ≠ selected.id := fun heq => by
      rw [hpreparing job hjob heq] at hwaits
      cases hwaits
    obtain ⟨before, hbefore, heq⟩ := mem_updateRows.mp hjob
    split at heq
    · rw [heq] at hwaits
      cases hwaits
    · exact ⟨⟨before, hbefore, by rw [heq], heq ▸ hwaits, heq ▸ hvisible⟩, hother⟩
  · rintro ⟨⟨before, hbefore, rfl, hwaits, hvisible⟩, hother⟩
    refine ⟨before, mem_updateRows.mpr ⟨before, hbefore, ?_⟩, rfl, hwaits, hvisible⟩
    rw [if_neg fun hwhich => hother (beq_iff_eq.mp (Bool.and_eq_true .. ▸ hwhich).1)]

/-- **A claim** takes the first of the queue, unless a job runs or nobody waits. -/
theorem claimNextQueued_queue {ownerToken : QString} {leaseDurationMs : Int} {claim : JobClaimResult}
    (hdb : JobsInOrder db) (h : claimNextQueued t now ownerToken leaseDurationMs db = (.ok claim, db')) :
    (∃ held, db.leases.head? = some held ∧ held.live now = true ∧ db' = db ∧ claim.activeJobId = held.jobId ∧
        (claim.claimed = true → claim.job = db.job? held.jobId)) ∨
      (∃ id, (queue db).head? = some id ∧ claim.claimed = true ∧ claim.job.map (·.id) = some id ∧
        queue db' = (queue db).tail) ∨
      claim.claimed = false ∧ queue db' = queue db ∧ (db'.runningJobs ≠ [] ∨ queue db = []) := by
  rcases claimInDatabase_exact (claimNextQueued_ok h) with hheld | ⟨-, mid, hrecover, hidle⟩
  · exact Or.inl hheld
  · obtain ⟨hmid, hsame⟩ := queue_of_recovered hdb hrecover
    rcases claimIdle_exact hidle with ⟨rfl, hunclaimed, hwhy⟩ | ⟨selected, hselected, hcandidate, hqueued, hclaimed,
      hjob, rfl⟩
    · refine Or.inr (Or.inr ⟨hunclaimed, hsame, hwhy.imp_right fun hnone => ?_⟩)
      rw [← hsame, ← List.head?_eq_none_iff, head?_queue, hnone]
      rfl
    · have hhead : (queue mid).head? = some selected.id := by
        rw [head?_queue, hcandidate]
        rfl
      have hafter := (inHistory_claimed (recoverExpiredLease_ok hdb hrecover).1
        (⟨hclaimed, hjob, ⟨selected, hselected, rfl, hqueued⟩, rfl, ⟨_, rfl, rfl⟩, rfl⟩ :
          Claimed now mid (claimedDatabase t now selected ownerToken leaseDurationMs mid) claim selected.id)).1
      refine Or.inr (Or.inl ⟨selected.id, hsame ▸ hhead, hclaimed, hjob, ?_⟩)
      rw [queue_of_claimed hmid hafter hselected hqueued hhead, hsame]

/-! ## Reorders -/

/-- A row that the list does not name is not touched. -/
theorem mem_of_reorderedRows {ids : List QString} {index : Nat} {jobs : List TranscriptionJob}
    (h : job ∈ reorderedRows index ids jobs) (hid : job.id ∉ ids) : job ∈ jobs := by
  induction ids generalizing index jobs with
  | nil => exact h
  | cons id rest ih =>
    rw [List.mem_cons, not_or] at hid
    obtain ⟨hne, hrest⟩ := hid
    obtain ⟨before, hbefore, heq⟩ := mem_updateRows.mp (ih h hrest)
    split at heq
    next hwhich =>
      refine absurd ?_ hne
      rw [heq]
      exact beq_iff_eq.mp (Bool.and_eq_true .. ▸ hwhich).1
    next => exact heq ▸ hbefore

/-- A row that the list names gets its place in the list. -/
theorem position_reorderedRows {ids : List QString} {index : Nat} {jobs : List TranscriptionJob}
    (hnodup : ids.Nodup) (h : job ∈ reorderedRows index ids jobs) (hqueued : job.state = .queued)
    (hid : job.id ∈ ids) : job.queuePosition = (index + ids.idxOf job.id : Nat) := by
  induction ids generalizing index jobs with
  | nil => cases hid
  | cons id rest ih =>
    obtain ⟨hfirst, hrest⟩ := List.nodup_cons.mp hnodup
    by_cases hsame : job.id = id
    · have hother : job.id ∉ rest := hsame ▸ hfirst
      obtain ⟨before, hbefore, heq⟩ := mem_updateRows.mp (mem_of_reorderedRows h hother)
      split at heq
      next =>
        rw [hsame, List.idxOf_cons_self, Nat.add_zero, heq]
      next hmiss =>
        refine absurd ?_ hmiss
        rw [← heq, hsame, hqueued, beq_self_eq_true]
        rfl
    · rw [ih hrest h ((List.mem_cons.mp hid).resolve_left hsame), List.idxOf_cons_ne _ (Ne.symm hsame)]
      congr 1
      omega

/-- A reorder changes places only. -/
theorem waiting_of_reorder {ids : List QString} {u : Unit} (hdb : JobsInOrder db)
    (h : reorder ids db = (.ok u, db')) (id : QString) : id ∈ waiting db' ↔ id ∈ waiting db := by
  obtain ⟨-, rfl, -⟩ := reorder_ok h
  rw [mem_waiting, mem_waiting]
  constructor
  · rintro ⟨job, hjob, rfl, hqueued, hvisible⟩
    obtain ⟨before, hbefore, heq⟩ := mem_reorderedRows hjob
    rw [heq] at hqueued hvisible ⊢
    exact ⟨before, hbefore, rfl, hqueued, hvisible⟩
  · rintro ⟨before, hbefore, rfl, hqueued, hvisible⟩
    have hmem : before.id ∈ (reorderedRows 0 ids db.jobs).map (·.id) :=
      map_reorderedRows db.jobs ▸ List.mem_map_of_mem hbefore
    obtain ⟨job, hjob, hid⟩ := List.mem_map.mp hmem
    obtain ⟨other, hother, heq⟩ := mem_reorderedRows hjob
    have hsame : other = before := hdb.eq_of_id hother hbefore (by rw [← hid, heq])
    refine ⟨job, hjob, hid, ?_, ?_⟩
    · rw [heq, hsame]
      exact hqueued
    · rw [heq, hsame]
      exact hvisible

/-- **A reorder that names all who wait** puts them in the order of the list. -/
theorem queue_of_reorder {ids : List QString} {u : Unit} (hdb : JobsInOrder db) (hafter : JobsInOrder db')
    (h : reorder ids db = (.ok u, db')) (hall : ∀ id ∈ waiting db, id ∈ ids) :
    queue db' = ids.filter (· ∈ queue db) := by
  have hmem : ∀ id, id ∈ queue db' ↔ id ∈ queue db := fun id => by
    rw [mem_queue, mem_queue, waiting_of_reorder hdb h]
  have hnodup := (reorder_ok h).1
  have hrows : ∀ job ∈ queuedJobs db', job.queuePosition = (ids.idxOf job.id : Nat) := by
    intro job hjob
    obtain ⟨hrow, hqueued, hvisible⟩ := mem_queuedJobs.mp hjob
    have hwaits : job.id ∈ waiting db := (waiting_of_reorder hdb h _).mp (List.mem_map_of_mem hjob)
    rw [(reorder_ok h).2.1] at hrow
    rw [position_reorderedRows hnodup hrow hqueued (hall _ hwaits), Nat.zero_add]
  refine (Queue.eq_filter hnodup (nodup_queue hafter) (fun id hid => hall id (mem_queue.mp ((hmem id).mp hid)))
    ?_).trans (List.filter_congr fun id _ => decide_eq_decide.mpr (hmem id))
  refine (pairwise_queue hafter).imp fun hahead => ?_
  obtain ⟨left, hleft, right, hright, rfl, rfl, hlt⟩ := hahead
  have hle : left.queuePosition ≤ right.queuePosition := by
    unfold placeKey at hlt
    rw [Prod.Lex.toLex_lt_toLex] at hlt
    exact hlt.elim le_of_lt fun heq => le_of_eq heq.1
  rw [hrows left hleft, hrows right hright, Int.ofNat_le] at hle
  refine lt_of_le_of_ne hle fun heq => ?_
  have hin : ∀ job ∈ queuedJobs db', job.id ∈ ids := fun job hjob =>
    hall _ ((waiting_of_reorder hdb h _).mp (List.mem_map_of_mem hjob))
  have hids : left.id = right.id := (List.idxOf_inj (hin left hleft)).mp heq
  rw [hafter.eq_of_id (mem_queuedJobs.mp hleft).1 (mem_queuedJobs.mp hright).1 hids] at hlt
  exact lt_irrefl _ hlt

/-- A list with a duplicate, or with a job that is not queued, changes nothing. -/
theorem reorder_refused {ids : List QString}
    (h : ¬ ids.Nodup ∨ ∃ id ∈ ids, ∀ job ∈ db.jobs, job.id = id → job.state ≠ .queued) :
    ∃ error, reorder ids db = (.error error, db) := by
  cases hresult : reorder ids db with
  | mk result after =>
    cases result with
    | error error =>
      have hsame : after = db :=
        (transactional_ite (transactional_refusal _) (transactional_immediate _) : Transactional (reorder ids)) db
          error after hresult
      exact ⟨error, by rw [hsame]⟩
    | ok u =>
      obtain ⟨hnodup, -, hqueued⟩ := reorder_ok hresult
      rcases h with hdouble | ⟨id, hid, hnone⟩
      · exact absurd hnodup hdouble
      · obtain ⟨job, hjob, hsame, hstate⟩ := hqueued id hid
        exact absurd hstate (hnone job hjob hsame)

/-! ## Every run -/

/-- The order of arrival after a run: who comes in is behind all others. -/
def arrivalOrder (t : CharTables) : Database → List QString → List RepositoryStep → List QString
  | _, order, [] => order
  | db, order, step :: rest =>
    let after := executed t db step
    arrivalOrder t after (Queue.arrive (waiting after) order) rest

theorem queue_of_run {more : List RepositoryStep} (hdb : JobsInOrder db) (hone : OneExecutor db)
    (hmore : ∀ step ∈ more, step.isReorder = false) :
    queue (run (executed t) db more) = arrivalOrder t db (queue db) more := by
  induction more generalizing db with
  | nil => rfl
  | cons step rest ih =>
    have hafter : JobsInOrder (executed t db step) := executed_jobsInOrder db step hdb trivial
    obtain ⟨written, appended, hlogged, -⟩ := @executed_logged t db step hdb hone.running
    rw [hmore step (List.mem_cons_self ..)] at hlogged
    have hstep := queue_of_logged hdb hafter hlogged
    show queue (run (executed t) (executed t db step) rest) = arrivalOrder t _ (Queue.arrive _ (queue db)) rest
    rw [← hstep]
    exact ih hafter (executed_oneExecutor db step hone trivial) fun other hother =>
      hmore other (List.mem_cons_of_mem _ hother)

/-- One process has claimed the job `A`; the job `B` waits. -/
def claimedAndWaiting : List RepositoryStep :=
  let jobs := fun operation => RepositoryStep.jobs ⟨0, fun _ => qs "uuid", operation⟩
  [.recordings 0 (qs "recording") (.create true { title := qs "Meeting" }),
    jobs (.createQueued { id := qs "A", recordingId := qs "recording" }),
    jobs (.claimNextQueued (qs "owner") 1000),
    jobs (.createQueued { id := qs "B", recordingId := qs "recording" })]

end BreezeDesk
