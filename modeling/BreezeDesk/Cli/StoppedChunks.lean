/-
  The chunks of a session in memory and in the database.

  A session keeps a copy of its chunks.  Where a chunk is begun, completed or cancelled the database is written
  first and the copy follows; `interrupt` and `fail` change the copy first, so that the database lags behind
  when the write does not succeed (`Library.Mirror`).

  Main results:
  * `ensures_stopSession` — a stop that succeeds leaves no more chunks running than the database lagged behind;
    one that does not succeed lets it lag behind in one place more;
  * `stops_leave`         — over all runs of a session: after a stop at most as many chunks run as stops have
    failed before, and none if none has.
-/
import BreezeDesk.Cli.Persistence
import BreezeDesk.Jobs.Outcomes
import BreezeDesk.Library.Mirror
import BreezeDesk.Library.Runs

namespace BreezeDesk.Cli

open Effect Resume Runs Mirror
open Transaction (bind_eq_ok command_eq_ok requireSome_eq_ok require_eq_ok pure_eq_ok statement_eq_ok)

variable {t : CharTables} {host : Host} {J : QString} {db db' : Database} {n : Nat} {X Y : List JobChunk}
  {chunk : JobChunk}

/-! ## Writes that leave the chunks alone -/

theorem renewLease_chunks {now : Int} {jobId owner : QString} {duration : Int} :
    (renewLease now jobId owner duration db).2.chunks = db.chunks := by
  let I (other : Database) : Prop := other.chunks = db.chunks
  show I (renewLease now jobId owner duration db).2
  unfold renewLease
  split
  · rfl
  · refine Transaction.Keeps.atomically (Transaction.keeps_bind (Transaction.keeps_query _) fun current => ?_)
      (show I db from rfl)
    refine Transaction.keeps_bind (Transaction.keeps_requireSome _ _) fun lease => ?_
    refine Transaction.keeps_bind (Transaction.keeps_statement fun _ hI _ => hI) fun _ => ?_
    refine Transaction.keeps_bind (Transaction.keeps_require _ _) fun _ => ?_
    refine Transaction.keeps_bind (Transaction.keeps_command fun _ hI => hI) fun _ => ?_
    exact Transaction.keeps_bind (Transaction.keeps_require _ _) fun _ => Transaction.keeps_pure _

theorem performed_chunks {step : Step} (hquiet : isQuiet (.jobs step) = true) :
    (performed t db step).chunks = db.chunks := by
  rcases accepted_or_unchanged t db step with haccepted | hsame
  swap
  · rw [hsame]
  have hok : perform t db step = (.ok (), performed t db step) := accepted_eq haccepted
  unfold isQuiet at hquiet
  dsimp only at hquiet
  cases hop : step.operation <;> rw [hop] at hquiet
  case transition id state errorCode errorMessage owner =>
    unfold perform at hok
    rw [hop] at hok
    rcases transition_exact hok with ⟨hsame, -⟩ | ⟨current, -, -, -, -, hmoved⟩
    · rw [hsame]
    · rw [hmoved]
      rfl
  case completeAndActivate recordingId jobId owner =>
    unfold perform at hok
    rw [hop] at hok
    obtain ⟨-, -, hcompleted⟩ := completeAndActivate_exact hok
    rw [hcompleted]
    exact (rebuiltIndex_tables recordingId _).2.2.1
  case updateProgress id stage progress last owner =>
    unfold perform at hok
    rw [hop] at hok
    obtain ⟨current, -, -, hprogressed | hprogressed⟩ := updateProgress_ok hok
    · rw [hprogressed]
    · rw [hprogressed]
      rfl
  case renewLease jobId owner duration =>
    show (perform t db step).2.chunks = db.chunks
    unfold perform
    rw [hop]
    exact renewLease_chunks
  case replaceChunk recordingId jobId chunkId segments provisional attempt owner =>
    unfold perform at hok
    rw [hop] at hok
    obtain ⟨-, -, -, -, hrewritten⟩ := replaceChunk_ok hok
    rw [hrewritten.result]
  all_goals cases hquiet

/-- A quiet step leaves the chunks alone. -/
theorem executed_chunks {step : RepositoryStep} (hquiet : isQuiet step = true) :
    (executed t db step).chunks = db.chunks := by
  cases step with
  | jobs step => exact performed_chunks hquiet
  | recordings now uuid operation =>
    let I (other : Database) : Prop := other.chunks = db.chunks
    show I (RecordingRepository.perform t db now uuid operation).2
    unfold isQuiet at hquiet
    cases operation
    case update filesExist recording jobId owner =>
      exact RecordingRepository.update_keeps ⟨fun _ _ _ _ h => h, fun _ _ h => h⟩ rfl
    case create filesExist recording =>
      refine (transactional_ite (transactional_refusal _)
        (transactional_immediate _)).after (show I db from rfl) fun _ after hok => ?_
      obtain ⟨-, -, -, rfl⟩ := RecordingRepository.create_ok hok
      exact (rebuiltIndex_tables _ _).2.2.1
    all_goals cases hquiet

/-! ## Memory and database -/

/-- Which chunk it is. -/
def place (chunk : JobChunk) : QString × Int := (chunk.id, chunk.ordinal)

/-- Memory is `X`; the database lags behind `Y` in at most `n` places. -/
structure Agrees (J : QString) (n : Nat) (X Y : List JobChunk) (s : Persistence) : Prop where
  session : s.identity.jobId = J
  memory : s.identity.chunks = X
  behind : Behind place JobChunk.state n Y (chunksForJob s.db J)
  own : ∀ chunk ∈ Y, chunk.jobId = J
  ids : (Y.map JobChunk.id).Nodup
  ordinals : (Y.map JobChunk.ordinal).Nodup

/-- Nobody else writes the chunks of the job. -/
def OthersKeepPlan (t : CharTables) (host : Host) (J : QString) : Prop :=
  ∀ n, ∀ step ∈ (host.turns n).others, ∀ db, chunksForJob (executed t db step) J = chunksForJob db J

/-- The database lags behind memory in at most `n` places. -/
def Lags (J : QString) (n : Nat) (s : Persistence) : Prop := ∃ X, Agrees J n X X s

/-- The chunk is one of them, maybe in another state. -/
def Names (J : QString) (chunk : JobChunk) (chunks : List JobChunk) : Prop :=
  chunk.jobId = J ∧ place chunk ∈ chunks.map place

theorem Agrees.of_plan {s s' : Persistence} (h : Agrees J n X Y s) (hidentity : s'.identity = s.identity)
    (hplan : chunksForJob s'.db J = chunksForJob s.db J) : Agrees J n X Y s' where
  session := hidentity ▸ h.session
  memory := hidentity ▸ h.memory
  behind := hplan ▸ h.behind
  own := h.own
  ids := h.ids
  ordinals := h.ordinals

theorem Agrees.mono {s : Persistence} {m : Nat} (h : Agrees J n X Y s) (hle : n ≤ m) : Agrees J m X Y s :=
  ⟨h.session, h.memory, h.behind.mono hle, h.own, h.ids, h.ordinals⟩

theorem awaited_plan (hothers : OthersKeepPlan t host J) (s : Persistence) :
    chunksForJob (s.awaited host t).db J = chunksForJob s.db J := by
  have hall : ∀ steps : List RepositoryStep,
      (∀ step ∈ steps, ∀ db, chunksForJob (executed t db step) J = chunksForJob db J) →
      ∀ db, chunksForJob (steps.foldl (executed t) db) J = chunksForJob db J := by
    intro steps
    induction steps with
    | nil => exact fun _ _ => rfl
    | cons step rest ih =>
      intro hsteps db
      exact (ih (fun other hmem => hsteps other (List.mem_cons_of_mem _ hmem)) _).trans
        (hsteps step (List.mem_cons_self ..) db)
  exact hall _ (hothers s.calls) s.db

theorem Agrees.awaited (hothers : OthersKeepPlan t host J) {s : Persistence} (h : Agrees J n X Y s) :
    Agrees J n X Y (s.awaited host t) := h.of_plan rfl (awaited_plan hothers s)

theorem endures_agrees (hothers : OthersKeepPlan t host J) : Endures t host (Agrees J n X Y) where
  others _ h := h.awaited hothers
  quiet s step hquiet h := by
    refine h.of_plan rfl ?_
    unfold chunksForJob
    rw [executed_chunks hquiet]
  active _ _ h := h.of_plan rfl rfl

/-! ### One chunk is written -/

theorem nodup_place (hids : (Y.map JobChunk.id).Nodup) : (Y.map place).Nodup := by
  refine List.Nodup.of_map Prod.fst ?_
  rwa [List.map_map]

/-- The copy is found by its ordinal. -/
theorem refreshed_eq_put (hids : (Y.map JobChunk.id).Nodup) (hordinals : (Y.map JobChunk.ordinal).Nodup)
    (hnames : Names J chunk Y) : refreshed chunk Y = put place chunk Y := by
  obtain ⟨saved, hmem, hplace⟩ := List.mem_map.mp hnames.2
  obtain ⟨before, after, rfl⟩ := List.append_of_mem hmem
  rw [put_middle (nodup_place hids) hplace.symm]
  have hordinal : saved.ordinal = chunk.ordinal := congrArg Prod.snd hplace
  rw [List.map_append, List.map_cons] at hordinals
  have hbefore : ∀ other ∈ before, other.ordinal ≠ chunk.ordinal := by
    intro other hother hsame
    refine (List.nodup_middle.mp hordinals).notMem (List.mem_append_left _ ?_)
    rw [hordinal, ← hsame]
    exact List.mem_map_of_mem hother
  clear hmem hids hordinals hnames
  induction before with
  | nil =>
    show (if saved.ordinal = chunk.ordinal then chunk :: after else _) = _
    rw [if_pos hordinal]
    rfl
  | cons other rest ih =>
    show (if other.ordinal = chunk.ordinal then _ else other :: refreshed chunk (rest ++ saved :: after)) = _
    rw [if_neg (hbefore other (List.mem_cons_self ..)), ih fun row hrow => hbefore row (List.mem_cons_of_mem _ hrow)]
    rfl

theorem map_ordinal_put (chunk : JobChunk) (chunks : List JobChunk) :
    (put place chunk chunks).map JobChunk.ordinal = chunks.map JobChunk.ordinal := by
  have hplaces := congrArg (List.map Prod.snd) (map_key_put chunk chunks : (put place chunk chunks).map place = _)
  rwa [List.map_map, List.map_map] at hplaces

theorem map_id_put (chunk : JobChunk) (chunks : List JobChunk) :
    (put place chunk chunks).map JobChunk.id = chunks.map JobChunk.id := by
  have hplaces := congrArg (List.map Prod.fst) (map_key_put chunk chunks : (put place chunk chunks).map place = _)
  rwa [List.map_map, List.map_map] at hplaces

/-- The row is found by its id. -/
theorem Agrees.written {s : Persistence} {now : Int} {owner : QString} (h : Agrees J n X Y s)
    (hnames : Names J chunk Y) (hok : BreezeDesk.updateChunk t now chunk owner s.db = (.ok (), db')) :
    Agrees J n X (put place chunk Y) { s with db := db' } := by
  have hjob := hnames.1
  obtain ⟨saved, hmem, hplace⟩ := List.mem_map.mp hnames.2
  have hrows : chunksForJob db' J =
      updateRows (fun row => row.id == chunk.id) (updatedChunk chunk) (chunksForJob s.db J) := by
    have hstore := jobStore_updateChunk hok
    rw [hjob] at hstore
    exact congrArg JobStore.chunks hstore
  have hkeys := h.behind.keys
  have halter : updateRows (fun row => row.id == chunk.id) (updatedChunk chunk) (chunksForJob s.db J) =
      alter place (place chunk) (updatedChunk chunk) (chunksForJob s.db J) := by
    refine List.map_congr_left fun row hrow => ?_
    have hsame : row.id = chunk.id ↔ place row = place chunk := by
      refine ⟨fun hid => ?_, fun hrow' => congrArg Prod.fst hrow'⟩
      -- the id names one place
      have hplaces : place row ∈ Y.map place := hkeys ▸ List.mem_map_of_mem hrow
      obtain ⟨other, hother, heq⟩ := List.mem_map.mp hplaces
      have hids : other.id = saved.id := by
        rw [show other.id = row.id from congrArg Prod.fst heq, hid]
        exact (congrArg Prod.fst hplace).symm
      rw [← heq, List.inj_on_of_nodup_map h.ids hother hmem hids, hplace]
    by_cases hid : row.id = chunk.id
    · rw [if_pos (beq_iff_eq.mpr hid), if_pos (hsame.mp hid)]
    · rw [if_neg (fun hbeq => hid (beq_iff_eq.mp hbeq)), if_neg (fun hrow' => hid (hsame.mpr hrow'))]
  refine ⟨h.session, h.memory, ?_, fun other hother => ?_, ?_, ?_⟩
  · show Behind place JobChunk.state n _ (chunksForJob db' J)
    rw [hrows, halter]
    exact behind_put h.behind (fun _ => rfl) fun _ => rfl
  · rcases mem_put hother with rfl | hbefore
    · exact hjob
    · exact h.own other hbefore
  · rw [map_id_put]
    exact h.ids
  · rw [map_ordinal_put]
    exact h.ordinals

section Operations

variable (hothers : OthersKeepPlan t host J)

include hothers

theorem ensures_updateChunk_plan {owner : QString} (hnames : Names J chunk Y) :
    Ensures (Agrees J n X Y) (updateChunk t host chunk owner) (fun _ => Agrees J n X (put place chunk Y))
      (Agrees J n X Y) (Agrees J n X Y) := by
  refine ensures_call (fun s h _ db hok => (h.awaited hothers).written hnames hok) (fun s h error db herror => ?_)
    fun s h => ⟨h.awaited hothers, h.awaited hothers⟩
  let step : Step := ⟨(host.turns s.calls).now, (host.turns s.calls).newId, .updateChunk chunk owner⟩
  have hperform : perform t (s.awaited host t).db step = (.error error, db) := herror
  rcases accepted_or_unchanged t (s.awaited host t).db step with haccepted | hsame
  · have hok := accepted_eq haccepted
    rw [hperform] at hok
    cases hok
  · have hdb : db = (s.awaited host t).db := (congrArg Prod.snd hperform).symm.trans hsame
    rw [hdb]
    exact h.awaited hothers

omit hothers in
/-- Then the copy follows. -/
theorem ensures_refreshChunk (hnames : Names J chunk X) :
    Ensures (Agrees J n X (put place chunk X)) (refreshChunk chunk)
      (fun _ => Agrees J n (put place chunk X) (put place chunk X)) (Lags J n) (Lags J n) := by
  refine ensures_update fun s h => ⟨h.session, ?_, h.behind, h.own, h.ids, h.ordinals⟩
  have hids : (X.map JobChunk.id).Nodup := map_id_put chunk X ▸ h.ids
  have hordinals : (X.map JobChunk.ordinal).Nodup := map_ordinal_put chunk X ▸ h.ordinals
  show refreshed chunk s.identity.chunks = _
  rw [h.memory, refreshed_eq_put hids hordinals hnames]

omit hothers in
theorem ensures_chunkOf_plan (ordinal : Int) : Ensures (Agrees J n X X) (chunkOf ordinal)
    (fun chunk s => Agrees J n X X s ∧ chunk ∈ X) (Agrees J n X X) (Agrees J n X X) := by
  refine ensures_bind (ensures_look (φ := fun chunks => chunks = X) fun s h => h.memory)
    fun chunks => ensures_given fun hchunks => ?_
  refine ensures_requireSome (fun chunk hfind s h => ⟨h, ?_⟩) fun _ h => h
  exact hchunks ▸ List.mem_of_find?_eq_some hfind

theorem endures_lags : Endures t host (Lags J n) where
  others _ h := h.imp fun _ hX => hX.awaited hothers
  quiet s step hquiet h := h.imp fun _ hX => (endures_agrees hothers).quiet s step hquiet hX
  active _ _ h := h.imp fun _ hX => hX.of_plan rfl rfl

omit hothers in
/-- Whatever goes wrong, nothing has changed. -/
theorem ensures_lagging {α : Type} {p : Session α} {Q : α → Persistence → Prop}
    (h : Ensures (Agrees J n X X) p Q (Agrees J n X X) (Agrees J n X X)) :
    Ensures (Agrees J n X X) p Q (Lags J n) (Lags J n) :=
  h.imp (fun _ h => h) (fun _ _ h => h) (fun _ h => ⟨X, h⟩) fun _ h => ⟨X, h⟩

omit hothers in
/-- A chunk in memory, maybe changed, names itself. -/
theorem names_of_mem {s : Persistence} {changed : JobChunk} (h : Agrees J n X X s) (hmem : chunk ∈ X)
    (hchanged : place changed = place chunk ∧ changed.jobId = chunk.jobId) : Names J changed X :=
  ⟨hchanged.2.trans (h.own chunk hmem), hchanged.1 ▸ List.mem_map_of_mem hmem⟩

/-- A chunk is written and the copy follows, whatever comes after. -/
theorem ensures_written {α : Type} {owner : QString} {rest : Session α} (hmem : chunk ∈ X) {changed : JobChunk}
    (hchanged : place changed = place chunk ∧ changed.jobId = chunk.jobId) (hrest : Keeps (Lags J n) rest) :
    Ensures (Agrees J n X X)
      (updateChunk t host changed owner >>= fun _ => refreshChunk changed >>= fun _ => rest)
      (fun _ => Lags J n) (Lags J n) (Lags J n) := by
  refine ensures_known (fun s h => names_of_mem h hmem hchanged) fun hnames => ?_
  refine ensures_bind (ensures_lagging (ensures_updateChunk_plan hothers hnames)) fun _ => ?_
  exact ensures_bind (ensures_refreshChunk hnames) fun _ =>
    hrest.imp (fun _ h => ⟨_, h⟩) (fun _ _ h => h) (fun _ h => h) fun _ h => h

theorem keeps_beginChunk (ordinal : Int) : Keeps (Lags J n) (beginChunk t host ordinal) := by
  refine ensures_exists fun X => ?_
  have hI := endures_agrees (n := n) (X := X) (Y := X) hothers
  refine ensures_bind (ensures_lagging (keeps_requireActive hI.others)) fun _ => ?_
  refine ensures_bind (ensures_lagging (ensures_chunkOf_plan ordinal)) fun chunk => ensures_given fun hmem => ?_
  refine ensures_bind (ensures_lagging (keeps_require _ _)) fun _ => ?_
  refine ensures_bind (ensures_lagging (keeps_view _)) fun now => ?_
  refine ensures_bind (ensures_lagging (keeps_view _)) fun owner => ?_
  exact ensures_written hothers hmem ⟨rfl, rfl⟩ (keeps_pure _)

theorem keeps_completeChunk_plan (ordinal : Int) (segments : List TranscriptSegment) :
    Keeps (Lags J n) (completeChunk t host ordinal segments) := by
  refine ensures_exists fun X => ?_
  have hI := endures_agrees (n := n) (X := X) (Y := X) hothers
  refine ensures_bind (ensures_lagging (ensures_chunkOf_plan ordinal)) fun chunk => ensures_given fun hmem => ?_
  refine ensures_bind (ensures_lagging (keeps_saveChunkSegments hI ..)) fun _ => ?_
  refine ensures_bind (ensures_lagging (keeps_view _)) fun now => ?_
  refine ensures_bind (ensures_lagging (keeps_view _)) fun owner => ?_
  refine ensures_written hothers hmem ⟨rfl, rfl⟩ (keeps_bind (keeps_view _) fun identity => ?_)
  exact keeps_updateProgress (endures_lags hothers) ..

/-! ### Cancelling -/

theorem keeps_cancelChunks_plan (reason : QString) (chunks : List JobChunk) :
    ∀ X, (∀ chunk ∈ chunks, Names J chunk X) → Ensures (Agrees J n X X) (cancelChunks t host reason chunks)
      (fun _ => Lags J n) (Lags J n) (Lags J n) := by
  induction chunks with
  | nil => exact fun X _ => ensures_pure fun _ h => ⟨X, h⟩
  | cons saved rest ih =>
    intro X hnames
    have hrest : ∀ chunk ∈ rest, Names J chunk X := fun chunk hmem => hnames chunk (List.mem_cons_of_mem _ hmem)
    unfold cancelChunks
    refine ensures_ite (fun _ => ?_) fun _ => ih X hrest
    refine ensures_bind (ensures_lagging (keeps_view _)) fun owner => ?_
    have hthis : Names J (cancelChunk reason saved) X := hnames saved (List.mem_cons_self ..)
    refine ensures_bind (ensures_lagging (ensures_updateChunk_plan hothers hthis)) fun _ => ?_
    refine ensures_bind (ensures_refreshChunk hthis) fun _ => ih _ fun chunk hmem => ⟨(hrest chunk hmem).1, ?_⟩
    rw [map_key_put]
    exact (hrest chunk hmem).2

omit hothers in
/-- The rows of the database are the chunks in memory. -/
theorem names_of_row {s : Persistence} (h : Agrees J n X X s) (hrow : chunk ∈ chunksForJob s.db J) :
    Names J chunk X := by
  refine ⟨beq_iff_eq.mp (List.mem_filter.mp ((List.perm_insertionSort ..).mem_iff.mp hrow)).2, ?_⟩
  rw [h.behind.keys]
  exact List.mem_map_of_mem hrow

theorem keeps_cancel_plan (reason : QString) : Keeps (Lags J n) (cancel t host reason) := by
  have hlags := endures_lags (n := n) hothers
  refine keeps_bind (keeps_view _) fun active => keeps_ite ?_ ?_
  · exact keeps_bind (keeps_attempt (keeps_currentJob hlags.others)) fun _ => keeps_require _ _
  refine keeps_bind (keeps_askForCancellation hlags) fun state => keeps_ite (keeps_setActive hlags _) ?_
  refine ensures_exists fun X => ?_
  have hI := endures_agrees (n := n) (X := X) (Y := X) hothers
  refine ensures_bind (ensures_lagging (ensures_look (φ := fun jobId => jobId = J) fun s h => h.session))
    fun jobId => ensures_given fun hjobId => ?_
  refine ensures_bind (Q := fun chunks s => Agrees J n X X s ∧ ∀ chunk ∈ chunks, Names J chunk X)
    (ensures_lagging ((ensures_query hI.others).imp (fun _ h => h) (fun chunks s h => ⟨h.1, ?_⟩) (fun _ h => h)
      fun _ h => h)) fun chunks => ensures_given fun hnames => ?_
  · intro chunk hmem
    rw [h.2, hjobId] at hmem
    exact names_of_row h.1 hmem
  refine ensures_bind (keeps_cancelChunks_plan hothers reason chunks X hnames) fun _ => ?_
  exact keeps_bind (keeps_transitionTo hlags ..) fun _ => keeps_setActive hlags _

theorem keeps_finishCancellation_plan (reason : QString) :
    Keeps (Lags J n) (finishCancellationIfRequested t host reason) :=
  keeps_bind (keeps_cancellationRequested (endures_lags hothers).others) fun _ =>
    keeps_ite (keeps_bind (keeps_cancel_plan hothers _) fun _ => keeps_pure _) (keeps_pure _)

theorem keeps_complete_plan : Keeps (Lags J n) (complete t host) := by
  have hI := endures_lags (n := n) hothers
  refine keeps_bind (keeps_finishCancellation_plan hothers _) fun _ => keeps_bind (keeps_require _ _) fun _ => ?_
  refine keeps_bind (keeps_requireActive hI.others) fun _ => keeps_bind (keeps_view _) fun identity => ?_
  refine keeps_bind (keeps_query hI.others) fun chunks => keeps_bind (keeps_require _ _) fun _ => ?_
  refine keeps_bind (keeps_transitionTo hI ..) fun _ => keeps_bind (keeps_view _) fun owner => ?_
  refine keeps_bind (keeps_updateProgress hI ..) fun _ => ?_
  refine keeps_bind (keeps_attempt (keeps_call hI.others fun n s hs => ?_)) fun completed => ?_
  · exact hI.quiet s ((host.turns n).step (.completeAndActivate identity.recordingId identity.jobId owner)) rfl hs
  · cases completed with
    | ok => exact keeps_setActive hI _
    | error error =>
      exact keeps_bind (keeps_finishCancellation_plan hothers _) fun _ =>
        keeps_ite (keeps_fail _) (keeps_fail _)

/-! ### Stopping -/

/-- Memory goes ahead, by one place until the write has succeeded. -/
theorem ensures_rewriteChunks {which : JobChunk → Bool} {change : JobChunk → JobChunk}
    {onError : UserFacingError → Session Unit}
    (hchange : ∀ chunk, place (change chunk) = place chunk ∧ (change chunk).jobId = chunk.jobId)
    (herror : ∀ error, Ensures (Lags J (n + 1)) (onError error) (fun _ _ => False) (Lags J (n + 1))
      (Lags J (n + 1))) (chunks : List JobChunk) : ∀ before,
    Ensures (Agrees J n (before ++ chunks) (before ++ chunks)) (rewriteChunks t host which change onError before chunks)
      (fun _ s =>
        let after := before ++ chunks.map fun chunk => if which chunk then change chunk else chunk
        Agrees J n after after s)
      (Lags J (n + 1)) (Lags J (n + 1)) := by
  induction chunks with
  | nil => exact fun before => ensures_pure fun _ h => h
  | cons saved rest ih =>
    intro before
    unfold rewriteChunks
    refine ensures_ite (fun hkeep => ?_) fun hwhich => ?_
    · have hrest := ih (before ++ [saved])
      rw [List.append_assoc, List.append_assoc, List.singleton_append, List.singleton_append] at hrest
      rw [List.map_cons, hkeep]
      exact hrest
    · have hmem : saved ∈ before ++ saved :: rest := List.mem_append_right _ (List.mem_cons_self ..)
      refine ensures_known (fun s h => And.intro (names_of_mem h hmem (hchange saved)) h.ids) fun hknown => ?_
      have hput : put place (change saved) (before ++ saved :: rest) = before ++ change saved :: rest :=
        put_middle (nodup_place hknown.2) (hchange saved).1
      refine ensures_bind (Q := fun _ => Agrees J n (before ++ change saved :: rest) (before ++ saved :: rest))
        (ensures_update fun s h => ⟨h.session, rfl, h.behind, h.own, h.ids, h.ordinals⟩) fun _ => ?_
      refine ensures_bind
        (ensures_view (Q := fun _ => Agrees J n (before ++ change saved :: rest) (before ++ saved :: rest))
          fun _ h => h) fun owner => ?_
      have hwrite : Ensures (Agrees J n (before ++ change saved :: rest) (before ++ saved :: rest))
          (updateChunk t host (change saved) owner)
          (fun _ => Agrees J n (before ++ change saved :: rest) (put place (change saved) (before ++ saved :: rest)))
          (Agrees J n (before ++ change saved :: rest) (before ++ saved :: rest))
          (Agrees J n (before ++ change saved :: rest) (before ++ saved :: rest)) :=
        ensures_updateChunk_plan hothers hknown.1
      rw [hput] at hwrite
      have hahead : ∀ s, Agrees J n (before ++ change saved :: rest) (before ++ saved :: rest) s →
          Lags J (n + 1) s := by
        intro s h
        have hbehind := behind_put_ahead h.behind (nodup_place h.ids) (change saved)
        refine ⟨before ++ change saved :: rest, h.session, h.memory, hput ▸ hbehind, ?_, ?_, ?_⟩
        · intro other hother
          rcases mem_put (hput ▸ hother : other ∈ put place (change saved) _) with rfl | hbefore
          · exact hknown.1.1
          · exact h.own other hbefore
        · rw [← hput, map_id_put]
          exact h.ids
        · rw [← hput, map_ordinal_put]
          exact h.ordinals
      refine ensures_bind (Q := fun updated s => updated.casesOn (fun _ => Lags J (n + 1) s) fun _ =>
        Agrees J n (before ++ change saved :: rest) (before ++ change saved :: rest) s)
        (ensures_attempt (hwrite.imp (fun _ h => h) (fun _ _ h => h) (fun _ h => h) hahead) (fun _ _ h => h)
          fun _ s h => hahead s h) fun updated => ?_
      cases updated with
      | error error => exact (herror error).imp (fun _ h => h) (fun _ _ h => h.elim) (fun _ h => h) fun _ h => h
      | ok =>
        have hrest := ih (before ++ [change saved])
        rw [List.append_assoc, List.append_assoc, List.singleton_append, List.singleton_append] at hrest
        have hyes : which saved = true := by simpa using hwhich
        rw [List.map_cons, if_pos hyes]
        exact hrest

/-- The chunks of the job that run, according to the database. -/
def runningRows (db : Database) (J : QString) : Nat :=
  (chunksForJob db J).countP fun row => row.state == .running

omit hothers in
theorem runningRows_le {s : Persistence} (h : Agrees J n X X s) (hnone : ∀ chunk ∈ X, chunk.state ≠ .running) :
    runningRows s.db J ≤ n := by
  let running (state : ChunkState) : Bool := state == .running
  have hnot : ∀ chunk ∈ X, running chunk.state = false := fun chunk hmem => by
    simpa [running] using hnone chunk hmem
  exact h.behind.count_le hnot

/-- **Interrupting and failing.**  When it succeeds, no more chunks run than the database lagged behind, and it
    lags behind no further. -/
theorem ensures_stopSession {chunkState : ChunkState} (hstate : chunkState ≠ .running) (jobState : JobState)
    (errorCode message : QString) :
    Ensures (Lags J n) (stopSession t host chunkState jobState errorCode message)
      (fun _ s => Lags J n s ∧ runningRows s.db J ≤ n) (Lags J (n + 1)) (Lags J (n + 1)) := by
  have hmore : ∀ s, Lags J n s → Lags J (n + 1) s := fun s h => h.imp fun _ hX => hX.mono (Nat.le_succ n)
  have hkept : ∀ {α : Type} {p : Session α}, Keeps (Lags J n) p →
      Ensures (Lags J n) p (fun _ => Lags J n) (Lags J (n + 1)) (Lags J (n + 1)) :=
    fun h => h.imp (fun _ h => h) (fun _ _ h => h) hmore hmore
  refine ensures_bind (hkept (keeps_finishCancellation_plan hothers _)) fun _ => ?_
  refine ensures_bind (hkept (keeps_require _ _)) fun _ => ?_
  refine ensures_bind (hkept (keeps_requireActive (endures_lags hothers).others)) fun _ => ?_
  refine ensures_exists fun X => ?_
  refine ensures_bind (ensures_view (Q := fun chunks s => Agrees J n X X s ∧ chunks = X) fun s h => ⟨h, h.memory⟩)
    fun chunks => ensures_given fun hchunks => ?_
  subst hchunks
  have hchange : ∀ chunk, place (stopChunk chunkState message chunk) = place chunk ∧
      (stopChunk chunkState message chunk).jobId = chunk.jobId := fun _ => ⟨rfl, rfl⟩
  refine ensures_bind (ensures_rewriteChunks hothers hchange (fun error => ensures_fail fun _ h => h) chunks [])
    fun _ => ?_
  let after := chunks.map fun chunk => if (chunk.state == .running) = true then stopChunk chunkState message chunk
    else chunk
  have hnone : ∀ chunk ∈ after, chunk.state ≠ .running := by
    intro chunk hmem
    obtain ⟨old, -, rfl⟩ := List.mem_map.mp hmem
    split
    · exact hstate
    · exact fun hrunning => absurd (beq_iff_eq.mpr hrunning) ‹_›
  have hI := endures_agrees (n := n) (X := after) (Y := after) hothers
  have hahead : ∀ s, Agrees J n after after s → Lags J (n + 1) s := fun s h => hmore s ⟨after, h⟩
  have htransition : Ensures (Agrees J n after after) (attempt (transitionTo t host jobState errorCode message))
      (fun _ => Agrees J n after after) (Lags J (n + 1)) (Lags J (n + 1)) :=
    Ensures.imp (keeps_attempt (keeps_transitionTo hI jobState errorCode message)) (fun _ h => h) (fun _ _ h => h)
      hahead hahead
  refine ensures_bind htransition fun result => ?_
  cases result with
  | ok =>
    exact ensures_update fun s h => ⟨⟨after, h.of_plan rfl rfl⟩, runningRows_le (s := s) h hnone⟩
  | error error =>
    have hfinish := hkept (keeps_finishCancellation_plan hothers cancelledByUser)
    refine ensures_bind (hfinish.imp (fun _ h => ⟨after, h⟩) (fun _ _ h => h) (fun _ h => h) fun _ h => h)
      fun raced => ?_
    exact ensures_ite (fun _ => ensures_fail hmore) fun _ => ensures_fail hmore

/-! ### A new plan -/

omit hothers in
/-- The rows of a plan are told apart by their ids, and by their ordinals. -/
structure PlanKeys (J : QString) (db : Database) : Prop where
  ids : ((db.chunks.filter fun chunk => chunk.jobId == J).map JobChunk.id).Nodup
  ordinals : ((db.chunks.filter fun chunk => chunk.jobId == J).map JobChunk.ordinal).Nodup

end Operations

theorem PlanKeys.inserted (h : PlanKeys J db) (hinsertable : ChunkInsertable db chunk) :
    PlanKeys J { db with chunks := db.chunks ++ [chunk] } := by
  have hmem : ∀ other ∈ db.chunks.filter fun chunk => chunk.jobId == J, other ∈ db.chunks ∧ other.jobId = J :=
    fun other hother => ⟨(List.mem_filter.mp hother).1, beq_iff_eq.mp (List.mem_filter.mp hother).2⟩
  have hfilter : ((db.chunks ++ [chunk]).filter fun row => row.jobId == J) =
      (db.chunks.filter fun row => row.jobId == J) ++ if chunk.jobId == J then [chunk] else [] := by
    rw [List.filter_append, List.filter_singleton, Bool.cond_eq_ite]
  constructor
  · show (((db.chunks ++ [chunk]).filter fun row => row.jobId == J).map JobChunk.id).Nodup
    rw [hfilter]
    split
    swap
    · rw [List.append_nil]
      exact h.ids
    rw [List.map_append]
    refine List.nodup_append.mpr ⟨h.ids, List.nodup_singleton _, ?_⟩
    rintro _ hid _ hnew rfl
    obtain ⟨other, hother, hsame⟩ := List.mem_map.mp hid
    have hnone : db.chunk? chunk.id = none := Option.isNone_iff_eq_none.mp hinsertable.1
    refine List.find?_eq_none.mp hnone other (hmem other hother).1 (beq_iff_eq.mpr ?_)
    rw [hsame]
    exact List.mem_singleton.mp hnew
  · show (((db.chunks ++ [chunk]).filter fun row => row.jobId == J).map JobChunk.ordinal).Nodup
    rw [hfilter]
    split
    swap
    · rw [List.append_nil]
      exact h.ordinals
    rename_i hjob
    rw [List.map_append]
    refine List.nodup_append.mpr ⟨h.ordinals, List.nodup_singleton _, ?_⟩
    rintro _ hordinal _ hnew rfl
    obtain ⟨other, hother, hsame⟩ := List.mem_map.mp hordinal
    refine hinsertable.2.1 other (hmem other hother).1 ⟨?_, hsame.trans (List.mem_singleton.mp hnew)⟩
    rw [(hmem other hother).2]
    exact (beq_iff_eq.mp hjob).symm

theorem keeps_insertChunks_plan {newId : Nat → QString} {jobId : QString} (chunks : List JobChunk) :
    ∀ index, Transaction.Keeps (PlanKeys J) (insertChunks newId jobId index chunks) := by
  induction chunks with
  | nil => exact fun _ => Transaction.keeps_pure _
  | cons chunk rest ih =>
    intro index
    refine Transaction.keeps_bind (Transaction.keeps_statement fun db h hinsertable => ?_) fun _ => ih (index + 1)
    exact h.inserted hinsertable

/-- A plan that is accepted has its own rows only. -/
theorem replaceChunks_planKeys {now : Int} {newId : Nat → QString} {chunks : List JobChunk} {owner : QString}
    (h : replaceChunks now newId J chunks owner db = (.ok (), db')) : PlanKeys J db' := by
  unfold replaceChunks at h
  split at h
  · cases h
  obtain ⟨-, hop⟩ := executionWrite_ok h
  obtain ⟨_, mid, hallowed, hop1⟩ := bind_eq_ok.mp hop
  obtain ⟨_, cleared, hdelete, hinsert⟩ := bind_eq_ok.mp hop1
  obtain ⟨-, rfl⟩ := command_eq_ok.mp hdelete
  refine keeps_insertChunks_plan chunks 0 _ _ _ ?_ hinsert
  have hnone : ((detachChunks (fun chunk => chunk.jobId == J) mid).chunks.filter fun chunk => chunk.jobId == J) =
      [] := by
    refine List.filter_eq_nil_iff.mpr fun chunk hmem hjob => ?_
    have hleft := (List.mem_filter.mp hmem).2
    exact absurd hjob (by simpa using hleft)
  constructor
  · rw [hnone]
    exact List.nodup_nil
  · rw [hnone]
    exact List.nodup_nil

theorem ensures_replaceChunkPlan (hothers : OthersKeepPlan t host J) (chunks : List JobChunk) :
    Ensures (Agrees J n X X) (replaceChunkPlan t host chunks) (fun _ => Lags J 0) (fun _ => True) fun _ => True := by
  have hI := endures_agrees (n := n) (X := X) (Y := X) hothers
  have hE : ∀ {α : Type} {p : Session α}, Keeps (Agrees J n X X) p →
      Ensures (Agrees J n X X) p (fun _ => Agrees J n X X) (fun _ => True) fun _ => True :=
    fun h => h.imp (fun _ h => h) (fun _ _ h => h) (fun _ _ => trivial) fun _ _ => trivial
  refine ensures_bind (hE (keeps_requireActive hI.others)) fun _ => ensures_bind (hE (keeps_require _ _)) fun _ => ?_
  refine ensures_bind (ensures_view (Q := fun identity s => Agrees J n X X s ∧ identity.jobId = J)
    fun s h => ⟨h, h.session⟩) fun identity => ensures_given fun hidentity => ?_
  refine ensures_bind (hE (keeps_query hI.others)) fun found => ?_
  refine ensures_bind (hE (keeps_requireSome _ _)) fun recording => ensures_bind (hE (keeps_liftResult _)) fun _ => ?_
  refine ensures_bind (hE (keeps_require _ _)) fun _ => ensures_bind (hE (keeps_require _ _)) fun _ => ?_
  refine ensures_bind (hE (keeps_view _)) fun owner => ?_
  let Planned (s : Persistence) : Prop := s.identity.jobId = J ∧ ((chunksForJob s.db J).map JobChunk.id).Nodup ∧
    ((chunksForJob s.db J).map JobChunk.ordinal).Nodup
  have hplanned : ∀ s, Planned s → Planned (s.awaited host t) := by
    rintro s ⟨hsession, hids, hordinals⟩
    have hplan := awaited_plan hothers s
    exact ⟨hsession, hplan ▸ hids, hplan ▸ hordinals⟩
  refine ensures_bind (Q := fun _ => Planned) (ensures_call (fun s h _ db hok => ?_) (fun _ _ _ _ _ => trivial)
    fun _ _ => ⟨trivial, trivial⟩) fun _ => ?_
  · rw [hidentity] at hok
    have hkeys := replaceChunks_planKeys hok
    have hperm := List.perm_insertionSort (fun left right : JobChunk => left.ordinal ≤ right.ordinal)
      (db.chunks.filter fun chunk => chunk.jobId == J)
    exact ⟨h.session, (hperm.map JobChunk.id).nodup_iff.mpr hkeys.ids,
      (hperm.map JobChunk.ordinal).nodup_iff.mpr hkeys.ordinals⟩
  · rw [hidentity]
    refine ensures_bind ((ensures_query hplanned).imp (fun _ h => h) (fun _ _ h => h) (fun _ _ => trivial)
      fun _ _ => trivial) fun saved => ensures_update fun s h => ?_
    obtain ⟨⟨hsession, hids, hordinals⟩, rfl⟩ := h
    refine ⟨_, hsession, rfl, behind_refl _, fun chunk hmem => ?_, hids, hordinals⟩
    have hrow := (List.perm_insertionSort ..).mem_iff.mp hmem
    exact beq_iff_eq.mp (List.mem_filter.mp hrow).2

/-! ## All runs of a session -/

/-- `interrupt` and `fail`. -/
def SessionOperation.isStop : SessionOperation → Bool
  | .interrupt .. | .fail .. => true
  | _ => false

/-- The operations that write the database first. -/
def SessionOperation.writesFirst : SessionOperation → Bool
  | .beginNew _ | .resume .. | .replaceChunkPlan _ | .interrupt .. | .fail .. => false
  | _ => true

/-- A session, and how many stops have failed in it. -/
structure SessionRun where
  session : Persistence
  failedStops : Nat := 0

namespace SessionRun

variable (t host) in
def step (r : SessionRun) (operation : SessionOperation) : SessionRun :=
  match operation.perform t host r.session with
  | (.done _, session) => { r with session }
  | (_, session) => { session, failedStops := if operation.isStop then r.failedStops + 1 else r.failedStops }

variable (t host) in
/-- The session goes on: none begins, and a new plan is read back. -/
def Continues (r : SessionRun) : SessionOperation → Prop
  | .beginNew _ | .resume .. => False
  | .replaceChunkPlan chunks => (replaceChunkPlan t host chunks r.session).1 = .done ()
  | _ => True

end SessionRun

theorem updateParameters_chunks {now : Int} {jobId owner : QString} {parameters : QJsonObject} :
    (updateParameters now jobId parameters owner db).2.chunks = db.chunks := by
  let I (other : Database) : Prop := other.chunks = db.chunks
  refine executionLeaseTransaction_keeps (I := I) ?_ rfl
  exact Transaction.keeps_bind (Transaction.keeps_statement fun _ h _ => h) fun _ => Transaction.keeps_require _ _

theorem keeps_bindSourceMedia_plan (hothers : OthersKeepPlan t host J) (sourceHash : QString) :
    Keeps (Lags J n) (bindSourceMedia t host sourceHash) := by
  have hI := endures_lags (n := n) hothers
  refine keeps_bind (keeps_requireActive hI.others) fun _ => keeps_bind (keeps_requireSome _ _) fun hash => ?_
  refine keeps_bind (keeps_currentJob hI.others) fun job => ?_
  refine keeps_ite (keeps_ite (keeps_fail _) (keeps_renewExecutionLease hI)) ?_
  refine keeps_bind (keeps_view _) fun identity => keeps_bind (keeps_view _) fun stage => ?_
  refine keeps_bind (keeps_require _ _) fun _ => keeps_bind (keeps_view _) fun owner => ?_
  refine keeps_call hI.others fun _ s h => h.imp fun X hX => hX.of_plan rfl ?_
  unfold chunksForJob
  rw [updateParameters_chunks]

theorem keeps_perform_plan (hothers : OthersKeepPlan t host J) {operation : SessionOperation}
    (hfirst : operation.writesFirst = true) : Keeps (Lags J n) (operation.perform t host) := by
  have hI := endures_lags (n := n) hothers
  cases operation with
  | beginNew => cases hfirst
  | resume => cases hfirst
  | replaceChunkPlan => cases hfirst
  | bindSourceMedia sourceHash => exact keeps_beginsNone (keeps_bindSourceMedia_plan hothers sourceHash)
  | beginNormalization => exact keeps_beginsNone (keeps_entered hI _ (keeps_reported hI _ _))
  | updateNormalizationProgress => exact keeps_beginsNone (keeps_reported hI _ _)
  | updateNormalizedAudio => exact keeps_beginsNone (keeps_updateNormalizedAudio hI ..)
  | beginModelLoad => exact keeps_beginsNone (keeps_entered hI _ (keeps_updateProgressMonotonically hI _ _))
  | beginSpeechAnalysis => exact keeps_beginsNone (keeps_entered hI _ (keeps_reported hI _ _))
  | updateSpeechAnalysisProgress => exact keeps_beginsNone (keeps_reported hI _ _)
  | beginTranscription => exact keeps_beginsNone (keeps_entered hI _ (keeps_reported hI _ _))
  | updateTranscriptionProgress => exact keeps_beginsNone (keeps_reported hI _ _)
  | beginChunk ordinal => exact keeps_bind (keeps_beginChunk hothers ordinal) fun _ => keeps_pure _
  | saveChunkSegments => exact keeps_beginsNone (keeps_saveChunkSegments hI ..)
  | completeChunk => exact keeps_beginsNone (keeps_completeChunk_plan hothers ..)
  | renewExecutionLease => exact keeps_beginsNone (keeps_renewExecutionLease hI)
  | finishCancellationIfRequested => exact keeps_beginsNone (keeps_finishCancellation_plan hothers _)
  | cancel => exact keeps_beginsNone (keeps_cancel_plan hothers _)
  | interrupt => cases hfirst
  | fail => cases hfirst
  | complete => exact keeps_beginsNone (keeps_complete_plan hothers)

/-- What a stop does, whichever it is. -/
theorem ensures_stop_operation (hothers : OthersKeepPlan t host J) {operation : SessionOperation}
    (hstop : operation.isStop = true) :
    Ensures (Lags J n) (operation.perform t host) (fun _ s => Lags J n s ∧ runningRows s.db J ≤ n) (Lags J (n + 1))
      (Lags J (n + 1)) := by
  cases operation
  case interrupt reason errorCode =>
    exact ensures_bind (ensures_stopSession hothers (by decide) ..) fun _ => ensures_pure fun _ h => h
  case fail errorCode message =>
    exact ensures_bind (ensures_stopSession hothers (by decide) ..) fun _ => ensures_pure fun _ h => h
  all_goals cases hstop

theorem lags_step (hothers : OthersKeepPlan t host J) :
    StepKeeps (SessionRun.step t host) (SessionRun.Continues t host) fun r => Lags J r.failedStops r.session := by
  intro r operation h hcontinues
  unfold SessionRun.step
  rcases hrun : operation.perform t host r.session with ⟨outcome, session⟩
  cases hstop : operation.isStop with
  | true =>
    have hstopped := ensures_stop_operation (n := r.failedStops) hothers hstop
    cases outcome with
    | done begun => exact (hstopped.done _ h _ _ hrun).1
    | failed error => exact hstopped.failed _ h _ _ hrun
    | stopped => exact hstopped.stopped _ h _ hrun
  | false =>
    cases hfirst : operation.writesFirst with
    | true =>
      have hkept := (keeps_perform_plan (t := t) (n := r.failedStops) hothers hfirst).state h
      rw [hrun] at hkept
      cases outcome <;> exact hkept
    | false =>
      cases operation
      case beginNew => exact hcontinues.elim
      case resume => exact hcontinues.elim
      case interrupt => cases hstop
      case fail => cases hstop
      case replaceChunkPlan chunks =>
        obtain ⟨X, hX⟩ := h
        rcases hplan : replaceChunkPlan t host chunks r.session with ⟨planned, after⟩
        have hdone : planned = .done () := by
          have hthere : (replaceChunkPlan t host chunks r.session).1 = .done () := hcontinues
          rwa [hplan] at hthere
        subst hdone
        obtain ⟨Y, hY⟩ := (ensures_replaceChunkPlan hothers chunks).done r.session hX () after hplan
        have hperform : (SessionOperation.replaceChunkPlan chunks).perform t host r.session = (.done none, after) := by
          show andThen (replaceChunkPlan t host chunks) _ r.session = _
          rw [andThen, hplan]
          rfl
        rw [hperform] at hrun
        cases hrun
        exact ⟨Y, hY.mono (Nat.zero_le _)⟩
      all_goals cases hfirst

def runningChunk : JobChunk where
  id := qs "chunk"
  jobId := qs "job"
  startMs := 0
  endMs := 30000
  state := .running

/-- A session of one chunk, which runs. -/
def oneRunning : Persistence where
  db := { chunks := [runningChunk] }
  ownerToken := qs "owner"
  identity := { jobId := qs "job", chunks := [runningChunk] }
  active := true

end BreezeDesk.Cli
