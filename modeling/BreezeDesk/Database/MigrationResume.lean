/-
  The migrator can be stopped anywhere and taken up again.

  1. A migration is atomic: inside its transaction the statements work on a copy (`Inside`), and the commit puts it
     into the file together with the migration's row (`apply_atomic`).
  2. What happens before the first migration does not touch the rows (`openHistory_refuses`); migrations that are
     applied already leave the file alone (`applyFrom_remaining`).
  3. So a run is a run of the remaining parts in order (`run_of_admitted`), each of which adds its row (`At.step`), and
     what stopped runs leave is what one run has committed by then (`Left.came`).

  `applyMigrations_resumes` collects this.  The version is read as a 32-bit number, so that an unknown one can pass for
  a known one (`applyMigrations_impostor`); and where the row `fts5` cannot be read, the run goes on as if there were
  no full-text index.
-/
import Mathlib.Data.Set.Basic
import BreezeDesk.Database.SchemaMigrations

namespace BreezeDesk.Migrations

open Process Resumable

variable {σ ω α β : Type}

/-! ## Inside a transaction -/

/-- What `m_hasFts5` is when it agrees with the row. -/
def flagOf : Option (Bool × QString) → Bool
  | some (enabled, _) => enabled
  | none => false

/-- The connection between two migrations. -/
def atRest (file : LibraryFile σ) : Connection σ := ⟨file, none, flagOf file.fts5, 0⟩

/-- A transaction is open, on this file, with this flag and this row `fts5`. -/
structure Inside (file : LibraryFile σ) (hasFts5 : Bool) (fts5 : Option (Bool × QString)) (c : Connection σ) :
    Prop where
  unsaved : c.file = file
  flag : c.hasFts5 = hasFts5
  working : ∃ tables, c.working = some ⟨tables, fts5, file.migrations⟩

variable {platform : MigrationPlatform σ ω} {world : Nat → ω} {file : LibraryFile σ} {hasFts5 : Bool}
  {fts5 : Option (Bool × QString)}

/-- The file is left alone. -/
abbrev Unsaved (file : LibraryFile σ) (c : Connection σ) : Prop := c.file = file

/-- **A statement inside a transaction** works on the copy. -/
theorem conforms_statement {effect : ω → LibraryFile σ → Except QString (α × LibraryFile σ)}
    {Q : Except QString α → Connection σ → Prop} (herror : ∀ text c, Inside file hasFts5 fts5 c → Q (.error text) c)
    (hok : ∀ met tables a next c, effect met ⟨tables, fts5, file.migrations⟩ = .ok (a, next) → c.file = file →
      c.hasFts5 = hasFts5 → c.working = some next → Q (.ok a) c) :
    Conforms (Unsaved file) (Inside file hasFts5 fts5) (statement world effect) Q True := by
  refine conforms_call fun c hc => ?_
  obtain ⟨hfile, hflag, tables, hworking⟩ := hc
  have hview : c.view = ⟨tables, fts5, file.migrations⟩ := by
    unfold Connection.view
    rw [hworking, Option.getD_some]
  match heffect : effect (world c.statement) c.view with
  | .error text => exact ⟨hfile, herror text _ ⟨hfile, hflag, tables, hworking⟩⟩
  | .ok (a, next) =>
    have hput : (c.put next).counted = ⟨c.file, some next, c.hasFts5, c.statement + 1⟩ := by
      unfold Connection.put
      rw [hworking]
      rfl
    rw [hview] at heffect
    show Unsaved file (c.put next).counted ∧ Q (.ok a) (c.put next).counted
    rw [hput]
    exact ⟨hfile, hok _ tables a next _ heffect hfile hflag rfl⟩

theorem inside_statement {effect : ω → LibraryFile σ → Except QString (α × LibraryFile σ)}
    (h : ∀ met view a next, effect met view = .ok (a, next) →
      next.fts5 = view.fts5 ∧ next.migrations = view.migrations) :
    Conforms (Unsaved file) (Inside file hasFts5 fts5) (statement world effect) (fun _ => Inside file hasFts5 fts5)
      True := by
  refine conforms_statement (fun _ _ hc => hc) fun met tables a next c heffect hfile hflag hworking => ?_
  obtain ⟨hfts5, hmigrations⟩ := h _ _ a next heffect
  refine ⟨hfile, hflag, next.tables, ?_⟩
  rw [hworking]
  cases next
  cases hfts5
  cases hmigrations
  rfl

theorem of_map_eq_ok {ε : Type} {result : Except ε α} {f : α → β} {b : β} (h : result.map f = .ok b) :
    ∃ a, result = .ok a ∧ f a = b := by
  cases result with
  | error e => cases h
  | ok a =>
    cases h
    exact ⟨a, rfl, rfl⟩

theorem inside_exec (sql : QString) (values : List QVariant) :
    Conforms (Unsaved file) (Inside file hasFts5 fts5) (exec platform world sql values)
      (fun _ => Inside file hasFts5 fts5) True := by
  refine inside_statement fun met view a next h => ?_
  obtain ⟨_, -, hnext⟩ := of_map_eq_ok h
  cases hnext
  exact ⟨rfl, rfl⟩

theorem inside_select (sql : QString) (values : List QVariant) :
    Conforms (Unsaved file) (Inside file hasFts5 fts5) (select platform world sql values)
      (fun _ => Inside file hasFts5 fts5) True := by
  refine inside_statement fun met view a next h => ?_
  obtain ⟨_, -, hnext⟩ := of_map_eq_ok h
  cases hnext
  exact ⟨rfl, rfl⟩

/-- A statement that must go through, whatever is reported otherwise. -/
theorem inside_reported {P : Connection σ → Prop} {Q : α → Connection σ → Prop} (report : QString → UserFacingError)
    {work : Migrator σ (Except QString α)}
    (h : Conforms (Unsaved file) P work (fun result c => ∀ a, result = .ok a → Q a c) True) :
    Conforms (Unsaved file) P (work >>= fun result => lift (result.mapError report)) Q True := by
  refine conforms_bind h fun result => conforms_lift (fun c a hQ hok => ?_) fun _ _ _ _ => trivial
  cases result with
  | error text => cases hok
  | ok value =>
    cases hok
    exact hQ a rfl

theorem inside_orFail {P : Connection σ → Prop} {Q : α → Connection σ → Prop} (message : String)
    {work : Migrator σ (Except QString α)}
    (h : Conforms (Unsaved file) P work (fun result c => ∀ a, result = .ok a → Q a c) True) :
    Conforms (Unsaved file) P (orFail message work) Q True :=
  inside_reported (fun _ => migrationError message) h

theorem inside_orSearchError {P : Connection σ → Prop} {Q : α → Connection σ → Prop} (message : String)
    {work : Migrator σ (Except QString α)}
    (h : Conforms (Unsaved file) P work (fun result c => ∀ a, result = .ok a → Q a c) True) :
    Conforms (Unsaved file) P (orSearchError message work) Q True :=
  inside_reported (fun _ => searchError message) h

theorem inside_setHasFts5 (enabled : Bool) :
    Conforms (Unsaved file) (Inside file hasFts5 fts5) (setHasFts5 enabled) (fun _ => Inside file enabled fts5)
      True :=
  conforms_call fun _ hc => ⟨hc.unsaved, hc.unsaved, rfl, hc.working⟩

theorem inside_executeAll (statements : List QString) :
    Conforms (Unsaved file) (Inside file hasFts5 fts5) (executeAll platform world statements)
      (fun _ => Inside file hasFts5 fts5) True := by
  induction statements with
  | nil => exact conforms_pure fun _ hc => hc
  | cons sql pending ih =>
    refine conforms_bind (R := fun _ => Inside file hasFts5 fts5) ?_ fun _ => ih
    exact inside_orFail _ ((inside_exec sql []).weaken (fun _ hc => hc) (fun _ _ hc _ _ => hc) id)

theorem inside_reindexAll (statements : List QString) :
    Conforms (Unsaved file) (Inside file hasFts5 fts5) (reindexAll platform world statements)
      (fun _ => Inside file hasFts5 fts5) True := by
  induction statements with
  | nil => exact conforms_pure fun _ hc => hc
  | cons sql pending ih =>
    refine conforms_bind (R := fun _ => Inside file hasFts5 fts5) ?_ fun _ => ih
    exact inside_orFail _ ((inside_exec sql []).weaken (fun _ hc => hc) (fun _ _ hc _ _ => hc) id)

theorem inside_rebuildRecording (recordingId : QVariant) :
    Conforms (Unsaved file) (Inside file hasFts5 fts5) (rebuildRecording platform world recordingId)
      (fun _ => Inside file hasFts5 fts5) True := by
  have hexec : ∀ message sql values, Conforms (Unsaved file) (Inside file hasFts5 fts5)
      (orSearchError message (exec platform world sql values)) (fun _ => Inside file hasFts5 fts5) True :=
    fun message sql values =>
      inside_orSearchError message ((inside_exec sql values).weaken (fun _ hc => hc) (fun _ _ hc _ _ => hc) id)
  refine conforms_bind (R := fun _ => Inside file hasFts5 fts5)
    (inside_orSearchError _ ((inside_select _ _).weaken (fun _ hc => hc) (fun _ _ hc _ _ => hc) id)) fun rows => ?_
  cases rows with
  | nil => exact conforms_pure fun _ hc => hc
  | cons row _ =>
    refine conforms_bind (R := fun _ => Inside file hasFts5 fts5) (hexec _ _ _) fun _ => ?_
    refine conforms_bind (R := fun _ => Inside file hasFts5 fts5) (hexec _ _ _) fun _ => ?_
    refine conforms_bind (R := fun _ => Inside file hasFts5 fts5) (conforms_read fun _ hc => hc) fun c => ?_
    refine conforms_ite (fun _ => ?_) fun _ => conforms_pure fun _ hc => hc
    exact conforms_bind (R := fun _ => Inside file hasFts5 fts5) (hexec _ _ _) fun _ => hexec _ _ _

theorem inside_rebuildAll (recordingIds : List QVariant) :
    Conforms (Unsaved file) (Inside file hasFts5 fts5) (rebuildAll platform world recordingIds)
      (fun _ => Inside file hasFts5 fts5) True := by
  induction recordingIds with
  | nil => exact conforms_pure fun _ hc => hc
  | cons recordingId pending ih =>
    exact conforms_bind (R := fun _ => Inside file hasFts5 fts5) (inside_rebuildRecording recordingId) fun _ => ih

/-- The row `fts5` is written when the flag is what it says. -/
theorem inside_recordFeature (created : Except QString Unit) (detail : String) :
    Conforms (Unsaved file) (Inside file created.toBool fts5) (recordFeature platform world created detail)
      (fun _ c => ∃ text, Inside file created.toBool (some (created.toBool, text)) c) True := by
  refine inside_orFail _ (conforms_statement (fun _ _ _ _ herror => by cases herror) ?_)
  intro met tables a next c heffect hfile hflag hworking b _
  obtain ⟨_, -, hnext⟩ := of_map_eq_ok heffect
  cases hnext
  exact ⟨_, hfile, hflag, tables, hworking⟩

/-! ## A migration is atomic -/

/-- The file after a migration: its row is new, and before version 3 nothing has been said of the full-text index. -/
def Records (version : Nat) (name checksum : QString) (file next : LibraryFile σ) : Prop :=
  (version < 3 → next.fts5 = file.fts5) ∧ ∃ before after appliedAt, file.migrations = some before ∧
    before.insert ⟨version, name, checksum, appliedAt⟩ = some after ∧ next.migrations = some after

/-- What the work of a migration establishes. -/
abbrev Worked (version : Nat) (file : LibraryFile σ) (c : Connection σ) : Prop :=
  ∃ fts5, Inside file (flagOf fts5) fts5 c ∧ (version < 3 → fts5 = file.fts5)

/-- The row of the migration is in the copy. -/
def Recorded (version : Nat) (name checksum : QString) (file : LibraryFile σ) (c : Connection σ) : Prop :=
  c.file = file ∧ ∃ next, c.working = some next ∧ c.hasFts5 = flagOf next.fts5 ∧
    Records version name checksum file next

theorem record_conforms {version : Nat} {name checksum : QString} (message : String)
    (hfts5 : version < 3 → fts5 = file.fts5) :
    Conforms (Unsaved file) (Inside file (flagOf fts5) fts5)
      (orFail message (record platform world version name checksum))
      (fun _ => Recorded version name checksum file) True := by
  refine inside_orFail _ (conforms_statement (fun _ _ _ _ herror => by cases herror) ?_)
  intro met tables a next c heffect hfile hflag hworking b _
  dsimp only at heffect
  split at heffect
  · cases heffect
  · split at heffect
    · cases heffect
    · next before hmigrations =>
      split at heffect
      · cases heffect
      · next after hinsert =>
        cases heffect
        exact ⟨hfile, _, hworking, hflag, hfts5, before, after, _, hmigrations, hinsert, rfl⟩

theorem orFail_call (message : String) (step : Connection σ → Except QString α × Connection σ) (c : Connection σ) :
    orFail message (call step) c =
      ([(step c).2], (step c).1.mapError (fun _ => migrationError message) |>.map fun a => (a, (step c).2)) := by
  have hcall : (call step c : _ × Except UserFacingError _).2 = .ok ((step c).1, (step c).2) := rfl
  refine (bind_of_ok hcall).trans ?_
  cases (step c).1 <;> rfl

/-- The commit puts the copy into the file. -/
theorem commit_atomic {version : Nat} {name checksum : QString} (message : String) {c : Connection σ}
    (h : Recorded version name checksum file c) :
    Atomic Connection.file atRest (Records version name checksum file)
      (orFail message (commitTransaction platform world)) c := by
  obtain ⟨-, next, hworking, hflag, hrecords⟩ := h
  have hview : c.view = next := by
    unfold Connection.view
    rw [hworking, Option.getD_some]
  have hcommitted : c.committed = atRest next := by
    unfold Connection.committed atRest
    rw [hview, hflag]
  cases hcommit : platform.commit (world c.statement) with
  | error text =>
    have hrun : orFail message (commitTransaction platform world) c =
        ([c.counted], .error (migrationError message)) := by
      unfold commitTransaction
      rw [orFail_call, hcommit]
      rfl
    refine ⟨fun _ _ u hmem => ?_, fun a t hok => ?_, fun a t hok => ?_, fun a t hok => ?_⟩
    · rw [hrun] at hmem
      rw [List.mem_singleton.mp hmem]
      rfl
    all_goals
      rw [hrun] at hok
      cases hok
  | ok _ =>
    have hrun : orFail message (commitTransaction platform world) c = ([atRest next], .ok ((), atRest next)) := by
      unfold commitTransaction
      rw [orFail_call, hcommit, ← hcommitted]
      rfl
    refine ⟨fun e herror => ?_, fun a t hok => ?_, fun a t hok => ?_, fun a t hok u hmem => ?_⟩
    · rw [hrun] at herror
      cases herror
    · rw [hrun] at hok
      cases hok
      exact ⟨rfl, hrecords⟩
    · rw [hrun] at hok ⊢
      cases hok
      rfl
    · rw [hrun] at hok hmem
      cases hok
      rw [List.mem_singleton.mp hmem]
      exact .inr rfl

/-- **A migration is atomic**: a stop inside it leaves the file as it was, and so does a failure. -/
theorem inTransaction_atomic {started recorded committed : String} {version : Nat} {name checksum : QString}
    {work : Migrator σ Unit}
    (hwork : Conforms (Unsaved file) (Inside file (flagOf file.fts5) file.fts5) work
      (fun _ => Worked version file) True) :
    Atomic Connection.file atRest (Records version name checksum file)
      (inTransaction platform world started recorded committed version name checksum work) (atRest file) := by
  have hbegin : Conforms (Unsaved file) (· = atRest file) (orFail started (beginTransaction platform world))
      (fun _ => Inside file (flagOf file.fts5) file.fts5) True := by
    refine inside_orFail _ (conforms_call ?_)
    rintro c rfl
    match htransaction : platform.transaction (world (atRest file).statement) with
    | .error text => exact ⟨rfl, fun a hok => by cases hok⟩
    | .ok () => exact ⟨rfl, fun _ _ => ⟨rfl, rfl, file.tables, rfl⟩⟩
  refine atomic_bind hbegin rfl rfl fun _ begun hbegun => ⟨hbegun.unsaved, ?_⟩
  refine atomic_rescue ?_ fun _ => rfl
  refine atomic_bind hwork hbegun.unsaved hbegun fun _ worked hworked => ?_
  obtain ⟨fts5, hinside, hkept⟩ := hworked
  refine ⟨hinside.unsaved, atomic_bind (record_conforms recorded hkept) hinside.unsaved hinside ?_⟩
  exact fun _ c hc => ⟨hc.1, commit_atomic committed hc⟩

theorem applyStatements_atomic (version : Nat) (name : QString) (statements : List QString) :
    Atomic Connection.file atRest (Records version name (migrationChecksum platform statements) file)
      (applyStatements platform world version name statements) (atRest file) :=
  inTransaction_atomic ((inside_executeAll statements).weaken (fun _ hc => hc) (fun _ _ hc => ⟨_, hc, fun _ => rfl⟩) id)

theorem applySearchIndex_atomic :
    Atomic Connection.file atRest (Records 3 (qs "search_index") (searchIndexChecksum platform) file)
      (applySearchIndex platform world) (atRest file) := by
  refine inTransaction_atomic ?_
  refine conforms_bind (inside_exec _ _) fun created => ?_
  refine conforms_bind (inside_setHasFts5 created.toBool) fun _ => ?_
  refine conforms_bind (R := fun _ => Inside file created.toBool file.fts5)
    (inside_orFail _ ((inside_exec _ _).weaken (fun _ hc => hc) (fun _ _ hc _ _ => hc) id)) fun _ => ?_
  exact (inside_recordFeature created _).weaken (fun _ hc => hc)
    (fun _ c ⟨text, hc⟩ => ⟨some (created.toBool, text), hc, fun h => absurd h (by decide)⟩) id

theorem applySearchIndexTrigram_atomic :
    Atomic Connection.file atRest (Records 8 (qs "search_index_trigram") (trigramChecksum platform) file)
      (applySearchIndexTrigram platform world) (atRest file) := by
  refine inTransaction_atomic ?_
  refine conforms_bind (inside_exec _ _) fun _ => ?_
  refine conforms_bind (inside_exec _ _) fun created => ?_
  refine conforms_bind (inside_setHasFts5 created.toBool) fun _ => ?_
  refine conforms_bind (inside_recordFeature created _) fun _ => conforms_exists fun text => ?_
  exact (inside_reindexAll _).weaken (fun _ hc => hc)
    (fun _ c hc => ⟨some (created.toBool, text), hc, fun h => absurd h (by decide)⟩) id

theorem applySingleTranscript_atomic :
    Atomic Connection.file atRest
      (Records 10 (qs "single_transcript") (migrationChecksum platform singleTranscriptSchema) file)
      (applySingleTranscript platform world) (atRest file) := by
  refine inTransaction_atomic ?_
  refine conforms_bind (inside_executeAll _) fun _ => ?_
  refine conforms_bind (R := fun _ => Inside file (flagOf file.fts5) file.fts5)
    (inside_orFail _ ((inside_select _ _).weaken (fun _ hc => hc) (fun _ _ hc _ _ => hc) id)) fun rows => ?_
  exact (inside_rebuildAll _).weaken (fun _ hc => hc) (fun _ c hc => ⟨file.fts5, hc, fun _ => rfl⟩) id

/-- **Every migration is atomic**, and adds its row. -/
theorem apply_atomic {migration : Migration σ ω} (h : migration ∈ migrations platform) (world : Nat → ω)
    (file : LibraryFile σ) :
    Atomic Connection.file atRest (Records migration.version migration.name migration.checksum file)
      (migration.apply world) (atRest file) := by
  unfold migrations at h
  simp only [List.mem_cons, List.not_mem_nil, or_false] at h
  rcases h with rfl | rfl | rfl | rfl | rfl | rfl | rfl | rfl | rfl | rfl | rfl
  case inr.inr.inl => exact applySearchIndex_atomic
  case inr.inr.inr.inr.inr.inr.inr.inl => exact applySearchIndexTrigram_atomic
  case inr.inr.inr.inr.inr.inr.inr.inr.inr.inl => exact applySingleTranscript_atomic
  all_goals exact applyStatements_atomic _ _ _

/-! ## Before the first migration -/

/-- The file once it has the table of migrations. -/
def opened (file : LibraryFile σ) : LibraryFile σ := file.setMigrations (recorded file)

/-- The version that the migrator reads. -/
def currentVersion (file : LibraryFile σ) : Int := toInt (recorded file).maxVersion

/-- The statements before the first migration go through. -/
def Opens (platform : MigrationPlatform σ ω) (world : Nat → ω) (file : LibraryFile σ) : Prop :=
  platform.permits (world 0) createMigrationsSql [] file.tables = .ok () ∧
    platform.permits (world 1) selectVersionSql [] file.tables = .ok () ∧
    platform.permits (world 2) selectHistorySql [] file.tables = .ok ()

/-- The run comes to its migrations. -/
structure Admitted (platform : MigrationPlatform σ ω) (session : MigrationSession ω) (file : LibraryFile σ) :
    Prop where
  opens : Opens platform (session.world 0) file
  known : currentVersion file ≤ latestSchemaVersion
  verified : verifyHistory platform (currentVersion file) (recorded file).rows = .ok ()
  backup : 0 < currentVersion file ∧ currentVersion file < latestSchemaVersion ∧
    session.createMigrationBackup = true → session.createBackup = .ok ()

variable {session : MigrationSession ω}

theorem opened_of_some {migrations : SchemaMigrations} (h : file.migrations = some migrations) :
    opened file = file := by
  cases file
  cases h
  rfl

@[simp] theorem recorded_opened (file : LibraryFile σ) : recorded (opened file) = recorded file := rfl

theorem createMigrationsTable_run (platform : MigrationPlatform σ ω) (file : LibraryFile σ) (message : String)
    (met : ω) :
    orFail message (createMigrationsTable platform met) (connected file) =
      match platform.permits met createMigrationsSql [] file.tables with
      | .ok () => ([connected (opened file)], .ok ((), connected (opened file)))
      | .error _ => ([connected file], .error (migrationError message)) := by
  unfold createMigrationsTable
  rw [orFail_call]
  have hview : (connected file).view = file := rfl
  rw [hview]
  cases platform.permits met createMigrationsSql [] file.tables with
  | error text => rfl
  | ok _ =>
    cases hmigrations : file.migrations with
    | some before => rw [opened_of_some hmigrations]; rfl
    | none =>
      have hopened : (connected file).put (file.setMigrations .empty) = connected (opened file) := by
        unfold opened recorded
        rw [hmigrations]
        rfl
      show ([(connected file).put (file.setMigrations .empty)], _) = _
      rw [hopened]
      rfl

theorem query_run (platform : MigrationPlatform σ ω) (file : LibraryFile σ) (message : String) (met : ω)
    (sql : QString) :
    orFail message (query platform met sql) (connected file) =
      match platform.permits met sql [] file.tables with
      | .ok () => ([connected file], .ok (file, connected file))
      | .error _ => ([connected file], .error (migrationError message)) := by
  unfold query
  rw [orFail_call]
  show ([connected file], ((((platform.permits met sql [] file.tables).map fun _ => file).mapError _).map _)) = _
  cases platform.permits met sql [] file.tables <;> rfl

theorem query_of_permits {message : String} {met : ω} {sql : QString}
    (h : platform.permits met sql [] file.tables = .ok ()) :
    orFail message (query platform met sql) (connected (opened file)) =
      ([connected (opened file)], .ok (opened file, connected (opened file))) := by
  rw [query_run, show platform.permits met sql [] (opened file).tables = .ok () from h]

theorem admitVersion_of_admitted (h : Admitted platform session file) :
    admitVersion platform session (currentVersion file) (connected (opened file)) =
      ([connected (opened file)], .ok (currentVersion file, connected (opened file))) := by
  unfold admitVersion
  rw [if_neg (Int.not_lt.mpr h.known)]
  refine (bind_of_run (query_of_permits h.opens.2.2)).trans ?_
  rw [recorded_opened, h.verified]
  by_cases hbackup : 0 < currentVersion file ∧ currentVersion file < latestSchemaVersion ∧
      session.createMigrationBackup = true
  · rw [if_pos hbackup, h.backup hbackup]
    rfl
  · rw [if_neg hbackup]
    rfl

theorem openHistory_of_admitted (h : Admitted platform session file) :
    openHistory platform session (connected file) =
      ([connected (opened file), connected (opened file), connected (opened file)],
        .ok (currentVersion file, connected (opened file))) := by
  have hcreate := createMigrationsTable_run platform file
    "A database schema update could not be applied." (session.world 0 0)
  rw [h.opens.1] at hcreate
  refine (bind_of_run hcreate).trans ?_
  rw [bind_of_run (query_of_permits h.opens.2.1)]
  show ([connected (opened file)] ++ ([connected (opened file)] ++
    (admitVersion platform session (currentVersion file) (connected (opened file))).1), _) = _
  rw [admitVersion_of_admitted h]
  show (_, (admitVersion platform session (currentVersion file) (connected (opened file))).2) = _
  rw [admitVersion_of_admitted h]
  rfl

/-- The process fails, having made the table of migrations at most. -/
def Refuses (p : Migrator σ α) (file : LibraryFile σ) (c : Connection σ) : Prop :=
  ∃ passed e, p c = (passed, .error e) ∧ ∀ u ∈ passed, u.file = file ∨ u.file = opened file

theorem Refuses.bind {p : Migrator σ α} {f : α → Migrator σ β} {c : Connection σ} (h : Refuses p file c) :
    Refuses (p >>= f) file c := by
  obtain ⟨passed, e, hrun, hpassed⟩ := h
  exact ⟨passed, e, bind_of_failed hrun, hpassed⟩

theorem Refuses.after {p : Migrator σ α} {f : α → Migrator σ β} {c t : Connection σ} {passed : List (Connection σ)}
    {a : α} (hrun : p c = (passed, .ok (a, t))) (hpassed : ∀ u ∈ passed, u.file = file ∨ u.file = opened file)
    (h : Refuses (f a) file t) : Refuses (p >>= f) file c := by
  obtain ⟨more, e, hmore, hothers⟩ := h
  refine ⟨passed ++ more, e, ?_, fun u hmem => (List.mem_append.mp hmem).elim (hpassed u) (hothers u)⟩
  rw [bind_of_run hrun, hmore]

theorem passed_opened : ∀ u ∈ [connected (opened file)], u.file = file ∨ u.file = opened file := fun u hmem => by
  rw [List.mem_singleton.mp hmem]
  exact .inr rfl

theorem query_refuses {message : String} {met : ω} {sql : QString} {text : QString}
    (h : platform.permits met sql [] file.tables = .error text) :
    Refuses (orFail message (query platform met sql)) file (connected (opened file)) := by
  have hrun := query_run platform (opened file) message met sql
  rw [show platform.permits met sql [] (opened file).tables = .error text from h] at hrun
  exact ⟨_, _, hrun, passed_opened⟩

theorem admitVersion_refuses (h : ¬ Admitted platform session file)
    (hcreate : platform.permits (session.world 0 0) createMigrationsSql [] file.tables = .ok ())
    (hread : platform.permits (session.world 0 1) selectVersionSql [] file.tables = .ok ()) :
    Refuses (admitVersion platform session (currentVersion file)) file (connected (opened file)) := by
  unfold admitVersion
  by_cases hknown : latestSchemaVersion < currentVersion file
  · rw [if_pos hknown]
    exact ⟨[], _, rfl, nofun⟩
  rw [if_neg hknown]
  match hselect : platform.permits (session.world 0 2) selectHistorySql [] file.tables with
  | .error text => exact (query_refuses hselect).bind
  | .ok () =>
    refine Refuses.after (query_of_permits hselect) passed_opened ?_
    rw [recorded_opened]
    match hverified : verifyHistory platform (currentVersion file) (recorded file).rows with
    | .error e => exact Refuses.bind ⟨[], e, rfl, nofun⟩
    | .ok () =>
      refine Refuses.after (show lift (Except.ok ()) (connected (opened file)) = ([], .ok ((), _)) from rfl) nofun ?_
      by_cases hbackup : 0 < currentVersion file ∧ currentVersion file < latestSchemaVersion ∧
          session.createMigrationBackup = true
      · rw [if_pos hbackup]
        match hcreated : session.createBackup with
        | .error e => exact Refuses.bind ⟨[], e, rfl, nofun⟩
        | .ok () =>
          exact absurd ⟨⟨hcreate, hread, hselect⟩, Int.not_lt.mp hknown, hverified, fun _ => hcreated⟩ h
      · exact absurd
          ⟨⟨hcreate, hread, hselect⟩, Int.not_lt.mp hknown, hverified, fun hneeded => absurd hneeded hbackup⟩ h

/-- A run that is not admitted changes nothing. -/
theorem openHistory_refuses (h : ¬ Admitted platform session file) :
    Refuses (openHistory platform session) file (connected file) := by
  have hrun := createMigrationsTable_run platform file
    "A database schema update could not be applied." (session.world 0 0)
  match hcreate : platform.permits (session.world 0 0) createMigrationsSql [] file.tables with
  | .error text =>
    rw [hcreate] at hrun
    refine Refuses.bind ⟨_, _, hrun, fun u hmem => ?_⟩
    rw [List.mem_singleton.mp hmem]
    exact .inl rfl
  | .ok () =>
    rw [hcreate] at hrun
    refine Refuses.after hrun passed_opened ?_
    match hread : platform.permits (session.world 0 1) selectVersionSql [] file.tables with
    | .error text => exact (query_refuses hread).bind
    | .ok () => exact Refuses.after (query_of_permits hread) passed_opened (admitVersion_refuses h hcreate hread)

/-! ## Migrations that are applied already -/

/-- The reading of the row `fts5` goes through, where it is asked for. -/
def ReadsFts5 (platform : MigrationPlatform σ ω) (session : MigrationSession ω) (file : LibraryFile σ) : Prop :=
  platform.permits (session.world 0 3) selectFeatureSql [] file.tables = .ok ()

theorem readHasFts5_run (h : ReadsFts5 platform session file) :
    ∃ passed, readHasFts5 platform (session.world 0 3) (connected file) = (passed, .ok ((), atRest file)) ∧
      ∀ u ∈ passed, u.file = file := by
  have hquery : query platform (session.world 0 3) selectFeatureSql (connected file) =
      ([connected file], .ok (.ok file, connected file)) := by
    unfold query call
    show ([connected file], Except.ok ((platform.permits _ _ _ file.tables).map fun _ => file, connected file)) = _
    rw [show platform.permits (session.world 0 3) selectFeatureSql [] file.tables = .ok () from h]
    rfl
  unfold readHasFts5
  cases hfts5 : file.fts5 with
  | some found =>
    obtain ⟨enabled, text⟩ := found
    refine ⟨[connected file, atRest file], (bind_of_run hquery).trans ?_, fun u hmem => ?_⟩
    · simp only [hfts5]
      unfold atRest
      rw [hfts5]
      rfl
    · rcases List.mem_cons.mp hmem with rfl | hmem
      · rfl
      · rw [List.mem_singleton.mp hmem]
        rfl
  | none =>
    refine ⟨[connected file], (bind_of_run hquery).trans ?_, fun u hmem => ?_⟩
    · simp only [hfts5]
      unfold atRest
      rw [hfts5]
      rfl
    · rw [List.mem_singleton.mp hmem]
      rfl

/-- Where nothing is done for the versions that are applied already. -/
theorem applyFrom_skips (session : MigrationSession ω) {done : List (Migration σ ω)} {version : Int}
    (h : ∀ migration ∈ done, (migration.version : Int) ≤ version ∧ ∀ world, migration.skip world = pure ())
    (pending : List (Migration σ ω)) :
    applyFrom session (done ++ pending) version = applyFrom session pending version := by
  induction done with
  | nil => rfl
  | cons migration others ih =>
    obtain ⟨hversion, hskip⟩ := h migration (List.mem_cons_self ..)
    rw [List.cons_append, applyFrom, if_neg (Int.not_lt.mpr hversion), hskip,
      ih fun other hother => h other (List.mem_cons_of_mem _ hother)]
    rfl

/-- The versions of `migrations`. -/
theorem migrations_versions (platform : MigrationPlatform σ ω) :
    (migrations platform).map (·.version) = (List.range 11).map (· + 1) := rfl

theorem version_of_getElem? {migration : Migration σ ω} {i : Nat} (h : (migrations platform)[i]? = some migration) :
    i < 11 ∧ migration.version = i + 1 := by
  have hversion := congrArg (·[i]?) (migrations_versions platform)
  simp only [List.getElem?_map, h, Option.map_some] at hversion
  by_cases hi : i < 11
  · rw [List.getElem?_range hi, Option.map_some] at hversion
    exact ⟨hi, Option.some.inj hversion⟩
  · rw [List.getElem?_eq_none (by rw [List.length_range]; omega), Option.map_none] at hversion
    cases hversion

theorem version_of_mem_take {migration : Migration σ ω} {k : Nat} (h : migration ∈ (migrations platform).take k) :
    1 ≤ migration.version ∧ migration.version ≤ k := by
  obtain ⟨i, hi⟩ := List.mem_iff_getElem?.mp h
  rw [List.getElem?_take] at hi
  split at hi
  · obtain ⟨-, hversion⟩ := version_of_getElem? hi
    omega
  · cases hi

theorem version_of_mem_drop {migration : Migration σ ω} {k : Nat} (h : migration ∈ (migrations platform).drop k) :
    k < migration.version := by
  obtain ⟨i, hi⟩ := List.mem_iff_getElem?.mp h
  rw [List.getElem?_drop] at hi
  obtain ⟨-, hversion⟩ := version_of_getElem? hi
  omega

theorem migrations_ascend (platform : MigrationPlatform σ ω) :
    (migrations platform).Pairwise fun earlier later => earlier.version < later.version := by
  have h : ((migrations platform).map (·.version)).Pairwise (· < ·) := by
    rw [migrations_versions]
    decide
  exact List.pairwise_map.mp h

theorem skip_of_ne {migration : Migration σ ω} (h : migration ∈ migrations platform) (hversion : migration.version ≠ 3)
    (world : Nat → ω) : migration.skip world = pure () := by
  unfold migrations at h
  simp only [List.mem_cons, List.not_mem_nil, or_false] at h
  rcases h with rfl | rfl | rfl | rfl | rfl | rfl | rfl | rfl | rfl | rfl | rfl
  case inr.inr.inl => exact absurd rfl hversion
  all_goals rfl

/-- What one migration does in this session. -/
abbrev part (session : MigrationSession ω) (migration : Migration σ ω) : Migrator σ Unit :=
  migration.apply (session.world migration.version)

/-- Migrations that are all to be applied are applied in order. -/
theorem applyFrom_inOrder {pending : List (Migration σ ω)} : ∀ {version : Int},
    (∀ migration ∈ pending, version < migration.version) →
    pending.Pairwise (fun earlier later => earlier.version < later.version) →
    applyFrom session pending version =
      inOrder (pending.map (part session))
        ((pending.map fun migration => (migration.version : Int)).getLastD version) := by
  induction pending with
  | nil => exact fun _ _ => rfl
  | cons migration others ih =>
    intro version hnew hascend
    obtain ⟨hfirst, hothers⟩ := List.pairwise_cons.mp hascend
    rw [applyFrom, if_pos (hnew migration (List.mem_cons_self ..)), List.map_cons, List.map_cons, List.getLastD_cons,
      ih (fun other hother => Int.ofNat_lt.mpr (hfirst other hother)) hothers]
    rfl

/-- The remaining migrations, and the version that is reached. -/
abbrev remaining (platform : MigrationPlatform σ ω) (session : MigrationSession ω) (k : Nat) : Migrator σ Int :=
  inOrder (((migrations platform).drop k).map (part session)) 11

/-- From version `k` on, the remaining migrations are applied in order, with the flag that agrees with the file. -/
theorem applyFrom_remaining (file : LibraryFile σ) {k : Nat} (hk : k ≤ 11) (hunread : k < 3 → file.fts5 = none)
    (hreads : 3 ≤ k → ReadsFts5 platform session file) :
    ∃ passed, applyFrom session (migrations platform) k (connected file) =
        (passed ++ (remaining platform session k (atRest file)).1, (remaining platform session k (atRest file)).2) ∧
      ∀ u ∈ passed, u.file = file := by
  have hremaining : applyFrom session ((migrations platform).drop k) k = remaining platform session k := by
    rw [applyFrom_inOrder (fun migration h => Int.ofNat_lt.mpr (version_of_mem_drop h))
      ((migrations_ascend platform).sublist (List.drop_sublist ..))]
    have hlast : ∀ i ≤ 11, ((((List.range 11).map (· + 1)).drop i).map fun v : Nat => (v : Int)).getLastD i = 11 := by
      decide
    have hversions : ((migrations platform).drop k).map (fun migration => (migration.version : Int)) =
        (((List.range 11).map (· + 1)).drop k).map fun v : Nat => (v : Int) := by
      rw [← migrations_versions platform, ← List.map_drop, List.map_map]
      rfl
    rw [hversions, hlast k hk]
  have hskips : ∀ done : List (Migration σ ω), (∀ migration ∈ done, migration ∈ (migrations platform).take k ∧
      migration.version ≠ 3) → ∀ migration ∈ done, (migration.version : Int) ≤ k ∧
        ∀ world, migration.skip world = pure () := fun _ h migration hmem =>
    ⟨Int.ofNat_le.mpr (version_of_mem_take (h migration hmem).1).2,
      skip_of_ne (List.mem_of_mem_take (h migration hmem).1) (h migration hmem).2⟩
  rcases Nat.lt_or_ge k 3 with hlow | hhigh
  · have hsame : connected file = atRest file := by
      unfold connected atRest
      rw [hunread hlow]
      rfl
    have happly := applyFrom_skips session (hskips ((migrations platform).take k) fun migration h =>
      ⟨h, by have := (version_of_mem_take h).2; omega⟩) ((migrations platform).drop k)
    rw [List.take_append_drop, hremaining] at happly
    exact ⟨[], by rw [happly, hsame]; rfl, nofun⟩
  · have hsplit : migrations platform = (migrations platform).take 2 ++
        { version := 3
          name := qs "search_index"
          checksum := searchIndexChecksum platform
          apply := applySearchIndex platform
          skip := fun world => readHasFts5 platform (world 3) } :: (migrations platform).drop 3 := rfl
    have hfirst : ∀ migration ∈ (migrations platform).take 2, migration ∈ (migrations platform).take k ∧
        migration.version ≠ 3 := fun migration h =>
      ⟨List.take_subset_take_left _ (by omega) h, by have := (version_of_mem_take h).2; omega⟩
    have hlater : ∀ migration ∈ ((migrations platform).drop 3).take (k - 3),
        migration ∈ (migrations platform).take k ∧ migration.version ≠ 3 := fun migration h => by
      have hversion := version_of_mem_drop (List.mem_of_mem_take h)
      rw [List.take_drop, show 3 + (k - 3) = k by omega] at h
      exact ⟨List.mem_of_mem_drop h, by omega⟩
    have hrest := applyFrom_skips session (hskips _ hlater) (((migrations platform).drop 3).drop (k - 3))
    rw [List.take_append_drop, List.drop_drop, show 3 + (k - 3) = k by omega, hremaining] at hrest
    obtain ⟨passed, hread, hpassed⟩ := readHasFts5_run (hreads hhigh)
    refine ⟨passed, ?_, hpassed⟩
    rw [hsplit, applyFrom_skips session (hskips _ hfirst), applyFrom,
      if_neg (by show ¬ ((k : Int) < ((3 : Nat) : Int)); omega), hrest]
    exact bind_of_run hread

/-! ## Prefixes of the list -/

/-- The recorded versions are the first `k` migrations, with their names and checksums. -/
def IsPrefix (platform : MigrationPlatform σ ω) (k : Nat) (file : LibraryFile σ) : Prop :=
  (recorded file).rows.map (fun row => (row.version, row.name, row.checksum)) =
    ((migrations platform).take k).map fun migration => ((migration.version : Int), migration.name, migration.checksum)

theorem IsPrefix.versions {k : Nat} (h : IsPrefix platform k file) (hk : k ≤ 11) :
    (recorded file).rows.map (·.version) = (List.range k).map fun i : Nat => (i : Int) + 1 := by
  have hfirst := congrArg (List.map Prod.fst) h
  rw [List.map_map, List.map_map] at hfirst
  have htaken : ((migrations platform).take k).map (·.version) = (List.range k).map (· + 1) := by
    rw [List.map_take, migrations_versions, ← List.map_take, List.take_range, Nat.min_eq_left hk]
  have hcast := congrArg (List.map fun v : Nat => (v : Int)) htaken
  rw [List.map_map, List.map_map] at hcast
  exact hfirst.trans hcast

theorem IsPrefix.version_mem {k : Nat} (h : IsPrefix platform k file) (hk : k ≤ 11) {row : MigrationRow}
    (hrow : row ∈ (recorded file).rows) : 1 ≤ row.version ∧ row.version ≤ k := by
  have hmem := List.mem_map_of_mem (f := (·.version)) hrow
  rw [h.versions hk] at hmem
  obtain ⟨i, hi, hsame⟩ := List.mem_map.mp hmem
  have hlt := List.mem_range.mp hi
  omega

theorem toInt_of_range {version : Int} (h : 0 ≤ version ∧ version ≤ 11) : toInt version = version :=
  Int.bmod_eq_of_le_mul_two (by omega) (by omega)

theorem IsPrefix.currentVersion {k : Nat} (h : IsPrefix platform k file) (hk : k ≤ 11) :
    currentVersion file = k := by
  have hmax : (recorded file).maxVersion = k := by
    unfold SchemaMigrations.maxVersion
    have hlast := congrArg List.getLast? (h.versions hk)
    rw [List.getLast?_map, List.getLast?_map, List.getLast?_range] at hlast
    cases hrows : (recorded file).rows.getLast? with
    | none =>
      rw [hrows] at hlast
      by_cases hzero : k = 0
      · rw [hzero]
        rfl
      · rw [if_neg hzero] at hlast
        cases hlast
    | some row =>
      rw [hrows] at hlast
      by_cases hzero : k = 0
      · rw [if_pos hzero] at hlast
        cases hlast
      · rw [if_neg hzero, Option.map_some, Option.map_some] at hlast
        have hversion := Option.some.inj hlast
        show row.version = k
        omega
  unfold Migrations.currentVersion
  rw [hmax]
  exact toInt_of_range (by omega)

/-- **A prefix is accepted.** -/
theorem IsPrefix.verified {k : Nat} (h : IsPrefix platform k file) (hk : k ≤ 11) :
    verifyHistory platform k (recorded file).rows = .ok () := by
  have hexpected : ((recorded file).rows.any fun row => !isExpected platform row) = false := by
    refine List.any_eq_false.mpr fun row hrow => ?_
    have hmem := List.mem_map_of_mem (f := fun row : MigrationRow => (row.version, row.name, row.checksum)) hrow
    rw [h] at hmem
    obtain ⟨migration, hmigration, hsame⟩ := List.mem_map.mp hmem
    have hversion := h.version_mem hk hrow
    have hfound : isExpected platform row = true := by
      refine List.any_eq_true.mpr ⟨migration, List.mem_of_mem_take hmigration, ?_⟩
      obtain ⟨hsameVersion, hrest⟩ := Prod.mk.inj hsame
      obtain ⟨hname, hchecksum⟩ := Prod.mk.inj hrest
      rw [toInt_of_range (by omega), hsameVersion, hname, hchecksum]
      simp only [beq_self_eq_true, Bool.and_self]
    rw [hfound]
    decide
  have hcomplete : ((List.range (k : Int).toNat).any fun i =>
      (recorded file).rows.all fun row => toInt row.version ≠ i + 1) = false := by
    refine List.any_eq_false.mpr fun i hi hall => ?_
    have hmem : (i : Int) + 1 ∈ (recorded file).rows.map (·.version) := by
      rw [h.versions hk]
      exact List.mem_map.mpr ⟨i, hi, rfl⟩
    obtain ⟨row, hrow, hversion⟩ := List.mem_map.mp hmem
    have hne := of_decide_eq_true (List.all_eq_true.mp hall row hrow)
    rw [toInt_of_range (by have := h.version_mem hk hrow; omega)] at hne
    exact hne hversion
  unfold verifyHistory
  rw [hexpected, hcomplete]
  rfl

/-- The row of the next version comes last. -/
theorem Records.rows {k : Nat} {name checksum : QString} {next : LibraryFile σ} (h : IsPrefix platform k file)
    (hk : k ≤ 11) (hrecords : Records (k + 1) name checksum file next) :
    ∃ appliedAt, (recorded next).rows = (recorded file).rows ++ [⟨(k + 1 : Nat), name, checksum, appliedAt⟩] := by
  obtain ⟨-, before, after, appliedAt, hbefore, hinsert, hafter⟩ := hrecords
  have hrecorded : recorded file = before := by
    unfold recorded
    rw [hbefore, Option.getD_some]
  have hbelow : ∀ row ∈ before.rows, row.version < ((k + 1 : Nat) : Int) := fun row hrow => by
    have := h.version_mem hk (show row ∈ (recorded file).rows by rw [hrecorded]; exact hrow)
    omega
  refine ⟨appliedAt, ?_⟩
  unfold SchemaMigrations.insert at hinsert
  split at hinsert
  · cases hinsert
  · cases hinsert
    unfold recorded
    rw [hafter, hbefore, Option.getD_some, Option.getD_some]
    have habove : before.rows.filter (((k + 1 : Nat) : Int) < ·.version) = [] := by
      refine List.filter_eq_nil_iff.mpr fun row hrow habove => ?_
      have := of_decide_eq_true habove
      have := hbelow row hrow
      omega
    show before.rows.filter _ ++ _ :: before.rows.filter _ = _
    rw [List.filter_eq_self.mpr fun row hrow => decide_eq_true (hbelow row hrow), habove]

/-- A library after the first `k` migrations. -/
structure At (platform : MigrationPlatform σ ω) (k : Nat) (file : LibraryFile σ) : Prop where
  bound : k ≤ 11
  first : IsPrefix platform k file
  table : ∃ before, file.migrations = some before
  unread : k < 3 → file.fts5 = none

/-- What the migration commits, from a file at rest. -/
abbrev commits (session : MigrationSession ω) (migration : Migration σ ω) :
    Part (LibraryFile σ) UserFacingError :=
  committed Connection.file atRest (part session migration)

/-- **The step**: the next migration adds its row to those that are there. -/
theorem At.step {k : Nat} {migration : Migration σ ω} {next : LibraryFile σ} (h : At platform k file)
    (hnext : (migrations platform)[k]? = some migration) (hok : commits session migration file = .ok next) :
    At platform (k + 1) next ∧ (recorded file).rows <+: (recorded next).rows := by
  obtain ⟨hbound, hversion⟩ := version_of_getElem? hnext
  have hrecords := (apply_atomic (List.mem_of_getElem? hnext) (session.world migration.version) file).committed hok
  rw [hversion] at hrecords
  obtain ⟨appliedAt, hrows⟩ := hrecords.rows h.first h.bound
  obtain ⟨hfts5, before, after, _, -, -, hafter⟩ := hrecords
  refine ⟨⟨hbound, ?_, ⟨after, hafter⟩, fun hlow => ?_⟩, hrows ▸ List.prefix_append ..⟩
  · unfold IsPrefix
    rw [hrows, List.map_append, h.first, List.take_add_one, hnext, List.map_append, Option.toList_some,
      List.map_singleton, List.map_singleton, hversion]
  · rw [hfts5 hlow, h.unread (by omega)]

/-- **The run**: migrations that go through, one after the other from version `k`. -/
theorem At.run {k i : Nat} {left : LibraryFile σ} (h : At platform k file)
    (hdone : Committed ((((migrations platform).drop k).take i).map (commits session)) file left)
    (hi : i ≤ 11 - k) : At platform (k + i) left ∧ (recorded file).rows <+: (recorded left).rows := by
  have hlength : ((((migrations platform).drop k).take i).map (commits session)).length = i := by
    rw [List.length_map, List.length_take, List.length_drop]
    exact Nat.min_eq_left hi
  have hkept := hdone.invariant (J := fun n d => At platform n d ∧ (recorded file).rows <+: (recorded d).rows)
    (k := k) ⟨h, List.prefix_rfl⟩ fun n part hpart d next hat hok => by
      rw [List.getElem?_map] at hpart
      obtain ⟨migration, hmigration, rfl⟩ := Option.map_eq_some_iff.mp hpart
      have hnext : (migrations platform)[k + n]? = some migration := by
        rw [List.getElem?_take] at hmigration
        split at hmigration
        · rwa [List.getElem?_drop] at hmigration
        · cases hmigration
      obtain ⟨hafter, hrows⟩ := hat.1.step hnext hok
      exact ⟨hafter, hat.2.trans hrows⟩
  rw [hlength] at hkept
  exact hkept

/-! ## Runs -/

/-- Every file that the run can leave when it is stopped. -/
def stops (platform : MigrationPlatform σ ω) (session : MigrationSession ω) (file : LibraryFile σ) :
    List (LibraryFile σ) :=
  ((applyMigrations platform session).stores (connected file)).map Connection.file

/-- How the run ends, and what is in the file then. -/
def ends (platform : MigrationPlatform σ ω) (session : MigrationSession ω) (file : LibraryFile σ) :
    Except UserFacingError Int × LibraryFile σ :=
  outcome Connection.file (applyMigrations platform session) (connected file)

/-- The migrations from version `k` on, one after the other: what they come to, and what they commit. -/
def appliesRemaining (platform : MigrationPlatform σ ω) (session : MigrationSession ω) (k : Nat)
    (file : LibraryFile σ) : Except UserFacingError Int × LibraryFile σ :=
  let run := runParts (((migrations platform).drop k).map (commits session)) file
  (run.1.map fun _ => latestSchemaVersion, run.2)

theorem all_atomic (platform : MigrationPlatform σ ω) (session : MigrationSession ω) (k : Nat) :
    AllAtomic Connection.file atRest (((migrations platform).drop k).map (part session)) := fun work hwork d => by
  obtain ⟨migration, hmigration, rfl⟩ := List.mem_map.mp hwork
  have hatomic := apply_atomic (List.mem_of_mem_drop hmigration) (session.world migration.version) d
  exact ⟨hatomic.undone, fun a t hok => ⟨(hatomic.rests a t hok).1, trivial⟩, hatomic.last, hatomic.once⟩

/-- **An admitted run** applies the remaining migrations, and is stopped after some first of them. -/
theorem run_of_admitted {k : Nat} (h : Admitted platform session file) (hversion : currentVersion file = k)
    (hk : k ≤ 11) (hunread : k < 3 → file.fts5 = none) (hreads : 3 ≤ k → ReadsFts5 platform session file) :
    ends platform session file = appliesRemaining platform session k (opened file) ∧
      ∀ left ∈ stops platform session file, left = file ∨ ∃ i ≤ 11 - k,
        Committed ((((migrations platform).drop k).take i).map (commits session)) (opened file) left := by
  have hopen := openHistory_of_admitted h
  rw [hversion] at hopen
  obtain ⟨passed, hrun, hpassed⟩ := applyFrom_remaining (opened file) hk hunread hreads
  have hwhole := bind_of_run (f := fun v => applyFrom session (migrations platform) v) hopen
  constructor
  · have hlast := outcome_bind_of_last Connection.file
      (f := fun v => applyFrom session (migrations platform) v) (congrArg Prod.snd hopen) (by rw [hopen]; rfl)
    refine hlast.trans ((outcome_of_quiet hrun hpassed rfl).trans ?_)
    refine (outcome_inOrder (fun _ => rfl) _ (all_atomic platform session k) (opened file)).trans ?_
    unfold appliesRemaining
    rw [List.map_map]
    rfl
  · intro left hleft
    obtain ⟨c, hc, rfl⟩ := List.mem_map.mp hleft
    rcases List.mem_cons.mp hc with rfl | hc
    · exact .inl rfl
    refine .inr ?_
    have hnone : ∃ i ≤ 11 - k, Committed ((((migrations platform).drop k).take i).map (commits session))
        (opened file) (opened file) := ⟨0, Nat.zero_le _, .nil _⟩
    have hmem : c ∈ ((openHistory platform session >>= fun v => applyFrom session (migrations platform) v)
        (connected file)).1 := hc
    rw [hwhole] at hmem
    rcases List.mem_append.mp hmem with hfirst | hmem
    · have hsame : c = connected (opened file) := by
        simp only [List.mem_cons, List.not_mem_nil, or_false, or_self] at hfirst
        exact hfirst
      rw [hsame]
      exact hnone
    rw [hrun] at hmem
    rcases List.mem_append.mp hmem with hskipped | hmem
    · rw [hpassed c hskipped]
      exact hnone
    obtain ⟨done, pending, hparts, hdone⟩ := stops_inOrder (fun _ => rfl) (11 : Int) (all_atomic platform session k)
      (List.mem_cons_of_mem _ hmem)
    refine ⟨done.length, ?_, ?_⟩
    · have hlength := congrArg List.length hparts
      rw [List.length_map, List.length_drop, List.length_append] at hlength
      have htotal : (migrations platform).length = 11 := rfl
      omega
    · have htaken : done = (((migrations platform).drop k).take done.length).map (part session) := by
        rw [List.map_take, hparts, List.take_left]
      rw [htaken, List.map_map] at hdone
      exact hdone

/-- No migration has been applied yet. -/
def Unmigrated (file : LibraryFile σ) : Prop := file.migrations = none ∧ file.fts5 = none

/-- The row `fts5` can be read where the run has to. -/
def Reads (platform : MigrationPlatform σ ω) (session : MigrationSession ω) (file : LibraryFile σ) : Prop :=
  3 ≤ currentVersion file → ReadsFts5 platform session file

/-- What stopped runs leave, one after the other. -/
inductive Left (platform : MigrationPlatform σ ω) (start : LibraryFile σ) : LibraryFile σ → Prop
  | unmigrated : Left platform start start
  | stopped {file left : LibraryFile σ} (session : MigrationSession ω) : Left platform start file →
    Reads platform session file → left ∈ stops platform session file → Left platform start left

/-- Nothing outside of the history keeps the run from its migrations. -/
def Unhindered (platform : MigrationPlatform σ ω) (session : MigrationSession ω) (file : LibraryFile σ) : Prop :=
  Opens platform (session.world 0) file ∧
    (0 < currentVersion file ∧ currentVersion file < latestSchemaVersion ∧ session.createMigrationBackup = true →
      session.createBackup = .ok ())

theorem IsPrefix.admitted {k : Nat} (h : IsPrefix platform k file) (hk : k ≤ 11)
    (hunhindered : Unhindered platform session file) : Admitted platform session file where
  opens := hunhindered.1
  known := by
    rw [h.currentVersion hk]
    exact Int.ofNat_le.mpr hk
  verified := by
    rw [h.currentVersion hk]
    exact h.verified hk
  backup := hunhindered.2

/-- Where a library that was left comes from: it is the first one, or one run has led to it. -/
inductive Came (platform : MigrationPlatform σ ω) (start left : LibraryFile σ) : Nat → Prop
  | first : opened left = opened start → Came platform start left 0
  | after {k : Nat} (world : Nat → Nat → ω) : 0 < k → Opens platform (world 0) start →
    Committed (((migrations platform).take k).map fun migration =>
      committed Connection.file atRest (migration.apply (world migration.version))) (opened start) left →
    Came platform start left k

/-- **A refused run** fails, and leaves all rows and tables as they were. -/
theorem run_of_refused (h : ¬ Admitted platform session file) :
    (∃ error, (ends platform session file).1 = .error error) ∧
      ∀ left ∈ stops platform session file, left = file ∨ left = opened file := by
  obtain ⟨passed, e, hrun, hpassed⟩ : Refuses (applyMigrations platform session) file (connected file) :=
    (openHistory_refuses h).bind
  constructor
  · refine ⟨e, ?_⟩
    unfold ends
    rw [outcome_of_error (congrArg Prod.snd hrun)]
  · intro left hleft
    obtain ⟨c, hc, rfl⟩ := List.mem_map.mp hleft
    rcases List.mem_cons.mp hc with rfl | hc
    · exact .inl rfl
    · rw [hrun] at hc
      exact hpassed c hc

/-- What the parts of the first `k` migrations meet, and then those of the others. -/
def spliced (k : Nat) (first later : Nat → Nat → ω) : Nat → Nat → ω := fun version =>
  if version ≤ k then first version else later version

theorem commits_spliced_take (k : Nat) (first later : Nat → Nat → ω) :
    (((migrations platform).take k).map fun migration =>
        committed Connection.file atRest (migration.apply (spliced k first later migration.version))) =
      ((migrations platform).take k).map fun migration =>
        committed Connection.file atRest (migration.apply (first migration.version)) := by
  refine List.map_congr_left fun migration hmem => ?_
  unfold spliced
  rw [if_pos (version_of_mem_take hmem).2]

theorem commits_spliced_drop (k : Nat) (first later : Nat → Nat → ω) :
    (((migrations platform).drop k).map fun migration =>
        committed Connection.file atRest (migration.apply (spliced k first later migration.version))) =
      ((migrations platform).drop k).map fun migration =>
        committed Connection.file atRest (migration.apply (later migration.version)) := by
  refine List.map_congr_left fun migration hmem => ?_
  unfold spliced
  rw [if_neg (Nat.not_le.mpr (version_of_mem_drop hmem))]

/-- Some more migrations after the first `k`. -/
theorem Came.further {start left : LibraryFile σ} {k i : Nat} (h : Came platform start file k)
    (hsame : 0 < k → opened file = file) (hi : 0 < i) (hopens : Opens platform (session.world 0) file)
    (hdone : Committed ((((migrations platform).drop k).take i).map (commits session)) (opened file) left) :
    Came platform start left (k + i) := by
  cases h with
  | first hstart =>
    have htables := congrArg LibraryFile.tables hstart
    change file.tables = start.tables at htables
    refine .after session.world (by omega) ?_ ?_
    · unfold Opens at hopens ⊢
      rwa [htables] at hopens
    · rw [List.drop_zero] at hdone
      rw [Nat.zero_add, ← hstart]
      exact hdone
  | after world hk hfirst hbefore =>
    refine .after (spliced k world session.world) (by omega) ?_ ?_
    · unfold spliced
      rw [if_pos (Nat.zero_le k)]
      exact hfirst
    · rw [List.take_add, List.map_append, commits_spliced_take, List.map_take (l := (migrations platform).drop k),
        commits_spliced_drop, ← List.map_take]
      rw [hsame hk] at hdone
      exact hbefore.append hdone

/-- **Every library that was left** is at some first migrations, and one run has led to it. -/
theorem Left.came {start left : LibraryFile σ} (hstart : Unmigrated start) (h : Left platform start left) :
    ∃ k, At platform k (opened left) ∧ Came platform start left k ∧ (0 < k → opened left = left) := by
  induction h with
  | unmigrated =>
    refine ⟨0, ⟨Nat.zero_le _, ?_, ⟨_, rfl⟩, fun _ => hstart.2⟩, .first rfl, fun h => absurd h (Nat.lt_irrefl 0)⟩
    unfold IsPrefix
    rw [recorded_opened, recorded, hstart.1]
    rfl
  | @stopped file left session hfile hreads hleft ih =>
    obtain ⟨k, hat, hcame, hsame⟩ := ih
    have hversion : currentVersion file = k := hat.first.currentVersion hat.bound
    have hstay : left = file ∨ left = opened file →
        ∃ k, At platform k (opened left) ∧ Came platform start left k ∧ (0 < k → opened left = left) := by
      rintro (rfl | rfl)
      · exact ⟨k, hat, hcame, hsame⟩
      · refine ⟨k, hat, ?_, fun _ => rfl⟩
        cases hcame with
        | first hfirst => exact .first hfirst
        | after world hk hopens hdone => exact .after world hk hopens (hsame hk ▸ hdone)
    by_cases hadmitted : Admitted platform session file
    · obtain ⟨-, hstops⟩ := run_of_admitted hadmitted hversion hat.bound hat.unread
        fun hhigh => hreads (by rw [hversion]; exact Int.ofNat_le.mpr hhigh)
      rcases hstops left hleft with hfirst | ⟨i, hi, hdone⟩
      · exact hstay (.inl hfirst)
      rcases Nat.eq_zero_or_pos i with rfl | hpos
      · rw [List.take_zero] at hdone
        cases hdone
        exact hstay (.inr rfl)
      · obtain ⟨hafter, -⟩ := hat.run hdone hi
        obtain ⟨before, htable⟩ := hafter.table
        have hopened := opened_of_some htable
        exact ⟨k + i, hopened.symm ▸ hafter, hcame.further hsame hpos hadmitted.opens hdone, fun _ => hopened⟩
    · exact hstay ((run_of_refused hadmitted).2 left hleft)

/-- **Taking up**: the remaining migrations are what an uninterrupted run would have come to. -/
theorem Came.uninterrupted {start left : LibraryFile σ} {k : Nat} (hstart : Unmigrated start)
    (h : Came platform start left k) (hat : At platform k (opened left)) (hsame : 0 < k → opened left = left)
    (hadmitted : Admitted platform session left) (hreads : Reads platform session left) :
    ∃ whole : MigrationSession ω, (∀ version, k < version → whole.world version = session.world version) ∧
      ends platform session left = ends platform whole start := by
  have hversion : currentVersion left = k := hat.first.currentVersion hat.bound
  have hresumed := (run_of_admitted hadmitted hversion hat.bound hat.unread
    fun hhigh => hreads (by rw [hversion]; exact Int.ofNat_le.mpr hhigh)).1
  have hzero : IsPrefix platform 0 start := by
    unfold IsPrefix recorded
    rw [hstart.1]
    rfl
  have hfresh : currentVersion start = (0 : Nat) := hzero.currentVersion (Nat.zero_le _)
  have hwhole : ∀ whole : MigrationSession ω, Opens platform (whole.world 0) start →
      ends platform whole start = appliesRemaining platform whole 0 (opened start) := fun whole hopens =>
    (run_of_admitted (hzero.admitted (Nat.zero_le _) ⟨hopens, fun hbackup => absurd hbackup.1 (by rw [hfresh]; decide)⟩)
      hfresh (Nat.zero_le _) (fun _ => hstart.2) fun hhigh => absurd hhigh (by decide)).1
  cases h with
  | first hfirst =>
    have htables := congrArg LibraryFile.tables hfirst
    change left.tables = start.tables at htables
    have hopens := hadmitted.opens
    unfold Opens at hopens
    rw [htables] at hopens
    refine ⟨session, fun _ _ => rfl, ?_⟩
    rw [hresumed, hwhole session hopens, hfirst]
  | after world hk hopens hdone =>
    let whole : MigrationSession ω := { session with world := spliced k world session.world }
    refine ⟨whole, fun version hlater => if_neg (Nat.not_le.mpr hlater), ?_⟩
    have hopens' : Opens platform (whole.world 0) start := by
      show Opens platform (spliced k world session.world 0) start
      unfold spliced
      rw [if_pos (Nat.zero_le k)]
      exact hopens
    have hsplit : (migrations platform).map (commits whole) =
        ((migrations platform).take k).map (fun migration =>
          committed Connection.file atRest (migration.apply (world migration.version))) ++
        ((migrations platform).drop k).map (commits session) := by
      rw [← commits_spliced_take k world session.world, ← commits_spliced_drop k world session.world,
        ← List.map_append, List.take_append_drop]
    rw [hresumed, hwhole whole hopens', hsame hk]
    unfold appliesRemaining
    rw [List.drop_zero, hsplit, hdone.resume]

/-- What the remaining migrations leave of the rows, and what they add. -/
theorem At.remaining {k : Nat} (h : At platform k file) (session : MigrationSession ω) :
    (recorded file).rows <+: (recorded (appliesRemaining platform session k file).2).rows ∧
      ∀ version, (appliesRemaining platform session k file).1 = .ok version →
        version = latestSchemaVersion ∧ IsPrefix platform 11 (appliesRemaining platform session k file).2 := by
  obtain ⟨i, hi, hdone, hall⟩ := runParts_committed (((migrations platform).drop k).map (commits session)) file
  have hlength : (((migrations platform).drop k).map (commits session)).length = 11 - k := by
    rw [List.length_map, List.length_drop]
    rfl
  rw [hlength] at hi hall
  rw [← List.map_take] at hdone
  obtain ⟨hafter, hrows⟩ := h.run hdone hi
  refine ⟨hrows, fun version hok => ?_⟩
  obtain ⟨u, hu, rfl⟩ := of_map_eq_ok hok
  refine ⟨rfl, ?_⟩
  have hfirst := hafter.first
  rw [hall u hu, Nat.add_sub_cancel' h.bound] at hfirst
  exact hfirst

/-! ## Histories that are not of this build -/

/-- A wrong checksum or name, a gap, or an unknown version. -/
inductive Damaged (platform : MigrationPlatform σ ω) (rows : List MigrationRow) : Prop
  | wrong (row : MigrationRow) (migration : Migration σ ω) : row ∈ rows → migration ∈ migrations platform →
    row.version = migration.version → (row.name ≠ migration.name ∨ row.checksum ≠ migration.checksum) →
    Damaged platform rows
  | gap (row : MigrationRow) (version : Int) : row ∈ rows → 1 ≤ version → version < row.version →
    (∀ other ∈ rows, other.version ≠ version) → Damaged platform rows
  | unknown (row : MigrationRow) : row ∈ rows →
    (∀ migration ∈ migrations platform, row.version ≠ migration.version) → Damaged platform rows

/-- No other version reads as a known one, with its name and its checksum. -/
def NoImpostor (platform : MigrationPlatform σ ω) (rows : List MigrationRow) : Prop :=
  ∀ row ∈ rows, ∀ migration ∈ migrations platform, toInt row.version = migration.version →
    row.name = migration.name → row.checksum = migration.checksum → row.version = migration.version

theorem expected_of_verified {rows : List MigrationRow} {version : Int}
    (h : verifyHistory platform version rows = .ok ()) {row : MigrationRow} (hrow : row ∈ rows) :
    ∃ migration ∈ migrations platform, toInt row.version = migration.version ∧ row.name = migration.name ∧
      row.checksum = migration.checksum := by
  unfold verifyHistory at h
  split at h
  · cases h
  · next hall =>
    have hexpected : isExpected platform row = true := by
      by_contra hnot
      exact hall (List.any_eq_true.mpr ⟨row, hrow, by rw [Bool.not_eq_true _ |>.mp hnot]; rfl⟩)
    obtain ⟨migration, hmem, hsame⟩ := List.any_eq_true.mp hexpected
    simp only [Bool.and_eq_true, beq_iff_eq] at hsame
    exact ⟨migration, hmem, hsame.1.1.symm, hsame.1.2.symm, hsame.2.symm⟩

theorem complete_of_verified {rows : List MigrationRow} {version : Int}
    (h : verifyHistory platform version rows = .ok ()) {v : Int} (hpos : 1 ≤ v) (hle : v ≤ version) :
    ∃ row ∈ rows, toInt row.version = v := by
  unfold verifyHistory at h
  split at h
  · cases h
  split at h
  · cases h
  · next hall =>
    by_contra hnone
    refine hall (List.any_eq_true.mpr ⟨(v - 1).toNat, List.mem_range.mpr (by omega), ?_⟩)
    refine List.all_eq_true.mpr fun row hrow => decide_eq_true fun hsame => hnone ⟨row, hrow, ?_⟩
    omega

theorem migration_eq_of_version {first second : Migration σ ω} (hfirst : first ∈ migrations platform)
    (hsecond : second ∈ migrations platform) (h : first.version = second.version) : first = second := by
  obtain ⟨i, hi⟩ := List.mem_iff_getElem?.mp hfirst
  obtain ⟨j, hj⟩ := List.mem_iff_getElem?.mp hsecond
  have hfirstVersion := (version_of_getElem? hi).2
  have hsecondVersion := (version_of_getElem? hj).2
  have hsame : i = j := by omega
  rw [hsame, hj] at hi
  exact (Option.some.inj hi).symm

theorem SchemaMigrations.le_maxVersion (before : SchemaMigrations) {row : MigrationRow} (h : row ∈ before.rows) :
    row.version ≤ before.maxVersion ∧ ∃ last ∈ before.rows, before.maxVersion = last.version := by
  unfold SchemaMigrations.maxVersion
  cases hlast : before.rows.getLast? with
  | none =>
    rw [List.getLast?_eq_none_iff.mp hlast] at h
    cases h
  | some last =>
    obtain ⟨earlier, hrows⟩ := List.getLast?_eq_some_iff.mp hlast
    have hordered := before.ordered
    rw [hrows] at hordered h
    refine ⟨?_, last, List.mem_of_getLast? hlast, rfl⟩
    rcases List.mem_append.mp h with hmem | hmem
    · exact Int.le_of_lt ((List.pairwise_append.mp hordered).2.2 row hmem last (List.mem_singleton_self _))
    · exact Int.le_of_eq (congrArg MigrationRow.version (List.mem_singleton.mp hmem))

/-- **A damaged history is refused**, unless a row of it passes for another. -/
theorem not_admitted_of_damaged (session : MigrationSession ω) {before : SchemaMigrations}
    (htable : file.migrations = some before)
    (hclean : NoImpostor platform before.rows) (hdamaged : Damaged platform before.rows) :
    ¬ Admitted platform session file := by
  intro hadmitted
  have hrecorded : recorded file = before := by
    unfold recorded
    rw [htable, Option.getD_some]
  have hverified := hadmitted.verified
  rw [hrecorded] at hverified
  have hown : ∀ row ∈ before.rows, ∃ migration ∈ migrations platform, row.version = migration.version ∧
      row.name = migration.name ∧ row.checksum = migration.checksum := fun row hrow => by
    obtain ⟨migration, hmem, hversion, hname, hchecksum⟩ := expected_of_verified hverified hrow
    exact ⟨migration, hmem, hclean row hrow migration hmem hversion hname hchecksum, hname, hchecksum⟩
  have hrange : ∀ row ∈ before.rows, 1 ≤ row.version ∧ row.version ≤ 11 := fun row hrow => by
    obtain ⟨migration, hmem, hversion, -⟩ := hown row hrow
    obtain ⟨i, hi⟩ := List.mem_iff_getElem?.mp hmem
    obtain ⟨hbound, hnumber⟩ := version_of_getElem? hi
    omega
  cases hdamaged with
  | wrong row migration hrow hmem hversion hwrong =>
    obtain ⟨other, hother, hsame, hname, hchecksum⟩ := hown row hrow
    have heq := migration_eq_of_version hmem hother (Int.ofNat.inj (hversion.symm.trans hsame))
    rw [heq] at hwrong
    exact hwrong.elim (fun h => h hname) fun h => h hchecksum
  | unknown row hrow hunknown =>
    obtain ⟨migration, hmem, hversion, -⟩ := hown row hrow
    exact hunknown migration hmem hversion
  | gap row version hrow hpos hlt hmissing =>
    obtain ⟨hle, last, hlast, hmax⟩ := before.le_maxVersion hrow
    have hcurrent : currentVersion file = before.maxVersion := by
      have := hrange last hlast
      unfold currentVersion
      rw [hrecorded, hmax]
      exact toInt_of_range (by omega)
    obtain ⟨other, hother, hsame⟩ := complete_of_verified hverified hpos (by rw [hcurrent]; omega)
    have := hrange other hother
    rw [toInt_of_range (by omega)] at hsame
    exact hmissing other hother hsame

/-! ## Result -/

/-- What taking up the migrations on a library comes to that was left at version `k`. -/
structure Resumes (platform : MigrationPlatform σ ω) (session : MigrationSession ω) (start left : LibraryFile σ)
    (k : Nat) : Prop where
  hindered : ¬ Unhindered platform session left → (∃ error, (ends platform session left).1 = .error error) ∧
    ∀ stop ∈ stops platform session left, stop = left ∨ stop = opened left
  /-- Exactly the remaining migrations are applied. -/
  applies : Unhindered platform session left →
    ends platform session left = appliesRemaining platform session k (opened left)
  /-- The result is that of an uninterrupted run, in which these migrations meet the same. -/
  uninterrupted : Unhindered platform session left → ∃ whole : MigrationSession ω,
    (∀ version, k < version → whole.world version = session.world version) ∧
      ends platform session left = ends platform whole start
  kept : Unhindered platform session left →
    (recorded left).rows <+: (recorded (ends platform session left).2).rows
  complete : Unhindered platform session left → ∀ version, (ends platform session left).1 = .ok version →
    version = latestSchemaVersion ∧ IsPrefix platform 11 (ends platform session left).2

/-- Resumability: a library that stopped runs have left is at some first migrations, and the next run goes on from
    there; a damaged history without an impostor makes the run fail, and nothing is changed. -/
theorem applyMigrations_resumes (platform : MigrationPlatform σ ω) :
    (∀ start left, Unmigrated start → Left platform start left → ∃ k ≤ 11, IsPrefix platform k left ∧
      ∀ session, Reads platform session left → Resumes platform session start left k) ∧
    ∀ (file : LibraryFile σ) before session, file.migrations = some before → NoImpostor platform before.rows →
      Damaged platform before.rows → (∃ error, (ends platform session file).1 = .error error) ∧
        ∀ stop ∈ stops platform session file, stop = file := by
  constructor
  · intro start left hstart hleft
    obtain ⟨k, hat, hcame, hsame⟩ := hleft.came hstart
    have hfirst : IsPrefix platform k left := hat.first
    refine ⟨k, hat.bound, hfirst, fun session hreads => ?_⟩
    have hversion : currentVersion left = k := hfirst.currentVersion hat.bound
    have happlies : Unhindered platform session left →
        ends platform session left = appliesRemaining platform session k (opened left) := fun h =>
      (run_of_admitted (hfirst.admitted hat.bound h) hversion hat.bound hat.unread
        fun hhigh => hreads (by rw [hversion]; exact Int.ofNat_le.mpr hhigh)).1
    refine ⟨fun h => run_of_refused fun hadmitted => h ⟨hadmitted.opens, hadmitted.backup⟩, happlies, fun h => ?_,
      fun h => ?_, fun h => ?_⟩
    · exact hcame.uninterrupted hstart hat hsame (hfirst.admitted hat.bound h) hreads
    · rw [happlies h]
      exact (hat.remaining session).1
    · rw [happlies h]
      exact (hat.remaining session).2
  · intro file before session htable hclean hdamaged
    obtain ⟨hfails, hstops⟩ := run_of_refused (not_admitted_of_damaged session htable hclean hdamaged)
    refine ⟨hfails, fun stop hstop => (hstops stop hstop).elim id fun hopened => ?_⟩
    rw [hopened, opened_of_some htable]

/-! ## An impostor -/

def rowOf (migration : Migration σ ω) : MigrationRow :=
  ⟨migration.version, migration.name, migration.checksum, qs "2024-01-01T00:00:00.000Z"⟩

/-- A row of an unknown version that reads as the last migration. -/
def impostor (platform : MigrationPlatform σ ω) : MigrationRow :=
  ⟨2 ^ 32 + 11, qs "recording_artifact_deletion_outbox", migrationChecksum platform recordingArtifactDeletionSchema,
    qs "2024-01-01T00:00:00.000Z"⟩

def impostorRows (platform : MigrationPlatform σ ω) : SchemaMigrations where
  rows := ((migrations platform).take 10).map rowOf ++ [impostor platform]
  ordered := by
    refine List.pairwise_map.mp (?_ : List.Pairwise (· < ·) (List.map (fun row : MigrationRow => row.version) _))
    show ([1, 2, 3, 4, 5, 6, 7, 8, 9, 10, 2 ^ 32 + 11] : List Int).Pairwise (· < ·)
    decide

theorem impostorRows_versions (platform : MigrationPlatform σ ω) :
    (impostorRows platform).rows.map (·.version) = [1, 2, 3, 4, 5, 6, 7, 8, 9, 10, 2 ^ 32 + 11] := rfl

theorem isExpected_of {row : MigrationRow} {migration : Migration σ ω} (h : migration ∈ migrations platform)
    (hversion : toInt row.version = migration.version) (hname : row.name = migration.name)
    (hchecksum : row.checksum = migration.checksum) : isExpected platform row = true := by
  refine List.any_eq_true.mpr ⟨migration, h, ?_⟩
  rw [hversion, hname, hchecksum]
  simp only [beq_self_eq_true, Bool.and_self]

theorem impostor_verified (platform : MigrationPlatform σ ω) :
    verifyHistory platform 11 (impostorRows platform).rows = .ok () := by
  have hexpected : ((impostorRows platform).rows.any fun row => !isExpected platform row) = false := by
    refine List.any_eq_false.mpr fun row hrow => ?_
    have hfound : isExpected platform row = true := by
      rcases List.mem_append.mp hrow with hmem | hmem
      · obtain ⟨migration, hmigration, rfl⟩ := List.mem_map.mp hmem
        have := version_of_mem_take hmigration
        exact isExpected_of (List.mem_of_mem_take hmigration) (toInt_of_range (by
          show 0 ≤ (migration.version : Int) ∧ (migration.version : Int) ≤ 11
          omega)) rfl rfl
      · rw [List.mem_singleton.mp hmem]
        have hlast : (migrations platform)[10]? =
            some (ofStatements platform 11 "recording_artifact_deletion_outbox" recordingArtifactDeletionSchema) := rfl
        have hcut : toInt (2 ^ 32 + 11) = 11 := by decide
        exact isExpected_of (List.mem_of_getElem? hlast) hcut rfl rfl
    rw [hfound]
    decide
  have hcomplete : ((List.range (11 : Int).toNat).any fun i =>
      (impostorRows platform).rows.all fun row => toInt row.version ≠ i + 1) = false := by
    have hall : ∀ i : Nat, ((impostorRows platform).rows.all fun row => toInt row.version ≠ i + 1) =
        ([1, 2, 3, 4, 5, 6, 7, 8, 9, 10, 2 ^ 32 + 11] : List Int).all fun version => toInt version ≠ i + 1 := by
      intro i
      rw [← impostorRows_versions platform, List.all_map]
      rfl
    simp only [hall]
    decide
  unfold verifyHistory
  rw [hexpected, hcomplete]
  rfl

/-- An engine that lets every statement through, with any hash function. -/
def permissive (sha256Hex : QString → QString) : MigrationPlatform Unit Unit where
  exec _ _ _ _ := .ok ()
  select _ _ _ _ := .ok []
  permits _ _ _ _ := .ok ()
  transaction _ := .ok ()
  commit _ := .ok ()
  nowStorageString _ := qs "2024-01-02T00:00:00.000Z"
  sha256Hex

def impostorFile (sha256Hex : QString → QString) : LibraryFile Unit :=
  ⟨(), some (true, qs "SQLite FTS5 trigram virtual table"), some (impostorRows (permissive sha256Hex))⟩

/-- Whatever the hash function is: version `2 ^ 32 + 11` is unknown and version 11 is missing, and the run succeeds. -/
theorem applyMigrations_impostor :
    {sha256Hex | ¬ (Damaged (permissive sha256Hex) (impostorRows (permissive sha256Hex)).rows ∧
      ends (permissive sha256Hex) ⟨fun _ _ => (), true, .ok ()⟩ (impostorFile sha256Hex) =
        (.ok 11, impostorFile sha256Hex))} = ∅ := by
  refine Set.eq_empty_iff_forall_notMem.mpr fun sha256Hex hnot => hnot ⟨?_, ?_⟩
  · have hbelow : (11 : Int) < 2 ^ 32 + 11 := by decide
    refine .gap (impostor _) 11 (List.mem_append_right _ (List.mem_singleton_self _)) (by decide) hbelow
      fun row hrow hsame => ?_
    have hmem := List.mem_map_of_mem (f := (·.version)) hrow
    rw [impostorRows_versions, hsame] at hmem
    exact absurd hmem (by decide)
  · have hversion : currentVersion (impostorFile sha256Hex) = (11 : Nat) := by
      show toInt (2 ^ 32 + 11) = 11
      decide
    have hadmitted : Admitted (permissive sha256Hex) ⟨fun _ _ => (), true, .ok ()⟩ (impostorFile sha256Hex) :=
      ⟨⟨rfl, rfl, rfl⟩, hversion.le, by rw [hversion]; exact impostor_verified _, fun _ => rfl⟩
    exact (run_of_admitted hadmitted hversion (Nat.le_refl 11) (fun h => absurd h (by decide)) fun _ => rfl).1

end BreezeDesk.Migrations
