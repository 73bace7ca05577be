/-
  `DatabaseManager::applyMigrations`: the migrator of the library's schema.

  Of the file, the rows of `schema_migrations` and the row `fts5` of `database_features` are what the
  migrator itself reads; all else in it is `tables`, a state of the database engine, and what a statement
  does to it is the engine's (`MigrationPlatform`).  A statement may fail; that depends on its text, its
  values, the tables, and on what it meets outside the file (`ω`: the clock, the space on the disk).  The
  numbering of these is the session's: `world version` is what the statements of that migration meet one
  after the other, `world 0` what those before the first migration do.

  A run is a process over a `Connection`: every statement is a step, and what a stop leaves is `file`.  While a
  transaction is open the statements work on its own copy, which only a commit puts into the file.
-/
import BreezeDesk.Database.MigrationStatements
import BreezeDesk.Library.Resumable

namespace BreezeDesk.Migrations

open Process Resumable

/-! ## The file -/

inductive QVariant where
  | null
  | integer (value : Int)
  | text (value : QString)
  deriving DecidableEq

/-- `toString` of what the migrator reads as text. -/
def QVariant.toText : QVariant → QString
  | .text value => value
  | _ => []

structure MigrationRow where
  version : Int
  name : QString
  checksum : QString
  appliedAt : QString
  deriving DecidableEq

/-- The rows of `schema_migrations`; `version` is the primary key. -/
structure SchemaMigrations where
  rows : List MigrationRow
  ordered : rows.Pairwise fun earlier later => earlier.version < later.version

namespace SchemaMigrations

def empty : SchemaMigrations := ⟨[], .nil⟩

/-- `INSERT`: the key must be new. -/
def insert (migrations : SchemaMigrations) (row : MigrationRow) : Option SchemaMigrations :=
  if ∃ other ∈ migrations.rows, other.version = row.version then none
  else some
    { rows := migrations.rows.filter (·.version < row.version) ++
        row :: migrations.rows.filter (row.version < ·.version)
      ordered := by
        refine List.pairwise_append.mpr ⟨migrations.ordered.filter _, ?_, fun earlier hearlier later hlater => ?_⟩
        · refine List.pairwise_cons.mpr ⟨fun later hlater => ?_, migrations.ordered.filter _⟩
          exact of_decide_eq_true (List.mem_filter.mp hlater).2
        · have hbelow : earlier.version < row.version := of_decide_eq_true (List.mem_filter.mp hearlier).2
          rcases List.mem_cons.mp hlater with rfl | hlater
          · exact hbelow
          · have habove : row.version < later.version := of_decide_eq_true (List.mem_filter.mp hlater).2
            exact Int.lt_trans hbelow habove }

/-- `COALESCE(MAX(version), 0)`. -/
def maxVersion (migrations : SchemaMigrations) : Int :=
  match migrations.rows.getLast? with
  | some row => row.version
  | none => 0

end SchemaMigrations

structure LibraryFile (σ : Type) where
  tables : σ
  /-- The row `fts5` of `database_features`: `enabled` and `detail`. -/
  fts5 : Option (Bool × QString)
  migrations : Option SchemaMigrations

namespace LibraryFile

variable {σ : Type}

def setTables (file : LibraryFile σ) (tables : σ) : LibraryFile σ := { file with tables }

def setFts5 (file : LibraryFile σ) (enabled : Bool) (detail : QString) : LibraryFile σ :=
  { file with fts5 := some (enabled, detail) }

def setMigrations (file : LibraryFile σ) (migrations : SchemaMigrations) : LibraryFile σ :=
  { file with migrations := some migrations }

end LibraryFile

/-! ## The engine and the session -/

structure MigrationPlatform (σ ω : Type) where
  /-- A statement that changes the tables. -/
  exec : ω → QString → List QVariant → σ → Except QString σ
  select : ω → QString → List QVariant → σ → Except QString (List (List QVariant))
  /-- Whether a statement on the rows that are kept beside the tables goes through. -/
  permits : ω → QString → List QVariant → σ → Except QString Unit
  transaction : ω → Except QString Unit
  commit : ω → Except QString Unit
  nowStorageString : ω → QString
  /-- `QCryptographicHash::hash(text.toUtf8(), Sha256).toHex()`. -/
  sha256Hex : QString → QString

structure MigrationSession (ω : Type) where
  world : Nat → Nat → ω
  createMigrationBackup : Bool
  /-- What `createBackup` comes to, if it is called. -/
  createBackup : Except UserFacingError Unit

/-- The connection, and `m_hasFts5` of the manager that uses it. -/
structure Connection (σ : Type) where
  file : LibraryFile σ
  /-- The copy that the open transaction works on. -/
  working : Option (LibraryFile σ)
  hasFts5 : Bool
  /-- How many statements have run since the last transaction. -/
  statement : Nat

namespace Connection

variable {σ : Type}

def view (c : Connection σ) : LibraryFile σ := c.working.getD c.file

def counted (c : Connection σ) : Connection σ := { c with statement := c.statement + 1 }

/-- A statement outside of a transaction commits itself. -/
def put (c : Connection σ) (next : LibraryFile σ) : Connection σ :=
  match c.working with
  | some _ => { c with working := some next }
  | none => { c with file := next }

def begin (c : Connection σ) : Connection σ := { c with working := some c.file }

def committed (c : Connection σ) : Connection σ := { c with file := c.view, working := none, statement := 0 }

def rollback (c : Connection σ) : Connection σ := { c with working := none, statement := 0 }

end Connection

abbrev Migrator (σ α : Type) := Process (Connection σ) UserFacingError α

variable {σ ω α : Type}

def migrationError (message : String) : UserFacingError := .ofDatabase .databaseMigrationFailed (qs message)

/-- `if (!query.exec()) return failure(message)`. -/
def orFail (message : String) (work : Migrator σ (Except QString α)) : Migrator σ α := do
  let result ← work
  lift (result.mapError fun _ => migrationError message)

section Statements

variable (platform : MigrationPlatform σ ω) (world : Nat → ω)

/-- One statement, in what it meets. -/
def statement (effect : ω → LibraryFile σ → Except QString (α × LibraryFile σ)) :
    Migrator σ (Except QString α) :=
  call fun c =>
    match effect (world c.statement) c.view with
    | .ok (a, next) => (.ok a, (c.put next).counted)
    | .error text => (.error text, c.counted)

def exec (sql : QString) (values : List QVariant) : Migrator σ (Except QString Unit) :=
  statement world fun met file =>
    (platform.exec met sql values file.tables).map fun tables => ((), file.setTables tables)

def select (sql : QString) (values : List QVariant) : Migrator σ (Except QString (List (List QVariant))) :=
  statement world fun met file => (platform.select met sql values file.tables).map fun rows => (rows, file)

/-- A query for rows that are kept beside the tables. -/
def query (met : ω) (sql : QString) : Migrator σ (Except QString (LibraryFile σ)) :=
  call fun c => ((platform.permits met sql [] c.view.tables).map fun _ => c.view, c)

/-- `execute(database, statement, &error)`. -/
def execute (sql : QString) : Migrator σ Unit :=
  orFail "A database schema update could not be applied." (exec platform world sql [])

def executeAll : List QString → Migrator σ Unit
  | [] => pure ()
  | sql :: pending => do
    execute platform world sql
    executeAll pending

def setHasFts5 (enabled : Bool) : Migrator σ Unit := call fun c => ((), { c with hasFts5 := enabled })

def insertFeatureSql : QString :=
  qs "INSERT OR REPLACE INTO database_features(name, enabled, detail) VALUES('fts5', ?, ?)"

def insertFeature (enabled : Bool) (detail : QString) : Migrator σ (Except QString Unit) :=
  statement world fun met file =>
    (platform.permits met insertFeatureSql [.integer (if enabled then 1 else 0), .text detail] file.tables).map
      fun _ => ((), file.setFts5 enabled detail)

def recordSql : QString :=
  qs "INSERT INTO schema_migrations(version, name, checksum, applied_at) VALUES(?, ?, ?, ?)"

/-- The row of the migration.  Its values are bound, or part of the text; that makes no difference. -/
def record (version : Nat) (name checksum : QString) : Migrator σ (Except QString Unit) :=
  statement world fun met file =>
    let appliedAt := platform.nowStorageString met
    let values := [.integer version, .text name, .text checksum, .text appliedAt]
    match platform.permits met recordSql values file.tables with
    | .error text => .error text
    | .ok () =>
      match file.migrations with
      | none => .error (qs "no such table: schema_migrations")
      | some migrations =>
        match migrations.insert ⟨version, name, checksum, appliedAt⟩ with
        | none => .error (qs "UNIQUE constraint failed: schema_migrations.version")
        | some migrations => .ok ((), file.setMigrations migrations)

def beginTransaction : Migrator σ (Except QString Unit) :=
  call fun c =>
    match platform.transaction (world c.statement) with
    | .ok () => (.ok (), c.begin.counted)
    | .error text => (.error text, c.counted)

def commitTransaction : Migrator σ (Except QString Unit) :=
  call fun c =>
    match platform.commit (world c.statement) with
    | .ok () => (.ok (), c.committed)
    | .error text => (.error text, c.counted)

/-- A migration: its work, its row, and the commit; whatever fails after the start is followed by a rollback. -/
def inTransaction (started recorded committed : String) (version : Nat) (name checksum : QString)
    (work : Migrator σ Unit) : Migrator σ Unit := do
  orFail started (beginTransaction platform world)
  rescue (do
    work
    orFail recorded (record platform world version name checksum)
    orFail committed (commitTransaction platform world)) Connection.rollback

/-! ## The migrations -/

/-- `migrationChecksum`: of the statements, joined with line feeds. -/
def migrationChecksum (statements : List QString) : QString :=
  platform.sha256Hex ([(0x0A : QChar)].intercalate statements)

def applyStatements (version : Nat) (name : QString) (statements : List QString) : Migrator σ Unit :=
  inTransaction platform world "A migration transaction could not be started."
    "The migration result could not be recorded." "The migration transaction could not be committed." version name
    (migrationChecksum platform statements) (executeAll platform world statements)

/-- Whether the full-text index could be created is recorded; with this text when it could. -/
def recordFeature (created : Except QString Unit) (detail : String) : Migrator σ Unit :=
  orFail "The database capabilities could not be recorded."
    (insertFeature platform world created.toBool (match created with
      | .ok () => qs detail
      | .error text => text))

def searchIndexChecksum : QString := platform.sha256Hex (qs "fts5-or-fallback-v1")

/-- Version 3.  A build without the full-text module uses the fallback table. -/
def applySearchIndex : Migrator σ Unit :=
  inTransaction platform world "The search migration could not be started."
    "The search migration could not be committed." "The search migration could not be committed." 3
    (qs "search_index") (searchIndexChecksum platform)
    (do
      let created ← exec platform world createSearchIndex []
      setHasFts5 created.toBool
      orFail "The fallback search index could not be created." (exec platform world createSearchIndexFallback [])
      recordFeature platform world created "SQLite FTS5 virtual table")

def selectFeatureSql : QString := qs "SELECT enabled FROM database_features WHERE name='fts5'"

/-- What the index is, where version 3 is applied already.  A failure is passed over. -/
def readHasFts5 (met : ω) : Migrator σ Unit := do
  match ← query platform met selectFeatureSql with
  | .ok file =>
    match file.fts5 with
    | some (enabled, _) => setHasFts5 enabled
    | none => pure ()
  | .error _ => pure ()

def reindexAll : List QString → Migrator σ Unit
  | [] => pure ()
  | sql :: pending => do
    orFail "The search index could not be rebuilt." (exec platform world sql [])
    reindexAll pending

def trigramChecksum : QString := platform.sha256Hex (qs "fts5-trigram-or-fallback-v1")

/-- Version 8.  That the old index cannot be dropped is tolerated. -/
def applySearchIndexTrigram : Migrator σ Unit :=
  inTransaction platform world "The search reindex migration could not be started."
    "The search reindex migration could not be committed." "The search reindex migration could not be committed." 8
    (qs "search_index_trigram") (trigramChecksum platform)
    (do
      let _ ← exec platform world dropSearchIndex []
      let created ← exec platform world createTrigramIndex []
      setHasFts5 created.toBool
      recordFeature platform world created "SQLite FTS5 trigram virtual table"
      reindexAll platform world ([deleteFallbackRows, insertFallbackRows] ++
        if created.toBool = true then [insertIndexRows] else []))

/-- What a failed query of the search service reports. -/
def searchError (message : String) : UserFacingError := .ofDatabase .databaseQueryFailed (qs message)

def orSearchError (message : String) (work : Migrator σ (Except QString α)) : Migrator σ α := do
  let result ← work
  lift (result.mapError fun _ => searchError message)

/-- `DatabaseSearchService::rebuildRecording`. -/
def rebuildRecording (recordingId : QVariant) : Migrator σ Unit := do
  match ← orSearchError "Search content could not be collected."
    (select platform world selectEntry [recordingId]) with
  | [] => pure ()
  | row :: _ =>
    let values := recordingId :: (List.range 4).map fun column => row.getD column .null
    orSearchError "The fallback search entry could not be refreshed."
      (exec platform world deleteFallbackEntry [recordingId])
    orSearchError "The fallback search entry could not be written."
      (exec platform world insertFallbackEntry values)
    if (← read).hasFts5 = true then
      orSearchError "The full-text entry could not be refreshed."
        (exec platform world deleteIndexEntry [recordingId])
      orSearchError "The full-text entry could not be written." (exec platform world insertIndexEntry values)
    else pure ()

def rebuildAll : List QVariant → Migrator σ Unit
  | [] => pure ()
  | recordingId :: pending => do
    rebuildRecording platform world recordingId
    rebuildAll pending

/-- Version 10: after its statements every recording is indexed again. -/
def applySingleTranscript : Migrator σ Unit :=
  inTransaction platform world "The single transcript migration could not be started."
    "The single transcript migration could not be committed." "The single transcript migration could not be committed."
    10 (qs "single_transcript") (migrationChecksum platform singleTranscriptSchema)
    (do
      executeAll platform world singleTranscriptSchema
      let rows ← orFail "Recordings could not be reindexed for the single transcript migration."
        (select platform world selectRecordingIds [])
      rebuildAll platform world (rows.map fun row => .text (row.headD .null).toText))

end Statements

/-! ## The list -/

/-- A migration: what its row holds, how it is applied, and what is done instead where it is applied already. -/
structure Migration (σ ω : Type) where
  version : Nat
  name : QString
  checksum : QString
  apply : (Nat → ω) → Migrator σ Unit
  skip : (Nat → ω) → Migrator σ Unit

variable (platform : MigrationPlatform σ ω)

/-- A migration that consists of statements. -/
def ofStatements (version : Nat) (name : String) (statements : List QString) : Migration σ ω where
  version
  name := qs name
  checksum := migrationChecksum platform statements
  apply world := applyStatements platform world version (qs name) statements
  skip _ := pure ()

def migrations : List (Migration σ ω) :=
  [ofStatements platform 1 "initial_schema" initialSchema,
    ofStatements platform 2 "query_indexes" indexes,
    { version := 3
      name := qs "search_index"
      checksum := searchIndexChecksum platform
      apply := applySearchIndex platform
      skip := fun world => readHasFts5 platform (world 3) },
    ofStatements platform 4 "queue_visibility" queueVisibilitySchema,
    ofStatements platform 5 "recording_source_index" recordingSourceIndexSchema,
    ofStatements platform 6 "segment_review_state" segmentReviewStateSchema,
    ofStatements platform 7 "revision_history_and_execution_lease" revisionHistorySchema,
    { version := 8
      name := qs "search_index_trigram"
      checksum := trigramChecksum platform
      apply := applySearchIndexTrigram platform
      skip := fun _ => pure () },
    ofStatements platform 9 "single_glossary" singleGlossarySchema,
    { version := 10
      name := qs "single_transcript"
      checksum := migrationChecksum platform singleTranscriptSchema
      apply := applySingleTranscript platform
      skip := fun _ => pure () },
    ofStatements platform 11 "recording_artifact_deletion_outbox" recordingArtifactDeletionSchema]

def latestSchemaVersion : Int := 11

/-! ## The run -/

/-- `QVariant::toInt` of a 64-bit value: its low 32 bits. -/
def toInt (value : Int) : Int := Int.bmod value (2 ^ 32)

/-- The product's name is part of the build's configuration; this is its default. -/
def productName : String := "BreezeDesk"

def createMigrationsSql : QString :=
  qs ("CREATE TABLE IF NOT EXISTS schema_migrations (version INTEGER PRIMARY KEY, name TEXT NOT NULL, " ++
    "checksum TEXT NOT NULL, applied_at TEXT NOT NULL)")

def selectVersionSql : QString := qs "SELECT COALESCE(MAX(version), 0) FROM schema_migrations"

def selectHistorySql : QString := qs "SELECT version,name,checksum FROM schema_migrations ORDER BY version"

def createMigrationsTable (met : ω) : Migrator σ (Except QString Unit) :=
  call fun c =>
    match platform.permits met createMigrationsSql [] c.view.tables with
    | .error text => (.error text, c)
    | .ok () =>
      match c.view.migrations with
      | some _ => (.ok (), c)
      | none => (.ok (), c.put (c.view.setMigrations .empty))

/-- The row is one that this build would have written. -/
def isExpected (row : MigrationRow) : Bool :=
  (migrations platform).any fun migration =>
    migration.version == toInt row.version && migration.name == row.name && migration.checksum == row.checksum

def recorded (file : LibraryFile σ) : SchemaMigrations := file.migrations.getD .empty

/-- The rows are checked one by one, then that no version is missing. -/
def verifyHistory (currentVersion : Int) (rows : List MigrationRow) : Except UserFacingError Unit :=
  if rows.any (fun row => !isExpected platform row) then
    .error (migrationError ("A database migration checksum does not match this " ++ productName ++ " build."))
  else if (List.range currentVersion.toNat).any (fun i => rows.all fun row => toInt row.version ≠ i + 1) then
    .error (migrationError "The database migration history is incomplete.")
  else .ok ()

/-- The migrations from the current version on; what is returned is the version reached. -/
def applyFrom (session : MigrationSession ω) : List (Migration σ ω) → Int → Migrator σ Int
  | [], currentVersion => pure currentVersion
  | migration :: pending, currentVersion =>
    if currentVersion < migration.version then do
      migration.apply (session.world migration.version)
      applyFrom session pending migration.version
    else do
      migration.skip (session.world 0)
      applyFrom session pending currentVersion

/-- The checks of the current version and of the history, and the backup before a migration. -/
def admitVersion (session : MigrationSession ω) (currentVersion : Int) : Migrator σ Int :=
  if latestSchemaVersion < currentVersion then
    fail (migrationError ("This library was created by a newer " ++ productName ++ " version."))
  else do
    let file ← orFail "Applied migrations could not be verified."
      (query platform (session.world 0 2) selectHistorySql)
    lift (verifyHistory platform currentVersion (recorded file).rows)
    if 0 < currentVersion ∧ currentVersion < latestSchemaVersion ∧ session.createMigrationBackup = true then
      lift session.createBackup
    else pure ()
    pure currentVersion

/-- What happens before the first migration; the current version. -/
def openHistory (session : MigrationSession ω) : Migrator σ Int := do
  orFail "A database schema update could not be applied." (createMigrationsTable platform (session.world 0 0))
  let file ← orFail "The database schema version could not be read."
    (query platform (session.world 0 1) selectVersionSql)
  admitVersion platform session (toInt (recorded file).maxVersion)

def applyMigrations (session : MigrationSession ω) : Migrator σ Int := do
  let currentVersion ← openHistory platform session
  applyFrom session (migrations platform) currentVersion

/-- The connection of a new manager. -/
def connected (file : LibraryFile σ) : Connection σ := ⟨file, none, false, 0⟩

end BreezeDesk.Migrations
