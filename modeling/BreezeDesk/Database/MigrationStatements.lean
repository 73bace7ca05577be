/-
  The SQL statements of the schema migrations, as `DatabaseManager.cpp` has them.

  Their texts matter: the checksum of a migration is computed from them.
-/
import BreezeDesk.Core.Text

namespace BreezeDesk.Migrations

abbrev QStringList := List QString

/-- The tables of the first version. -/
def initialSchema : QStringList :=
  [qs ("CREATE TABLE IF NOT EXISTS recordings (id TEXT PRIMARY KEY, title TEXT NOT NULL, source_path TEXT " ++
        "NOT NULL DEFAULT '', managed_media_path TEXT NOT NULL DEFAULT '', normalized_pcm_path TEXT NOT " ++
        "NULL DEFAULT '', source_hash TEXT NOT NULL DEFAULT '', media_type TEXT NOT NULL DEFAULT '', " ++
        "duration_ms INTEGER NOT NULL DEFAULT 0 CHECK(duration_ms >= 0), sample_rate INTEGER NOT NULL " ++
        "DEFAULT 0 CHECK(sample_rate >= 0), channel_count INTEGER NOT NULL DEFAULT 0 CHECK(channel_count " ++
        ">= 0), waveform_path TEXT NOT NULL DEFAULT '', created_at TEXT NOT NULL, updated_at TEXT NOT " ++
        "NULL, deleted_at TEXT, notes TEXT NOT NULL DEFAULT '', review_state TEXT NOT NULL DEFAULT " ++
        "'unreviewed', active_job_id TEXT)"),
    qs ("CREATE TABLE IF NOT EXISTS transcription_jobs (id TEXT PRIMARY KEY, recording_id TEXT NOT NULL " ++
        "REFERENCES recordings(id) ON DELETE CASCADE, state TEXT NOT NULL, stage TEXT NOT NULL, progress " ++
        "REAL NOT NULL DEFAULT 0 CHECK(progress >= 0 AND progress <= 1), model_id TEXT NOT NULL DEFAULT " ++
        "'', model_checksum TEXT NOT NULL DEFAULT '', engine_version TEXT NOT NULL DEFAULT '', " ++
        "worker_version TEXT NOT NULL DEFAULT '', backend TEXT NOT NULL DEFAULT '', language TEXT NOT NULL " ++
        "DEFAULT 'zh', preset TEXT NOT NULL DEFAULT 'balanced', glossary_profile_id TEXT, meeting_context " ++
        "TEXT NOT NULL DEFAULT '', vad_enabled INTEGER NOT NULL DEFAULT 1, error_code TEXT NOT NULL " ++
        "DEFAULT '', error_message TEXT NOT NULL DEFAULT '', diagnostics_json TEXT NOT NULL DEFAULT '\x7b\x7d', " ++
        "parameters_json TEXT NOT NULL DEFAULT '\x7b\x7d', queue_position INTEGER NOT NULL DEFAULT 0, " ++
        "revision_number INTEGER NOT NULL DEFAULT 1, retry_count INTEGER NOT NULL DEFAULT 0, created_at " ++
        "TEXT NOT NULL, started_at TEXT, completed_at TEXT, interrupted_at TEXT, last_completed_chunk " ++
        "INTEGER NOT NULL DEFAULT -1)"),
    qs ("CREATE TABLE IF NOT EXISTS job_chunks (id TEXT PRIMARY KEY, job_id TEXT NOT NULL REFERENCES " ++
        "transcription_jobs(id) ON DELETE CASCADE, ordinal INTEGER NOT NULL, start_ms INTEGER NOT NULL, " ++
        "end_ms INTEGER NOT NULL, overlap_before_ms INTEGER NOT NULL DEFAULT 0, overlap_after_ms INTEGER " ++
        "NOT NULL DEFAULT 0, state TEXT NOT NULL, attempts INTEGER NOT NULL DEFAULT 0, started_at TEXT, " ++
        "completed_at TEXT, error TEXT NOT NULL DEFAULT '', result_hash TEXT NOT NULL DEFAULT '', " ++
        "diagnostics_json TEXT NOT NULL DEFAULT '\x7b\x7d', UNIQUE(job_id, ordinal), CHECK(start_ms >= 0), " ++
        "CHECK(end_ms > start_ms))"),
    qs ("CREATE TABLE IF NOT EXISTS transcript_segments (id TEXT PRIMARY KEY, recording_id TEXT NOT NULL " ++
        "REFERENCES recordings(id) ON DELETE CASCADE, job_id TEXT NOT NULL REFERENCES " ++
        "transcription_jobs(id) ON DELETE CASCADE, chunk_id TEXT REFERENCES job_chunks(id) ON DELETE SET " ++
        "NULL, ordinal INTEGER NOT NULL, start_ms INTEGER NOT NULL, end_ms INTEGER NOT NULL, original_text " ++
        "TEXT NOT NULL DEFAULT '', edited_text TEXT NOT NULL DEFAULT '', average_probability REAL NOT NULL " ++
        "DEFAULT 0, minimum_probability REAL NOT NULL DEFAULT 0, no_speech_probability REAL NOT NULL " ++
        "DEFAULT 0, low_confidence INTEGER NOT NULL DEFAULT 0, replacement_audit_json TEXT NOT NULL " ++
        "DEFAULT '[]', is_provisional INTEGER NOT NULL DEFAULT 0, attempt INTEGER NOT NULL DEFAULT 1, " ++
        "created_at TEXT NOT NULL, updated_at TEXT NOT NULL, UNIQUE(job_id, ordinal), CHECK(start_ms >= " ++
        "0), CHECK(end_ms > start_ms))"),
    qs ("CREATE TABLE IF NOT EXISTS tags (id TEXT PRIMARY KEY, name TEXT NOT NULL COLLATE NOCASE UNIQUE, " ++
        "created_at TEXT NOT NULL)"),
    qs ("CREATE TABLE IF NOT EXISTS recording_tags (recording_id TEXT NOT NULL REFERENCES recordings(id) " ++
        "ON DELETE CASCADE, tag_id TEXT NOT NULL REFERENCES tags(id) ON DELETE CASCADE, PRIMARY " ++
        "KEY(recording_id, tag_id))"),
    qs ("CREATE TABLE IF NOT EXISTS glossary_profiles (id TEXT PRIMARY KEY, name TEXT NOT NULL, " ++
        "description TEXT NOT NULL DEFAULT '', project_context TEXT NOT NULL DEFAULT '', created_at TEXT " ++
        "NOT NULL, updated_at TEXT NOT NULL)"),
    qs ("CREATE TABLE IF NOT EXISTS glossary_terms (id TEXT PRIMARY KEY, profile_id TEXT NOT NULL " ++
        "REFERENCES glossary_profiles(id) ON DELETE CASCADE, canonical_text TEXT NOT NULL, aliases_json " ++
        "TEXT NOT NULL DEFAULT '[]', category TEXT NOT NULL DEFAULT '', language TEXT NOT NULL DEFAULT '', " ++
        "priority INTEGER NOT NULL DEFAULT 0, case_sensitive INTEGER NOT NULL DEFAULT 0, enabled INTEGER " ++
        "NOT NULL DEFAULT 1, notes TEXT NOT NULL DEFAULT '', created_at TEXT NOT NULL, updated_at TEXT NOT " ++
        "NULL, UNIQUE(profile_id, canonical_text COLLATE NOCASE))"),
    qs ("CREATE TABLE IF NOT EXISTS installed_models (id TEXT PRIMARY KEY, display_name TEXT NOT NULL, " ++
        "file_path TEXT NOT NULL UNIQUE, file_size INTEGER NOT NULL DEFAULT 0, sha256 TEXT NOT NULL " ++
        "DEFAULT '', quantization TEXT NOT NULL DEFAULT '', source_revision TEXT NOT NULL DEFAULT '', " ++
        "license_name TEXT NOT NULL DEFAULT '', verified_at TEXT, last_used_at TEXT, is_custom INTEGER NOT " ++
        "NULL DEFAULT 0, metadata_json TEXT NOT NULL DEFAULT '\x7b\x7d')"),
    qs ("CREATE TABLE IF NOT EXISTS database_features (name TEXT PRIMARY KEY, enabled INTEGER NOT NULL, " ++
        "detail TEXT NOT NULL DEFAULT '')")]

def indexes : QStringList :=
  [qs "CREATE INDEX IF NOT EXISTS idx_recordings_updated ON recordings(updated_at DESC)",
    qs "CREATE INDEX IF NOT EXISTS idx_recordings_deleted ON recordings(deleted_at)",
    qs "CREATE INDEX IF NOT EXISTS idx_jobs_recording ON transcription_jobs(recording_id, created_at DESC)",
    qs "CREATE INDEX IF NOT EXISTS idx_jobs_state_queue ON transcription_jobs(state, queue_position)",
    qs "CREATE INDEX IF NOT EXISTS idx_chunks_job_state ON job_chunks(job_id, state, ordinal)",
    qs "CREATE INDEX IF NOT EXISTS idx_segments_job_time ON transcript_segments(job_id, start_ms, ordinal)",
    qs "CREATE INDEX IF NOT EXISTS idx_segments_recording ON transcript_segments(recording_id, job_id)",
    qs ("CREATE INDEX IF NOT EXISTS idx_glossary_terms_profile ON glossary_terms(profile_id, enabled, " ++
        "priority DESC)")]

/-- Revisions of a recording, the events of a job, and the execution lease; interrupted jobs of the time before. -/
def revisionHistorySchema : QStringList :=
  [qs ("UPDATE transcription_jobs AS current SET revision_number=(SELECT COUNT(*) FROM transcription_jobs " ++
        "AS ordered WHERE ordered.recording_id=current.recording_id AND " ++
        "(ordered.created_at<current.created_at OR (ordered.created_at=current.created_at AND " ++
        "ordered.id<=current.id)))"),
    qs ("WITH ranked(id,new_position) AS (SELECT id,ROW_NUMBER() OVER (ORDER BY " ++
        "queue_position,created_at,id)-1 FROM transcription_jobs WHERE state='Queued') UPDATE " ++
        "transcription_jobs SET queue_position=(SELECT new_position FROM ranked WHERE " ++
        "ranked.id=transcription_jobs.id) WHERE id IN (SELECT id FROM ranked)"),
    qs ("UPDATE transcription_jobs SET " ++
        "state='Interrupted',interrupted_at=COALESCE(interrupted_at,created_at),error_code=CASE WHEN " ++
        "error_code='' THEN 'WorkerCrashed' ELSE error_code END,error_message=CASE WHEN error_message='' " ++
        "THEN 'The previous transcription owner is no longer active.' ELSE error_message END WHERE state " ++
        "IN " ++
        "('Preparing','Normalizing','WaitingForModel','LoadingModel','AnalyzingSpeech','Transcribing','Finalizing','Cancelling')"),
    qs ("UPDATE recordings SET active_job_id=(SELECT candidate.id FROM transcription_jobs candidate WHERE " ++
        "candidate.recording_id=recordings.id AND candidate.state='Completed' ORDER BY " ++
        "candidate.revision_number DESC,candidate.id DESC LIMIT 1)"),
    qs ("CREATE UNIQUE INDEX IF NOT EXISTS idx_jobs_recording_revision ON " ++
        "transcription_jobs(recording_id,revision_number)"),
    qs ("CREATE UNIQUE INDEX IF NOT EXISTS idx_jobs_single_execution ON transcription_jobs((1)) WHERE " ++
        "state IN " ++
        "('Preparing','Normalizing','WaitingForModel','LoadingModel','AnalyzingSpeech','Transcribing','Finalizing','Cancelling')"),
    qs ("CREATE TABLE IF NOT EXISTS transcription_job_events (id INTEGER PRIMARY KEY AUTOINCREMENT, job_id " ++
        "TEXT NOT NULL REFERENCES transcription_jobs(id) ON DELETE CASCADE, event_type TEXT NOT NULL, " ++
        "severity TEXT NOT NULL DEFAULT 'info', state TEXT, stage TEXT, progress REAL CHECK(progress IS " ++
        "NULL OR (progress>=0 AND progress<=1)), code TEXT NOT NULL DEFAULT '', message TEXT NOT NULL " ++
        "DEFAULT '', payload_json TEXT NOT NULL DEFAULT '\x7b\x7d', created_at TEXT NOT NULL)"),
    qs "CREATE INDEX IF NOT EXISTS idx_job_events_job_id ON transcription_job_events(job_id,id)",
    qs ("INSERT INTO " ++
        "transcription_job_events(job_id,event_type,severity,state,stage,progress,code,message,payload_json,created_at) " ++
        "SELECT id,'enqueued','info','Queued','Preparing',0,'','','\x7b\x7d',created_at FROM transcription_jobs"),
    qs ("INSERT INTO " ++
        "transcription_job_events(job_id,event_type,severity,state,stage,progress,code,message,payload_json,created_at) " ++
        "SELECT id,CASE state WHEN 'Completed' THEN 'completed' WHEN 'Cancelled' THEN 'cancelled' WHEN " ++
        "'Failed' THEN 'failed' ELSE 'interrupted' END,CASE state WHEN 'Failed' THEN 'error' WHEN " ++
        "'Completed' THEN 'info' ELSE 'warning' " ++
        "END,state,stage,progress,error_code,error_message,'\x7b\x7d',COALESCE(completed_at,interrupted_at,started_at,created_at) " ++
        "FROM transcription_jobs WHERE state IN ('Completed','Cancelled','Failed','Interrupted')"),
    qs ("CREATE TABLE IF NOT EXISTS asr_execution_lease (resource TEXT PRIMARY KEY CHECK(resource='asr'), " ++
        "owner_token TEXT NOT NULL, job_id TEXT NOT NULL REFERENCES transcription_jobs(id) ON DELETE " ++
        "CASCADE, acquired_at TEXT NOT NULL, heartbeat_at TEXT NOT NULL, expires_at TEXT NOT NULL)"),
    qs ("CREATE TRIGGER IF NOT EXISTS trg_jobs_active_revision_before_delete BEFORE DELETE ON " ++
        "transcription_jobs WHEN EXISTS(SELECT 1 FROM recordings WHERE active_job_id=OLD.id) BEGIN UPDATE " ++
        "recordings SET active_job_id=(SELECT candidate.id FROM transcription_jobs candidate WHERE " ++
        "candidate.recording_id=OLD.recording_id AND candidate.id<>OLD.id AND candidate.state='Completed' " ++
        "ORDER BY candidate.revision_number DESC,candidate.id DESC LIMIT " ++
        "1),updated_at=strftime('%Y-%m-%dT%H:%M:%fZ','now') WHERE active_job_id=OLD.id; END")]

/-- One glossary: the terms of all profiles, without duplicates. -/
def singleGlossarySchema : QStringList :=
  [qs ("INSERT OR IGNORE INTO " ++
        "glossary_profiles(id,name,description,project_context,created_at,updated_at) " ++
        "VALUES('default','Glossary','','',strftime('%Y-%m-%dT%H:%M:%fZ','now'),strftime('%Y-%m-%dT%H:%M:%fZ','now'))"),
    qs ("DELETE FROM glossary_terms WHERE id IN (SELECT id FROM (SELECT id,ROW_NUMBER() OVER (PARTITION BY " ++
        "canonical_text COLLATE NOCASE ORDER BY CASE WHEN profile_id='default' THEN 0 ELSE 1 END,enabled " ++
        "DESC,priority DESC,updated_at DESC,id) AS duplicate_rank FROM glossary_terms) WHERE " ++
        "duplicate_rank>1)"),
    qs "UPDATE glossary_terms SET profile_id='default' WHERE profile_id<>'default'",
    qs "DELETE FROM glossary_profiles WHERE id<>'default'"]

/-- One transcript for each recording. -/
def singleTranscriptSchema : QStringList :=
  [qs "DROP INDEX IF EXISTS idx_jobs_recording_revision",
    qs "DROP TRIGGER IF EXISTS trg_jobs_active_revision_before_delete",
    qs ("UPDATE recordings SET active_job_id=(SELECT candidate.id FROM transcription_jobs candidate WHERE " ++
        "candidate.recording_id=recordings.id AND candidate.state='Completed' ORDER BY " ++
        "COALESCE(candidate.completed_at,candidate.created_at) DESC,candidate.created_at DESC,candidate.id " ++
        "DESC LIMIT 1)"),
    qs ("DELETE FROM transcript_segments WHERE job_id IN (SELECT old.id FROM transcription_jobs old JOIN " ++
        "recordings recording ON recording.id=old.recording_id WHERE old.state='Completed' AND " ++
        "(recording.active_job_id IS NULL OR old.id<>recording.active_job_id))"),
    qs ("UPDATE transcription_jobs SET queue_hidden=1 WHERE state='Completed' AND EXISTS(SELECT 1 FROM " ++
        "recordings recording WHERE recording.id=transcription_jobs.recording_id AND " ++
        "recording.active_job_id<>transcription_jobs.id)"),
    qs "ALTER TABLE transcription_jobs DROP COLUMN revision_number",
    qs ("CREATE INDEX IF NOT EXISTS idx_jobs_recording_created ON " ++
        "transcription_jobs(recording_id,created_at DESC)")]

/-- The outbox of files to delete. -/
def recordingArtifactDeletionSchema : QStringList :=
  [qs ("CREATE TABLE IF NOT EXISTS pending_recording_artifact_deletions (id TEXT PRIMARY KEY, " ++
        "recording_id TEXT NOT NULL, artifact_kind TEXT NOT NULL CHECK(artifact_kind IN " ++
        "('managed_media','normalized_pcm','waveform')), absolute_path TEXT NOT NULL " ++
        "CHECK(length(trim(absolute_path))>0), created_at TEXT NOT NULL, attempt_count INTEGER NOT NULL " ++
        "DEFAULT 0 CHECK(attempt_count>=0), next_attempt_at TEXT NOT NULL, last_error TEXT NOT NULL " ++
        "DEFAULT '')"),
    qs ("CREATE INDEX IF NOT EXISTS idx_pending_artifact_deletions_ready ON " ++
        "pending_recording_artifact_deletions(next_attempt_at)"),
    qs ("CREATE INDEX IF NOT EXISTS idx_pending_artifact_deletions_recording ON " ++
        "pending_recording_artifact_deletions(recording_id)")]

def queueVisibilitySchema : QStringList :=
  [qs "ALTER TABLE transcription_jobs ADD COLUMN queue_hidden INTEGER NOT NULL DEFAULT 0"]

def recordingSourceIndexSchema : QStringList :=
  [qs "CREATE INDEX IF NOT EXISTS idx_recordings_source_path ON recordings(source_path)"]

def segmentReviewStateSchema : QStringList :=
  [qs "ALTER TABLE transcript_segments ADD COLUMN reviewed INTEGER NOT NULL DEFAULT 0"]

/-! ## The search index -/

def createSearchIndex : QString :=
  qs ("CREATE VIRTUAL TABLE IF NOT EXISTS search_index USING fts5(recording_id UNINDEXED, title, notes, " ++
      "tags, transcript, tokenize='unicode61 remove_diacritics 2')")

def createSearchIndexFallback : QString :=
  qs ("CREATE TABLE IF NOT EXISTS search_index_fallback (recording_id TEXT PRIMARY KEY REFERENCES " ++
      "recordings(id) ON DELETE CASCADE, title TEXT NOT NULL, notes TEXT NOT NULL, tags TEXT NOT NULL, " ++
      "transcript TEXT NOT NULL)")

def dropSearchIndex : QString := qs "DROP TABLE IF EXISTS search_index"

/-- Without `IF NOT EXISTS`: an index that survived the drop must not pass for the new one. -/
def createTrigramIndex : QString :=
  qs ("CREATE VIRTUAL TABLE search_index USING fts5(recording_id UNINDEXED, title, notes, tags, " ++
      "transcript, tokenize='trigram')")

def indexSource : QString :=
  qs ("SELECT r.id, r.title, r.notes, COALESCE((SELECT group_concat(t.name,' ') FROM tags t JOIN " ++
      "recording_tags rt ON rt.tag_id=t.id WHERE rt.recording_id=r.id),''), COALESCE((SELECT " ++
      "group_concat(CASE WHEN s.edited_text='' THEN s.original_text ELSE s.edited_text END,' ') FROM " ++
      "transcript_segments s WHERE s.recording_id=r.id),'') FROM recordings r")

def deleteFallbackRows : QString := qs "DELETE FROM search_index_fallback"

def insertFallbackRows : QString :=
  qs "INSERT INTO search_index_fallback(recording_id,title,notes,tags,transcript) " ++ indexSource

def insertIndexRows : QString :=
  qs "INSERT INTO search_index(recording_id,title,notes,tags,transcript) " ++ indexSource

def selectRecordingIds : QString := qs "SELECT id FROM recordings"

/-! ## The entry of one recording -/

def selectEntry : QString :=
  qs ("SELECT r.title,r.notes,COALESCE((SELECT group_concat(t.name,' ') FROM tags t JOIN recording_tags " ++
      "rt ON rt.tag_id=t.id WHERE rt.recording_id=r.id),''),COALESCE((SELECT group_concat(CASE WHEN " ++
      "s.edited_text='' THEN s.original_text ELSE s.edited_text END,' ') FROM transcript_segments s " ++
      "WHERE s.recording_id=r.id AND s.job_id=r.active_job_id), '') FROM recordings r WHERE r.id=?")

def deleteFallbackEntry : QString := qs "DELETE FROM search_index_fallback WHERE recording_id=?"

def insertFallbackEntry : QString :=
  qs "INSERT INTO search_index_fallback(recording_id,title,notes,tags,transcript) VALUES(?,?,?,?,?)"

def deleteIndexEntry : QString := qs "DELETE FROM search_index WHERE recording_id=?"

def insertIndexEntry : QString :=
  qs "INSERT INTO search_index(recording_id,title,notes,tags,transcript) VALUES(?,?,?,?,?)"

end BreezeDesk.Migrations
