/-
  A session transcribes what is left of a job, in the desktop application or on the command line.

  Both go through the chunks in order and pass over those that are completed.  Every other chunk is
  marked as running; its segments are stored as provisional with each message of the worker; at the end
  they are stored for good, and the chunk is marked as completed.  Each of these is a transaction of its
  own, and a process can be stopped between any two.  (Transactions on the job row and on events do not
  touch the store; being stopped there is being stopped at the store before.)

  The front ends look for the earlier segments in different places.  The application reads them when it
  commits a chunk, and leaves out what belongs to the chunk (`guiFinalize`).  The command line has read
  the store once, when the session began, and goes on in memory (`cliSession`, `cliChunk`).
-/
import BreezeDesk.Library.Process
import BreezeDesk.Resume.JobStore

namespace BreezeDesk.Resume

open App Asr

variable (t : CharTables)

/-- What all sessions of a job have in common.  The worker's messages for a chunk depend on its range
    only. -/
structure JobRun where
  activeJob : TranscriptionJob
  recordingDurationMs : Int
  worker : Int → Int → List QCborMap

/-- What one session draws and reads: for the steps of a chunk the clock, the UUIDs of its segments and
    those of the rows of a list. -/
structure Environment where
  ownerToken : QString
  now : JobChunk → Nat → Int
  uuid : JobChunk → Nat → QString
  rowId : JobChunk → Nat → Nat → QString
  resultHash : List TranscriptSegment → QString
  diagnostics : JobChunk → QJsonObject

/-- The store, and the chunks for which this session has sent a request. -/
structure SessionStore where
  job : JobStore
  requested : List QString := []

abbrev Session := Process SessionStore JobFailure

/-! ## Steps -/

def writeChunk (chunk : JobChunk) : Session Unit :=
  Process.write fun s => .ok { s with job := s.job.updateChunk chunk }

def startTranscription (chunk : JobChunk) : Session Unit :=
  Process.write fun s => .ok { s with requested := s.requested ++ [chunk.id] }

def writeSegments (run : JobRun) (environment : Environment) (chunk : JobChunk) (turn : Nat)
    (segments : List TranscriptSegment) (provisional : Bool) : Session Unit :=
  Process.write fun s =>
    match s.job.replaceChunk t (environment.now chunk turn) (environment.rowId chunk turn)
        run.activeJob.recordingId run.activeJob.id chunk.id segments provisional chunk.attempts with
    | .ok job => .ok { s with job }
    | .error error => .error ⟨qs "DatabaseQueryFailed", error.message⟩

def outsideChunkMessage : QString := qs "The ASR worker returned a segment outside the active chunk."

/-- Both front ends refuse a message without a range inside the chunk. -/
def acceptRange (validated : WorkerSegmentValidationResult) : Except JobFailure Unit :=
  match validated.error with
  | .none => .ok ()
  | .emptyRange => .error ⟨qs "WorkerProtocolMismatch", emptyRangeMessage⟩
  | _ => .error ⟨qs "WorkerProtocolMismatch", outsideChunkMessage⟩

/-- One message after the other. -/
def receiveAll {μ : Type} (received : Nat → μ → QCborMap → Session μ) :
    Nat → μ → List QCborMap → Session μ
  | _, memory, [] => pure memory
  | turn, memory, payload :: rest => do
    let memory ← received turn memory payload
    receiveAll received (turn + 1) memory rest

/-- Completed chunks are passed over. -/
def transcribeChunks {μ : Type} (transcribe : μ → JobChunk → Session μ) :
    μ → List JobChunk → Session μ
  | memory, [] => pure memory
  | memory, chunk :: rest =>
    if chunk.state = .completed then transcribeChunks transcribe memory rest
    else do
      let memory ← transcribe memory chunk
      transcribeChunks transcribe memory rest

/-! ## The application -/

/-- The chunk as `startNextChunk` stores it. -/
def guiStartedChunk (environment : Environment) (chunk : JobChunk) : JobChunk :=
  { chunk with
    state := .running
    attempts := chunk.attempts + 1
    startedAt := some (environment.now chunk 0)
    error := [] }

/-- The `PartialSegment` branch of `handleWorkerEnvelope`. -/
def guiReceive (run : JobRun) (environment : Environment) (turn : Nat) (active : ActiveChunk)
    (payload : QCborMap) : Session ActiveChunk := do
  let message : PartialSegment :=
    ⟨environment.now active.chunk turn, environment.uuid active.chunk turn, payload⟩
  Process.lift (acceptRange (validatedRange active message))
  writeSegments t run environment active.chunk turn (active.receive t message).currentSegments true
  return active.receive t message

/-- The segments of the chunks committed before. -/
def previousRows (chunk : JobChunk) (store : JobStore) : List TranscriptSegment :=
  store.rows.filter fun segment => segment.chunkId != chunk.id && !segment.provisional

def guiCompletedChunk (environment : Environment) (turn : Nat) (segments : List TranscriptSegment)
    (chunk : JobChunk) : JobChunk :=
  { chunk with
    state := .completed
    completedAt := some (environment.now chunk turn)
    resultHash := environment.resultHash segments
    diagnostics := environment.diagnostics chunk }

def guiCommit (run : JobRun) (environment : Environment) (turn : Nat) (chunk : JobChunk)
    (segments : List TranscriptSegment) : Session Unit := do
  writeSegments t run environment chunk turn segments false
  writeChunk (guiCompletedChunk environment turn segments chunk)

/-- `finalizeCurrentChunk`. -/
def guiFinalize (run : JobRun) (environment : Environment) (turn : Nat) (active : ActiveChunk) :
    Session Unit := do
  let s ← Process.read
  guiCommit t run environment turn active.chunk
    (guiChunkSegments t (environment.uuid active.chunk turn)
      (glossaryTermsFromParameters run.activeJob.parameters) active.chunk
      (previousRows active.chunk s.job) active.currentSegments)

def activeChunk (run : JobRun) (environment : Environment) (chunk : JobChunk) (store : JobStore) :
    ActiveChunk :=
  { activeJob := run.activeJob
    chunk
    recordingDurationMs := run.recordingDurationMs
    ownerToken := environment.ownerToken
    nextOrdinal := store.rows.length
    currentSegments := [] }

/-- `transcribeCurrentChunk`, up to the end of the chunk. -/
def guiTranscribe (run : JobRun) (environment : Environment) (chunk : JobChunk) : Session Unit := do
  let s ← Process.read
  startTranscription chunk
  let messages := run.worker chunk.startMs chunk.endMs
  let active ← receiveAll (guiReceive t run environment) 1 (activeChunk run environment chunk s.job) messages
  guiFinalize t run environment (messages.length + 1) active

/-- `startNextChunk` for a chunk that is not completed. -/
def guiChunk (run : JobRun) (environment : Environment) (chunk : JobChunk) : Session Unit := do
  writeChunk (guiStartedChunk environment chunk)
  guiTranscribe t run environment (guiStartedChunk environment chunk)

def guiSession (run : JobRun) (environment : Environment) : Session Unit := do
  let s ← Process.read
  transcribeChunks (fun _ chunk => guiChunk t run environment chunk) () s.job.chunks

/-! ## The command line -/

/-- An alias may be blank here; `glossaryTermFromJson` drops such an alias. -/
def decodeGlossaryTerm (item : QJsonObject) : GlossaryTerm :=
  { id := (item.value (qs "id")).toText
    canonicalText := (item.value (qs "canonicalText")).toText
    aliases := (item.value (qs "aliases")).toArray.map (·.toText)
    priority := (item.value (qs "priority")).toInteger
    caseSensitive := (item.value (qs "caseSensitive")).toBool
    enabled := QJsonValue.toBoolOr true (item.value (qs "enabled")) }

def decodeGlossaryTerms (encoded : QJsonArray) : List GlossaryTerm :=
  (encoded.map fun value => decodeGlossaryTerm value.toObject).filter fun term =>
    !term.id.isEmpty && !(trimmed term.canonicalText).isEmpty

def encodeGlossaryTerm (term : GlossaryTerm) : QJsonValue :=
  .object
    [(qs "id", .string term.id), (qs "canonicalText", .string term.canonicalText),
      (qs "aliases", .array (term.aliases.map .string)), (qs "priority", .number term.priority),
      (qs "caseSensitive", .bool term.caseSensitive), (qs "enabled", .bool term.enabled)]

def encodeGlossaryTerms (terms : List GlossaryTerm) : QJsonArray := terms.map encodeGlossaryTerm

/-- The first session has its terms in memory and stores them with the job; a session that resumes the
    job decodes the same. -/
theorem decodeGlossaryTerms_encodeGlossaryTerms {terms : List GlossaryTerm}
    (h : ∀ term ∈ terms, term.id ≠ [] ∧ trimmed term.canonicalText ≠ []) :
    decodeGlossaryTerms (encodeGlossaryTerms terms) = terms := by
  have hterm : ∀ term : GlossaryTerm, decodeGlossaryTerm (encodeGlossaryTerm term).toObject = term := by
    intro term
    have haliases : (term.aliases.map QJsonValue.string).map (·.toText) = term.aliases := by
      rw [List.map_map]
      exact List.map_id _
    show GlossaryTerm.mk term.id term.canonicalText ((term.aliases.map QJsonValue.string).map (·.toText))
      (if (term.priority : Rat).den = 1 then (term.priority : Rat).num else 0) term.caseSensitive
      term.enabled = term
    rw [haliases, if_pos (Rat.den_intCast _), Rat.num_intCast]
  unfold decodeGlossaryTerms encodeGlossaryTerms
  rw [List.map_map, List.filter_eq_self.mpr]
  · exact (List.map_congr_left fun term _ => hterm term).trans (List.map_id _)
  · intro term hmem
    obtain ⟨source, hsource, rfl⟩ := List.mem_map.mp hmem
    obtain ⟨hid, hcanonical⟩ := h source hsource
    rw [Function.comp_apply, hterm, List.isEmpty_eq_false_iff.mpr hid,
      List.isEmpty_eq_false_iff.mpr hcanonical]
    rfl

/-- The terms of a job on the command line. -/
def cliTerms (run : JobRun) : List GlossaryTerm :=
  decodeGlossaryTerms (run.activeJob.parameters.value (qs "glossaryTerms")).toArray

/-- The chunk as `beginChunk` stores it. -/
def cliStartedChunk (environment : Environment) (chunk : JobChunk) : JobChunk :=
  { chunk with
    state := .running
    attempts := chunk.attempts + 1
    startedAt := some (environment.now chunk 0)
    completedAt := none
    error := [] }

/-- The check of `saveChunkSegments`. -/
def insideAllowed (run : JobRun) (chunk : JobChunk) (segment : TranscriptSegment) : Prop :=
  let allowedStartMs := max 0 chunk.startMs
  let allowedEndMs :=
    if run.recordingDurationMs > 0 then min chunk.endMs run.recordingDurationMs else chunk.endMs
  ¬ (allowedEndMs ≤ allowedStartMs ∨ segment.startMs < allowedStartMs ∨ segment.endMs > allowedEndMs ∨
    segment.endMs ≤ segment.startMs)

instance (run : JobRun) (chunk : JobChunk) : DecidablePred (insideAllowed run chunk) :=
  fun _ => inferInstanceAs (Decidable (¬ _))

def requireInside (run : JobRun) (chunk : JobChunk) (segments : List TranscriptSegment) :
    Except JobFailure Unit :=
  if ∀ segment ∈ segments, insideAllowed run chunk segment then .ok ()
  else .error ⟨qs "WorkerProtocolMismatch", outsideChunkMessage⟩

/-- Segments inside the chunk and the recording pass. -/
theorem requireInside_of_inside {run : JobRun} {chunk : JobChunk} {segments : List TranscriptSegment}
    (h : ∀ segment ∈ segments, InsideChunk chunk run.recordingDurationMs segment.startMs segment.endMs) :
    requireInside run chunk segments = .ok () := by
  refine if_pos fun segment hmem => ?_
  obtain ⟨h0, hlow, hlt, hhigh, hdur⟩ := h segment hmem
  unfold insideAllowed
  dsimp only
  rw [if_pos (by omega)]
  omega

def saveChunkSegments (run : JobRun) (environment : Environment) (chunk : JobChunk) (turn : Nat)
    (segments : List TranscriptSegment) (provisional : Bool) : Session Unit := do
  Process.lift (requireInside run chunk segments)
  writeSegments t run environment chunk turn
    (segments.map fun segment => { segment with
      recordingId := run.activeJob.recordingId
      jobId := run.activeJob.id
      chunkId := chunk.id
      provisional
      attempt := chunk.attempts })
    provisional

def cliSegment (run : JobRun) (id : QString) (ordinal : Int) (validated : WorkerSegmentValidationResult)
    (payload : QCborMap) : TranscriptSegment :=
  postProcessSegment t (cliTerms run)
    { id
      jobId := run.activeJob.id
      ordinal
      startMs := validated.startMs
      endMs := validated.endMs
      originalText := (payload.value (qs "originalText")).toText
      averageProbability := (payload.value (qs "averageTokenProbability")).toDouble
      minimumProbability := (payload.value (qs "minimumTokenProbability")).toDouble
      noSpeechProbability := (payload.value (qs "noSpeechProbability")).toDouble
      lowConfidence := (payload.value (qs "lowConfidence")).toBool }

def cliAppend (run : JobRun) (environment : Environment) (segments : List TranscriptSegment)
    (chunk : JobChunk) (turn : Nat) (incoming : List TranscriptSegment) (payload : QCborMap) :
    List TranscriptSegment :=
  incoming ++ [cliSegment t run (environment.uuid chunk turn) (segments.length + incoming.length)
    (validateWorkerSegmentRange payload chunk.startMs chunk.endMs run.recordingDurationMs) payload]

/-- The `PartialSegment` branch of the chunk loop. -/
def cliReceive (run : JobRun) (environment : Environment) (segments : List TranscriptSegment)
    (chunk : JobChunk) (turn : Nat) (incoming : List TranscriptSegment) (payload : QCborMap) :
    Session (List TranscriptSegment) := do
  Process.lift (acceptRange
    (validateWorkerSegmentRange payload chunk.startMs chunk.endMs run.recordingDurationMs))
  saveChunkSegments t run environment chunk turn
    (cliAppend t run environment segments chunk turn incoming payload) true
  return cliAppend t run environment segments chunk turn incoming payload

def cliCompletedChunk (environment : Environment) (turn : Nat) (segments : List TranscriptSegment)
    (chunk : JobChunk) : JobChunk :=
  { chunk with
    state := .completed
    completedAt := some (environment.now chunk turn)
    error := []
    resultHash := environment.resultHash segments }

def completeChunk (run : JobRun) (environment : Environment) (turn : Nat) (chunk : JobChunk)
    (segments : List TranscriptSegment) : Session Unit := do
  saveChunkSegments t run environment chunk turn segments false
  writeChunk (cliCompletedChunk environment turn segments chunk)

/-- The chunk is reconciled with what the session knows of the chunks before. -/
def cliReconcile (run : JobRun) (chunk : JobChunk) (segments incoming : List TranscriptSegment) :
    Except JobFailure (List TranscriptSegment) :=
  match cliChunkSegments t (cliTerms run) chunk segments incoming with
  | .ok reconciled => .ok reconciled
  | .error message => .error ⟨qs "WorkerProtocolMismatch", message⟩

def cliTranscribe (run : JobRun) (environment : Environment) (segments : List TranscriptSegment)
    (chunk : JobChunk) : Session (List TranscriptSegment) := do
  startTranscription chunk
  let messages := run.worker chunk.startMs chunk.endMs
  let incoming ← receiveAll (cliReceive t run environment segments chunk) 1 [] messages
  let reconciled ← Process.lift (cliReconcile t run chunk segments incoming)
  completeChunk t run environment (messages.length + 1) chunk reconciled
  return segments ++ reconciled

def cliChunk (run : JobRun) (environment : Environment) (segments : List TranscriptSegment)
    (chunk : JobChunk) : Session (List TranscriptSegment) := do
  writeChunk (cliStartedChunk environment chunk)
  cliTranscribe t run environment segments (cliStartedChunk environment chunk)

/-- `segmentsForJob` without the provisional segments. -/
def storedSegments (store : JobStore) : List TranscriptSegment :=
  store.rows.filter fun segment => !segment.provisional

def cliSession (run : JobRun) (environment : Environment) : Session Unit := do
  let s ← Process.read
  let _ ← transcribeChunks (cliChunk t run environment) (storedSegments s.job) s.job.chunks

/-! ## Interrupted jobs -/

inductive FrontEnd where
  | application | commandLine
  deriving DecidableEq

def FrontEnd.session (frontEnd : FrontEnd) (run : JobRun) (environment : Environment) : Session Unit :=
  match frontEnd with
  | .application => guiSession t run environment
  | .commandLine => cliSession t run environment

/-- Some chunk has its segments stored for good, and is not marked as completed. -/
def Torn (store : JobStore) : Prop :=
  ∃ row ∈ store.rows, row.provisional = false ∧
    ∃ chunk ∈ store.chunks, chunk.id = row.chunkId ∧ chunk.state ≠ .completed

/-- The stores that a job can be left in: planned, or stopped anywhere in a session that resumes it,
    and with chunks marked in any way but as completed (interrupted, failed or cancelled) afterwards.
    `stoppable` restricts the stores in which a session is stopped. -/
inductive Interrupted (frontEnd : FrontEnd) (run : JobRun) (stoppable : JobStore → Prop)
    (plan : List JobChunk) : JobStore → Prop where
  | planned : Interrupted frontEnd run stoppable plan { chunks := plan, rows := [] }
  | stopped (environment : Environment) {store : JobStore} {s : SessionStore} :
      Interrupted frontEnd run stoppable plan store →
      s ∈ (frontEnd.session t run environment).stores { job := store } → stoppable s.job →
      Interrupted frontEnd run stoppable plan s.job
  | marked {store : JobStore} {chunk : JobChunk} (state : ChunkState) (error : QString) :
      Interrupted frontEnd run stoppable plan store → chunk ∈ store.chunks → chunk.state ≠ .completed →
      state ≠ .completed →
      Interrupted frontEnd run stoppable plan (store.updateChunk { chunk with state, error })

end BreezeDesk.Resume
