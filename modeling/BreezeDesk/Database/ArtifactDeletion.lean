/-
  Removing the files of recordings that have been deleted for good.

  `permanentlyDelete` queues the managed files of a recording in the transaction that deletes it
  (`pending_recording_artifact_deletions`); `drainPendingArtifactDeletions` works the queue off later,
  one transaction an entry.  Between any two transactions other processes use the database, other drains
  make progress, and any of the processes may crash; an interleaving is a list of events.

  What the file system says during a transaction, and whether a removal succeeds, are inputs of the
  event.  `BEGIN IMMEDIATE` admits one writer, so that a transaction is one step.

  `artifact_deletion` has the two halves of the contract.  A file that a recording refers to is not
  removed (`processPending_spares`), and an entry stays in the queue until its file has been removed,
  was missing, or is not safe to remove (`step_settles`, by induction over the run).
-/
import BreezeDesk.Database.ManagedPaths
import BreezeDesk.Transcript.ActiveTranscript
import Mathlib.Data.List.Lex
import Mathlib.Data.Prod.Lex

namespace BreezeDesk

open Transaction Runs

/-! ## The queue -/

/-- A row of `pending_recording_artifact_deletions`. -/
structure PendingArtifactDeletion where
  id : QString
  recordingId : QString
  artifactKind : ArtifactKind
  absolutePath : QString
  createdAt : Int
  attemptCount : Nat := 0
  nextAttemptAt : Int
  lastError : QString := []

structure PendingArtifactDeletionReport where
  entriesClaimed : Nat := 0
  filesRemoved : Nat := 0
  missingFiles : Nat := 0
  referencedFilesDeferred : Nat := 0
  unsafeEntriesDiscarded : Nat := 0
  failures : Nat := 0
  deriving DecidableEq, Repr

inductive DrainOutcome where
  | skipped | removed | missing | referenced | unsafePath | failed
  deriving DecidableEq, Repr

def PendingArtifactDeletionReport.counted (report : PendingArtifactDeletionReport) (outcome : DrainOutcome) :
    PendingArtifactDeletionReport :=
  let claimed := if outcome == .skipped then report
    else { report with entriesClaimed := report.entriesClaimed + 1 }
  match outcome with
  | .skipped => claimed
  | .removed => { claimed with filesRemoved := claimed.filesRemoved + 1 }
  | .missing => { claimed with missingFiles := claimed.missingFiles + 1 }
  | .referenced => { claimed with referencedFilesDeferred := claimed.referencedFilesDeferred + 1 }
  | .unsafePath => { claimed with unsafeEntriesDiscarded := claimed.unsafeEntriesDiscarded + 1 }
  | .failed => { claimed with failures := claimed.failures + 1 }

variable (p : PathRules)

/-! ## Queueing the files of a recording -/

/-- The source of a recording is the user's own file. -/
def deletionCandidates (look : Storage) (recording : Recording) : List (ArtifactKind × QString) :=
  (.managedMedia, recording.managedMediaPath) ::
    ((if pathsAreProvablyDistinct p look recording.normalizedPcmPath recording.sourcePath then
        [(.normalizedPcm, recording.normalizedPcmPath)] else []) ++
      if pathsAreProvablyDistinct p look recording.waveformPath recording.sourcePath then
        [(.waveform, recording.waveformPath)] else [])

/-- The constraints of the table. -/
def PendingInsertable (pending : List PendingArtifactDeletion) (row : PendingArtifactDeletion) : Prop :=
  (∀ other ∈ pending, other.id ≠ row.id) ∧ row.absolutePath.any (· != space) = true

instance (pending : List PendingArtifactDeletion) (row : PendingArtifactDeletion) :
    Decidable (PendingInsertable pending row) :=
  inferInstanceAs (Decidable (_ ∧ _))

/-- The loop of `enqueueArtifactDeletions`; `newId index` is the UUID drawn for a row. -/
def enqueueFrom (look : Storage) (now : Int) (newId : Nat → QString) (recordingId : QString) :
    List QString → Nat → List (ArtifactKind × QString) → List PendingArtifactDeletion →
      Result (List PendingArtifactDeletion)
  | _, _, [], pending => .ok pending
  | queuedPaths, index, (artifactKind, path) :: rest, pending =>
    let absolutePath := normalizedAbsolutePath p look path
    let deduplicationKey := p.folded absolutePath
    if absolutePath.isEmpty || queuedPaths.contains deduplicationKey ||
        !isSafeArtifactPath p look absolutePath artifactKind ||
        (!(look absolutePath).doesExist && !(look absolutePath).isSymLink) then
      enqueueFrom look now newId recordingId queuedPaths index rest pending
    else
      let row : PendingArtifactDeletion :=
        { id := newId index, recordingId, artifactKind, absolutePath, createdAt := now, nextAttemptAt := now }
      if PendingInsertable pending row then
        enqueueFrom look now newId recordingId (deduplicationKey :: queuedPaths) (index + 1) rest
          (pending ++ [row])
      else .error (queryError "Managed file cleanup could not be scheduled.")

def enqueueArtifactDeletions (look : Storage) (now : Int) (newId : Nat → QString) (recording : Recording)
    (pending : List PendingArtifactDeletion) : Result (List PendingArtifactDeletion) :=
  enqueueFrom p look now newId recording.id [] 0 (deletionCandidates p look recording) pending

/-! ## Working the queue off -/

def referencedColumns (recording : Recording) : List QString :=
  [recording.sourcePath, recording.managedMediaPath, recording.normalizedPcmPath, recording.waveformPath]

def pathIsReferenced (look : Storage) (db : Database) (path : QString) : Bool :=
  db.recordings.any fun recording => (referencedColumns recording).any (pathsEquivalent p look path)

/-- What a transaction of the drain meets: the time, the file system, the file system again immediately
    before the removal, and how the removal ends. -/
structure DrainMoment where
  now : Int
  look : Storage
  revalidated : Storage
  remove : QString → Except QString Unit

structure Processed where
  outcome : DrainOutcome
  pending : List PendingArtifactDeletion
  unlinked : Option QString := none

def acknowledged (row : PendingArtifactDeletion) (pending : List PendingArtifactDeletion) :
    List PendingArtifactDeletion :=
  pending.filter fun other => other.id != row.id

/-- Half a minute, doubled with every attempt, six hours at most. -/
def retryDelaySeconds (attemptCount : Nat) : Nat :=
  min 21600 (30 * 2 ^ min attemptCount 10)

def retried (now : Int) (row : PendingArtifactDeletion) (error : QString)
    (pending : List PendingArtifactDeletion) : List PendingArtifactDeletion :=
  updateRows (fun other => other.id == row.id)
    (fun other => { other with
      attemptCount := row.attemptCount + 1
      nextAttemptAt := now + 1000 * retryDelaySeconds row.attemptCount
      lastError := error.take 1024 })
    pending

def stillReferencedMessage : QString :=
  qs "The managed file is still referenced by another recording."

def notRemovedMessage (removalError : QString) : QString :=
  if (trimmed removalError).isEmpty then qs "The managed file could not be removed." else removalError

/-- The entry is due, and the transaction decides what becomes of it. -/
def processRow (moment : DrainMoment) (db : Database) (row : PendingArtifactDeletion)
    (pending : List PendingArtifactDeletion) : Processed :=
  if !isSafeArtifactPath p moment.look row.absolutePath row.artifactKind then
    ⟨.unsafePath, acknowledged row pending, none⟩
  else if !(moment.look row.absolutePath).doesExist && !(moment.look row.absolutePath).isSymLink then
    ⟨.missing, acknowledged row pending, none⟩
  else if pathIsReferenced p moment.look db row.absolutePath then
    ⟨.referenced, retried moment.now row stillReferencedMessage pending, none⟩
  else if !isSafeArtifactPath p moment.revalidated row.absolutePath row.artifactKind then
    ⟨.unsafePath, acknowledged row pending, none⟩
  else
    match moment.remove row.absolutePath with
    | .error removalError => ⟨.failed, retried moment.now row (notRemovedMessage removalError) pending, none⟩
    | .ok () => ⟨.removed, acknowledged row pending, some row.absolutePath⟩

/-- The transaction for one entry. -/
def processPending (moment : DrainMoment) (db : Database) (pendingId : QString)
    (pending : List PendingArtifactDeletion) : Processed :=
  match pending.find? fun row => row.id == pendingId && row.nextAttemptAt ≤ moment.now with
  | none => ⟨.skipped, pending, none⟩
  | some row => processRow p moment db row pending

/-- `ORDER BY created_at,id`. -/
def pendingKey (row : PendingArtifactDeletion) : Lex (Int × List Nat) :=
  toLex (row.createdAt, row.id.map (·.toNat))

/-- The entries a drain sets out with. -/
def eligibleIds (now : Int) (recordingId : QString) (pending : List PendingArtifactDeletion) : List QString :=
  let due := pending.filter fun row =>
    decide (row.nextAttemptAt ≤ now) && ((trimmed recordingId).isEmpty || row.recordingId == recordingId)
  (due.insertionSort fun a b => pendingKey a ≤ pendingKey b).map (·.id)

/-! ## The system -/

/-- A drain on its way. -/
structure Drain where
  pendingIds : List QString
  report : PendingArtifactDeletionReport := {}

structure ArtifactStore where
  db : Database := {}
  pending : List PendingArtifactDeletion := []
  drains : List Drain := []

inductive ArtifactEvent where
  /-- A repository of some process runs an operation. -/
  | repositories (look : Storage) (newId : Nat → QString) (step : RepositoryStep)
  /-- A drain reads the queue, of one recording or of all. -/
  | list (now : Int) (recordingId : QString)
  /-- A drain goes on to its next entry.  Its process may crash after the removal, before the commit. -/
  | process (drain : Nat) (moment : DrainMoment) (committed : Bool)
  /-- The process of a drain ends. -/
  | crash (drain : Nat)

namespace ArtifactStore

/-- `permanentlyDelete`: one transaction deletes the recording and queues its files. -/
def permanentlyDelete (look : Storage) (now : Int) (newId : Nat → QString) (id : QString) (s : ArtifactStore) :
    Result Unit × ArtifactStore :=
  match RecordingRepository.permanentlyDelete now id s.db with
  | (.error error, _) => (.error error, s)
  | (.ok (), db) =>
    match s.db.recording? id with
    | none => (.ok (), { s with db })
    | some recording =>
      match enqueueArtifactDeletions p look now newId recording s.pending with
      | .error error => (.error error, s)
      | .ok pending => (.ok (), { s with db, pending })

def executed (t : CharTables) (look : Storage) (newId : Nat → QString) (s : ArtifactStore) :
    RepositoryStep → ArtifactStore
  | .recordings now _ (.permanentlyDelete id) => (s.permanentlyDelete p look now newId id).2
  | step => { s with db := BreezeDesk.executed t s.db step }

/-- The entry a drain is about to process, and what comes of it. -/
def processed (s : ArtifactStore) (drain : Nat) (moment : DrainMoment) : Option (QString × Processed) :=
  (s.drains[drain]?.bind fun running => running.pendingIds.head?).map fun pendingId =>
    (pendingId, processPending p moment s.db pendingId s.pending)

def step (t : CharTables) (s : ArtifactStore) : ArtifactEvent → ArtifactStore
  | .repositories look newId step => s.executed p t look newId step
  | .list now recordingId =>
    { s with drains := s.drains ++ [{ pendingIds := eligibleIds now recordingId s.pending }] }
  | .process drain moment committed =>
    match s.processed p drain moment with
    | none => s
    | some (_, result) =>
      if committed then
        { s with
          pending := result.pending
          drains := s.drains.modify drain fun running =>
            { pendingIds := running.pendingIds.tail, report := running.report.counted result.outcome } }
      else { s with drains := s.drains.eraseIdx drain }
  | .crash drain => { s with drains := s.drains.eraseIdx drain }

/-- The files that a step removes. -/
def unlinked (s : ArtifactStore) : ArtifactEvent → List QString
  | .process drain moment _ => ((s.processed p drain moment).bind fun result => result.2.unlinked).toList
  | _ => []

end ArtifactStore

/-! ## Referenced files stay -/

/-- The recording refers to the file: one of its paths is the path, or opens the same file. -/
def RefersToFile (look : Storage) (recording : Recording) (path : QString) : Prop :=
  ∃ reference ∈ referencedColumns recording, SameFile p look path reference

variable {p} {t : CharTables} {s : ArtifactStore} {db : Database} {moment : DrainMoment}
  {pending : List PendingArtifactDeletion} {row : PendingArtifactDeletion} {path : QString}

theorem pathIsReferenced_of_refers {look : Storage} {recording : Recording} (hrecording : recording ∈ db.recordings)
    (hrefers : RefersToFile p look recording path) : pathIsReferenced p look db path = true := by
  obtain ⟨reference, hreference, hsame⟩ := hrefers
  refine List.any_eq_true.mpr ⟨recording, hrecording, List.any_eq_true.mpr ⟨reference, hreference, ?_⟩⟩
  exact pathsEquivalent_of_sameFile hsame

/-- What `processRow` does, by outcome. -/
theorem processRow_cases (p : PathRules) (moment : DrainMoment) (db : Database) (row : PendingArtifactDeletion)
    (pending : List PendingArtifactDeletion) :
    (∃ outcome, processRow p moment db row pending = ⟨outcome, acknowledged row pending, none⟩ ∧
      (isSafeArtifactPath p moment.look row.absolutePath row.artifactKind = false ∨
        isSafeArtifactPath p moment.revalidated row.absolutePath row.artifactKind = false ∨
        ((moment.look row.absolutePath).doesExist = false ∧
          (moment.look row.absolutePath).isSymLink = false))) ∨
    (∃ outcome error, processRow p moment db row pending = ⟨outcome, retried moment.now row error pending, none⟩) ∨
    (processRow p moment db row pending = ⟨.removed, acknowledged row pending, some row.absolutePath⟩ ∧
      isSafeArtifactPath p moment.look row.absolutePath row.artifactKind = true ∧
      pathIsReferenced p moment.look db row.absolutePath = false) := by
  unfold processRow
  split
  next hunsafe => exact Or.inl ⟨_, rfl, Or.inl (by simpa using hunsafe)⟩
  next hsafe =>
  split
  next hmissing => exact Or.inl ⟨_, rfl, Or.inr (Or.inr (by simpa using hmissing))⟩
  split
  next => exact Or.inr (Or.inl ⟨_, _, rfl⟩)
  next hunreferenced =>
    split
    next hunsafe => exact Or.inl ⟨_, rfl, Or.inr (Or.inl (by simpa using hunsafe))⟩
    split
    next => exact Or.inr (Or.inl ⟨_, _, rfl⟩)
    next => exact Or.inr (Or.inr ⟨rfl, by simpa using hsafe, Bool.eq_false_iff.mpr hunreferenced⟩)

/-- A path that a recording stores is referred to, when it is an absolute one. -/
theorem refersToFile_of_mem {look : Storage} {recording : Recording} (hnamed : normalizedAbsolutePath p look path ≠ [])
    (hmem : path ∈ referencedColumns recording) : RefersToFile p look recording path :=
  ⟨path, hmem, hnamed, hnamed, Or.inl (pathEquals_refl _)⟩

/-- **A file that is referenced** is not removed. -/
theorem processPending_spares {pendingId : QString}
    (hunlinked : (processPending p moment db pendingId pending).unlinked = some path) :
    (∃ entry ∈ pending, entry.absolutePath = path) ∧ ∀ recording ∈ db.recordings,
      ¬ RefersToFile p moment.look recording path ∧ path ∉ referencedColumns recording := by
  unfold processPending at hunlinked
  split at hunlinked
  next => cases hunlinked
  next row hfound =>
    rcases processRow_cases p moment db row pending with ⟨_, hrow, -⟩ | ⟨_, _, hrow⟩ | ⟨hrow, hsafe, hunreferenced⟩
    · rw [hrow] at hunlinked
      cases hunlinked
    · rw [hrow] at hunlinked
      cases hunlinked
    · rw [hrow] at hunlinked
      obtain rfl : row.absolutePath = path := Option.some.inj hunlinked
      refine ⟨⟨row, List.mem_of_find?_eq_some hfound, rfl⟩, fun recording hrecording => ?_⟩
      have hspared : ¬ RefersToFile p moment.look recording row.absolutePath := by
        intro hrefers
        have hreferenced := pathIsReferenced_of_refers hrecording hrefers
        rw [hunreferenced] at hreferenced
        cases hreferenced
      exact ⟨hspared, fun hmem => hspared (refersToFile_of_mem (named_of_isSafe hsafe) hmem)⟩

/-! ## Entries stay until they are settled -/

/-- Two rows for one deletion: the attempts may differ. -/
structure SameEntry (row other : PendingArtifactDeletion) : Prop where
  id : other.id = row.id
  artifactKind : other.artifactKind = row.artifactKind
  absolutePath : other.absolutePath = row.absolutePath

/-- Every entry has an id of its own. -/
def DistinctEntries (pending : List PendingArtifactDeletion) : Prop :=
  pending.Pairwise fun a b => a.id ≠ b.id

theorem DistinctEntries.eq_of_id (h : DistinctEntries pending) {a b : PendingArtifactDeletion} (ha : a ∈ pending)
    (hb : b ∈ pending) (hid : a.id = b.id) : a = b :=
  List.inj_on_of_nodup_map (List.pairwise_map.mpr h) ha hb hid

theorem SameEntry.refl (row : PendingArtifactDeletion) : SameEntry row row := ⟨rfl, rfl, rfl⟩

theorem SameEntry.trans {a b c : PendingArtifactDeletion} (h : SameEntry a b) (h' : SameEntry b c) : SameEntry a c :=
  ⟨h'.id.trans h.id, h'.artifactKind.trans h.artifactKind, h'.absolutePath.trans h.absolutePath⟩

/-- The file of the entry has been removed, is missing, or is rejected by the safety check. -/
inductive Settled (p : PathRules) (moment : DrainMoment) (row : PendingArtifactDeletion) (unlinked : Option QString) :
    Prop
  | removed (h : unlinked = some row.absolutePath)
  | missing (hfile : (moment.look row.absolutePath).doesExist = false)
      (hlink : (moment.look row.absolutePath).isSymLink = false)
  | rejected (h : isSafeArtifactPath p moment.look row.absolutePath row.artifactKind = false ∨
      isSafeArtifactPath p moment.revalidated row.absolutePath row.artifactKind = false)

theorem distinct_acknowledged (h : DistinctEntries pending) : DistinctEntries (acknowledged row pending) :=
  h.sublist List.filter_sublist

theorem distinct_retried {now : Int} {error : QString} (h : DistinctEntries pending) :
    DistinctEntries (retried now row error pending) := by
  have hmap : (retried now row error pending).map (·.id) = pending.map (·.id) := by
    refine map_updateRows (fun _ => ?_) pending
    rfl
  exact List.pairwise_map.mp (hmap ▸ List.pairwise_map.mpr h)

theorem kept_retried {now : Int} {error : QString} {entry : PendingArtifactDeletion} (hentry : entry ∈ pending) :
    ∃ later ∈ retried now row error pending, SameEntry entry later := by
  refine ⟨_, mem_updateRows.mpr ⟨entry, hentry, rfl⟩, ?_⟩
  split <;> exact ⟨rfl, rfl, rfl⟩

/-- Another entry stays when one is taken out. -/
theorem kept_acknowledged {entry : PendingArtifactDeletion} (h : DistinctEntries pending) (hrow : row ∈ pending)
    (hentry : entry ∈ pending) : entry = row ∨ ∃ later ∈ acknowledged row pending, SameEntry entry later := by
  by_cases hid : entry.id = row.id
  · exact Or.inl (h.eq_of_id hentry hrow hid)
  · exact Or.inr ⟨entry, List.mem_filter.mpr ⟨hentry, bne_iff_ne.mpr hid⟩, .refl entry⟩

theorem processPending_distinct {pendingId : QString} (h : DistinctEntries pending) :
    DistinctEntries (processPending p moment db pendingId pending).pending := by
  unfold processPending
  split
  next => exact h
  next row _ =>
    rcases processRow_cases p moment db row pending with ⟨_, hresult, -⟩ | ⟨_, _, hresult⟩ | ⟨hresult, -⟩
    · rw [hresult]
      exact distinct_acknowledged h
    · rw [hresult]
      exact distinct_retried h
    · rw [hresult]
      exact distinct_acknowledged h

/-- **A transaction of the drain** keeps every entry but the one it settles. -/
theorem processPending_settles {pendingId : QString} {entry : PendingArtifactDeletion}
    (h : DistinctEntries pending) (hentry : entry ∈ pending) :
    (∃ later ∈ (processPending p moment db pendingId pending).pending, SameEntry entry later) ∨
      entry.id = pendingId ∧ Settled p moment entry (processPending p moment db pendingId pending).unlinked := by
  unfold processPending
  split
  next => exact Or.inl ⟨entry, hentry, .refl entry⟩
  next row hfound =>
    have hrow := List.mem_of_find?_eq_some hfound
    have hid : row.id = pendingId := by
      have hboth := List.find?_some hfound
      rw [Bool.and_eq_true, beq_iff_eq] at hboth
      exact hboth.1
    rcases processRow_cases p moment db row pending with ⟨_, hresult, hwhy⟩ | ⟨_, _, hresult⟩ | ⟨hresult, -⟩
    · rw [hresult]
      rcases kept_acknowledged h hrow hentry with rfl | hkept
      · rcases hwhy with hunsafe | hunsafe | ⟨hfile, hlink⟩
        · exact Or.inr ⟨hid, .rejected (Or.inl hunsafe)⟩
        · exact Or.inr ⟨hid, .rejected (Or.inr hunsafe)⟩
        · exact Or.inr ⟨hid, .missing hfile hlink⟩
      · exact Or.inl hkept
    · rw [hresult]
      exact Or.inl (kept_retried hentry)
    · rw [hresult]
      rcases kept_acknowledged h hrow hentry with rfl | hkept
      · exact Or.inr ⟨hid, .removed rfl⟩
      · exact Or.inl hkept

/-- Queueing puts new entries behind the others. -/
theorem enqueueFrom_ok {look : Storage} {now : Int} {newId : Nat → QString} {recordingId : QString}
    {candidates : List (ArtifactKind × QString)} {after : List PendingArtifactDeletion} :
    ∀ {queuedPaths : List QString} {index : Nat} {pending : List PendingArtifactDeletion},
      enqueueFrom p look now newId recordingId queuedPaths index candidates pending = .ok after →
      DistinctEntries pending → DistinctEntries after ∧ ∀ entry ∈ pending, entry ∈ after := by
  induction candidates with
  | nil =>
    intro queuedPaths index pending hok h
    cases hok
    exact ⟨h, fun _ hentry => hentry⟩
  | cons candidate rest ih =>
    intro queuedPaths index pending hok h
    unfold enqueueFrom at hok
    dsimp only at hok
    split at hok
    · exact ih hok h
    split at hok
    next hinsertable =>
      have happended := List.pairwise_append.mpr ⟨h, List.pairwise_singleton _ _, fun a ha b hb => by
        rw [List.mem_singleton.mp hb]
        exact hinsertable.1 a ha⟩
      obtain ⟨hafter, hkept⟩ := ih hok happended
      exact ⟨hafter, fun entry hentry => hkept entry (List.mem_append_left _ hentry)⟩
    next => cases hok

theorem executed_queue {look : Storage} {newId : Nat → QString} (step : RepositoryStep)
    (h : DistinctEntries s.pending) : DistinctEntries (s.executed p t look newId step).pending ∧
      ∀ entry ∈ s.pending, entry ∈ (s.executed p t look newId step).pending := by
  unfold ArtifactStore.executed
  split
  next now _ id =>
    unfold ArtifactStore.permanentlyDelete
    split
    next => exact ⟨h, fun _ hentry => hentry⟩
    next =>
      split
      next => exact ⟨h, fun _ hentry => hentry⟩
      next =>
        split
        next => exact ⟨h, fun _ hentry => hentry⟩
        next hok => exact enqueueFrom_ok hok h
  next => exact ⟨h, fun _ hentry => hentry⟩

/-- The event is the committed transaction of a drain that settles the entry. -/
def SettlesEntry (p : PathRules) (s : ArtifactStore) (event : ArtifactEvent) (entry : PendingArtifactDeletion) :
    Prop :=
  ∃ drain moment result, event = .process drain moment true ∧ s.processed p drain moment = some (entry.id, result) ∧
    Settled p moment entry result.unlinked

theorem SettlesEntry.congr {event : ArtifactEvent} {entry later : PendingArtifactDeletion}
    (hsame : SameEntry entry later) (h : SettlesEntry p s event later) : SettlesEntry p s event entry := by
  obtain ⟨drain, moment, result, hevent, hprocessed, hsettled⟩ := h
  refine ⟨drain, moment, result, hevent, hsame.id ▸ hprocessed, ?_⟩
  cases hsettled with
  | removed h => exact .removed (hsame.absolutePath ▸ h)
  | missing hfile hlink => exact .missing (hsame.absolutePath ▸ hfile) (hsame.absolutePath ▸ hlink)
  | rejected h => exact .rejected (hsame.artifactKind ▸ hsame.absolutePath ▸ h)

theorem processed_eq {drain : Nat} {pendingId : QString} {result : Processed}
    (h : s.processed p drain moment = some (pendingId, result)) :
    result = processPending p moment s.db pendingId s.pending := by
  obtain ⟨_, _, hresult⟩ := Option.map_eq_some_iff.mp h
  obtain ⟨rfl, rfl⟩ := Prod.mk.inj hresult
  rfl

/-- What an event leaves of the queue: more than before, or what one transaction of a drain has made of it. -/
theorem pending_step (p : PathRules) (t : CharTables) (s : ArtifactStore) (event : ArtifactEvent)
    (h : DistinctEntries s.pending) :
    DistinctEntries (s.step p t event).pending ∧ (∀ entry ∈ s.pending, entry ∈ (s.step p t event).pending) ∨
      ∃ drain moment pendingId, event = .process drain moment true ∧
        s.processed p drain moment = some (pendingId, processPending p moment s.db pendingId s.pending) ∧
        (s.step p t event).pending = (processPending p moment s.db pendingId s.pending).pending := by
  cases event with
  | repositories look newId step => exact Or.inl (executed_queue step h)
  | list now recordingId => exact Or.inl ⟨h, fun _ hentry => hentry⟩
  | crash drain => exact Or.inl ⟨h, fun _ hentry => hentry⟩
  | process drain moment committed =>
    cases hprocessed : s.processed p drain moment with
    | none =>
      have hsame : s.step p t (.process drain moment committed) = s := by
        unfold ArtifactStore.step
        dsimp only
        rw [hprocessed]
      rw [hsame]
      exact Or.inl ⟨h, fun _ hentry => hentry⟩
    | some next =>
      obtain ⟨pendingId, result⟩ := next
      cases committed with
      | false =>
        have hsame : (s.step p t (.process drain moment false)).pending = s.pending := by
          unfold ArtifactStore.step
          dsimp only
          rw [hprocessed]
          rfl
        rw [hsame]
        exact Or.inl ⟨h, fun _ hentry => hentry⟩
      | true =>
        have hresult := processed_eq hprocessed
        subst hresult
        refine Or.inr ⟨drain, moment, pendingId, rfl, hprocessed, ?_⟩
        unfold ArtifactStore.step
        dsimp only
        rw [hprocessed]
        rfl

/-- **One step**: an entry stays, or the step settles it. -/
theorem step_settles (p : PathRules) (t : CharTables) (event : ArtifactEvent) (h : DistinctEntries s.pending) :
    DistinctEntries (s.step p t event).pending ∧ ∀ entry ∈ s.pending,
      (∃ later ∈ (s.step p t event).pending, SameEntry entry later) ∨ SettlesEntry p s event entry := by
  rcases pending_step p t s event h with ⟨hdistinct, hkept⟩ | ⟨drain, moment, pendingId, hevent, hprocessed, hpending⟩
  · exact ⟨hdistinct, fun entry hentry => Or.inl ⟨entry, hkept entry hentry, .refl entry⟩⟩
  · rw [hpending]
    refine ⟨processPending_distinct h, fun entry hentry => ?_⟩
    rcases processPending_settles (p := p) h hentry with hkept | ⟨hid, hsettled⟩
    · exact Or.inl hkept
    · exact Or.inr ⟨drain, moment, _, hevent, hid ▸ hprocessed, hid ▸ hsettled⟩

/-! ## Every run -/

theorem distinctEntries_run (p : PathRules) (t : CharTables) (events : List ArtifactEvent)
    (h : DistinctEntries s.pending) :
    DistinctEntries (run (ArtifactStore.step p t) s events).pending :=
  run_invariant (I := fun s => DistinctEntries s.pending) (fun s event h _ => (step_settles p t event h).1) h
    (guarded_true s events)

/-- **The life of an entry**, by induction on the run. -/
theorem run_settles (p : PathRules) (t : CharTables) (events : List ArtifactEvent) {entry : PendingArtifactDeletion}
    (h : DistinctEntries s.pending) (hentry : entry ∈ s.pending) :
    (∃ later ∈ (run (ArtifactStore.step p t) s events).pending, SameEntry entry later) ∨
      ∃ before event after, events = before ++ event :: after ∧
        SettlesEntry p (run (ArtifactStore.step p t) s before) event entry := by
  induction events generalizing s entry with
  | nil => exact Or.inl ⟨entry, hentry, .refl entry⟩
  | cons event rest ih =>
    obtain ⟨hdistinct, hone⟩ := step_settles p t event h
    rcases hone entry hentry with ⟨later, hlater, hsame⟩ | hsettles
    · rcases ih hdistinct hlater with ⟨last, hlast, hsame'⟩ | ⟨before, last, after, rfl, hsettles⟩
      · exact Or.inl ⟨last, hlast, hsame.trans hsame'⟩
      · exact Or.inr ⟨event :: before, last, after, rfl, hsettles.congr hsame⟩
    · exact Or.inr ⟨[], event, rest, rfl, hsettles⟩

/-- **Artifact deletion.**  After every run: whatever a further step removes is the file of a drain's entry,
    and no recording that exists refers to it; and an entry of the queue is still there after any further
    events, unless one of them removed its file, found it missing, or rejected it as unsafe. -/
theorem artifact_deletion (p : PathRules) (t : CharTables) (events : List ArtifactEvent) :
    let s := run (ArtifactStore.step p t) {} events
    (∀ event, ∀ path ∈ s.unlinked p event, ∃ drain moment committed, event = .process drain moment committed ∧
      (∃ entry ∈ s.pending, entry.absolutePath = path) ∧
      ∀ recording ∈ s.db.recordings, ¬ RefersToFile p moment.look recording path ∧
        path ∉ referencedColumns recording) ∧
    ∀ entry ∈ s.pending, ∀ more,
      (∃ later ∈ (run (ArtifactStore.step p t) s more).pending, SameEntry entry later) ∨
        ∃ before event after, more = before ++ event :: after ∧
          SettlesEntry p (run (ArtifactStore.step p t) s before) event entry := by
  intro s
  refine ⟨fun event path hpath => ?_, fun entry hentry more => ?_⟩
  · cases event with
    | process drain moment committed =>
      obtain ⟨⟨pendingId, result⟩, hprocessed, hunlinked⟩ := Option.bind_eq_some_iff.mp (Option.mem_toList.mp hpath)
      have hresult := processed_eq hprocessed
      subst hresult
      exact ⟨drain, moment, committed, rfl, processPending_spares hunlinked⟩
    | _ => cases hpath
  · exact run_settles p t more (distinctEntries_run p t events List.Pairwise.nil) hentry

end BreezeDesk
