/-
  What the database keeps of a job while it is transcribed, and what resuming it depends on.

  `JobStore` is the plan of a job and its segments as the repositories read them; its two writes are
  what `replaceChunk` and `updateChunk` do to them (`jobStore_replaceChunk`, `jobStore_updateChunk`).

  Two runs of a job draw other ids and read other clocks.  `essence` is what is left of a segment
  without these: the repositories' merge of a chunk depends on it alone (`combinedSegments_agree`).
-/
import BreezeDesk.App.ChunkCommit
import BreezeDesk.Jobs.Repository

namespace BreezeDesk.Resume

open Transaction Ranges App

variable (t : CharTables)

/-! ## The store of a job -/

structure JobStore where
  chunks : List JobChunk
  rows : List TranscriptSegment

/-- `SqliteJobRepository::chunks`. -/
def chunksForJob (db : Database) (jobId : QString) : List JobChunk :=
  (db.chunks.filter fun chunk => chunk.jobId == jobId).insertionSort
    fun left right => left.ordinal ≤ right.ordinal

def jobStore (db : Database) (jobId : QString) : JobStore :=
  { chunks := chunksForJob db jobId, rows := segmentsForJob db jobId true }

namespace JobStore

/-- `updateChunk` on the store of the job. -/
def updateChunk (chunk : JobChunk) (store : JobStore) : JobStore :=
  { store with chunks := updateRows (fun row => row.id == chunk.id) (updatedChunk chunk) store.chunks }

/-- `replaceChunk` on the store of the job. -/
def replaceChunk (now : Int) (newId : Nat → QString) (recordingId jobId chunkId : QString)
    (segments : List TranscriptSegment) (provisional : Bool) (attempt : Int) (store : JobStore) :
    Result JobStore :=
  if ∀ row ∈ store.rows, ¬ (row.chunkId = chunkId ∧ hasManualTextEdit t row = true) then
    match validateSegments (combinedSegments store.rows chunkId provisional attempt segments) provisional with
    | .ok () => .ok { store with
        rows := storedRows now newId recordingId jobId 0
          (combinedSegments store.rows chunkId provisional attempt segments) }
    | .error error => .error error
  else .error manualEditError

/-- The chunks that ran when the process was stopped are marked as interrupted. -/
def recovered (message : QString) (store : JobStore) : JobStore :=
  { store with chunks :=
      updateRows (fun chunk => chunk.state == .running) (recoveredChunk false message) store.chunks }

end JobStore

variable {t} {db db' : Database} {recordingId jobId chunkId ownerToken : QString} {now : Int}
  {newId : Nat → QString} {segments existing : List TranscriptSegment} {provisional : Bool}
  {attempt : Int} {chunk : JobChunk}

theorem JobStore.replaceChunk_eq_ok {store store' : JobStore} :
    store.replaceChunk t now newId recordingId jobId chunkId segments provisional attempt = .ok store' ↔
      (∀ row ∈ store.rows, row.chunkId = chunkId → hasManualTextEdit t row = false) ∧
        validateSegments (combinedSegments store.rows chunkId provisional attempt segments) provisional =
          .ok () ∧
        store' = { store with
          rows := storedRows now newId recordingId jobId 0
            (combinedSegments store.rows chunkId provisional attempt segments) } := by
  have hguard : (∀ row ∈ store.rows, ¬ (row.chunkId = chunkId ∧ hasManualTextEdit t row = true)) ↔
      ∀ row ∈ store.rows, row.chunkId = chunkId → hasManualTextEdit t row = false := by
    simp only [not_and, Bool.not_eq_true]
  unfold JobStore.replaceChunk
  rw [← hguard]
  by_cases hmanual : ∀ row ∈ store.rows, ¬ (row.chunkId = chunkId ∧ hasManualTextEdit t row = true)
  · rw [if_pos hmanual, and_iff_right hmanual]
    cases validateSegments (combinedSegments store.rows chunkId provisional attempt segments) provisional with
    | ok =>
      rw [and_iff_right rfl]
      exact ⟨fun h => (Except.ok.inj h).symm, fun h => congrArg Except.ok h.symm⟩
    | error error => exact ⟨fun h => (by cases h), fun h => (by cases h.1)⟩
  · rw [if_neg hmanual]
    exact ⟨fun h => (by cases h), fun h => absurd h.1 hmanual⟩

/-- **The repository writes the store of the job**, and refuses what the store refuses. -/
theorem jobStore_replaceChunk
    (h : replaceChunk t now newId recordingId jobId chunkId segments provisional attempt ownerToken db =
      (.ok (), db')) :
    (jobStore db jobId).replaceChunk t now newId recordingId jobId chunkId segments provisional attempt =
      .ok (jobStore db' jobId) := by
  obtain ⟨-, -, -, hmanual, hrewritten⟩ := replaceChunk_ok h
  have hchunks : chunksForJob db' jobId = chunksForJob db jobId := by
    unfold chunksForJob
    rw [hrewritten.result]
  have hrows := hrewritten.segmentsForJob_eq true
  simp only [Bool.true_or, List.filter_true] at hrows
  refine JobStore.replaceChunk_eq_ok.mpr ⟨fun row hmem hchunkId => ?_, hrewritten.valid, ?_⟩
  · obtain ⟨hrow, hjobId, -⟩ := mem_segmentsForJob.mp hmem
    exact hmanual row hrow hjobId hchunkId
  · unfold jobStore
    rw [hchunks, hrows]

/-- What the store accepts the repository accepts, when the chunk is in place and the ids are free. -/
theorem jobStore_accepts (htarget : ChunkTarget db now recordingId jobId chunkId ownerToken)
    (hkeys : SegmentKeys db.segments)
    (hids : IdsFree jobId db.segments
      (combinedSegments (segmentsForJob db jobId true) chunkId provisional attempt segments))
    (hbelongs : ∀ segment ∈
      combinedSegments (segmentsForJob db jobId true) chunkId provisional attempt segments,
      Belongs db recordingId jobId segment) {store : JobStore}
    (h : (jobStore db jobId).replaceChunk t now newId recordingId jobId chunkId segments provisional attempt =
      .ok store) :
    ∃ db', replaceChunk t now newId recordingId jobId chunkId segments provisional attempt ownerToken db =
      (.ok (), db') ∧ jobStore db' jobId = store := by
  obtain ⟨hguard, hvalid, -⟩ := JobStore.replaceChunk_eq_ok.mp h
  have hmanual : NoManualEdit t jobId chunkId db.segments := by
    intro row hrow hjobId hchunkId
    exact hguard row (mem_segmentsForJob.mpr ⟨hrow, hjobId, Or.inl rfl⟩) hchunkId
  have haccepted : ∃ db', replaceChunk t now newId recordingId jobId chunkId segments provisional attempt
      ownerToken db = (.ok (), db') :=
    (replaceChunk_ok_iff htarget hkeys hids hbelongs).mpr ⟨hmanual, hvalid⟩
  obtain ⟨db', hdb'⟩ := haccepted
  exact ⟨db', hdb', Except.ok.inj ((jobStore_replaceChunk hdb').symm.trans h)⟩

/-- A chunk row is updated, and no segment. -/
theorem updateChunk_ok (h : BreezeDesk.updateChunk t now chunk ownerToken db = (.ok (), db')) :
    db'.chunks = updateRows (fun row => row.id == chunk.id && row.jobId == chunk.jobId)
        (updatedChunk chunk) db.chunks ∧ db'.segments = db.segments := by
  unfold BreezeDesk.updateChunk at h
  split at h
  · cases h
  obtain ⟨-, hop⟩ := executionLeaseTransaction_ok h
  obtain ⟨_, _, hfind, hop1⟩ := bind_eq_ok.mp hop
  obtain ⟨rfl, rfl⟩ := command_eq_ok.mp hfind
  obtain ⟨previous, _, hsome, hop2⟩ := bind_eq_ok.mp hop1
  obtain ⟨-, rfl⟩ := requireSome_eq_ok.mp hsome
  obtain ⟨job, _, hjob, hop3⟩ := bind_eq_ok.mp hop2
  obtain ⟨_, _, hfindJob, hsomeJob⟩ := bind_eq_ok.mp hjob
  obtain ⟨rfl, rfl⟩ := command_eq_ok.mp hfindJob
  obtain ⟨-, rfl⟩ := requireSome_eq_ok.mp hsomeJob
  obtain ⟨total, _, htotal, hop4⟩ := bind_eq_ok.mp hop3
  obtain ⟨-, rfl⟩ := command_eq_ok.mp htotal
  obtain ⟨_, _, hupdate, hop5⟩ := bind_eq_ok.mp hop4
  obtain ⟨-, rfl⟩ := command_eq_ok.mp hupdate
  split at hop5
  · obtain ⟨-, rfl⟩ := pure_eq_ok.mp hop5
    exact ⟨rfl, rfl⟩
  · obtain ⟨_, _, hevent, hpure⟩ := bind_eq_ok.mp hop5
    obtain ⟨-, rfl⟩ := pure_eq_ok.mp hpure
    obtain ⟨_, _, hnamed, hinsert⟩ := bind_eq_ok.mp hevent
    obtain ⟨-, rfl⟩ := require_eq_ok.mp hnamed
    obtain ⟨-, -, rfl⟩ := statement_eq_ok.mp hinsert
    exact ⟨rfl, rfl⟩

theorem jobStore_updateChunk (h : BreezeDesk.updateChunk t now chunk ownerToken db = (.ok (), db')) :
    jobStore db' chunk.jobId = (jobStore db chunk.jobId).updateChunk chunk := by
  obtain ⟨hchunks, hsegments⟩ := updateChunk_ok h
  have hrows : segmentsForJob db' chunk.jobId true = segmentsForJob db chunk.jobId true := by
    unfold segmentsForJob
    rw [hsegments]
  let change := fun row : JobChunk => if (row.id == chunk.id) = true then updatedChunk chunk row else row
  -- neither the owner of a row nor its place in the plan changes
  have hkept : ∀ row, (change row).jobId = row.jobId ∧ (change row).ordinal = row.ordinal := by
    intro row
    show (if _ then _ else _ : JobChunk).jobId = _ ∧ (if _ then _ else _ : JobChunk).ordinal = _
    split <;> exact ⟨rfl, rfl⟩
  have hfiltered : (db'.chunks.filter fun row => row.jobId == chunk.jobId) =
      (db.chunks.filter fun row => row.jobId == chunk.jobId).map change := by
    rw [hchunks]
    unfold updateRows
    rw [List.filter_map]
    refine (List.map_congr_left fun row hmem => ?_).trans (congrArg _ (List.filter_congr fun row _ => ?_))
    · have howner := (List.mem_filter.mp hmem).2
      dsimp only [Function.comp_apply] at howner
      have hjob : (row.jobId == chunk.jobId) = true := by
        rw [← howner]
        split <;> rfl
      show (if (row.id == chunk.id && row.jobId == chunk.jobId) = true then updatedChunk chunk row else row) =
        if (row.id == chunk.id) = true then updatedChunk chunk row else row
      rw [hjob, Bool.and_true]
    · dsimp only [Function.comp_apply]
      split <;> rfl
  have hplan : chunksForJob db' chunk.jobId = (chunksForJob db chunk.jobId).map change := by
    unfold chunksForJob
    rw [hfiltered]
    refine (List.map_insertionSort (fun left right : JobChunk => left.ordinal ≤ right.ordinal)
      (fun left right : JobChunk => left.ordinal ≤ right.ordinal) change _ fun left _ right _ => ?_).symm
    rw [(hkept left).2, (hkept right).2]
  unfold jobStore JobStore.updateChunk
  rw [hrows, hplan]
  rfl

/-! ## What is left without ids and clocks -/

/-- The range and the texts of a segment. -/
def essence (segment : TranscriptSegment) : TranscriptSegment :=
  { startMs := segment.startMs, endMs := segment.endMs, originalText := segment.originalText,
    editedText := segment.editedText }

theorem content_eq_of_essence {first second : List TranscriptSegment}
    (h : first.map essence = second.map essence) :
    first.map TranscriptSegment.content = second.map TranscriptSegment.content := by
  have hcontent : ∀ list : List TranscriptSegment,
      list.map TranscriptSegment.content = (list.map essence).map TranscriptSegment.content := by
    intro list
    rw [List.map_map]
    rfl
  rw [hcontent first, hcontent second, h]

theorem map_essence_essence (list : List TranscriptSegment) :
    (list.map essence).map essence = list.map essence := by
  rw [List.map_map]
  rfl

theorem map_essence_storedRows (list : List TranscriptSegment) :
    (storedRows now newId recordingId jobId 0 list).map essence = list.map essence :=
  map_storedRows (fun _ _ => rfl) list

theorem timeOrdered_essence {list : List TranscriptSegment} :
    TimeOrdered (list.map essence) ↔ TimeOrdered list := by
  refine ordered_congr ?_
  rw [List.map_map]
  rfl

/-- The job after a chunk with these segments, with nothing but ranges and texts. -/
def merged (before committed : List TranscriptSegment) : List TranscriptSegment :=
  sortedByTime (before ++ committed)

theorem merged_sorted (before committed : List TranscriptSegment) :
    (merged before committed).Pairwise fun a b => a.startMs ≤ b.startMs := by
  refine (List.pairwise_insertionSort _ _).imp fun {a b} hab => ?_
  unfold earlier at hab
  omega

theorem combinedSegments_merged_perm (existing : List TranscriptSegment) (chunkId : QString)
    (provisional : Bool) (attempt : Int) (segments : List TranscriptSegment) :
    ((combinedSegments existing chunkId provisional attempt segments).map essence).Perm
      (merged ((existing.filter fun row => row.chunkId != chunkId).map essence) (segments.map essence)) := by
  refine ((combinedSegments_perm ..).map essence).trans (List.Perm.trans ?_ (List.perm_insertionSort ..).symm)
  rw [List.map_append]
  unfold chunkSegments
  rw [List.map_map]
  exact List.Perm.refl _

section Merged

variable {before : List TranscriptSegment}
  (hbefore : (existing.filter fun row => row.chunkId != chunkId).map essence = before)
include hbefore

theorem timeOrdered_combinedSegments :
    TimeOrdered (combinedSegments existing chunkId provisional attempt segments) ↔
      TimeOrdered (merged before (segments.map essence)) := by
  rw [← timeOrdered_essence, ← hbefore]
  refine ordered_perm (combinedSegments_merged_perm ..) ?_ (merged_sorted ..)
  exact List.pairwise_map.mpr (combinedSegments_sorted ..)

/-- **What the repository makes of a chunk** depends on ranges and texts alone. -/
theorem combinedSegments_essence
    (h : validateSegments (combinedSegments existing chunkId provisional attempt segments) = .ok ()) :
    (combinedSegments existing chunkId provisional attempt segments).map essence =
      merged before (segments.map essence) := by
  have hord := (validateSegments_eq_ok.mp h).2
  have hord' := (timeOrdered_combinedSegments hbefore).mp hord
  refine (timeOrdered_essence.mpr hord).eq_of_perm hord' ?_
  rw [← hbefore]
  exact combinedSegments_merged_perm ..

/-- So does whether it refuses it. -/
theorem validateSegments_combined_iff :
    validateSegments (combinedSegments existing chunkId provisional attempt segments) = .ok () ↔
      validateSegments (merged before (segments.map essence)) = .ok () := by
  have hperm := combinedSegments_merged_perm existing chunkId provisional attempt segments
  rw [hbefore] at hperm
  rw [validateSegments_eq_ok, validateSegments_eq_ok, timeOrdered_combinedSegments hbefore]
  refine and_congr ?_ Iff.rfl
  constructor
  · intro h segment hmem
    obtain ⟨row, hrow, rfl⟩ := List.mem_map.mp (hperm.mem_iff.mpr hmem)
    exact h row hrow
  · intro h row hrow
    exact h (essence row) (hperm.mem_iff.mp (List.mem_map_of_mem hrow))

end Merged

end BreezeDesk.Resume
