/-
  What the operations on segments leave behind.

  The whole-list operations delete the rows of the job and insert a list: `Rewritten` says so once, with
  the guards the list has passed, and reading the job back gives the list (`segmentsForJob_eq`).  Each
  operation has one lemma `…_ok` that turns a successful run into its guards and the rows it leaves;
  `replaceChunk_ok_iff` says when the chunk of a job is replaced at all.
-/
import BreezeDesk.Transcript.Repository

namespace BreezeDesk

open Transaction

/-! ## What an inserted list leaves -/

section Inserting

variable {db db' : Database} {recordingId jobId : QString} {now : Int} {newId : Nat → QString}

/-- The rows stored for a list, numbered from `index` on. -/
def storedRows (now : Int) (newId : Nat → QString) (recordingId jobId : QString) :
    Nat → List TranscriptSegment → List TranscriptSegment
  | _, [] => []
  | index, segment :: rest =>
    storedSegment now newId recordingId jobId index segment ::
      storedRows now newId recordingId jobId (index + 1) rest

/-- Row by row: each stored row is a segment of the list with its number. -/
theorem mem_storedRows {list : List TranscriptSegment} {row : TranscriptSegment} :
    ∀ {index : Nat}, row ∈ storedRows now newId recordingId jobId index list ↔
      ∃ k segment, list[k]? = some segment ∧
        row = storedSegment now newId recordingId jobId (index + k) segment := by
  induction list with
  | nil =>
    intro index
    constructor
    · intro h
      cases h
    · rintro ⟨k, segment, h, -⟩
      simp at h
  | cons first rest ih =>
    intro index
    simp only [storedRows, List.mem_cons, ih]
    constructor
    · rintro (rfl | ⟨k, segment, hk, rfl⟩)
      · exact ⟨0, first, rfl, rfl⟩
      · refine ⟨k + 1, segment, hk, ?_⟩
        rw [Nat.add_assoc, Nat.add_comm 1 k]
    · rintro ⟨k, segment, hk, rfl⟩
      cases k with
      | zero =>
        cases hk
        exact Or.inl rfl
      | succ k =>
        refine Or.inr ⟨k, segment, hk, ?_⟩
        rw [Nat.add_assoc, Nat.add_comm 1 k]

/-- A map that does not look at the stored fields sees the list through its rows. -/
theorem map_storedRows {β : Type} {f : TranscriptSegment → β}
    (hf : ∀ index segment, f (storedSegment now newId recordingId jobId index segment) = f segment)
    (list : List TranscriptSegment) :
    ∀ {index : Nat}, (storedRows now newId recordingId jobId index list).map f = list.map f := by
  induction list with
  | nil => intro index; rfl
  | cons segment rest ih => intro index; simp only [storedRows, List.map_cons, hf, ih]

/-- What a list has to be to be inserted for a job: its segments belong there, and so do their chunks. -/
def Belongs (db : Database) (recordingId jobId : QString) (segment : TranscriptSegment) : Prop :=
  (segment.recordingId = [] ∨ segment.recordingId = recordingId) ∧
    (segment.jobId = [] ∨ segment.jobId = jobId) ∧
    (segment.chunkId = [] ∨ ChunkOf db jobId segment.chunkId)

/-- The unique keys of the segment table: the id, and the number within a job. -/
structure SegmentKeys (rows : List TranscriptSegment) : Prop where
  ids : rows.Pairwise fun a b => a.id ≠ b.id
  ordinals : rows.Pairwise fun a b => ¬ (a.jobId = b.jobId ∧ a.ordinal = b.ordinal)

/-- An id names one row. -/
theorem SegmentKeys.eq_of_id {rows : List TranscriptSegment} (h : SegmentKeys rows)
    {a b : TranscriptSegment} (ha : a ∈ rows) (hb : b ∈ rows) (hid : a.id = b.id) : a = b :=
  List.inj_on_of_nodup_map (List.pairwise_map.mpr h.ids) ha hb hid

theorem segment?_isNone {id : QString} :
    (db.segment? id).isNone = true ↔ ∀ row ∈ db.segments, row.id ≠ id := by
  unfold Database.segment?
  simp only [Option.isNone_iff_eq_none, List.find?_eq_none, beq_iff_eq, ne_eq]

/-- A row that may be inserted keeps the keys unique. -/
theorem SegmentKeys.append {rows : List TranscriptSegment} {row : TranscriptSegment}
    (h : SegmentKeys rows) (hid : ∀ other ∈ rows, other.id ≠ row.id)
    (hordinal : ∀ other ∈ rows, ¬ (other.jobId = row.jobId ∧ other.ordinal = row.ordinal)) :
    SegmentKeys (rows ++ [row]) where
  ids := List.pairwise_append.mpr ⟨h.ids, List.pairwise_singleton .., fun a ha b hb => by
    rw [List.mem_singleton.mp hb]
    exact hid a ha⟩
  ordinals := List.pairwise_append.mpr ⟨h.ordinals, List.pairwise_singleton .., fun a ha b hb => by
    rw [List.mem_singleton.mp hb]
    exact hordinal a ha⟩

theorem insertRow_eq_ok {index : Nat} {segment : TranscriptSegment} {u : Unit} :
    insertRow now newId recordingId jobId index segment db = .ok (u, db') ↔
      Belongs db recordingId jobId segment ∧
        SegmentInsertable db (storedSegment now newId recordingId jobId index segment) ∧
        db' = { db with segments :=
          db.segments ++ [storedSegment now newId recordingId jobId index segment] } := by
  unfold insertRow insertSegment Belongs
  simp only [bind_eq_ok, require_eq_ok, validateSegmentChunk_eq_ok, statement_eq_ok]
  constructor
  · rintro ⟨_, _, ⟨⟨hrecording, hjob⟩, rfl⟩, _, _, ⟨rfl, hchunk⟩, hinsert, -, rfl⟩
    exact ⟨⟨hrecording, hjob, hchunk⟩, hinsert, rfl⟩
  · rintro ⟨⟨hrecording, hjob, hchunk⟩, hinsert, rfl⟩
    exact ⟨⟨⟩, _, ⟨⟨hrecording, hjob⟩, rfl⟩, ⟨⟩, _, ⟨rfl, hchunk⟩, hinsert, trivial, rfl⟩

/-- **Inserting a list** stores its rows behind the others, and keeps the keys unique. -/
theorem insertRows_ok {list : List TranscriptSegment} {u : Unit} :
    ∀ {index : Nat} {db : Database},
      insertRows now newId recordingId jobId index list db = .ok (u, db') →
      db' = { db with segments := db.segments ++ storedRows now newId recordingId jobId index list } ∧
        (∀ segment ∈ list, Belongs db recordingId jobId segment) ∧
        (list ≠ [] → (db.recording? recordingId).isSome ∧ (db.job? jobId).isSome) ∧
        (SegmentKeys db.segments → SegmentKeys db'.segments) := by
  induction list with
  | nil =>
    intro index db h
    obtain ⟨-, rfl⟩ := pure_eq_ok.mp h
    refine ⟨?_, fun segment hmem => (by cases hmem), fun hne => absurd rfl hne, id⟩
    simp only [storedRows, List.append_nil]
  | cons segment rest ih =>
    intro index db h
    obtain ⟨_, db1, hfirst, hrest⟩ := bind_eq_ok.mp h
    obtain ⟨hbelongs, hinsert, rfl⟩ := insertRow_eq_ok.mp hfirst
    obtain ⟨rfl, hall, -, hkeys⟩ := ih hrest
    obtain ⟨hid, hordinal, hrecording, hjob, -⟩ := hinsert
    refine ⟨?_, ?_, fun _ => ⟨hrecording, hjob⟩, fun hold => hkeys ?_⟩
    · simp only [storedRows, List.append_assoc, List.singleton_append]
    · intro other hmem
      rcases List.mem_cons.mp hmem with rfl | hmem
      · exact hbelongs
      · exact hall other hmem
    · exact hold.append (segment?_isNone.mp hid) hordinal

/-- A list whose rows break no key and no range is inserted. -/
theorem insertRows_of_keys {list : List TranscriptSegment} :
    ∀ {index : Nat} {db : Database}, (∀ segment ∈ list, Belongs db recordingId jobId segment) →
      (db.recording? recordingId).isSome → (db.job? jobId).isSome →
      (∀ segment ∈ list, 0 ≤ segment.startMs ∧ segment.startMs < segment.endMs) →
      SegmentKeys (db.segments ++ storedRows now newId recordingId jobId index list) →
      insertRows now newId recordingId jobId index list db = .ok ((), { db with
        segments := db.segments ++ storedRows now newId recordingId jobId index list }) := by
  induction list with
  | nil =>
    intro index db _ _ _ _ _
    simp only [storedRows, List.append_nil]
    rfl
  | cons segment rest ih =>
    intro index db hbelongs hrecording hjob hranges hkeys
    obtain ⟨hrange0, hrange⟩ := hranges segment (List.mem_cons_self ..)
    have hfirst := hbelongs segment (List.mem_cons_self ..)
    have hsplit : db.segments ++ storedRows now newId recordingId jobId index (segment :: rest) =
        (db.segments ++ [storedSegment now newId recordingId jobId index segment]) ++
          storedRows now newId recordingId jobId (index + 1) rest := by
      simp only [storedRows, List.append_assoc, List.singleton_append]
    rw [hsplit] at hkeys ⊢
    -- the new row shares no key with a row before it
    have hbefore := hkeys.ids.sublist (List.sublist_append_left ..)
    have hbefore' := hkeys.ordinals.sublist (List.sublist_append_left ..)
    have hinsert : SegmentInsertable db (storedSegment now newId recordingId jobId index segment) := by
      refine ⟨segment?_isNone.mpr fun row hrow => ?_, fun other hother => ?_, hrecording, hjob, ?_,
        hrange0, hrange⟩
      · exact (List.pairwise_append.mp hbefore).2.2 row hrow _ (List.mem_singleton_self _)
      · exact (List.pairwise_append.mp hbefore').2.2 other hother _ (List.mem_singleton_self _)
      · rcases hfirst.2.2 with hempty | ⟨chunk, hchunk, -⟩
        · exact Or.inl hempty
        · exact Or.inr (by show (db.chunk? segment.chunkId).isSome; rw [hchunk]; rfl)
    refine bind_eq_ok.mpr ⟨(), _, insertRow_eq_ok.mpr ⟨hfirst, hinsert, rfl⟩, ?_⟩
    exact ih (fun other hmem => hbelongs other (List.mem_cons_of_mem _ hmem)) hrecording hjob
      (fun other hmem => hranges other (List.mem_cons_of_mem _ hmem)) hkeys

end Inserting

/-! ## Rewriting the rows of a job -/

section Rewriting

variable {t : CharTables} {db db' db1 : Database} {recordingId jobId chunkId ownerToken : QString}
  {now : Int} {newId : Nat → QString} {list segments : List TranscriptSegment} {allowOverlap : Bool}

/-- The table once the rows of a job have been replaced by those of a list. -/
def rewrittenRows (now : Int) (newId : Nat → QString) (recordingId jobId : QString)
    (list rows : List TranscriptSegment) : List TranscriptSegment :=
  rows.filter (fun row => row.jobId != jobId) ++ storedRows now newId recordingId jobId 0 list

/-- What a transaction did that replaced the rows of a job by a list. -/
structure Rewritten (now : Int) (newId : Nat → QString) (recordingId jobId : QString)
    (list : List TranscriptSegment) (allowOverlap : Bool) (db db' : Database) : Prop where
  valid : validateSegments list allowOverlap = .ok ()
  belongs : ∀ segment ∈ list, Belongs db recordingId jobId segment
  target : list ≠ [] → (db.recording? recordingId).isSome ∧ (db.job? jobId).isSome
  result : db' = { db with
    segments := rewrittenRows now newId recordingId jobId list db.segments
    searchIndex := db'.searchIndex }
  keys : SegmentKeys db.segments → SegmentKeys db'.segments

theorem SegmentKeys.sublist {rows sub : List TranscriptSegment} (h : SegmentKeys rows)
    (hsub : sub.Sublist rows) : SegmentKeys sub :=
  ⟨h.ids.sublist hsub, h.ordinals.sublist hsub⟩

/-- The database after that, before its index is rebuilt. -/
def rewrittenDatabase (now : Int) (newId : Nat → QString) (recordingId jobId : QString)
    (list : List TranscriptSegment) (db : Database) : Database :=
  { db with segments := rewrittenRows now newId recordingId jobId list db.segments }

theorem rewritten_of_insert {n : Nat} {u : Unit}
    (hdelete : deleteSegments (fun segment => segment.jobId == jobId) db = .ok (n, db1))
    (hinsert : insertSegments now newId recordingId jobId list allowOverlap db1 = .ok (u, db')) :
    Rewritten now newId recordingId jobId list allowOverlap db db' ∧
      db' = rewrittenDatabase now newId recordingId jobId list db := by
  obtain ⟨-, rfl⟩ := command_eq_ok.mp hdelete
  obtain ⟨_, _, hcheck, hrows⟩ := bind_eq_ok.mp hinsert
  obtain ⟨hvalid, rfl⟩ := liftResult_eq_ok.mp hcheck
  obtain ⟨rfl, hbelongs, htarget, hkeys⟩ := insertRows_ok hrows
  exact ⟨⟨hvalid, hbelongs, htarget, rfl, fun hold => hkeys (hold.sublist List.filter_sublist)⟩, rfl⟩

/-- The index may be rebuilt on top of it. -/
theorem Rewritten.indexed {indexed : QString}
    (h : Rewritten now newId recordingId jobId list allowOverlap db db') :
    Rewritten now newId recordingId jobId list allowOverlap db (rebuiltIndex indexed db') := by
  refine ⟨h.valid, h.belongs, h.target, ?_, fun hold => ?_⟩
  · rw [rebuiltIndex_eq, h.result]
  · rw [rebuiltIndex_eq]
    exact h.keys hold

/-- The ordinals of stored rows count up. -/
theorem storedRows_ordinals :
    ∀ {index : Nat} {list : List TranscriptSegment},
      (storedRows now newId recordingId jobId index list).Pairwise fun a b => a.ordinal < b.ordinal := by
  intro index list
  induction list generalizing index with
  | nil => exact List.Pairwise.nil
  | cons segment rest ih =>
    refine List.pairwise_cons.mpr ⟨fun row hrow => ?_, ih⟩
    obtain ⟨k, other, -, rfl⟩ := mem_storedRows.mp hrow
    show (index : Int) < ((index + 1 + k : Nat) : Int)
    omega

theorem storedRows_jobId {index : Nat} {row : TranscriptSegment}
    (h : row ∈ storedRows now newId recordingId jobId index list) : row.jobId = jobId := by
  obtain ⟨k, segment, -, rfl⟩ := mem_storedRows.mp h
  rfl

/-- **What is read back is the list that was written.** -/
theorem Rewritten.segmentsForJob_eq
    (h : Rewritten now newId recordingId jobId list allowOverlap db db') (includeProvisional : Bool) :
    segmentsForJob db' jobId includeProvisional =
      (storedRows now newId recordingId jobId 0 list).filter fun row =>
        includeProvisional || !row.provisional := by
  have hothers : (db.segments.filter fun row => row.jobId != jobId).filter (fun row =>
      row.jobId == jobId && (includeProvisional || !row.provisional)) = [] := by
    refine List.filter_eq_nil_iff.mpr fun row hrow => ?_
    have hne := (List.mem_filter.mp hrow).2
    rw [bne_iff_ne] at hne
    simp only [beq_eq_false_iff_ne.mpr hne, Bool.false_and, Bool.false_eq_true, not_false_eq_true]
  have hown : (storedRows now newId recordingId jobId 0 list).filter (fun row =>
      row.jobId == jobId && (includeProvisional || !row.provisional)) =
      (storedRows now newId recordingId jobId 0 list).filter fun row =>
        includeProvisional || !row.provisional := by
    refine List.filter_congr fun row hrow => ?_
    rw [storedRows_jobId hrow, beq_self_eq_true, Bool.true_and]
  unfold segmentsForJob orderedByOrdinal
  rw [h.result]
  show List.insertionSort _ (List.filter _ (rewrittenRows now newId recordingId jobId list _)) = _
  unfold rewrittenRows
  rw [List.filter_append, hothers, List.nil_append, hown]
  refine List.Pairwise.insertionSort_eq ?_
  exact (storedRows_ordinals.imp fun hlt => Int.le_of_lt hlt).sublist List.filter_sublist

/-- Rows of other jobs stay. -/
theorem Rewritten.mem_segments {row : TranscriptSegment}
    (h : Rewritten now newId recordingId jobId list allowOverlap db db') :
    row ∈ db'.segments ↔ (row ∈ db.segments ∧ row.jobId ≠ jobId) ∨
      row ∈ storedRows now newId recordingId jobId 0 list := by
  rw [h.result]
  show row ∈ rewrittenRows now newId recordingId jobId list db.segments ↔ _
  unfold rewrittenRows
  rw [List.mem_append, List.mem_filter, bne_iff_ne]

/-! ### The whole transcript -/

theorem replaceTranscript_exact
    (h : replaceTranscript now newId recordingId jobId segments db = (.ok (), db')) :
    Editable db now recordingId jobId ∧
      (∀ segment ∈ db.segments, segment.jobId = jobId → editedInSql segment = false) ∧
      Rewritten now newId recordingId jobId segments false db
        (rewrittenDatabase now newId recordingId jobId segments db) ∧
      db' = rebuiltIndex recordingId (rewrittenDatabase now newId recordingId jobId segments db) := by
  unfold replaceTranscript at h
  cases hvalid : validateSegments segments with
  | error error =>
    rw [hvalid] at h
    cases h
  | ok =>
    rw [hvalid] at h
    obtain ⟨_, _, hguard, hop⟩ := bind_eq_ok.mp (immediateTransaction_ok h)
    obtain ⟨rfl, heditable⟩ := validateOwnerlessEdit_eq_ok.mp hguard
    obtain ⟨_, _, hquery, hrest⟩ := bind_eq_ok.mp hop
    obtain ⟨hedited, -, rfl⟩ := statement_eq_ok.mp hquery
    obtain ⟨_, _, hdelete, hwrite⟩ := bind_eq_ok.mp hrest
    obtain ⟨_, _, hinsert, hindex⟩ := bind_eq_ok.mp hwrite
    obtain rfl := rebuildRecording_eq_ok.mp hindex
    obtain ⟨hrewritten, rfl⟩ := rewritten_of_insert hdelete hinsert
    refine ⟨heditable, fun segment hmem hjob => ?_, hrewritten, rfl⟩
    by_contra hne
    exact hedited segment hmem ⟨hjob, by simpa using hne⟩

theorem replaceTranscript_ok
    (h : replaceTranscript now newId recordingId jobId segments db = (.ok (), db')) :
    Editable db now recordingId jobId ∧
      (∀ segment ∈ db.segments, segment.jobId = jobId → editedInSql segment = false) ∧
      Rewritten now newId recordingId jobId segments false db db' := by
  obtain ⟨heditable, hedited, hrewritten, rfl⟩ := replaceTranscript_exact h
  exact ⟨heditable, hedited, hrewritten.indexed⟩

theorem saveEditedTranscript_exact
    (h : saveEditedTranscript now newId recordingId jobId segments db = (.ok (), db')) :
    Editable db now recordingId jobId ∧
      Rewritten now newId recordingId jobId segments false db
        (rewrittenDatabase now newId recordingId jobId segments db) ∧
      db' = rebuiltIndex recordingId (rewrittenDatabase now newId recordingId jobId segments db) := by
  unfold saveEditedTranscript at h
  cases hvalid : validateSegments segments with
  | error error =>
    rw [hvalid] at h
    cases h
  | ok =>
    rw [hvalid] at h
    obtain ⟨_, _, hguard, hop⟩ := bind_eq_ok.mp (immediateTransaction_ok h)
    obtain ⟨rfl, heditable⟩ := validateOwnerlessEdit_eq_ok.mp hguard
    obtain ⟨_, _, hdelete, hwrite⟩ := bind_eq_ok.mp hop
    obtain ⟨_, _, hinsert, hindex⟩ := bind_eq_ok.mp hwrite
    obtain rfl := rebuildRecording_eq_ok.mp hindex
    obtain ⟨hrewritten, rfl⟩ := rewritten_of_insert hdelete hinsert
    exact ⟨heditable, hrewritten, rfl⟩

theorem saveEditedTranscript_ok
    (h : saveEditedTranscript now newId recordingId jobId segments db = (.ok (), db')) :
    Editable db now recordingId jobId ∧
      Rewritten now newId recordingId jobId segments false db db' := by
  obtain ⟨heditable, hrewritten, rfl⟩ := saveEditedTranscript_exact h
  exact ⟨heditable, hrewritten.indexed⟩

/-! ### A chunk -/

/-- Nothing that `replaceChunk` would replace is a manual edit. -/
def NoManualEdit (t : CharTables) (jobId chunkId : QString) (rows : List TranscriptSegment) : Prop :=
  ∀ row ∈ rows, row.jobId = jobId → row.chunkId = chunkId → hasManualTextEdit t row = false

theorem mem_segmentsForJob {row : TranscriptSegment} {includeProvisional : Bool} :
    row ∈ segmentsForJob db jobId includeProvisional ↔
      row ∈ db.segments ∧ row.jobId = jobId ∧ (includeProvisional = true ∨ row.provisional = false) := by
  unfold segmentsForJob orderedByOrdinal
  rw [List.mem_insertionSort, List.mem_filter]
  simp only [Bool.and_eq_true, beq_iff_eq, Bool.or_eq_true, Bool.not_eq_true']

theorem replaceChunk_exact {provisional : Bool} {attempt : Int}
    (h : replaceChunk t now newId recordingId jobId chunkId segments provisional attempt ownerToken db =
      (.ok (), db')) :
    let combined := combinedSegments (segmentsForJob db jobId true) chunkId provisional attempt segments
    let rewritten := rewrittenDatabase now newId recordingId jobId combined db
    db.holdsLease now jobId ownerToken = true ∧ (∃ job, JobOf db recordingId jobId job) ∧
      ChunkOf db jobId chunkId ∧ NoManualEdit t jobId chunkId db.segments ∧
      Rewritten now newId recordingId jobId combined provisional db rewritten ∧
      db' = if provisional then rewritten else rebuiltIndex recordingId rewritten := by
  obtain ⟨hlease, hop⟩ := executionLeaseTransaction_ok h
  obtain ⟨_, _, hjobGuard, hop1⟩ := bind_eq_ok.mp hop
  obtain ⟨rfl, job, hjob, -⟩ := validateJobRecording_eq_ok.mp hjobGuard
  obtain ⟨_, _, hchunkGuard, hop2⟩ := bind_eq_ok.mp hop1
  obtain ⟨rfl, hchunk⟩ := validateChunkJob_eq_ok.mp hchunkGuard
  obtain ⟨_, _, hload, hop3⟩ := bind_eq_ok.mp hop2
  obtain ⟨rfl, rfl⟩ := command_eq_ok.mp hload
  obtain ⟨_, _, hmanualGuard, hop4⟩ := bind_eq_ok.mp hop3
  obtain ⟨hmanual, rfl⟩ := require_eq_ok.mp hmanualGuard
  obtain ⟨_, _, hdelete, hop5⟩ := bind_eq_ok.mp hop4
  obtain ⟨_, _, hinsert, hindex⟩ := bind_eq_ok.mp hop5
  obtain ⟨hrewritten, rfl⟩ := rewritten_of_insert hdelete hinsert
  refine ⟨hlease, ⟨job, hjob⟩, hchunk, fun row hrow hjobId hchunkId => ?_, hrewritten, ?_⟩
  · by_contra hne
    exact hmanual row (mem_segmentsForJob.mpr ⟨hrow, hjobId, Or.inl rfl⟩)
      ⟨hchunkId, by simpa using hne⟩
  · cases provisional with
    | true => exact (pure_eq_ok.mp hindex).2
    | false => exact rebuildRecording_eq_ok.mp hindex

theorem replaceChunk_ok {provisional : Bool} {attempt : Int}
    (h : replaceChunk t now newId recordingId jobId chunkId segments provisional attempt ownerToken db =
      (.ok (), db')) :
    db.holdsLease now jobId ownerToken = true ∧ (∃ job, JobOf db recordingId jobId job) ∧
      ChunkOf db jobId chunkId ∧ NoManualEdit t jobId chunkId db.segments ∧
      Rewritten now newId recordingId jobId
        (combinedSegments (segmentsForJob db jobId true) chunkId provisional attempt segments)
        provisional db db' := by
  obtain ⟨hlease, hjob, hchunk, hmanual, hrewritten, rfl⟩ := replaceChunk_exact h
  refine ⟨hlease, hjob, hchunk, hmanual, ?_⟩
  cases provisional with
  | true => exact hrewritten
  | false => exact hrewritten.indexed

/-! ### When a chunk is replaced -/

theorem combinedSegments_perm (existing : List TranscriptSegment) (chunkId : QString)
    (provisional : Bool) (attempt : Int) (segments : List TranscriptSegment) :
    (combinedSegments existing chunkId provisional attempt segments).Perm
      ((existing.filter fun segment => segment.chunkId != chunkId) ++
        chunkSegments chunkId provisional attempt segments) :=
  List.perm_insertionSort _ _

instance : Std.Total fun left right : TranscriptSegment => ¬ earlier right left :=
  ⟨fun a b => by unfold earlier; omega⟩

instance : IsTrans TranscriptSegment fun left right => ¬ earlier right left :=
  ⟨fun a b c hab hbc => by unfold earlier at *; omega⟩

theorem combinedSegments_sorted (existing : List TranscriptSegment) (chunkId : QString)
    (provisional : Bool) (attempt : Int) (segments : List TranscriptSegment) :
    (combinedSegments existing chunkId provisional attempt segments).Pairwise
      fun a b => a.startMs ≤ b.startMs := by
  refine (List.pairwise_insertionSort _ _).imp fun {a b} hab => ?_
  unfold earlier at hab
  omega

theorem mem_chunkSegments {provisional : Bool} {attempt : Int} {row : TranscriptSegment} :
    row ∈ chunkSegments chunkId provisional attempt segments ↔
      ∃ segment ∈ segments, row = { segment with chunkId, provisional, attempt } := by
  unfold chunkSegments
  rw [List.mem_map]
  exact ⟨fun ⟨segment, hmem, h⟩ => ⟨segment, hmem, h.symm⟩, fun ⟨segment, hmem, h⟩ =>
    ⟨segment, hmem, h.symm⟩⟩

/-- **The rest of the job**: segments of other chunks that are in order of time keep that order, and
    nothing is put between them but segments of the chunk. -/
theorem filter_combinedSegments {existing : List TranscriptSegment} {provisional : Bool} {attempt : Int}
    (hsorted : (existing.filter fun segment => segment.chunkId != chunkId).Pairwise
      fun a b => ¬ earlier b a) :
    (combinedSegments existing chunkId provisional attempt segments).filter
        (fun segment => segment.chunkId != chunkId) =
      existing.filter fun segment => segment.chunkId != chunkId := by
  set others := existing.filter fun segment => segment.chunkId != chunkId with hothers
  have hkeep : others.filter (fun segment => segment.chunkId != chunkId) = others := by
    rw [hothers, List.filter_filter]
    simp only [Bool.and_self]
  have hdrop : (chunkSegments chunkId provisional attempt segments).filter
      (fun segment => segment.chunkId != chunkId) = [] := by
    refine List.filter_eq_nil_iff.mpr fun row hrow => ?_
    obtain ⟨segment, -, rfl⟩ := mem_chunkSegments.mp hrow
    simp only [bne_self_eq_false, Bool.false_eq_true, not_false_eq_true]
  have hsub : others.Sublist (combinedSegments existing chunkId provisional attempt segments) :=
    List.sublist_insertionSort hsorted (List.sublist_append_left ..)
  have hfiltered := hsub.filter fun segment => segment.chunkId != chunkId
  rw [hkeep] at hfiltered
  refine (hfiltered.eq_of_length ?_).symm
  have hperm := (combinedSegments_perm existing chunkId provisional attempt segments).filter
    fun segment => segment.chunkId != chunkId
  rw [hperm.length_eq, List.filter_append, hdrop, List.append_nil, hkeep]

/-- The ids of a list that may be stored: drawn already, distinct, and not in use by another job. -/
structure IdsFree (jobId : QString) (rows list : List TranscriptSegment) : Prop where
  drawn : ∀ segment ∈ list, segment.id ≠ []
  distinct : list.Pairwise fun a b => a.id ≠ b.id
  others : ∀ segment ∈ list, ∀ row ∈ rows, row.jobId ≠ jobId → row.id ≠ segment.id

theorem storedSegment_id {index : Nat} {segment : TranscriptSegment} (h : segment.id ≠ []) :
    (storedSegment now newId recordingId jobId index segment).id = segment.id := by
  have hne : segment.id.isEmpty = false := List.isEmpty_eq_false_iff.mpr h
  simp only [storedSegment, hne, Bool.false_eq_true, if_false]

theorem storedRows_ids (hdrawn : ∀ segment ∈ list, segment.id ≠ []) :
    ∀ index : Nat, (storedRows now newId recordingId jobId index list).map (·.id) =
      list.map (·.id) := by
  induction list with
  | nil => intro index; rfl
  | cons segment rest ih =>
    intro index
    have hrest := ih (fun other hmem => hdrawn other (List.mem_cons_of_mem _ hmem)) (index + 1)
    simp only [storedRows, List.map_cons, hrest, storedSegment_id (hdrawn segment (List.mem_cons_self ..))]

theorem IdsFree.keys {rows : List TranscriptSegment} (h : IdsFree jobId rows list)
    (hkeys : SegmentKeys rows) :
    SegmentKeys (rewrittenRows now newId recordingId jobId list rows) := by
  have hold := hkeys.sublist (List.filter_sublist (p := fun row => row.jobId != jobId))
  unfold rewrittenRows
  constructor
  · refine List.pairwise_append.mpr ⟨hold.ids, ?_, fun a ha b hb => ?_⟩
    · have hmap : ((storedRows now newId recordingId jobId 0 list).map (·.id)).Pairwise (· ≠ ·) := by
        rw [storedRows_ids h.drawn]
        exact List.pairwise_map.mpr h.distinct
      exact List.pairwise_map.mp hmap
    · obtain ⟨harow, hajob⟩ := List.mem_filter.mp ha
      obtain ⟨k, segment, hk, rfl⟩ := mem_storedRows.mp hb
      have hmem := List.mem_of_getElem? hk
      rw [storedSegment_id (h.drawn segment hmem)]
      exact h.others segment hmem a harow (by simpa using hajob)
  · refine List.pairwise_append.mpr ⟨hold.ordinals, ?_, fun a ha b hb hsame => ?_⟩
    · exact storedRows_ordinals.imp fun hlt hsame => absurd hsame.2 (Int.ne_of_lt hlt)
    · have hajob := (List.mem_filter.mp ha).2
      rw [hsame.1, storedRows_jobId hb] at hajob
      simp at hajob

/-- What `replaceChunk` needs apart from the segments: the caller executes the job, and the recording,
    the job and the chunk belong together. -/
structure ChunkTarget (db : Database) (now : Int) (recordingId jobId chunkId ownerToken : QString) :
    Prop where
  named : ¬ ((trimmed jobId).isEmpty ∨ (trimmed ownerToken).isEmpty)
  lease : db.holdsLease now jobId ownerToken = true
  recording : (db.recording? recordingId).isSome
  job : ∃ job, JobOf db recordingId jobId job
  chunk : ChunkOf db jobId chunkId

/-- **A chunk is replaced** exactly when no manual edit would be lost and the list that results is in
    order of time (for a provisional list: has proper ranges). -/
theorem replaceChunk_ok_iff {provisional : Bool} {attempt : Int}
    (htarget : ChunkTarget db now recordingId jobId chunkId ownerToken)
    (hkeys : SegmentKeys db.segments)
    (hids : IdsFree jobId db.segments
      (combinedSegments (segmentsForJob db jobId true) chunkId provisional attempt segments))
    (hbelongs : ∀ segment ∈
      combinedSegments (segmentsForJob db jobId true) chunkId provisional attempt segments,
      Belongs db recordingId jobId segment) :
    (∃ db', replaceChunk t now newId recordingId jobId chunkId segments provisional attempt ownerToken db =
        (.ok (), db')) ↔
      NoManualEdit t jobId chunkId db.segments ∧
        validateSegments (combinedSegments (segmentsForJob db jobId true) chunkId provisional attempt
          segments) provisional = .ok () := by
  constructor
  · rintro ⟨db', h⟩
    obtain ⟨-, -, -, hmanual, hrewritten⟩ := replaceChunk_ok h
    exact ⟨hmanual, hrewritten.valid⟩
  · rintro ⟨hmanual, hvalid⟩
    set combined := combinedSegments (segmentsForJob db jobId true) chunkId provisional attempt segments
      with hcombined
    have hranges : ∀ segment ∈ combined, 0 ≤ segment.startMs ∧ segment.startMs < segment.endMs := by
      cases provisional with
      | true => exact validateSegments_overlap_eq_ok.mp hvalid
      | false =>
        obtain ⟨hnonneg, hord⟩ := validateSegments_eq_ok.mp hvalid
        exact fun segment hmem => ⟨hnonneg segment hmem, hord.positive segment hmem⟩
    obtain ⟨job, hjob⟩ := htarget.job
    let deleted : Database :=
      { db with segments := db.segments.filter fun segment => !(segment.jobId == jobId) }
    let inserted : Database :=
      { deleted with segments := deleted.segments ++ storedRows now newId recordingId jobId 0 combined }
    have hinsert : insertSegments now newId recordingId jobId combined provisional deleted =
        .ok ((), inserted) := by
      refine bind_eq_ok.mpr ⟨(), deleted, liftResult_eq_ok.mpr ⟨hvalid, rfl⟩, ?_⟩
      refine insertRows_of_keys hbelongs htarget.recording ?_ hranges (hids.keys hkeys)
      show (db.job? jobId).isSome
      rw [hjob.1]
      rfl
    have hloaded : ∀ segment ∈ segmentsForJob db jobId true,
        ¬ (segment.chunkId = chunkId ∧ hasManualTextEdit t segment = true) := by
      rintro segment hmem ⟨hchunkId, hedit⟩
      obtain ⟨hrow, hjobId, -⟩ := mem_segmentsForJob.mp hmem
      rw [hmanual segment hrow hjobId hchunkId] at hedit
      cases hedit
    -- the operation, statement by statement
    refine ⟨if provisional then inserted else rebuiltIndex recordingId inserted,
      executionLeaseTransaction_of htarget.named htarget.lease ?_⟩
    refine bind_eq_ok.mpr ⟨job.state, db, validateJobRecording_eq_ok.mpr ⟨rfl, job, hjob, rfl⟩, ?_⟩
    refine bind_eq_ok.mpr ⟨(), db, validateChunkJob_eq_ok.mpr ⟨rfl, htarget.chunk⟩, ?_⟩
    refine bind_eq_ok.mpr ⟨_, db, command_eq_ok.mpr ⟨rfl, rfl⟩, ?_⟩
    refine bind_eq_ok.mpr ⟨⟨⟩, db, require_eq_ok.mpr ⟨hloaded, rfl⟩, ?_⟩
    refine bind_eq_ok.mpr ⟨_, deleted, command_eq_ok.mpr ⟨rfl, rfl⟩, ?_⟩
    refine bind_eq_ok.mpr ⟨(), inserted, hinsert, ?_⟩
    cases provisional with
    | true => exact pure_eq_ok.mpr ⟨rfl, rfl⟩
    | false => exact rebuildRecording_eq_ok.mpr rfl

end Rewriting

/-! ## One segment -/

section OneSegment

variable {db db' : Database} {now : Int} {segment : TranscriptSegment} {segmentId : QString}

/-- The row that an operation on one segment is about. -/
def isRow (durable row : TranscriptSegment) : Bool :=
  row.id == durable.id && row.jobId == durable.jobId && row.recordingId == durable.recordingId

/-- What the save of a segment checks against the stored row. -/
structure EditChecks (db : Database) (now : Int) (segment durable : TranscriptSegment) : Prop where
  found : db.segment? segment.id = some durable
  range : 0 ≤ segment.startMs ∧ segment.startMs < segment.endMs
  recordingId : durable.recordingId = segment.recordingId
  jobId : durable.jobId = segment.jobId
  editable : Editable db now durable.recordingId durable.jobId
  apart : ∀ other ∈ db.segments, other.jobId = durable.jobId → other.id ≠ durable.id →
    other.endMs ≤ segment.startMs ∨ segment.endMs ≤ other.startMs

theorem saveEditedSegment_exact (h : saveEditedSegment now segment db = (.ok (), db')) :
    ∃ durable, EditChecks db now segment durable ∧
      db' = rebuiltIndex durable.recordingId
        { db with segments := updateRows (isRow durable) (editedRow now segment) db.segments } := by
  unfold saveEditedSegment at h
  split at h
  · cases h
  next hrange =>
    obtain ⟨_, _, hread, hop⟩ := bind_eq_ok.mp (immediateTransaction_ok h)
    obtain ⟨rfl, rfl⟩ := command_eq_ok.mp hread
    obtain ⟨durable, _, hsome, hop1⟩ := bind_eq_ok.mp hop
    obtain ⟨hdurable, rfl⟩ := requireSome_eq_ok.mp hsome
    obtain ⟨_, _, hbelongs, hop2⟩ := bind_eq_ok.mp hop1
    obtain ⟨⟨hrecording, hjob⟩, rfl⟩ := require_eq_ok.mp hbelongs
    obtain ⟨_, _, hguard, hop3⟩ := bind_eq_ok.mp hop2
    obtain ⟨rfl, heditable⟩ := validateOwnerlessEdit_eq_ok.mp hguard
    obtain ⟨_, _, hquery, hop4⟩ := bind_eq_ok.mp hop3
    obtain ⟨hoverlap, -, rfl⟩ := statement_eq_ok.mp hquery
    obtain ⟨_, _, hupdate, hop5⟩ := bind_eq_ok.mp hop4
    obtain ⟨-, -, rfl⟩ := statement_eq_ok.mp hupdate
    obtain ⟨_, _, haffected, hindex⟩ := bind_eq_ok.mp hop5
    obtain ⟨-, rfl⟩ := require_eq_ok.mp haffected
    obtain rfl := rebuildRecording_eq_ok.mp hindex
    refine ⟨durable, ⟨hdurable, by omega, hrecording, hjob, heditable, ?_⟩, rfl⟩
    intro other hother hotherJob hid
    have := hoverlap other hother
    by_contra hne
    exact this ⟨hotherJob, hid, by omega, by omega⟩

theorem saveEditedSegment_ok (h : saveEditedSegment now segment db = (.ok (), db')) :
    ∃ durable, EditChecks db now segment durable ∧
      db' = { db with
        segments := updateRows (isRow durable) (editedRow now segment) db.segments
        searchIndex := db'.searchIndex } := by
  obtain ⟨durable, hchecks, rfl⟩ := saveEditedSegment_exact h
  refine ⟨durable, hchecks, ?_⟩
  rw [rebuiltIndex_eq]

theorem deleteSegment_exact (h : deleteSegment now segmentId db = (.ok (), db')) :
    db' = db ∨ ∃ durable, db.segment? segmentId = some durable ∧
      Editable db now durable.recordingId durable.jobId ∧
      db' = rebuiltIndex durable.recordingId
        { db with segments := db.segments.filter fun row => !isRow durable row } := by
  obtain ⟨_, _, hread, hop⟩ := bind_eq_ok.mp (immediateTransaction_ok h)
  obtain ⟨rfl, rfl⟩ := command_eq_ok.mp hread
  cases hdurable : Database.segment? _ segmentId with
  | none =>
    rw [hdurable] at hop
    exact Or.inl (pure_eq_ok.mp hop).2
  | some durable =>
    rw [hdurable] at hop
    obtain ⟨_, _, hguard, hop1⟩ := bind_eq_ok.mp hop
    obtain ⟨rfl, heditable⟩ := validateOwnerlessEdit_eq_ok.mp hguard
    obtain ⟨_, _, hdelete, hop2⟩ := bind_eq_ok.mp hop1
    obtain ⟨-, rfl⟩ := command_eq_ok.mp hdelete
    obtain ⟨_, _, haffected, hindex⟩ := bind_eq_ok.mp hop2
    obtain ⟨-, rfl⟩ := require_eq_ok.mp haffected
    exact Or.inr ⟨durable, rfl, heditable, rebuildRecording_eq_ok.mp hindex⟩

theorem deleteSegment_ok (h : deleteSegment now segmentId db = (.ok (), db')) :
    db' = db ∨ ∃ durable, db.segment? segmentId = some durable ∧
      Editable db now durable.recordingId durable.jobId ∧
      db' = { db with
        segments := db.segments.filter fun row => !isRow durable row
        searchIndex := db'.searchIndex } := by
  rcases deleteSegment_exact h with hsame | ⟨durable, hfound, heditable, rfl⟩
  · exact Or.inl hsame
  · refine Or.inr ⟨durable, hfound, heditable, ?_⟩
    rw [rebuiltIndex_eq]

end OneSegment

/-! ## What the operations write -/

/-- An invariant that the tables of segments and of the search index do not matter to. -/
structure SegmentsImmaterial (I : Database → Prop) : Prop where
  segments : ∀ db segments, I db → I { db with segments }
  index : ∀ db searchIndex, I db → I { db with searchIndex }

section Immaterial

variable {t : CharTables} {I : Database → Prop} (h : SegmentsImmaterial I) {db : Database} {now : Int}
  {newId : Nat → QString} {recordingId jobId chunkId ownerToken : QString}
  {segments : List TranscriptSegment}

theorem keeps_validateJobRecording : Keeps I (validateJobRecording recordingId jobId) :=
  keeps_bind (keeps_bind (keeps_query _) fun _ => keeps_requireSome _ _) fun _ =>
    keeps_bind (keeps_require _ _) fun _ => keeps_pure _

theorem keeps_validateChunkJob : Keeps I (validateChunkJob chunkId jobId) :=
  keeps_bind (keeps_query _) fun _ => keeps_bind (keeps_requireSome _ _) fun _ => keeps_require _ _

theorem keeps_validateOwnerlessEdit : Keeps I (validateOwnerlessEdit now recordingId jobId) :=
  keeps_bind keeps_validateJobRecording fun _ => keeps_bind (keeps_require _ _) fun _ =>
    keeps_statement fun _ hI _ => hI

include h

theorem keeps_deleteSegments {which : TranscriptSegment → Bool} : Keeps I (deleteSegments which) :=
  keeps_command fun db hI => h.segments db _ hI

theorem keeps_insertRows : ∀ index, Keeps I (insertRows now newId recordingId jobId index segments) := by
  induction segments with
  | nil => exact fun index => keeps_pure _
  | cons segment rest ih =>
    intro index
    refine keeps_bind (keeps_bind (keeps_require _ _) fun _ => keeps_bind ?_ fun _ => ?_) fun _ =>
      ih (index + 1)
    · exact keeps_ite (keeps_pure _) keeps_validateChunkJob
    · exact keeps_statement fun db hI _ => h.segments db _ hI

theorem keeps_insertSegments {allowOverlap : Bool} :
    Keeps I (insertSegments now newId recordingId jobId segments allowOverlap) :=
  keeps_bind (keeps_liftResult _) fun _ => keeps_insertRows h 0

theorem replaceTranscript_keeps (hI : I db) :
    I (replaceTranscript now newId recordingId jobId segments db).2 := by
  unfold replaceTranscript
  cases validateSegments segments with
  | error error => exact hI
  | ok =>
    refine Keeps.atomically (keeps_bind keeps_validateOwnerlessEdit fun _ => ?_) hI
    refine keeps_bind (keeps_statement fun _ hI _ => hI) fun _ => ?_
    refine keeps_bind (keeps_deleteSegments h) fun _ => keeps_bind (keeps_insertSegments h) fun _ => ?_
    exact keeps_rebuildRecording h.index

theorem saveEditedTranscript_keeps (hI : I db) :
    I (saveEditedTranscript now newId recordingId jobId segments db).2 := by
  unfold saveEditedTranscript
  cases validateSegments segments with
  | error error => exact hI
  | ok =>
    refine Keeps.atomically (keeps_bind keeps_validateOwnerlessEdit fun _ => ?_) hI
    refine keeps_bind (keeps_deleteSegments h) fun _ => keeps_bind (keeps_insertSegments h) fun _ => ?_
    exact keeps_rebuildRecording h.index

theorem replaceChunk_keeps {provisional : Bool} {attempt : Int} (hI : I db) :
    I (replaceChunk t now newId recordingId jobId chunkId segments provisional attempt ownerToken db).2 := by
  refine executionLeaseTransaction_keeps (keeps_bind keeps_validateJobRecording fun _ => ?_) hI
  refine keeps_bind keeps_validateChunkJob fun _ => keeps_bind (keeps_query _) fun existing => ?_
  refine keeps_bind (keeps_require _ _) fun _ => keeps_bind (keeps_deleteSegments h) fun _ => ?_
  exact keeps_bind (keeps_insertSegments h) fun _ => keeps_ite (keeps_pure _) (keeps_rebuildRecording h.index)

theorem saveEditedSegment_keeps {segment : TranscriptSegment} (hI : I db) :
    I (saveEditedSegment now segment db).2 := by
  unfold saveEditedSegment
  split
  · exact hI
  · refine Keeps.atomically (keeps_bind (keeps_query _) fun current => ?_) hI
    refine keeps_bind (keeps_requireSome _ _) fun durable => keeps_bind (keeps_require _ _) fun _ => ?_
    refine keeps_bind keeps_validateOwnerlessEdit fun _ => ?_
    refine keeps_bind (keeps_statement fun _ hI _ => hI) fun _ => ?_
    refine keeps_bind (keeps_statement fun db hI _ => h.segments db _ hI) fun _ => ?_
    exact keeps_bind (keeps_require _ _) fun _ => keeps_rebuildRecording h.index

theorem deleteSegment_keeps {segmentId : QString} (hI : I db) : I (deleteSegment now segmentId db).2 := by
  refine Keeps.atomically (keeps_bind (keeps_query _) fun current => ?_) hI
  cases current with
  | none => exact keeps_pure _
  | some durable =>
    refine keeps_bind keeps_validateOwnerlessEdit fun _ => keeps_bind (keeps_deleteSegments h) fun _ => ?_
    exact keeps_bind (keeps_require _ _) fun _ => keeps_rebuildRecording h.index

end Immaterial

/-! ## All or nothing -/

section AllOrNothing

variable {t : CharTables} {now : Int} {newId : Nat → QString}
  {recordingId jobId chunkId ownerToken : QString} {segments : List TranscriptSegment}

theorem replaceTranscript_transactional :
    Transactional (replaceTranscript now newId recordingId jobId segments) := by
  unfold replaceTranscript
  cases validateSegments segments with
  | error error => exact transactional_refusal error
  | ok => exact transactional_immediate _

theorem saveEditedTranscript_transactional :
    Transactional (saveEditedTranscript now newId recordingId jobId segments) := by
  unfold saveEditedTranscript
  cases validateSegments segments with
  | error error => exact transactional_refusal error
  | ok => exact transactional_immediate _

theorem replaceChunk_transactional {provisional : Bool} {attempt : Int} :
    Transactional
      (replaceChunk t now newId recordingId jobId chunkId segments provisional attempt ownerToken) :=
  transactional_lease _ _ _ _

theorem saveEditedSegment_transactional {segment : TranscriptSegment} :
    Transactional (saveEditedSegment now segment) :=
  transactional_ite (transactional_refusal _) (transactional_immediate _)

theorem deleteSegment_transactional {segmentId : QString} :
    Transactional (deleteSegment now segmentId) :=
  transactional_immediate _

end AllOrNothing

end BreezeDesk
