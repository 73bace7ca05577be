/-
  Resuming a job gives the transcript of the uninterrupted run.

  `Reached` is the invariant of a store: some of the plan's chunks are completed, in order, and what they
  have left, read as ranges and texts, is the transcript of that part of the plan; the other rows belong
  to the chunk that was in progress.  Every step of both front ends keeps it (`At`), and so does being
  stopped.  A session that starts from such a store has the rest of the plan to go, so it ends like the
  uninterrupted one.

  For the command line this takes more: it reads the rows of the store once, when it begins, and takes
  all that are stored for good for earlier segments.  That is right unless the store is `Torn`, that is,
  the chunk in progress has been stored for good and not marked as completed.  Then its own segments
  count as the ones before it (`resume_tornStore`).
-/
import BreezeDesk.Resume.Expected

namespace BreezeDesk.Resume

open App Asr Ranges Process

variable {t : CharTables} {frontEnd : FrontEnd} {run : JobRun} {plan : List JobChunk}

/-! ## The invariant of a store -/

/-- The chunks `finished` are completed and have led to the segments `before`; the others are not. -/
structure Reached (t : CharTables) (terms : List GlossaryTerm) (finished rest : List JobChunk)
    (before : List TranscriptSegment) (store : JobStore) : Prop where
  chunks : store.chunks = finished ++ rest
  completed : ∀ chunk ∈ finished, chunk.state = .completed
  incomplete : ∀ chunk ∈ rest, chunk.state ≠ .completed
  distinct : (store.chunks.map (·.id)).Nodup
  valid : validateSegments before = .ok ()
  owners : ∀ row ∈ store.rows, row.chunkId ∈ finished.map (·.id) ∨ row.chunkId ∈ rest.head?.map (·.id)
  committed : (store.rows.filter fun row => row.chunkId ∈ finished.map (·.id)).map essence = before
  final : ∀ row ∈ store.rows, row.chunkId ∈ finished.map (·.id) → row.provisional = false
  glossary : ∀ row ∈ store.rows, row.chunkId ∈ rest.head?.map (·.id) → GlossaryOnly t terms row

section Reached

variable {terms : List GlossaryTerm} {finished rest : List JobChunk} {chunk : JobChunk}
  {before : List TranscriptSegment} {store : JobStore}

theorem Reached.head_not_finished (h : Reached t terms finished (chunk :: rest) before store) :
    chunk.id ∉ finished.map (·.id) := by
  have hdistinct := h.distinct
  rw [h.chunks, List.map_append, List.map_cons] at hdistinct
  intro hmem
  exact (List.nodup_append.mp hdistinct).2.2 chunk.id hmem chunk.id (List.mem_cons_self ..) rfl

/-- The rows of the other chunks are the committed ones. -/
theorem Reached.filter_others (h : Reached t terms finished (chunk :: rest) before store) :
    (store.rows.filter fun row => row.chunkId != chunk.id) =
      store.rows.filter fun row => row.chunkId ∈ finished.map (·.id) := by
  refine List.filter_congr fun row hmem => ?_
  rcases h.owners row hmem with hfinished | hhead
  · rw [decide_eq_true hfinished, bne_iff_ne]
    rintro heq
    rw [heq] at hfinished
    exact h.head_not_finished hfinished
  · have hid : chunk.id = row.chunkId := Option.some.inj hhead
    rw [← hid, bne_self_eq_false, decide_eq_false h.head_not_finished]

theorem Reached.others_essence (h : Reached t terms finished (chunk :: rest) before store) :
    (store.rows.filter fun row => row.chunkId != chunk.id).map essence = before := by
  rw [h.filter_others, h.committed]

/-- What the application looks up. -/
theorem Reached.previousRows (h : Reached t terms finished (chunk :: rest) before store) :
    (previousRows chunk store).map essence = before := by
  have hsame : Resume.previousRows chunk store = store.rows.filter fun row => row.chunkId != chunk.id := by
    unfold Resume.previousRows
    refine List.filter_congr fun row hmem => ?_
    rcases h.owners row hmem with hfinished | hhead
    · rw [h.final row hmem hfinished, Bool.not_false, Bool.and_true]
    · have hid : chunk.id = row.chunkId := Option.some.inj hhead
      rw [← hid, bne_self_eq_false, Bool.false_and]
  rw [hsame, h.others_essence]

/-- What the command line has read, unless the store is torn. -/
theorem Reached.storedSegments (h : Reached t terms finished rest before store) (htorn : ¬ Torn store) :
    (storedSegments store).map essence = before := by
  have hsame : Resume.storedSegments store =
      store.rows.filter fun row => row.chunkId ∈ finished.map (·.id) := by
    unfold Resume.storedSegments
    refine List.filter_congr fun row hmem => ?_
    by_cases hfinished : row.chunkId ∈ finished.map (·.id)
    · rw [h.final row hmem hfinished, decide_eq_true hfinished, Bool.not_false]
    · rw [decide_eq_false hfinished, Bool.not_eq_false']
      by_contra hprovisional
      rw [Bool.not_eq_true] at hprovisional
      -- the row would belong to the chunk in progress, and be stored for good
      have hhead := (h.owners row hmem).resolve_left hfinished
      cases hrest : rest with
      | nil => rw [hrest] at hhead; cases hhead
      | cons chunk others =>
        rw [hrest] at hhead
        have hin : chunk ∈ rest := by rw [hrest]; exact List.mem_cons_self ..
        refine htorn ⟨row, hmem, hprovisional, chunk, ?_, Option.some.inj hhead, h.incomplete chunk hin⟩
        rw [h.chunks]
        exact List.mem_append_right _ hin
  rw [hsame, h.committed]

/-! ### Writing a chunk -/

theorem updateRows_of_not_mem {id : QString} {update : JobChunk → JobChunk} {chunks : List JobChunk}
    (h : id ∉ chunks.map (·.id)) : updateRows (fun row => row.id == id) update chunks = chunks := by
  unfold updateRows
  refine (List.map_congr_left fun row hmem => ?_).trans (List.map_id _)
  have hne : row.id ≠ id := fun heq => h (heq ▸ List.mem_map_of_mem hmem)
  show (if (row.id == id) = true then update row else row) = row
  exact if_neg (by simpa using hne)

/-- Writing the chunk in progress changes that chunk alone. -/
theorem Reached.updateChunk_chunks (h : Reached t terms finished (chunk :: rest) before store)
    {changed : JobChunk} (hid : changed.id = chunk.id) :
    (store.updateChunk changed).chunks = finished ++ updatedChunk changed chunk :: rest := by
  have hdistinct := h.distinct
  rw [h.chunks, List.map_append, List.map_cons] at hdistinct
  have hrest : chunk.id ∉ rest.map (·.id) :=
    (List.nodup_cons.mp (List.nodup_append.mp hdistinct).2.1).1
  have hfirst : updateRows (fun row => row.id == chunk.id) (updatedChunk changed) finished = finished :=
    updateRows_of_not_mem h.head_not_finished
  have hlast : updateRows (fun row => row.id == chunk.id) (updatedChunk changed) rest = rest :=
    updateRows_of_not_mem hrest
  unfold updateRows at hfirst hlast
  unfold JobStore.updateChunk updateRows
  dsimp only
  rw [h.chunks, hid, List.map_append, List.map_cons, hfirst, hlast,
    if_pos (beq_self_eq_true _)]

theorem map_id_updatedChunk (which : JobChunk → Bool) (changed : JobChunk) (chunks : List JobChunk) :
    (updateRows which (updatedChunk changed) chunks).map (·.id) = chunks.map (·.id) := by
  unfold updateRows
  rw [List.map_map]
  refine List.map_congr_left fun row _ => ?_
  dsimp only [Function.comp_apply]
  split <;> rfl

/-- Marking a chunk that is not finished leaves what is reached. -/
theorem Reached.mark (h : Reached t terms finished rest before store) {changed : JobChunk}
    (hid : changed.id ∉ finished.map (·.id)) (hstate : changed.state ≠ .completed) :
    Reached t terms finished (updateRows (fun row => row.id == changed.id) (updatedChunk changed) rest) before
      (store.updateChunk changed) := by
  have hchunks : (store.updateChunk changed).chunks =
      finished ++ updateRows (fun row => row.id == changed.id) (updatedChunk changed) rest := by
    have hfirst : updateRows (fun row => row.id == changed.id) (updatedChunk changed) finished = finished :=
      updateRows_of_not_mem hid
    unfold updateRows at hfirst
    unfold JobStore.updateChunk updateRows
    dsimp only
    rw [h.chunks, List.map_append, hfirst]
  have hhead : (updateRows (fun row => row.id == changed.id) (updatedChunk changed) rest).head?.map (·.id) =
      rest.head?.map (·.id) := by
    rw [← List.head?_map, map_id_updatedChunk, List.head?_map]
  refine ⟨hchunks, h.completed, fun row hmem => ?_, ?_, h.valid, ?_, h.committed, h.final, ?_⟩
  · obtain ⟨source, hsource, rfl⟩ := List.mem_map.mp hmem
    split
    · exact hstate
    · exact h.incomplete source hsource
  · have hdistinct := h.distinct
    rw [h.chunks] at hdistinct
    rw [hchunks, List.map_append, map_id_updatedChunk, ← List.map_append]
    exact hdistinct
  · rw [hhead]
    exact h.owners
  · rw [hhead]
    exact h.glossary

theorem Reached.write (h : Reached t terms finished (chunk :: rest) before store) {changed : JobChunk}
    (hid : changed.id = chunk.id) (hstate : changed.state ≠ .completed) :
    Reached t terms finished (updatedChunk changed chunk :: rest) before (store.updateChunk changed) := by
  have hfinished : changed.id ∉ finished.map (·.id) := hid ▸ h.head_not_finished
  have hmark := h.mark hfinished hstate
  have hchunks := hmark.chunks.symm.trans (h.updateChunk_chunks hid)
  rwa [List.append_cancel_left hchunks] at hmark

/-! ### Storing segments of the chunk -/

variable {now : Int} {newId : Nat → QString} {recordingId jobId : QString} {provisional : Bool}
  {attempt : Int} {segments existing : List TranscriptSegment} {store' : JobStore}

/-- The rows that replacing a chunk leaves. -/
theorem replaced_cases {chunkId : QString} {row : TranscriptSegment}
    (h : row ∈ storedRows now newId recordingId jobId 0
      (combinedSegments existing chunkId provisional attempt segments)) :
    (∃ index other, other ∈ existing ∧ other.chunkId ≠ chunkId ∧
        row = storedSegment now newId recordingId jobId index other) ∨
      ∃ index source, source ∈ segments ∧ row =
        storedSegment now newId recordingId jobId index { source with chunkId, provisional, attempt } := by
  obtain ⟨k, segment, hk, rfl⟩ := mem_storedRows.mp h
  rcases List.mem_append.mp ((combinedSegments_perm ..).mem_iff.mp (List.mem_of_getElem? hk)) with
    hother | hnew
  · obtain ⟨hmem, hne⟩ := List.mem_filter.mp hother
    exact Or.inl ⟨_, segment, hmem, by simpa using hne, rfl⟩
  · obtain ⟨source, hsource, rfl⟩ := mem_chunkSegments.mp hnew
    exact Or.inr ⟨_, source, hsource, rfl⟩

/-- A choice of chunks is the same in a list and in its rows. -/
theorem filter_storedRows_essence (which : QString → Bool) (list : List TranscriptSegment) :
    ((storedRows now newId recordingId jobId 0 list).filter fun row => which row.chunkId).map essence =
      (list.filter fun row => which row.chunkId).map essence := by
  have hpair : ∀ rows : List TranscriptSegment, (rows.filter fun row => which row.chunkId).map essence =
      ((rows.map fun row => (row.chunkId, essence row)).filter fun pair => which pair.1).map Prod.snd := by
    intro rows
    rw [List.filter_map, List.map_map]
    rfl
  rw [hpair, map_storedRows (fun _ _ => rfl), ← hpair]

theorem Reached.others_sorted (h : Reached t terms finished (chunk :: rest) before store) :
    (store.rows.filter fun row => row.chunkId != chunk.id).Pairwise fun a b => ¬ earlier b a := by
  have hord := (validateSegments_eq_ok.mp h.valid).2
  rw [← h.others_essence, timeOrdered_essence] at hord
  refine hord.pairwise.imp_of_mem fun {a b} ha hb hab => ?_
  have hpos := hord.positive a ha
  unfold earlier
  omega

/-- The segments of the chunks before stay as they are. -/
theorem Reached.filter_replaced (h : Reached t terms finished (chunk :: rest) before store) :
    ((storedRows now newId recordingId jobId 0
        (combinedSegments store.rows chunk.id provisional attempt segments)).filter
      fun row => row.chunkId ∈ finished.map (·.id)).map essence = before := by
  have hnarrow : ∀ rows : List TranscriptSegment,
      (rows.filter fun row => decide (row.chunkId ∈ finished.map (·.id))) =
        (rows.filter fun row => row.chunkId != chunk.id).filter
          fun row => decide (row.chunkId ∈ finished.map (·.id)) := by
    intro rows
    rw [List.filter_filter]
    refine List.filter_congr fun row _ => ?_
    by_cases hfinished : row.chunkId ∈ finished.map (·.id)
    · have hne : row.chunkId ≠ chunk.id := fun heq => h.head_not_finished (heq ▸ hfinished)
      rw [bne_iff_ne.mpr hne, Bool.and_true]
    · rw [decide_eq_false hfinished, Bool.false_and]
  rw [filter_storedRows_essence fun id => decide (id ∈ finished.map (·.id)), hnarrow,
    filter_combinedSegments h.others_sorted, ← hnarrow, h.committed]

/-- **Storing segments of the chunk in progress** leaves everything before it. -/
theorem Reached.replace (h : Reached t terms finished (chunk :: rest) before store)
    (hglossary : ∀ segment ∈ segments, GlossaryOnly t terms segment)
    (hstore : store.replaceChunk t now newId recordingId jobId chunk.id segments provisional attempt =
      .ok store') : Reached t terms finished (chunk :: rest) before store' := by
  obtain ⟨-, -, rfl⟩ := JobStore.replaceChunk_eq_ok.mp hstore
  refine ⟨h.chunks, h.completed, h.incomplete, h.distinct, h.valid, fun row hmem => ?_, h.filter_replaced,
    fun row hmem hfinished => ?_, fun row hmem hhead => ?_⟩
  · rcases replaced_cases hmem with ⟨_, other, hother, -, rfl⟩ | ⟨_, source, -, rfl⟩
    · exact h.owners other hother
    · exact Or.inr rfl
  · rcases replaced_cases hmem with ⟨_, other, hother, -, rfl⟩ | ⟨_, source, -, rfl⟩
    · exact h.final other hother hfinished
    · exact absurd hfinished h.head_not_finished
  · rcases replaced_cases hmem with ⟨_, other, -, hne, rfl⟩ | ⟨_, source, hsource, rfl⟩
    · exact absurd (Option.some.inj hhead).symm hne
    · exact ⟨(hglossary source hsource).text, (hglossary source hsource).audit⟩

/-- No manual edit is in the way: the rows of the chunk are the worker's own. -/
theorem Reached.unedited (h : Reached t terms finished (chunk :: rest) before store)
    (hterms : ∀ term ∈ terms, term.canonicalText ≠ []) :
    ∀ row ∈ store.rows, row.chunkId = chunk.id → hasManualTextEdit t row = false := by
  intro row hmem hchunk
  exact (h.glossary row hmem (congrArg some hchunk.symm)).not_manual hterms

/-- Provisional segments are never refused. -/
theorem Reached.provisional_ok (h : Reached t terms finished (chunk :: rest) before store)
    (hterms : ∀ term ∈ terms, term.canonicalText ≠ [])
    (hranges : ∀ segment ∈ segments, 0 ≤ segment.startMs ∧ segment.startMs < segment.endMs) :
    ∃ store', store.replaceChunk t now newId recordingId jobId chunk.id segments true attempt =
      .ok store' := by
  refine ⟨_, JobStore.replaceChunk_eq_ok.mpr ⟨h.unedited hterms, ?_, rfl⟩⟩
  refine validateSegments_overlap_eq_ok.mpr fun segment hmem => ?_
  rcases List.mem_append.mp ((combinedSegments_perm ..).mem_iff.mp hmem) with hother | hnew
  · have hbefore : essence segment ∈ before := h.others_essence ▸ List.mem_map_of_mem hother
    obtain ⟨hnonneg, hord⟩ := validateSegments_eq_ok.mp h.valid
    exact ⟨hnonneg (essence segment) hbefore, hord.positive (essence segment) hbefore⟩
  · obtain ⟨source, hsource, rfl⟩ := mem_chunkSegments.mp hnew
    exact hranges source hsource

/-- The final segments are refused exactly when the merge is. -/
theorem Reached.final_ok_iff (h : Reached t terms finished (chunk :: rest) before store)
    (hterms : ∀ term ∈ terms, term.canonicalText ≠ []) :
    (∃ store', store.replaceChunk t now newId recordingId jobId chunk.id segments false attempt =
      .ok store') ↔ validateSegments (merged before (segments.map essence)) = .ok () := by
  have hmerge : validateSegments (combinedSegments store.rows chunk.id false attempt segments) = .ok () ↔
      validateSegments (merged before (segments.map essence)) = .ok () :=
    validateSegments_combined_iff h.others_essence
  rw [← hmerge]
  constructor
  · rintro ⟨store', hstore⟩
    exact (JobStore.replaceChunk_eq_ok.mp hstore).2.1
  · intro hvalid
    exact ⟨_, JobStore.replaceChunk_eq_ok.mpr ⟨h.unedited hterms, hvalid, rfl⟩⟩

/-! ### Completing the chunk -/

/-- All rows are stored for good, and they are the segments `after`. -/
structure Settled (after : List TranscriptSegment) (store : JobStore) : Prop where
  rows : store.rows.map essence = after
  final : ∀ row ∈ store.rows, row.provisional = false

theorem Reached.settle (h : Reached t terms finished (chunk :: rest) before store)
    (hstore : store.replaceChunk t now newId recordingId jobId chunk.id segments false attempt =
      .ok store') : Settled (merged before (segments.map essence)) store' := by
  obtain ⟨-, hvalid, rfl⟩ := JobStore.replaceChunk_eq_ok.mp hstore
  refine ⟨?_, fun row hmem => ?_⟩
  · show (storedRows _ _ _ _ 0 _).map essence = _
    rw [map_essence_storedRows, combinedSegments_essence h.others_essence hvalid]
  · rcases replaced_cases hmem with ⟨_, other, hother, hne, rfl⟩ | ⟨_, source, -, rfl⟩
    · refine h.final other hother ((h.owners other hother).resolve_right fun hhead => ?_)
      exact hne (Option.some.inj hhead).symm
    · rfl

theorem Reached.complete (h : Reached t terms finished (chunk :: rest) before store)
    {after : List TranscriptSegment} (hsettled : Settled after store)
    (hvalid : validateSegments after = .ok ()) {changed : JobChunk} (hid : changed.id = chunk.id)
    (hstate : changed.state = .completed) :
    Reached t terms (finished ++ [updatedChunk changed chunk]) rest after (store.updateChunk changed) := by
  have hids : (finished ++ [updatedChunk changed chunk]).map (·.id) = finished.map (·.id) ++ [chunk.id] := by
    rw [List.map_append]
    rfl
  have hchunks : (store.updateChunk changed).chunks =
      (finished ++ [updatedChunk changed chunk]) ++ rest := by
    rw [h.updateChunk_chunks hid, List.append_assoc, List.singleton_append]
  have howned : ∀ row ∈ store.rows,
      row.chunkId ∈ (finished ++ [updatedChunk changed chunk]).map (·.id) := by
    intro row hmem
    rw [hids]
    rcases h.owners row hmem with hfinished | hhead
    · exact List.mem_append_left _ hfinished
    · exact List.mem_append_right _ (List.mem_singleton.mpr (Option.some.inj hhead).symm)
  have hdistinct : ((store.updateChunk changed).chunks.map (·.id)).Nodup := by
    have hold := h.distinct
    rw [h.chunks, List.map_append, List.map_cons] at hold
    rw [h.updateChunk_chunks hid, List.map_append, List.map_cons]
    exact hold
  refine ⟨hchunks, fun row hmem => ?_, fun row hmem => ?_, hdistinct, hvalid,
    fun row hmem => Or.inl (howned row hmem), ?_, fun row hmem _ => hsettled.final row hmem,
    fun row hmem hhead => ?_⟩
  · rcases List.mem_append.mp hmem with hmem | hmem
    · exact h.completed row hmem
    · rw [List.mem_singleton.mp hmem]
      exact hstate
  · exact h.incomplete row (List.mem_cons_of_mem _ hmem)
  · have hall : (store.rows.filter fun row =>
        decide (row.chunkId ∈ (finished ++ [updatedChunk changed chunk]).map (·.id))) = store.rows :=
      List.filter_eq_self.mpr fun row hmem => decide_eq_true (howned row hmem)
    show (store.rows.filter _).map essence = after
    rw [hall, hsettled.rows]
  · -- the head of the rest has no rows yet, for its id is another one
    rw [hchunks, List.map_append] at hdistinct
    cases hrest : rest with
    | nil => rw [hrest] at hhead; cases hhead
    | cons other others =>
      rw [hrest] at hhead hdistinct
      have hother : other.id = row.chunkId := Option.some.inj hhead
      exact absurd hother.symm ((List.nodup_append.mp hdistinct).2.2 _ (howned row hmem) _
        (List.mem_cons_self ..))

end Reached

/-! ## The invariant of a session -/

/-- A session has finished the chunks `finished`, with the transcript `before`, and has requested the
    given ones; it may request those of `openIds`. -/
structure At (t : CharTables) (frontEnd : FrontEnd) (run : JobRun) (plan : List JobChunk)
    (openIds : List QString) (finished rest : List JobChunk) (before : List TranscriptSegment)
    (requested : List QString) (s : SessionStore) : Prop where
  plan : (finished ++ rest).map plain = plan.map plain
  expected : transcript t frontEnd run [] finished = some before
  requests : s.requested = requested
  allowed : ∀ id ∈ requested, id ∈ openIds
  reached : Reached t (frontEnd.terms run) finished rest before s.job

def Safe (t : CharTables) (frontEnd : FrontEnd) (run : JobRun) (plan : List JobChunk)
    (openIds : List QString) (s : SessionStore) : Prop :=
  ∃ finished rest before requested, At t frontEnd run plan openIds finished rest before requested s

theorem terms_canonicalText (frontEnd : FrontEnd) (run : JobRun) :
    ∀ term ∈ frontEnd.terms run, term.canonicalText ≠ [] := by
  cases frontEnd with
  | application => exact canonicalText_ne_nil
  | commandLine =>
    intro term hmem hempty
    have hkept := (List.mem_filter.mp hmem).2
    rw [hempty] at hkept
    simp [trimmed] at hkept

section Steps

variable {openIds : List QString} {finished rest : List JobChunk} {chunk : JobChunk}
  {before : List TranscriptSegment} {requested : List QString} {environment : Environment} {turn : Nat}

theorem conforms_writeChunk {changed : JobChunk} (hid : changed.id = chunk.id)
    (hstate : changed.state ≠ .completed) :
    Conforms (Safe t frontEnd run plan openIds)
      (At t frontEnd run plan openIds finished (chunk :: rest) before requested) (writeChunk changed)
      (fun _ => At t frontEnd run plan openIds finished (updatedChunk changed chunk :: rest) before requested)
      False := by
  have hstep : ∀ s, At t frontEnd run plan openIds finished (chunk :: rest) before requested s →
      At t frontEnd run plan openIds finished (updatedChunk changed chunk :: rest) before requested
        { s with job := s.job.updateChunk changed } := by
    intro s h
    refine ⟨?_, h.expected, h.requests, h.allowed, h.reached.write hid hstate⟩
    rw [← h.plan, List.map_append, List.map_append, List.map_cons, List.map_cons, plain_updatedChunk]
  refine conforms_write (fun s s' h hok => ?_) (fun s e h herror => ?_)
  · cases hok
    exact ⟨⟨_, _, _, _, hstep s h⟩, hstep s h⟩
  · cases herror

theorem conforms_startTranscription {started : JobChunk} (hid : started.id ∈ openIds) :
    Conforms (Safe t frontEnd run plan openIds)
      (At t frontEnd run plan openIds finished rest before requested) (startTranscription started)
      (fun _ => At t frontEnd run plan openIds finished rest before (requested ++ [started.id])) False := by
  have hstep : ∀ s, At t frontEnd run plan openIds finished rest before requested s →
      At t frontEnd run plan openIds finished rest before (requested ++ [started.id])
        { s with requested := s.requested ++ [started.id] } := by
    intro s h
    refine ⟨h.plan, h.expected, congrArg (· ++ [started.id]) h.requests, fun id hmem => ?_, h.reached⟩
    rcases List.mem_append.mp hmem with hmem | hmem
    · exact h.allowed id hmem
    · rw [List.mem_singleton.mp hmem]
      exact hid
  refine conforms_write (fun s s' h hok => ?_) (fun s e h herror => ?_)
  · cases hok
    exact ⟨⟨_, _, _, _, hstep s h⟩, hstep s h⟩
  · cases herror

/-- Segments the worker has sent: the glossary has seen them, and they are inside the chunk. -/
structure Incoming (t : CharTables) (terms : List GlossaryTerm) (run : JobRun) (chunk : JobChunk)
    (segments : List TranscriptSegment) : Prop where
  glossary : ∀ segment ∈ segments, GlossaryOnly t terms segment
  inside : ∀ segment ∈ segments, InsideChunk chunk run.recordingDurationMs segment.startMs segment.endMs

theorem At.replace {s : SessionStore} {job : JobStore} {segments : List TranscriptSegment}
    {provisional : Bool} {now attempt : Int} {newId : Nat → QString} {recordingId jobId : QString}
    (h : At t frontEnd run plan openIds finished (chunk :: rest) before requested s)
    (hglossary : ∀ segment ∈ segments, GlossaryOnly t (frontEnd.terms run) segment)
    (hstore : s.job.replaceChunk t now newId recordingId jobId chunk.id segments provisional attempt =
      .ok job) :
    At t frontEnd run plan openIds finished (chunk :: rest) before requested { s with job } :=
  ⟨h.plan, h.expected, h.requests, h.allowed, h.reached.replace hglossary hstore⟩

theorem conforms_writeProvisional {started : JobChunk} {segments : List TranscriptSegment}
    (hid : started.id = chunk.id) (hglossary : ∀ segment ∈ segments, GlossaryOnly t (frontEnd.terms run) segment)
    (hranges : ∀ segment ∈ segments, 0 ≤ segment.startMs ∧ segment.startMs < segment.endMs) :
    Conforms (Safe t frontEnd run plan openIds)
      (At t frontEnd run plan openIds finished (chunk :: rest) before requested)
      (writeSegments t run environment started turn segments true)
      (fun _ => At t frontEnd run plan openIds finished (chunk :: rest) before requested) False := by
  refine conforms_write (fun s s' h hok => ?_) (fun s e h herror => ?_)
  · rw [hid] at hok
    split at hok
    next job hstore =>
      cases hok
      have hnext := h.replace hglossary hstore
      exact ⟨⟨_, _, _, _, hnext⟩, hnext⟩
    next => cases hok
  · have hstored : ∃ store', s.job.replaceChunk t (environment.now started turn)
        (environment.rowId started turn) run.activeJob.recordingId run.activeJob.id chunk.id segments true
        started.attempts = .ok store' :=
      h.reached.provisional_ok (terms_canonicalText frontEnd run) hranges
    obtain ⟨store', hstore⟩ := hstored
    rw [hid, hstore] at herror
    cases herror

theorem conforms_writeFinal {started : JobChunk} {segments : List TranscriptSegment}
    (hid : started.id = chunk.id)
    (hglossary : ∀ segment ∈ segments, GlossaryOnly t (frontEnd.terms run) segment) :
    Conforms (Safe t frontEnd run plan openIds)
      (At t frontEnd run plan openIds finished (chunk :: rest) before requested)
      (writeSegments t run environment started turn segments false)
      (fun _ s => validateSegments (merged before (segments.map essence)) = .ok () ∧
        At t frontEnd run plan openIds finished (chunk :: rest) before requested s ∧
        Settled (merged before (segments.map essence)) s.job)
      (accept before (segments.map essence) = none) := by
  refine conforms_write (fun s s' h hok => ?_) (fun s e h herror => ?_)
  · rw [hid] at hok
    split at hok
    next job hstore =>
      cases hok
      have hnext := h.replace hglossary hstore
      have hvalid := (h.reached.final_ok_iff (terms_canonicalText frontEnd run)).mp ⟨_, hstore⟩
      exact ⟨⟨_, _, _, _, hnext⟩, hvalid, hnext, h.reached.settle hstore⟩
    next => cases hok
  · cases haccept : accept before (segments.map essence) with
    | none => rfl
    | some after =>
      obtain ⟨rfl, hvalid⟩ := accept_eq_some.mp haccept
      have hstored : ∃ store', s.job.replaceChunk t (environment.now started turn)
          (environment.rowId started turn) run.activeJob.recordingId run.activeJob.id chunk.id segments false
          started.attempts = .ok store' :=
        (h.reached.final_ok_iff (terms_canonicalText frontEnd run)).mpr hvalid
      obtain ⟨store', hstore⟩ := hstored
      rw [hid, hstore] at herror
      cases herror

theorem conforms_complete {changed : JobChunk} {after : List TranscriptSegment} (hid : changed.id = chunk.id)
    (hstate : changed.state = .completed) (hadvance : advance t frontEnd run before chunk = some after)
    (hvalid : validateSegments after = .ok ()) :
    Conforms (Safe t frontEnd run plan openIds)
      (fun s => At t frontEnd run plan openIds finished (chunk :: rest) before requested s ∧
        Settled after s.job) (writeChunk changed)
      (fun _ => At t frontEnd run plan openIds (finished ++ [updatedChunk changed chunk]) rest after requested)
      False := by
  have hstep : ∀ s, At t frontEnd run plan openIds finished (chunk :: rest) before requested s →
      Settled after s.job →
      At t frontEnd run plan openIds (finished ++ [updatedChunk changed chunk]) rest after requested
        { s with job := s.job.updateChunk changed } := by
    intro s h hsettled
    refine ⟨?_, ?_, h.requests, h.allowed, h.reached.complete hsettled hvalid hid hstate⟩
    · rw [← h.plan, List.append_assoc, List.map_append, List.map_append, List.map_append]
      rfl
    · rw [transcript_append, h.expected, Option.bind_some, transcript_cons,
        advance_congr (plain_updatedChunk changed chunk), hadvance]
      rfl
  refine conforms_write (fun s s' h hok => ?_) (fun s e h herror => ?_)
  · cases hok
    exact ⟨⟨_, _, _, _, hstep s h.1 h.2⟩, hstep s h.1 h.2⟩
  · cases herror

/-! ### The messages of a chunk -/

/-- **All messages**, from what one message does: `view` is the list that the front end has gathered. -/
theorem conforms_receiveAll {μ : Type} {received : Nat → μ → QCborMap → Session μ}
    {view : μ → List TranscriptSegment} {Good : μ → Prop} {I P : SessionStore → Prop}
    {terms : List GlossaryTerm}
    (hreceived : ∀ turn memory payload, Good memory →
      Conforms I P (received turn memory payload)
        (fun after s => (Accepted run chunk payload ∧ Good after ∧
          (view after).map essence = (view memory).map essence ++ [heard t terms run chunk payload]) ∧ P s)
        (¬ Accepted run chunk payload)) :
    ∀ (messages : List QCborMap) (turn : Nat) (memory : μ), Good memory →
      Conforms I P (receiveAll received turn memory messages)
        (fun after s => ((∀ payload ∈ messages, Accepted run chunk payload) ∧ Good after ∧
          (view after).map essence =
            (view memory).map essence ++ messages.map (heard t terms run chunk)) ∧ P s)
        (¬ ∀ payload ∈ messages, Accepted run chunk payload) := by
  intro messages
  induction messages with
  | nil =>
    intro turn memory hgood
    refine conforms_pure fun s hP => ⟨⟨fun payload hmem => (by cases hmem), hgood, ?_⟩, hP⟩
    rw [List.map_nil, List.append_nil]
  | cons payload rest ih =>
    intro turn memory hgood
    have hfirst : Conforms I P (received turn memory payload) _
        (¬ ∀ other ∈ payload :: rest, Accepted run chunk other) :=
      (hreceived turn memory payload hgood).weaken (fun _ h => h) (fun _ _ h => h)
        fun hrefused hall => hrefused (hall payload (List.mem_cons_self ..))
    refine conforms_bind hfirst fun after => conforms_of fun ⟨haccepted, hgood', hview⟩ => ?_
    refine (ih (turn + 1) after hgood').weaken (fun _ h => h) ?_ fun hrefused hall =>
      hrefused fun other hmem => hall other (List.mem_cons_of_mem _ hmem)
    rintro last s ⟨⟨hall, hlast, hviews⟩, hP⟩
    refine ⟨⟨fun other hmem => ?_, hlast, ?_⟩, hP⟩
    · rcases List.mem_cons.mp hmem with rfl | hmem
      · exact haccepted
      · exact hall other hmem
    · rw [hviews, hview, List.append_assoc, List.map_cons, List.singleton_append]

theorem conforms_acceptRange {I P : SessionStore → Prop} {payload : QCborMap} :
    Conforms I P (Process.lift (acceptRange (validated run chunk payload)))
      (fun _ s => Accepted run chunk payload ∧ P s) (¬ Accepted run chunk payload) := by
  refine conforms_lift (fun s _ hP hok => ⟨?_, hP⟩) (fun s failure _ herror haccepted => ?_)
  · show (validated run chunk payload).error = .none
    unfold acceptRange at hok
    split at hok
    next hnone => exact hnone
    next => cases hok
    next => cases hok
  · have hnone : (validated run chunk payload).error = .none := haccepted
    unfold acceptRange at herror
    rw [hnone] at herror
    cases herror

theorem Accepted.inside {payload : QCborMap} (h : Accepted run chunk payload) :
    InsideChunk chunk run.recordingDurationMs (validated run chunk payload).startMs
      (validated run chunk payload).endMs := by
  refine @validateWorkerSegmentRange_inside payload _ _ _ _ ?_
  show validated run chunk payload = _
  rw [← h]

theorem Incoming.append {terms : List GlossaryTerm} {segments : List TranscriptSegment}
    {segment : TranscriptSegment} (h : Incoming t terms run chunk segments)
    (hglossary : GlossaryOnly t terms segment)
    (hinside : InsideChunk chunk run.recordingDurationMs segment.startMs segment.endMs) :
    Incoming t terms run chunk (segments ++ [segment]) := by
  refine ⟨fun other hmem => ?_, fun other hmem => ?_⟩
  all_goals rcases List.mem_append.mp hmem with hmem | hmem
  · exact h.glossary other hmem
  · rw [List.mem_singleton.mp hmem]
    exact hglossary
  · exact h.inside other hmem
  · rw [List.mem_singleton.mp hmem]
    exact hinside

theorem Incoming.proper {terms : List GlossaryTerm} {segments : List TranscriptSegment}
    (h : Incoming t terms run chunk segments) :
    ∀ segment ∈ segments, 0 ≤ segment.startMs ∧ segment.startMs < segment.endMs :=
  fun segment hmem => ⟨(h.inside segment hmem).nonneg, (h.inside segment hmem).start_lt_end⟩

/-! ### A chunk of the application -/

/-- What stays true of the application's active chunk while messages come in. -/
structure GuiReceiving (t : CharTables) (run : JobRun) (chunk : JobChunk) (active : ActiveChunk) : Prop where
  job : active.activeJob = run.activeJob
  unit : active.chunk = chunk
  duration : active.recordingDurationMs = run.recordingDurationMs
  incoming : Incoming t (FrontEnd.application.terms run) run chunk active.currentSegments

theorem GuiReceiving.validatedRange {active : ActiveChunk} {message : PartialSegment}
    (h : GuiReceiving t run chunk active) :
    validatedRange active message = validated run chunk message.payload := by
  unfold App.validatedRange validated
  rw [h.unit, h.duration]

theorem conforms_guiReceive {stored : JobChunk} (hid : chunk.id = stored.id) {active : ActiveChunk}
    {payload : QCborMap} (h : GuiReceiving t run chunk active) :
    Conforms (Safe t .application run plan openIds)
      (At t .application run plan openIds finished (stored :: rest) before requested)
      (guiReceive t run environment turn active payload)
      (fun after s => (Accepted run chunk payload ∧ GuiReceiving t run chunk after ∧
        after.currentSegments.map essence = active.currentSegments.map essence ++
          [heard t (FrontEnd.application.terms run) run chunk payload]) ∧
        At t .application run plan openIds finished (stored :: rest) before requested s)
      (¬ Accepted run chunk payload) := by
  set message : PartialSegment :=
    ⟨environment.now active.chunk turn, environment.uuid active.chunk turn, payload⟩ with hmessage
  have hrange : validatedRange active message = validated run chunk payload := h.validatedRange
  set segment := segmentFromPayload t active message.id (validatedRange active message) message.payload
    with hsegment
  have hessence : essence segment = heard t (FrontEnd.application.terms run) run chunk payload := by
    rw [hsegment, hrange]
    unfold segmentFromPayload
    rw [h.job]
    rfl
  have hafter : (active.receive t message).currentSegments = active.currentSegments ++ [segment] := rfl
  unfold guiReceive
  dsimp only
  rw [← hmessage, hrange]
  refine conforms_bind conforms_acceptRange fun _ => conforms_of fun haccepted => ?_
  have hincoming : Incoming t (FrontEnd.application.terms run) run chunk
      (active.receive t message).currentSegments := by
    rw [hafter]
    refine h.incoming.append ?_ ?_
    · rw [hsegment]
      unfold segmentFromPayload
      rw [h.job]
      exact ⟨rfl, rfl⟩
    · have hinside := haccepted.inside
      rw [← hrange] at hinside
      exact hinside
  have hsame : active.chunk.id = stored.id := by rw [h.unit, hid]
  refine conforms_bind ((conforms_writeProvisional hsame hincoming.glossary hincoming.proper).weaken
    (fun _ h => h) (fun _ _ h => h) False.elim) fun _ => ?_
  refine conforms_pure fun s hs => ⟨⟨haccepted, ⟨h.job, h.unit, h.duration, hincoming⟩, ?_⟩, hs⟩
  rw [hafter, List.map_append, List.map_singleton, hessence]

theorem previousRows_congr {first second : JobChunk} (h : first.id = second.id) (store : JobStore) :
    previousRows first store = previousRows second store := by
  unfold previousRows
  rw [h]

/-- Once the segments are stored for good, the chunk is completed. -/
theorem conforms_commit {stored completed : JobChunk} {segments : List TranscriptSegment}
    {save : Session Unit} (hid : completed.id = stored.id) (hplain : plain chunk = plain stored)
    (hstate : completed.state = .completed)
    (hadvance : advance t frontEnd run before chunk = accept before (segments.map essence))
    (hsave : Conforms (Safe t frontEnd run plan openIds)
      (At t frontEnd run plan openIds finished (stored :: rest) before requested) save
      (fun _ s => validateSegments (merged before (segments.map essence)) = .ok () ∧
        At t frontEnd run plan openIds finished (stored :: rest) before requested s ∧
        Settled (merged before (segments.map essence)) s.job)
      (accept before (segments.map essence) = none)) :
    Conforms (Safe t frontEnd run plan openIds)
      (At t frontEnd run plan openIds finished (stored :: rest) before requested)
      (save >>= fun _ => writeChunk completed)
      (fun _ s => ∃ finished', advance t frontEnd run before chunk =
          some (merged before (segments.map essence)) ∧
        At t frontEnd run plan openIds finished' rest (merged before (segments.map essence)) requested s)
      (advance t frontEnd run before chunk = none) := by
  rw [← hadvance] at hsave
  refine conforms_bind hsave fun _ => conforms_of fun hvalid => ?_
  have hsome : advance t frontEnd run before chunk = some (merged before (segments.map essence)) := by
    rw [hadvance]
    exact accept_eq_some.mpr ⟨rfl, hvalid⟩
  exact (conforms_complete hid hstate ((advance_congr hplain).symm.trans hsome) hvalid).weaken
    (fun _ h => h) (fun _ s h => ⟨_, hsome, h⟩) False.elim

theorem conforms_guiFinalize {stored : JobChunk} {active : ActiveChunk} (hid : chunk.id = stored.id)
    (hplain : plain chunk = plain stored) (h : GuiReceiving t run chunk active)
    (haccepted : ∀ payload ∈ run.worker chunk.startMs chunk.endMs, Accepted run chunk payload)
    (hheard : active.currentSegments.map essence = (run.worker chunk.startMs chunk.endMs).map
      (heard t (FrontEnd.application.terms run) run chunk)) :
    Conforms (Safe t .application run plan openIds)
      (At t .application run plan openIds finished (stored :: rest) before requested)
      (guiFinalize t run environment turn active)
      (fun _ s => ∃ finished' after, advance t .application run before chunk = some after ∧
        At t .application run plan openIds finished' rest after requested s)
      (advance t .application run before chunk = none) := by
  unfold guiFinalize
  -- what is read is what the store holds
  refine conforms_bind (R := fun s s' => (previousRows chunk s.job).map essence = before ∧
    At t .application run plan openIds finished (stored :: rest) before requested s')
    (conforms_read fun s hs => ⟨?_, hs⟩) fun s => conforms_of fun hprevious => ?_
  · rw [previousRows_congr hid]
    exact hs.reached.previousRows
  · rw [h.unit]
    unfold guiCommit
    have hglossary : ∀ segment ∈ guiChunkSegments t (environment.uuid chunk turn)
        (glossaryTermsFromParameters run.activeJob.parameters) chunk (previousRows chunk s.job)
        active.currentSegments, GlossaryOnly t (FrontEnd.application.terms run) segment := by
      intro segment hmem
      obtain ⟨source, -, rfl⟩ := List.mem_map.mp hmem
      exact ⟨rfl, rfl⟩
    refine (conforms_commit ?_ hplain ?_ ?_ (conforms_writeFinal hid hglossary)).weaken (fun _ h => h) ?_
      fun h => h
    · exact hid
    · rfl
    · rw [advance_of_accepted haccepted, guiChunkSegments_essence, hprevious, hheard]
      rfl
    · rintro _ s ⟨finished', hadvance, hat⟩
      exact ⟨finished', _, hadvance, hat⟩

theorem guiReceiving_activeChunk (store : JobStore) :
    GuiReceiving t run chunk (activeChunk run environment chunk store) where
  job := rfl
  unit := rfl
  duration := rfl
  incoming := ⟨fun _ hmem => (by cases hmem), fun _ hmem => (by cases hmem)⟩

theorem conforms_guiTranscribe {stored : JobChunk} (hid : chunk.id = stored.id)
    (hplain : plain chunk = plain stored) (hopen : chunk.id ∈ openIds) :
    Conforms (Safe t .application run plan openIds)
      (At t .application run plan openIds finished (stored :: rest) before requested)
      (guiTranscribe t run environment chunk)
      (fun _ s => ∃ finished' after, advance t .application run before chunk = some after ∧
        At t .application run plan openIds finished' rest after (requested ++ [chunk.id]) s)
      (advance t .application run before chunk = none) := by
  unfold guiTranscribe
  refine conforms_bind (R := fun _ =>
    At t .application run plan openIds finished (stored :: rest) before requested)
    (conforms_read fun _ hs => hs) fun s => ?_
  refine conforms_bind ((conforms_startTranscription hopen).weaken (fun _ h => h) (fun _ _ h => h)
    False.elim) fun _ => ?_
  refine conforms_bind ((conforms_receiveAll (fun _ _ _ hgood => conforms_guiReceive hid hgood) _ 1 _
    (guiReceiving_activeChunk s.job)).weaken (fun _ h => h) (fun _ _ h => h) advance_of_refused) fun active =>
    conforms_of fun ⟨haccepted, hgood, hheard⟩ => ?_
  exact conforms_guiFinalize hid hplain hgood haccepted hheard

theorem conforms_guiChunk (hopen : chunk.id ∈ openIds) :
    Conforms (Safe t .application run plan openIds)
      (At t .application run plan openIds finished (chunk :: rest) before requested)
      (guiChunk t run environment chunk)
      (fun _ s => ∃ finished' after, advance t .application run before chunk = some after ∧
        At t .application run plan openIds finished' rest after (requested ++ [chunk.id]) s)
      (advance t .application run before chunk = none) := by
  have hrunning : (guiStartedChunk environment chunk).state ≠ .completed := fun h => (by cases h)
  have hid : (guiStartedChunk environment chunk).id = chunk.id := rfl
  exact conforms_bind ((conforms_writeChunk hid hrunning).weaken (fun _ h => h) (fun _ _ h => h) False.elim)
    fun _ => conforms_guiTranscribe rfl rfl hopen

/-! ### A chunk of the command line -/

/-- The segments with the marks of the chunk. -/
def stamped (run : JobRun) (chunk : JobChunk) (provisional : Bool) (segments : List TranscriptSegment) :
    List TranscriptSegment :=
  segments.map fun segment => { segment with
    recordingId := run.activeJob.recordingId
    jobId := run.activeJob.id
    chunkId := chunk.id
    provisional
    attempt := chunk.attempts }

theorem stamped_essence (provisional : Bool) (segments : List TranscriptSegment) :
    (stamped run chunk provisional segments).map essence = segments.map essence := by
  unfold stamped
  rw [List.map_map]
  rfl

theorem Incoming.stamped {terms : List GlossaryTerm} {segments : List TranscriptSegment} {provisional : Bool}
    (h : Incoming t terms run chunk segments) :
    Incoming t terms run chunk (stamped run chunk provisional segments) := by
  refine ⟨fun segment hmem => ?_, fun segment hmem => ?_⟩
  · obtain ⟨source, hsource, rfl⟩ := List.mem_map.mp hmem
    exact ⟨(h.glossary source hsource).text, (h.glossary source hsource).audit⟩
  · obtain ⟨source, hsource, rfl⟩ := List.mem_map.mp hmem
    exact h.inside source hsource

theorem conforms_requireInside {I P : SessionStore → Prop} {terms : List GlossaryTerm}
    {segments : List TranscriptSegment} (h : Incoming t terms run chunk segments) :
    Conforms I P (Process.lift (requireInside run chunk segments)) (fun _ s => P s) False := by
  refine conforms_lift (fun s _ hP _ => hP) (fun s failure _ herror => ?_)
  rw [requireInside_of_inside h.inside] at herror
  cases herror

theorem conforms_saveProvisional {stored : JobChunk} {segments : List TranscriptSegment}
    (hid : chunk.id = stored.id) (h : Incoming t (frontEnd.terms run) run chunk segments) :
    Conforms (Safe t frontEnd run plan openIds)
      (At t frontEnd run plan openIds finished (stored :: rest) before requested)
      (saveChunkSegments t run environment chunk turn segments true)
      (fun _ => At t frontEnd run plan openIds finished (stored :: rest) before requested) False := by
  refine conforms_bind (conforms_requireInside h) fun _ => ?_
  exact conforms_writeProvisional hid h.stamped.glossary h.stamped.proper

theorem conforms_saveFinal {stored : JobChunk} {segments : List TranscriptSegment}
    (hid : chunk.id = stored.id) (h : Incoming t (frontEnd.terms run) run chunk segments) :
    Conforms (Safe t frontEnd run plan openIds)
      (At t frontEnd run plan openIds finished (stored :: rest) before requested)
      (saveChunkSegments t run environment chunk turn segments false)
      (fun _ s => validateSegments (merged before (segments.map essence)) = .ok () ∧
        At t frontEnd run plan openIds finished (stored :: rest) before requested s ∧
        Settled (merged before (segments.map essence)) s.job)
      (accept before (segments.map essence) = none) := by
  refine conforms_bind ((conforms_requireInside h).weaken (fun _ h => h) (fun _ _ h => h) False.elim)
    fun _ => ?_
  rw [← @stamped_essence run chunk false segments]
  exact conforms_writeFinal hid h.stamped.glossary

theorem conforms_cliReceive {stored : JobChunk} (hid : chunk.id = stored.id)
    {segments incoming : List TranscriptSegment} {payload : QCborMap}
    (h : Incoming t (FrontEnd.commandLine.terms run) run chunk incoming) :
    Conforms (Safe t .commandLine run plan openIds)
      (At t .commandLine run plan openIds finished (stored :: rest) before requested)
      (cliReceive t run environment segments chunk turn incoming payload)
      (fun after s => (Accepted run chunk payload ∧
        Incoming t (FrontEnd.commandLine.terms run) run chunk after ∧
        after.map essence = incoming.map essence ++
          [heard t (FrontEnd.commandLine.terms run) run chunk payload]) ∧
        At t .commandLine run plan openIds finished (stored :: rest) before requested s)
      (¬ Accepted run chunk payload) := by
  refine conforms_bind conforms_acceptRange fun _ => conforms_of fun haccepted => ?_
  have hincoming : Incoming t (FrontEnd.commandLine.terms run) run chunk
      (cliAppend t run environment segments chunk turn incoming payload) :=
    h.append ⟨rfl, rfl⟩ haccepted.inside
  refine conforms_bind ((conforms_saveProvisional hid hincoming).weaken (fun _ h => h) (fun _ _ h => h)
    False.elim) fun _ => ?_
  refine conforms_pure fun s hs => ⟨⟨haccepted, hincoming, ?_⟩, hs⟩
  unfold cliAppend
  rw [List.map_append]
  rfl

/-- Cutting repeated words changes no range. -/
theorem mem_cliDeduplicateFirst {last first segment : TranscriptSegment} {others : List TranscriptSegment}
    (h : segment ∈ cliDeduplicateFirst t last first others) :
    ∃ source ∈ first :: others, range source = range segment := by
  unfold cliDeduplicateFirst at h
  dsimp only at h
  split at h
  · exact ⟨segment, List.mem_cons_of_mem _ h, rfl⟩
  · rcases List.mem_cons.mp h with rfl | h
    · exact ⟨first, List.mem_cons_self .., rfl⟩
    · exact ⟨segment, List.mem_cons_of_mem _ h, rfl⟩

theorem mem_cliDeduplicated {segments incoming : List TranscriptSegment} {segment : TranscriptSegment}
    (h : segment ∈ match segments.getLast?, incoming with
      | some last, first :: rest =>
        if chunk.overlapBeforeMs > 0 then cliDeduplicateFirst t last first rest else incoming
      | _, _ => incoming) : ∃ source ∈ incoming, range source = range segment := by
  split at h
  · split at h
    · exact mem_cliDeduplicateFirst h
    · exact ⟨segment, h, rfl⟩
  · exact ⟨segment, h, rfl⟩

/-- The reconciled segments are still the worker's, inside the chunk, and go on after the ones before. -/
theorem cliReconcile_ok {segments incoming reconciled : List TranscriptSegment}
    (h : Incoming t (FrontEnd.commandLine.terms run) run chunk incoming)
    (hok : cliReconcile t run chunk segments incoming = .ok reconciled) :
    Incoming t (FrontEnd.commandLine.terms run) run chunk reconciled ∧
      Chain TranscriptSegment.startMs TranscriptSegment.endMs
        (some ((segments.getLast?.map (·.endMs)).getD 0)) reconciled := by
  have hchunk : cliChunkSegments t (cliTerms run) chunk segments incoming = .ok reconciled := by
    unfold cliReconcile at hok
    split at hok
    next list hlist =>
      cases hok
      exact hlist
    next => cases hok
  have hchain := reconcileAll_chain hchunk
  refine ⟨⟨fun segment hmem => ?_, fun segment hmem => ?_⟩, hchain⟩
  all_goals obtain ⟨source, hsource, startMs, hfrom, hto, rfl⟩ := mem_reconcileAll hchunk segment hmem
  all_goals obtain ⟨first, hfirst, rfl⟩ := List.mem_map.mp hsource
  · exact ⟨rfl, rfl⟩
  · obtain ⟨source, hsource, hrange⟩ := mem_cliDeduplicated hfirst
    have hinside := h.inside source hsource
    have hstart : source.startMs = first.startMs := congrArg Prod.fst hrange
    have hend : source.endMs = first.endMs := congrArg Prod.snd hrange
    rw [hstart, hend] at hinside
    obtain ⟨h0, hlow, -, hhigh, hdur⟩ := hinside
    have hfrom' : first.startMs ≤ startMs := hfrom
    have hto' : startMs < first.endMs := hto
    exact ⟨h0.trans hfrom', hlow.trans hfrom', hto', hhigh, hdur⟩

/-- Behind an ordered list and after its end, the merge is the list and then the new segments. -/
theorem merged_eq_append {committed : List TranscriptSegment} (hbefore : TimeOrdered before)
    (hcommitted : Chain TranscriptSegment.startMs TranscriptSegment.endMs
      (some ((before.getLast?.map (·.endMs)).getD 0)) committed) :
    merged before committed = before ++ committed := by
  obtain ⟨hord, hafter⟩ := chain_iff_ordered.mp hcommitted
  have happend : TimeOrdered (before ++ committed) := by
    refine ordered_append.mpr ⟨hbefore, hord, fun a ha b hb => ?_⟩
    have hstart := hafter _ rfl b hb
    obtain ⟨front, last, rfl⟩ : ∃ front last, before = front ++ [last] :=
      ⟨_, _, (List.dropLast_append_getLast (List.ne_nil_of_mem ha)).symm⟩
    rw [List.getLast?_append_of_ne_nil _ (by simp)] at hstart
    have hlast : last.endMs ≤ b.startMs := hstart
    rcases List.mem_append.mp ha with hfront | hlastmem
    · have hpair := (List.pairwise_append.mp hbefore.pairwise).2.2 a hfront last (List.mem_singleton_self _)
      have hpos := hbefore.positive last (List.mem_append_right _ (List.mem_singleton_self _))
      omega
    · rw [List.mem_singleton.mp hlastmem]
      exact hlast
  have hperm : (merged before committed).Perm (before ++ committed) := List.perm_insertionSort ..
  have hsorted : (before ++ committed).Pairwise fun a b => a.startMs ≤ b.startMs :=
    happend.pairwise.imp_of_mem fun {a b} ha _ hab => ((happend.positive a ha).trans_le hab).le
  have hmerged := (ordered_perm hperm (merged_sorted ..) hsorted).mpr happend
  exact hmerged.eq_of_perm happend hperm

theorem conforms_cliTranscribe {stored : JobChunk} {segments : List TranscriptSegment}
    (hid : chunk.id = stored.id) (hplain : plain chunk = plain stored) (hopen : chunk.id ∈ openIds)
    (hsegments : segments.map essence = before) (hbefore : TimeOrdered before) :
    Conforms (Safe t .commandLine run plan openIds)
      (At t .commandLine run plan openIds finished (stored :: rest) before requested)
      (cliTranscribe t run environment segments chunk)
      (fun segments' s => ∃ finished' after, advance t .commandLine run before chunk = some after ∧
        segments'.map essence = after ∧
        At t .commandLine run plan openIds finished' rest after (requested ++ [chunk.id]) s)
      (advance t .commandLine run before chunk = none) := by
  unfold cliTranscribe
  refine conforms_bind ((conforms_startTranscription hopen).weaken (fun _ h => h) (fun _ _ h => h)
    False.elim) fun _ => ?_
  have hnone : Incoming t (FrontEnd.commandLine.terms run) run chunk [] :=
    ⟨fun _ hmem => (by cases hmem), fun _ hmem => (by cases hmem)⟩
  have hreceive : Conforms (Safe t .commandLine run plan openIds)
      (At t .commandLine run plan openIds finished (stored :: rest) before (requested ++ [chunk.id]))
      (receiveAll (cliReceive t run environment segments chunk) 1 [] (run.worker chunk.startMs chunk.endMs))
      (fun after s => ((∀ payload ∈ run.worker chunk.startMs chunk.endMs, Accepted run chunk payload) ∧
        Incoming t (FrontEnd.commandLine.terms run) run chunk after ∧
        after.map essence = List.map essence [] ++ (run.worker chunk.startMs chunk.endMs).map
          (heard t (FrontEnd.commandLine.terms run) run chunk)) ∧
        At t .commandLine run plan openIds finished (stored :: rest) before (requested ++ [chunk.id]) s)
      (¬ ∀ payload ∈ run.worker chunk.startMs chunk.endMs, Accepted run chunk payload) :=
    conforms_receiveAll (fun _ _ _ hgood => conforms_cliReceive hid hgood) _ 1 [] hnone
  refine conforms_bind (hreceive.weaken (fun _ h => h) (fun _ _ h => h) advance_of_refused) fun incoming =>
    conforms_of fun ⟨haccepted, hincoming, hheard⟩ => ?_
  rw [List.map_nil, List.nil_append] at hheard
  -- the front end looks at ranges and texts alone, so memory serves like the store
  have hadvance : advance t .commandLine run before chunk =
      ((cliReconcile t run chunk segments incoming).toOption.map (·.map essence)).bind (accept before) := by
    rw [advance_of_accepted haccepted, ← hheard, cliReconcile_essence, hsegments]
    rfl
  refine conforms_bind (R := fun reconciled s => cliReconcile t run chunk segments incoming = .ok reconciled ∧
    At t .commandLine run plan openIds finished (stored :: rest) before (requested ++ [chunk.id]) s)
    (conforms_lift (fun s reconciled hs hok => ⟨hok, hs⟩) fun s failure _ herror => ?_) fun reconciled =>
      conforms_of fun hok => ?_
  · rw [hadvance, herror]
    rfl
  · obtain ⟨hreconciled, hchain⟩ := cliReconcile_ok hincoming hok
    rw [hok] at hadvance
    have hlast : before.getLast?.map (·.endMs) = segments.getLast?.map (·.endMs) := by
      rw [← hsegments, List.getLast?_map, Option.map_map]
      rfl
    have hchain' : Chain TranscriptSegment.startMs TranscriptSegment.endMs
        (some ((before.getLast?.map (·.endMs)).getD 0)) (reconciled.map essence) := by
      rw [hlast]
      rw [chain_iff_ordered] at hchain ⊢
      refine ⟨timeOrdered_essence.mpr hchain.1, fun p hp segment hmem => ?_⟩
      obtain ⟨source, hsource, rfl⟩ := List.mem_map.mp hmem
      exact hchain.2 p hp source hsource
    have hmerged := merged_eq_append hbefore hchain'
    refine conforms_bind (conforms_commit ?_ hplain ?_ hadvance (conforms_saveFinal hid hreconciled)) fun _ => ?_
    · exact hid
    · rfl
    · refine conforms_pure fun s hs => ?_
      obtain ⟨finished', hsome, hat⟩ := hs
      refine ⟨finished', _, hsome, ?_, hat⟩
      rw [List.map_append, hsegments, hmerged]

theorem conforms_cliChunk {segments : List TranscriptSegment} (hopen : chunk.id ∈ openIds)
    (hsegments : segments.map essence = before) (hbefore : TimeOrdered before) :
    Conforms (Safe t .commandLine run plan openIds)
      (At t .commandLine run plan openIds finished (chunk :: rest) before requested)
      (cliChunk t run environment segments chunk)
      (fun segments' s => ∃ finished' after, advance t .commandLine run before chunk = some after ∧
        segments'.map essence = after ∧
        At t .commandLine run plan openIds finished' rest after (requested ++ [chunk.id]) s)
      (advance t .commandLine run before chunk = none) := by
  have hrunning : (cliStartedChunk environment chunk).state ≠ .completed := fun h => (by cases h)
  have hid : (cliStartedChunk environment chunk).id = chunk.id := rfl
  exact conforms_bind ((conforms_writeChunk hid hrunning).weaken (fun _ h => h) (fun _ _ h => h) False.elim)
    fun _ => conforms_cliTranscribe rfl rfl hopen hsegments hbefore

/-! ## A session -/

theorem advance_valid {after : List TranscriptSegment} (h : advance t frontEnd run before chunk = some after) :
    TimeOrdered after := by
  have haccepted : ∀ payload ∈ run.worker chunk.startMs chunk.endMs, Accepted run chunk payload := by
    by_contra hrefused
    rw [advance_of_refused hrefused] at h
    cases h
  rw [advance_of_accepted haccepted, Option.bind_eq_some_iff] at h
  obtain ⟨committed, -, haccept⟩ := h
  exact (validateSegments_eq_ok.mp (accept_eq_some.mp haccept).2).2

/-- **All chunks**, from what one chunk does; `Holds` is what the session's memory is worth. -/
theorem conforms_transcribeChunks {μ : Type} (transcribe : μ → JobChunk → Session μ)
    (Holds : μ → List TranscriptSegment → Prop)
    (hchunk : ∀ memory finished chunk rest before requested, chunk.id ∈ openIds → Holds memory before →
      TimeOrdered before →
      Conforms (Safe t frontEnd run plan openIds)
        (At t frontEnd run plan openIds finished (chunk :: rest) before requested) (transcribe memory chunk)
        (fun memory' s => ∃ finished' after, advance t frontEnd run before chunk = some after ∧
          Holds memory' after ∧
          At t frontEnd run plan openIds finished' rest after (requested ++ [chunk.id]) s)
        (advance t frontEnd run before chunk = none)) :
    ∀ rest memory finished before requested, (∀ chunk ∈ rest, chunk.id ∈ openIds ∧ chunk.state ≠ .completed) →
      Holds memory before → TimeOrdered before →
      Conforms (Safe t frontEnd run plan openIds)
        (At t frontEnd run plan openIds finished rest before requested)
        (transcribeChunks transcribe memory rest)
        (fun _ s => ∃ finished' after, transcript t frontEnd run before rest = some after ∧
          At t frontEnd run plan openIds finished' [] after (requested ++ rest.map (·.id)) s)
        (transcript t frontEnd run before rest = none) := by
  intro rest
  induction rest with
  | nil =>
    intro memory finished before requested _ _ _
    refine conforms_pure fun s hs => ⟨finished, before, rfl, ?_⟩
    rw [List.map_nil, List.append_nil]
    exact hs
  | cons chunk rest ih =>
    intro memory finished before requested hrest hmemory hbefore
    obtain ⟨hopen, hstate⟩ := hrest chunk (List.mem_cons_self ..)
    unfold transcribeChunks
    rw [if_neg hstate]
    have hfail : advance t frontEnd run before chunk = none →
        transcript t frontEnd run before (chunk :: rest) = none := by
      intro hnone
      rw [transcript_cons, hnone, Option.bind_none]
    refine conforms_bind ((hchunk memory finished chunk rest before requested hopen hmemory hbefore).weaken
      (fun _ h => h) (fun _ _ h => h) hfail) fun memory' => ?_
    refine conforms_exists fun finished' => conforms_exists fun after => conforms_of fun hafter =>
      conforms_of fun hmemory' => ?_
    have hsame : transcript t frontEnd run before (chunk :: rest) = transcript t frontEnd run after rest := by
      rw [transcript_cons, hafter, Option.bind_some]
    rw [hsame]
    refine (ih memory' finished' after (requested ++ [chunk.id])
      (fun other hmem => hrest other (List.mem_cons_of_mem _ hmem)) hmemory' (advance_valid hafter)).weaken
      (fun _ h => h) ?_ fun h => h
    rintro _ s ⟨finished'', last, hlast, hat⟩
    rw [List.append_assoc, List.singleton_append] at hat
    exact ⟨finished'', last, hlast, hat⟩

theorem transcribeChunks_finished {μ : Type} {transcribe : μ → JobChunk → Session μ} {memory : μ} :
    ∀ {finished rest : List JobChunk}, (∀ chunk ∈ finished, chunk.state = .completed) →
      transcribeChunks transcribe memory (finished ++ rest) = transcribeChunks transcribe memory rest := by
  intro finished
  induction finished with
  | nil => intro rest _; rfl
  | cons chunk finished ih =>
    intro rest h
    rw [List.cons_append, transcribeChunks, if_pos (h chunk (List.mem_cons_self ..))]
    exact ih fun other hmem => h other (List.mem_cons_of_mem _ hmem)

end Steps

/-- **A session goes on with the plan** from where the store is. -/
theorem conforms_session {environment : Environment} {finished rest : List JobChunk}
    {before : List TranscriptSegment} {s : SessionStore}
    (h : At t frontEnd run plan (rest.map (·.id)) finished rest before [] s)
    (htorn : frontEnd = .commandLine → ¬ Torn s.job) :
    Conforms (Safe t frontEnd run plan (rest.map (·.id))) (fun s' => s' = s)
      (frontEnd.session t run environment)
      (fun _ s' => ∃ finished' after, transcript t frontEnd run before rest = some after ∧
        At t frontEnd run plan (rest.map (·.id)) finished' [] after (rest.map (·.id)) s')
      (transcript t frontEnd run before rest = none) := by
  have hrest : ∀ chunk ∈ rest, chunk.id ∈ rest.map (·.id) ∧ chunk.state ≠ .completed :=
    fun chunk hmem => ⟨List.mem_map_of_mem hmem, h.reached.incomplete chunk hmem⟩
  have hbefore : TimeOrdered before := (validateSegments_eq_ok.mp h.reached.valid).2
  have hstart : ∀ s', s' = s → At t frontEnd run plan (rest.map (·.id)) finished rest before [] s' := by
    rintro _ rfl
    exact h
  have hread : Conforms (Safe t frontEnd run plan (rest.map (·.id))) (fun s' => s' = s)
      (Process.read : Session SessionStore) (fun found s' => found = s ∧ s' = s)
      (transcript t frontEnd run before rest = none) := conforms_read fun s' hs' => ⟨hs', hs'⟩
  cases frontEnd with
  | application =>
    refine conforms_bind hread fun found => conforms_of fun hfound => ?_
    rw [hfound, h.reached.chunks, transcribeChunks_finished h.reached.completed]
    refine (conforms_transcribeChunks (fun (_ : Unit) chunk => guiChunk t run environment chunk)
      (fun _ _ => True) (fun _ _ _ _ _ _ hopen _ _ => (conforms_guiChunk hopen).weaken (fun _ h => h) ?_
        fun h => h) rest () finished before [] hrest trivial hbefore).weaken hstart (fun _ _ h => h) fun h => h
    exact fun _ s ⟨finished', after, hafter, hat⟩ => ⟨finished', after, hafter, trivial, hat⟩
  | commandLine =>
    refine conforms_bind hread fun found => conforms_of fun hfound => ?_
    rw [hfound, h.reached.chunks, transcribeChunks_finished h.reached.completed]
    refine conforms_bind ((conforms_transcribeChunks (cliChunk t run environment)
      (fun segments before => segments.map essence = before)
      (fun _ _ _ _ _ _ hopen hsegments hbefore => conforms_cliChunk hopen hsegments hbefore)
      rest (storedSegments s.job) finished before [] hrest (h.reached.storedSegments (htorn rfl))
      hbefore).weaken hstart (fun _ _ h => h) fun h => h) fun _ => conforms_pure fun _ h => h

/-! ## Interrupted jobs -/

/-- Some of the plan is done, and nothing else is known of the store. -/
def Resumable (t : CharTables) (frontEnd : FrontEnd) (run : JobRun) (plan : List JobChunk)
    (store : JobStore) : Prop :=
  ∃ finished rest before, (finished ++ rest).map plain = plan.map plain ∧
    transcript t frontEnd run [] finished = some before ∧
    Reached t (frontEnd.terms run) finished rest before store

theorem Resumable.at {store : JobStore} (h : Resumable t frontEnd run plan store) :
    ∃ finished rest before,
      At t frontEnd run plan (rest.map (·.id)) finished rest before [] { job := store } := by
  obtain ⟨finished, rest, before, hplan, hexpected, hreached⟩ := h
  exact ⟨finished, rest, before, hplan, hexpected, rfl, fun id hmem => (by cases hmem), hreached⟩

theorem Safe.resumable {openIds : List QString} {s : SessionStore}
    (h : Safe t frontEnd run plan openIds s) : Resumable t frontEnd run plan s.job := by
  obtain ⟨finished, rest, before, requested, h⟩ := h
  exact ⟨finished, rest, before, h.plan, h.expected, h.reached⟩

theorem resumable_planned (hdistinct : (plan.map (·.id)).Nodup) (hfresh : ∀ chunk ∈ plan, chunk.state ≠ .completed) :
    Resumable t frontEnd run plan { chunks := plan, rows := [] } :=
  ⟨[], plan, [], rfl, rfl,
    { chunks := rfl
      completed := fun _ hmem => (by cases hmem)
      incomplete := hfresh
      distinct := hdistinct
      valid := rfl
      owners := fun _ hmem => (by cases hmem)
      committed := rfl
      final := fun _ hmem => (by cases hmem)
      glossary := fun _ hmem => (by cases hmem) }⟩

theorem map_plain_updatedChunk (which : JobChunk → Bool) (changed : JobChunk) (chunks : List JobChunk) :
    (updateRows which (updatedChunk changed) chunks).map plain = chunks.map plain := by
  unfold updateRows
  rw [List.map_map]
  refine List.map_congr_left fun row _ => ?_
  dsimp only [Function.comp_apply]
  split <;> rfl

theorem Reached.mem_rest {terms : List GlossaryTerm} {finished rest : List JobChunk} {chunk : JobChunk}
    {before : List TranscriptSegment} {store : JobStore} (h : Reached t terms finished rest before store)
    (hmem : chunk ∈ store.chunks) (hstate : chunk.state ≠ .completed) : chunk ∈ rest := by
  rw [h.chunks] at hmem
  exact (List.mem_append.mp hmem).resolve_left fun hfinished => hstate (h.completed chunk hfinished)

/-- Marking a chunk tears nothing. -/
theorem torn_of_marked {store : JobStore} {changed chunk : JobChunk} (hmem : chunk ∈ store.chunks)
    (hstate : chunk.state ≠ .completed) (hid : changed.id = chunk.id)
    (h : Torn (store.updateChunk changed)) : Torn store := by
  obtain ⟨row, hrow, hfinal, marked, hmarked, howner, hopen⟩ := h
  obtain ⟨source, hsource, rfl⟩ := List.mem_map.mp hmarked
  refine ⟨row, hrow, hfinal, ?_⟩
  by_cases hsame : source.id = changed.id
  · rw [if_pos (by simpa using hsame)] at howner
    exact ⟨chunk, hmem, hid.symm.trans (hsame.symm.trans howner), hstate⟩
  · rw [if_neg (by simpa using hsame)] at howner hopen
    exact ⟨source, hsource, howner, hopen⟩

/-- **Wherever a job was interrupted**, it can be resumed. -/
theorem interrupted_resumable {stoppable : JobStore → Prop} {store : JobStore}
    (hdistinct : (plan.map (·.id)).Nodup) (hfresh : ∀ chunk ∈ plan, chunk.state ≠ .completed)
    (hstoppable : ∀ store, stoppable store → frontEnd = .commandLine → ¬ Torn store)
    (h : Interrupted t frontEnd run stoppable plan store) :
    Resumable t frontEnd run plan store ∧ (frontEnd = .commandLine → ¬ Torn store) := by
  induction h with
  | planned =>
    refine ⟨resumable_planned hdistinct hfresh, fun _ htorn => ?_⟩
    obtain ⟨row, hrow, -⟩ := htorn
    cases hrow
  | stopped environment _ hmem hstop ih =>
    obtain ⟨hresumable, htorn⟩ := ih
    obtain ⟨finished, rest, before, hat⟩ := hresumable.at
    have hsession : Conforms _ _ (frontEnd.session t run environment) _ _ := conforms_session hat htorn
    exact ⟨(hsession.mem_stores rfl ⟨_, _, _, _, hat⟩ hmem).resumable, hstoppable _ hstop⟩
  | @marked store chunk state error _ hmem hstate hmark ih =>
    obtain ⟨⟨finished, rest, before, hplan, hexpected, hreached⟩, htorn⟩ := ih
    set changed : JobChunk := { chunk with state, error } with hchanged
    have hrest := hreached.mem_rest hmem hstate
    have hfinished : changed.id ∉ finished.map (·.id) := by
      have hnodup := hreached.distinct
      rw [hreached.chunks, List.map_append] at hnodup
      exact fun hin => (List.nodup_append.mp hnodup).2.2 _ hin _ (List.mem_map_of_mem hrest) rfl
    refine ⟨⟨finished, _, before, ?_, hexpected, hreached.mark hfinished hmark⟩, fun hcli h => ?_⟩
    · rw [List.map_append, map_plain_updatedChunk, ← List.map_append]
      exact hplan
    · have hid : changed.id = chunk.id := rfl
      exact htorn hcli (torn_of_marked hmem hstate hid h)

/-- The chunks that are still to be done. -/
def openChunks (store : JobStore) : List JobChunk :=
  store.chunks.filter fun chunk => chunk.state != .completed

theorem Reached.openChunks_eq {terms : List GlossaryTerm} {finished rest : List JobChunk}
    {before : List TranscriptSegment} {store : JobStore} (h : Reached t terms finished rest before store) :
    openChunks store = rest := by
  have hdone : (finished.filter fun chunk => chunk.state != .completed) = [] :=
    List.filter_eq_nil_iff.mpr fun chunk hmem => by rw [h.completed chunk hmem]; decide
  have hopen : (rest.filter fun chunk => chunk.state != .completed) = rest :=
    List.filter_eq_self.mpr fun chunk hmem => bne_iff_ne.mpr (h.incomplete chunk hmem)
  unfold openChunks
  rw [h.chunks, List.filter_append, hdone, hopen, List.nil_append]

theorem Reached.rows_essence {terms : List GlossaryTerm} {finished : List JobChunk}
    {before : List TranscriptSegment} {store : JobStore} (h : Reached t terms finished [] before store) :
    store.rows.map essence = before := by
  have hall : (store.rows.filter fun row => decide (row.chunkId ∈ finished.map (·.id))) = store.rows := by
    refine List.filter_eq_self.mpr fun row hmem => decide_eq_true ?_
    exact (h.owners row hmem).resolve_right fun hhead => (by cases hhead)
  rw [← h.committed, hall]

/-! ## Resumption -/

section Resumption

variable {store : JobStore} {environment : Environment}

theorem transcript_of_split {finished rest : List JobChunk} {before : List TranscriptSegment}
    (hplan : (finished ++ rest).map plain = plan.map plain)
    (hexpected : transcript t frontEnd run [] finished = some before) :
    transcript t frontEnd run [] plan = transcript t frontEnd run before rest := by
  rw [← transcript_congr hplan, transcript_append, hexpected, Option.bind_some]

/-- What a session that succeeds leaves is the transcript of the plan. -/
theorem Resumable.transcript_of_ok (h : Resumable t frontEnd run plan store)
    (htorn : frontEnd = .commandLine → ¬ Torn store) {s : SessionStore}
    (hok : (frontEnd.session t run environment).result { job := store } = .ok ((), s)) :
    transcript t frontEnd run [] plan = some (s.job.rows.map essence) := by
  obtain ⟨finished, rest, before, hat⟩ := h.at
  obtain ⟨finished', after, hafter, hdone⟩ := (conforms_session hat htorn).ends _ rfl () s hok
  rw [transcript_of_split hat.plan hat.expected, hafter, hdone.reached.rows_essence]

/-- A session succeeds when the plan has a transcript. -/
theorem Resumable.ok (h : Resumable t frontEnd run plan store)
    (htorn : frontEnd = .commandLine → ¬ Torn store) {after : List TranscriptSegment}
    (hafter : transcript t frontEnd run [] plan = some after) :
    ∃ s, (frontEnd.session t run environment).result { job := store } = .ok ((), s) ∧
      s.job.rows.map essence = after ∧ (∀ chunk ∈ s.job.chunks, chunk.state = .completed) ∧
      s.requested = (openChunks store).map (·.id) := by
  obtain ⟨finished, rest, before, hat⟩ := h.at
  rw [transcript_of_split hat.plan hat.expected] at hafter
  have hsucceeds : ¬ transcript t frontEnd run before rest = none := by
    rw [hafter]
    exact Option.some_ne_none after
  obtain ⟨_, s, hok, finished', after', hafter', hdone⟩ :=
    (conforms_session hat htorn).succeeds rfl hsucceeds
  rw [hafter] at hafter'
  cases hafter'
  refine ⟨s, hok, hdone.reached.rows_essence, fun chunk hmem => ?_, ?_⟩
  · rw [hdone.reached.chunks, List.append_nil] at hmem
    exact hdone.reached.completed chunk hmem
  · rw [hat.reached.openChunks_eq]
    exact hdone.requests

/-- At no time a session has requested a chunk that was completed when it began. -/
theorem Resumable.requested (h : Resumable t frontEnd run plan store)
    (htorn : frontEnd = .commandLine → ¬ Torn store) {s : SessionStore}
    (hmem : s ∈ (frontEnd.session t run environment).stores { job := store }) :
    ∀ id ∈ s.requested, id ∈ (openChunks store).map (·.id) := by
  obtain ⟨finished, rest, before, hat⟩ := h.at
  obtain ⟨_, _, _, requested, hsafe⟩ := (conforms_session hat htorn).mem_stores rfl ⟨_, _, _, _, hat⟩ hmem
  rw [hat.reached.openChunks_eq, hsafe.requests]
  exact hsafe.allowed

end Resumption

/-- **Resumption.**  Suppose the uninterrupted session of a planned job succeeds.  Then, wherever the job
    was stopped, in any number of sessions, every session that resumes it succeeds, completes all chunks,
    and leaves segments with the same ranges and original texts; it requests the chunks that were not
    completed, once each, and at no time another one.  For the application this holds whatever the stores
    in which its sessions were stopped, for the command line when none of these was torn. -/
theorem resumption (t : CharTables) (frontEnd : FrontEnd) (run : JobRun) (plan : List JobChunk)
    (hdistinct : (plan.map (·.id)).Nodup) (hfresh : ∀ chunk ∈ plan, chunk.state ≠ .completed)
    (first : Environment) (uninterrupted : SessionStore)
    (hrun : (frontEnd.session t run first).result { job := { chunks := plan, rows := [] } } =
      .ok ((), uninterrupted))
    (store : JobStore)
    (hstore : Interrupted t frontEnd run (fun store => frontEnd = .commandLine → ¬ Torn store) plan store)
    (environment : Environment) :
    (∃ resumed, (frontEnd.session t run environment).result { job := store } = .ok ((), resumed) ∧
      resumed.job.rows.map TranscriptSegment.content =
        uninterrupted.job.rows.map TranscriptSegment.content ∧
      (∀ chunk ∈ resumed.job.chunks, chunk.state = .completed) ∧
      resumed.requested = (openChunks store).map (·.id)) ∧
    ∀ s ∈ (frontEnd.session t run environment).stores { job := store },
      ∀ id ∈ s.requested, id ∈ (openChunks store).map (·.id) := by
  -- the uninterrupted run has the transcript of the plan
  obtain ⟨hplanned, hwhole⟩ := interrupted_resumable hdistinct hfresh (fun _ h => h) Interrupted.planned
  have hafter := hplanned.transcript_of_ok hwhole hrun
  obtain ⟨hresumable, htorn⟩ := interrupted_resumable hdistinct hfresh (fun _ h => h) hstore
  refine ⟨?_, fun s hmem => hresumable.requested htorn hmem⟩
  obtain ⟨resumed, hok, hrows, hdone⟩ := hresumable.ok htorn hafter
  exact ⟨resumed, hok, content_eq_of_essence hrows, hdone⟩

/-! ## A job of one chunk -/

def helloRun : JobRun :=
  { activeJob := { id := qs "job", recordingId := qs "recording" }
    recordingDurationMs := 10000
    worker := fun _ _ => [timesPayload 1000 2000 ++ [(qs "originalText", .string (qs "hello"))]] }

def oneSession : Environment :=
  { ownerToken := qs "owner"
    now := fun _ _ => 1
    uuid := fun _ _ => qs "segment"
    rowId := fun _ _ _ => qs "row"
    resultHash := fun _ => []
    diagnostics := fun _ => [] }

def onePlan : List JobChunk := [{ id := qs "chunk", jobId := qs "job", endMs := 10000 }]

def plannedStore : SessionStore := { job := { chunks := onePlan, rows := [] } }

def helloRow : TranscriptSegment :=
  { id := qs "segment", recordingId := qs "recording", jobId := qs "job", chunkId := qs "chunk",
    startMs := 1000, endMs := 2000, originalText := qs "hello", createdAt := some 1, updatedAt := some 1 }

/-- The segment is stored for good, and the chunk is not completed yet. -/
def tornStore : JobStore :=
  { chunks := [{ id := qs "chunk", jobId := qs "job", endMs := 10000, state := .running, attempts := 1,
                 startedAt := some 1 }]
    rows := [helloRow] }

def completedStore : SessionStore :=
  { job :=
      { chunks := [{ id := qs "chunk", jobId := qs "job", endMs := 10000, state := .completed,
                     attempts := 1, startedAt := some 1, completedAt := some 1 }]
        rows := [helloRow] }
    requested := [qs "chunk"] }

theorem tornStore_interrupted (frontEnd : FrontEnd) (stoppable : JobStore → Prop) (h : stoppable tornStore) :
    Interrupted asciiTables frontEnd helloRun stoppable onePlan tornStore := by
  have hmem : { job := tornStore, requested := [qs "chunk"] } ∈
      (frontEnd.session asciiTables helloRun oneSession).stores plannedStore := by
    cases frontEnd <;> exact List.mem_of_getElem? (i := 4) rfl
  exact Interrupted.stopped oneSession Interrupted.planned hmem h

/-- The application goes on from a torn store. -/
theorem resumption_tornStore :
    (∃ resumed, (FrontEnd.application.session asciiTables helloRun oneSession).result { job := tornStore } =
        .ok ((), resumed) ∧
      resumed.job.rows.map TranscriptSegment.content =
        completedStore.job.rows.map TranscriptSegment.content ∧
      (∀ chunk ∈ resumed.job.chunks, chunk.state = .completed) ∧
      resumed.requested = (openChunks tornStore).map (·.id)) ∧
    ∀ s ∈ (FrontEnd.application.session asciiTables helloRun oneSession).stores { job := tornStore },
      ∀ id ∈ s.requested, id ∈ (openChunks tornStore).map (·.id) :=
  resumption asciiTables .application helloRun onePlan (by decide)
    (fun chunk hmem => by rw [List.mem_singleton.mp hmem]; decide) oneSession completedStore rfl tornStore
    (tornStore_interrupted .application _ fun h => (by cases h)) oneSession

/-- **A torn store.**  The command line transcribes the job when nothing stops it.  Stopped between the
    two transactions at the end of the chunk, it takes the chunk's own segment for the one before, and
    fails the job when it is resumed. -/
theorem resume_tornStore :
    (FrontEnd.commandLine.session asciiTables helloRun oneSession).result plannedStore =
        .ok ((), completedStore) ∧
      Interrupted asciiTables .commandLine helloRun (fun _ => True) onePlan tornStore ∧ Torn tornStore ∧
      (FrontEnd.commandLine.session asciiTables helloRun oneSession).result { job := tornStore } =
        .error ⟨qs "WorkerProtocolMismatch", emptyRangeMessage⟩ := by
  refine ⟨rfl, tornStore_interrupted .commandLine _ trivial, ?_, rfl⟩
  exact ⟨helloRow, List.mem_singleton_self _, rfl, _, List.mem_singleton_self _, rfl, by decide⟩

end BreezeDesk.Resume
