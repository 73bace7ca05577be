/-
  One chunk of the desktop application, from its first `PartialSegment` to its commit.

  Every accepted message is appended to the current segments, and the list is stored as provisional
  (`receivePartialSegment`).  When the worker reports the end of the chunk, the list is reconciled with
  the committed segments and stored for good (`commitCurrentSegments`, the first half of
  `finalizeCurrentChunk`); the repository sorts it into the job and refuses a list with overlaps.

  The only check on the way in looks at one segment at a time, so two segments of a chunk may overlap,
  and then the commit fails.  `transcribeChunk_ok_iff` says exactly when it goes through: no manual edit
  is in the way, and the ranges of the messages are `CommitApart`, by which the commit line is drawn
  at the end of what is committed already.
-/
import BreezeDesk.App.OverlapBoundary
import BreezeDesk.Transcript.ManualEdits

namespace BreezeDesk.App

open Asr Ranges

variable (t : CharTables)

/-! ## The glossary of a job -/

def glossaryTermFromJson (item : QJsonObject) : GlossaryTerm :=
  { id := (item.value (qs "id")).toText
    canonicalText := (item.value (qs "canonicalText")).toText
    aliases := ((item.value (qs "aliases")).toArray.map (·.toText)).filter fun aliasText =>
      !(trimmed aliasText).isEmpty
    priority := (item.value (qs "priority")).toInteger
    caseSensitive := (item.value (qs "caseSensitive")).toBool
    enabled := QJsonValue.toBoolOr true (item.value (qs "enabled")) }

/-- Terms without an id or a canonical text are left out. -/
def glossaryTermsFromParameters (parameters : QJsonObject) : List GlossaryTerm :=
  ((parameters.value (qs "glossaryTerms")).toArray.map fun value =>
    glossaryTermFromJson value.toObject).filter fun term =>
      !term.id.isEmpty && !(trimmed term.canonicalText).isEmpty

theorem canonicalText_ne_nil {parameters : QJsonObject} :
    ∀ term ∈ glossaryTermsFromParameters parameters, term.canonicalText ≠ [] := by
  intro term hmem hempty
  have hkept := (List.mem_filter.mp hmem).2
  rw [hempty] at hkept
  simp [trimmed] at hkept

/-! ## The active chunk -/

/-- The fields of the coordinator that matter while a chunk is transcribed.  `recordingDurationMs` is
    the `durationMs` of the job's parameters. -/
structure ActiveChunk where
  activeJob : TranscriptionJob
  chunk : JobChunk
  recordingDurationMs : Int
  ownerToken : QString
  nextOrdinal : Int
  currentSegments : List TranscriptSegment

/-- A message from the worker, with the clock and the UUID drawn when it is handled. -/
structure PartialSegment where
  now : Int
  id : QString
  payload : QCborMap

structure JobFailure where
  code : QString
  message : QString

def segmentFromPayload (active : ActiveChunk) (id : QString)
    (validated : WorkerSegmentValidationResult) (payload : QCborMap) : TranscriptSegment :=
  postProcessSegment t (glossaryTermsFromParameters active.activeJob.parameters)
    { id
      recordingId := active.activeJob.recordingId
      jobId := active.activeJob.id
      chunkId := active.chunk.id
      ordinal := active.nextOrdinal
      startMs := validated.startMs
      endMs := validated.endMs
      originalText := (payload.value (qs "originalText")).toText
      averageProbability := (payload.value (qs "averageTokenProbability")).toDouble
      minimumProbability := (payload.value (qs "minimumTokenProbability")).toDouble
      noSpeechProbability := (payload.value (qs "noSpeechProbability")).toDouble
      lowConfidence := (payload.value (qs "lowConfidence")).toBool
      provisional := true
      attempt := active.chunk.attempts }

def persistPartialSegments (now : Int) (newId : Nat → QString) (active : ActiveChunk) :
    Transacted Unit :=
  replaceChunk t now newId active.activeJob.recordingId active.activeJob.id active.chunk.id
    active.currentSegments true active.chunk.attempts active.ownerToken

def validatedRange (active : ActiveChunk) (message : PartialSegment) : WorkerSegmentValidationResult :=
  validateWorkerSegmentRange message.payload active.chunk.startMs active.chunk.endMs
    active.recordingDurationMs

def ActiveChunk.receive (active : ActiveChunk) (message : PartialSegment) : ActiveChunk :=
  { active with
    nextOrdinal := active.nextOrdinal + 1
    currentSegments := active.currentSegments ++
      [segmentFromPayload t active message.id (validatedRange active message) message.payload] }

/-- The `PartialSegment` branch of `handleWorkerEnvelope`; an error fails the job. -/
def receivePartialSegment (newId : Nat → QString) (active : ActiveChunk) (message : PartialSegment)
    (db : Database) : Except JobFailure (ActiveChunk × Database) :=
  match (validatedRange active message).error with
  | .none =>
    match persistPartialSegments t message.now newId (active.receive t message) db with
    | (.ok (), db') => .ok (active.receive t message, db')
    | (.error error, _) => .error ⟨qs "DatabaseQueryFailed", error.message⟩
  | .emptyRange => .error ⟨qs "WorkerProtocolMismatch", emptyRangeMessage⟩
  | _ => .error ⟨qs "WorkerProtocolMismatch",
      qs "The ASR worker returned a segment outside the active chunk."⟩

/-- The segments of the chunks committed before. -/
def previousSegments (db : Database) (active : ActiveChunk) : List TranscriptSegment :=
  (segmentsForJob db active.activeJob.id true).filter fun segment =>
    segment.chunkId != active.chunk.id && !segment.provisional

/-- The first half of `finalizeCurrentChunk`: the segments of the chunk are stored for good. -/
def commitCurrentSegments (now : Int) (newId : Nat → QString) (uuid : QString) (active : ActiveChunk)
    (db : Database) : Result Unit × Database :=
  replaceChunk t now newId active.activeJob.recordingId active.activeJob.id active.chunk.id
    (guiChunkSegments t uuid (glossaryTermsFromParameters active.activeJob.parameters) active.chunk
      (previousSegments db active) active.currentSegments)
    false active.chunk.attempts active.ownerToken db

/-- The messages of a chunk, then its commit. -/
def transcribeChunk (now : Int) (newId : Nat → QString) (uuid : QString) (active : ActiveChunk)
    (db : Database) : List PartialSegment → Except JobFailure Database
  | [] =>
    match commitCurrentSegments t now newId uuid active db with
    | (.ok (), db') => .ok db'
    | (.error error, _) => .error ⟨qs "DatabaseQueryFailed", error.message⟩
  | message :: rest =>
    match receivePartialSegment t newId active message db with
    | .ok (active', db') => transcribeChunk now newId uuid active' db' rest
    | .error failure => .error failure

/-! ## Ranges of a commit -/

variable {t}

def range (segment : TranscriptSegment) : Int × Int := (segment.startMs, segment.endMs)

/-- Two ranges of times do not meet. -/
abbrev RangeApart : Int × Int → Int × Int → Prop := Apart Prod.fst Prod.snd

/-- The ranges that go on after the committed time do not meet, where the first one counts from there
    only, and the others meet nothing that is committed. -/
def LateApart (committed : List TranscriptSegment) (previousEnd : Int) (ranges : List (Int × Int)) :
    Prop :=
  match ranges.dropWhile fun r => decide (r.2 ≤ previousEnd) with
  | [] => True
  | first :: rest => ((max first.1 previousEnd, first.2) :: rest).Pairwise RangeApart ∧
      ∀ segment ∈ committed, ∀ r ∈ rest, RangeApart (range segment) r

/-- **The condition on a chunk**: its ranges do not meet.  Where they reach into committed time by way
    of an overlap, only what goes on after it counts. -/
def CommitApart (chunk : JobChunk) (committed : List TranscriptSegment) (ranges : List (Int × Int)) :
    Prop :=
  match committed.getLast? with
  | some last =>
    if chunk.overlapBeforeMs > 0 then LateApart committed last.endMs ranges
    else ranges.Pairwise RangeApart
  | none => ranges.Pairwise RangeApart

theorem range_postProcess (terms : List GlossaryTerm) (list : List TranscriptSegment) :
    (list.map fun segment => { postProcessSegment t terms segment with provisional := false }).map range =
      list.map range := by
  rw [List.map_map]
  rfl

/-- The times of the first half of the reconciliation. -/
theorem deduplicateFirst_late (previous first : TranscriptSegment) (rest : List TranscriptSegment) :
    ((deduplicateFirst t previous first rest).map range).dropWhile
        (fun r => decide (r.2 ≤ previous.endMs)) =
      ((first :: rest).map range).dropWhile fun r => decide (r.2 ≤ previous.endMs) := by
  rcases deduplicateFirst_cases (t := t) previous first rest with ⟨-, hend, hdropped⟩ | hkept
  · have hfirst : decide ((range first).2 ≤ previous.endMs) = true := decide_eq_true hend
    rw [hdropped, List.map_cons, List.dropWhile_cons, if_pos hfirst]
  · rw [hkept]
    rfl

/-- **Reconciled times**: what goes on after committed time, from there. -/
theorem reconcileOverlap_ranges {newId : QString} {previous : TranscriptSegment} {chunkEnd : Int}
    {incoming : List TranscriptSegment} {late : Int × Int} {rest : List (Int × Int)}
    (hlate : (incoming.map range).dropWhile (fun r => decide (r.2 ≤ previous.endMs)) = late :: rest) :
    (reconcileOverlap t newId previous chunkEnd incoming).map range =
      (max late.1 previous.endMs, late.2) :: rest := by
  cases incoming with
  | nil => cases hlate
  | cons first others =>
    rw [← deduplicateFirst_late (t := t), List.dropWhile_map] at hlate
    unfold reconcileOverlap
    dsimp only
    set kept := deduplicateFirst t previous first others
    have hpred : ((fun r : Int × Int => decide (r.2 ≤ previous.endMs)) ∘ range) =
        fun segment : TranscriptSegment => decide (segment.endMs ≤ previous.endMs) := rfl
    rw [hpred] at hlate
    cases hdrop : kept.dropWhile fun segment => decide (segment.endMs ≤ previous.endMs) with
    | nil => rw [hdrop] at hlate; cases hlate
    | cons segment remaining =>
      rw [hdrop, List.map_cons] at hlate
      cases hlate
      -- the first one that goes on is not dropped, so it ends after committed time
      have hend : previous.endMs < segment.endMs := by
        have hhead := List.head?_dropWhile_not
          (fun segment : TranscriptSegment => decide (segment.endMs ≤ previous.endMs)) kept
        rw [hdrop, List.head?_cons] at hhead
        simp only [decide_eq_false_iff_not, not_le] at hhead
        exact hhead
      unfold prependPreserved
      split
      · rw [clampFirst_first hend]
        rfl
      · dsimp only
        rw [clampFirst_first (by exact hend)]
        rfl

/-- When nothing goes on after committed time, at most a segment for the text is left. -/
theorem reconcileOverlap_ended (newId : QString) (chunkEnd : Int) {previous : TranscriptSegment}
    {incoming : List TranscriptSegment}
    (hlate : (incoming.map range).dropWhile (fun r => decide (r.2 ≤ previous.endMs)) = []) :
    (reconcileOverlap t newId previous chunkEnd incoming).map range = [] ∨
      (reconcileOverlap t newId previous chunkEnd incoming).map range =
        [(previous.endMs, max (previous.endMs + 1) chunkEnd)] := by
  cases incoming with
  | nil => exact Or.inl rfl
  | cons first others =>
    rw [← deduplicateFirst_late (t := t), List.dropWhile_map, List.map_eq_nil_iff] at hlate
    unfold reconcileOverlap
    dsimp only
    have hnil : (deduplicateFirst t previous first others).dropWhile
        (fun segment => decide (segment.endMs ≤ previous.endMs)) = [] := hlate
    rw [hnil]
    unfold prependPreserved
    split
    · exact Or.inl rfl
    · right
      dsimp only [clampFirst]
      rw [if_neg (by omega)]
      rfl

/-! ## When a commit is in order -/

/-- What is committed when a chunk begins: a list that is in order, and ends where the chunk and the
    one before it stop overlapping. -/
structure CommittedBefore (chunk : JobChunk) (committed : List TranscriptSegment) : Prop where
  valid : validateSegments committed = .ok ()
  inside : ∀ segment ∈ committed, segment.endMs ≤ chunk.startMs + chunk.overlapBeforeMs

/-- A proper range, as the repository wants it. -/
def ProperRange (r : Int × Int) : Prop := 0 ≤ r.1 ∧ r.1 < r.2

variable {chunk : JobChunk} {committed incoming segments : List TranscriptSegment}

theorem CommittedBefore.proper (h : CommittedBefore chunk committed) :
    ∀ segment ∈ committed, ProperRange (range segment) := by
  obtain ⟨hnonneg, hord⟩ := validateSegments_eq_ok.mp h.valid
  exact fun segment hmem => ⟨hnonneg segment hmem, hord.positive segment hmem⟩

/-- Nothing committed ends after the last segment. -/
theorem CommittedBefore.end_le_last (h : CommittedBefore chunk committed) {last : TranscriptSegment}
    (hlast : committed.getLast? = some last) : ∀ segment ∈ committed, segment.endMs ≤ last.endMs := by
  obtain ⟨-, hord⟩ := validateSegments_eq_ok.mp h.valid
  obtain ⟨before, hsplit⟩ := List.getLast?_eq_some_iff.mp hlast
  have hpos := hord.positive last (by rw [hsplit]; exact List.mem_append_right _ (List.mem_singleton_self _))
  rw [hsplit] at hord ⊢
  obtain ⟨-, -, hcross⟩ := ordered_append.mp hord
  intro segment hmem
  rcases List.mem_append.mp hmem with hmem | hmem
  · have := hcross segment hmem last (List.mem_singleton_self _)
    omega
  · rw [List.mem_singleton.mp hmem]

theorem validateSegments_combined {existing : List TranscriptSegment} {chunkId : QString} {attempt : Int}
    (hcommitted : validateSegments (existing.filter fun segment => segment.chunkId != chunkId) = .ok ())
    (hproper : ∀ r ∈ segments.map range, ProperRange r) :
    validateSegments (combinedSegments existing chunkId false attempt segments) = .ok () ↔
      (segments.map range).Pairwise RangeApart ∧
        ∀ segment ∈ existing.filter (fun segment => segment.chunkId != chunkId),
          ∀ r ∈ segments.map range, RangeApart (range segment) r := by
  set others := existing.filter fun segment => segment.chunkId != chunkId with hothers
  obtain ⟨hnonneg, hord⟩ := validateSegments_eq_ok.mp hcommitted
  have hperm := combinedSegments_perm existing chunkId false attempt segments
  rw [← hothers] at hperm
  have hall : ∀ segment ∈ combinedSegments existing chunkId false attempt segments,
      ProperRange (range segment) := by
    intro segment hmem
    rcases List.mem_append.mp (hperm.mem_iff.mp hmem) with hmem | hmem
    · exact ⟨hnonneg segment hmem, hord.positive segment hmem⟩
    · obtain ⟨source, hsource, rfl⟩ := mem_chunkSegments.mp hmem
      exact hproper (range source) (List.mem_map_of_mem hsource)
  have hown : (chunkSegments chunkId false attempt segments).map range = segments.map range := by
    unfold chunkSegments
    rw [List.map_map]
    rfl
  -- the list is sorted, so it is in order when its ranges are apart, in whatever order
  have hapart : validateSegments (combinedSegments existing chunkId false attempt segments) = .ok () ↔
      (combinedSegments existing chunkId false attempt segments).Pairwise
        (Apart TranscriptSegment.startMs TranscriptSegment.endMs) := by
    have hpositive : ∀ segment ∈ combinedSegments existing chunkId false attempt segments,
        segment.startMs < segment.endMs := fun segment hmem => (hall segment hmem).2
    rw [validateSegments_eq_ok, TimeOrdered, ordered_iff_apart hpositive (combinedSegments_sorted ..)]
    exact and_iff_right fun segment hmem => (hall segment hmem).1
  have hothersApart : others.Pairwise (Apart TranscriptSegment.startMs TranscriptSegment.endMs) :=
    hord.pairwise.imp fun hab => Or.inl hab
  rw [hapart, pairwise_apart_perm hperm, List.pairwise_append, and_iff_right hothersApart, ← hown,
    List.pairwise_map]
  refine and_congr Iff.rfl ⟨fun h segment hmem r hr => ?_, fun h a ha b hb => ?_⟩
  · obtain ⟨other, hother, rfl⟩ := List.mem_map.mp hr
    exact h segment hmem other hother
  · exact h a ha (range b) (List.mem_map_of_mem hb)

/-- What `finalizeCurrentChunk` makes of the times: a proper list, whose ranges meet neither each other
    nor committed time exactly on the condition. -/
theorem guiChunkSegments_ranges (uuid : QString) (terms : List GlossaryTerm) (hcommitted : CommittedBefore chunk committed)
    (hproper : ∀ segment ∈ incoming, ProperRange (range segment))
    (hinside : ∀ segment ∈ incoming, chunk.startMs ≤ segment.startMs) :
    let stored := (guiChunkSegments t uuid terms chunk committed incoming).map range
    (∀ r ∈ stored, ProperRange r) ∧
      (stored.Pairwise RangeApart ∧
          (∀ segment ∈ committed, ∀ r ∈ stored, RangeApart (range segment) r) ↔
        CommitApart chunk committed (incoming.map range)) := by
  intro stored
  have hincoming : ∀ r ∈ incoming.map range, ProperRange r := by
    intro r hr
    obtain ⟨segment, hmem, rfl⟩ := List.mem_map.mp hr
    exact hproper segment hmem
  cases hlast : committed.getLast? with
  | none =>
    have hstored : stored = incoming.map range := by
      simp only [stored, guiChunkSegments, hlast, range_postProcess]
    rw [hstored]
    refine ⟨hincoming, ?_⟩
    simp only [CommitApart, hlast]
    refine and_iff_left fun segment hmem => ?_
    rw [List.getLast?_eq_none_iff.mp hlast] at hmem
    cases hmem
  | some last =>
    have hends := hcommitted.end_le_last hlast
    have hlastMem : last ∈ committed := List.mem_of_getLast? hlast
    have hlastProper := hcommitted.proper last hlastMem
    simp only [CommitApart, hlast]
    by_cases hover : chunk.overlapBeforeMs > 0
    · rw [if_pos hover]
      have hstored : stored = (reconcileOverlap t uuid last chunk.endMs incoming).map range := by
        simp only [stored, guiChunkSegments, hlast, if_pos hover, range_postProcess]
      rw [hstored]
      unfold LateApart
      cases hlate : (incoming.map range).dropWhile (fun r => decide (r.2 ≤ last.endMs)) with
      | nil =>
        rcases reconcileOverlap_ended (t := t) uuid chunk.endMs hlate with hnone | hone
        · rw [hnone]
          refine ⟨fun r hr => (by cases hr), iff_of_true ⟨List.Pairwise.nil, ?_⟩ trivial⟩
          intro segment _ r hr
          cases hr
        · rw [hone]
          refine ⟨fun r hr => ?_, iff_of_true ⟨List.pairwise_singleton .., ?_⟩ trivial⟩
          · rw [List.mem_singleton.mp hr]
            have h0 : 0 ≤ last.startMs ∧ last.startMs < last.endMs := hlastProper
            exact ⟨by dsimp only; omega, by dsimp only; omega⟩
          · intro segment hmem r hr
            rw [List.mem_singleton.mp hr]
            exact Or.inl (hends segment hmem)
      | cons late rest =>
        rw [reconcileOverlap_ranges hlate]
        have hsub : (late :: rest).Sublist (incoming.map range) := by
          rw [← hlate]
          exact List.dropWhile_sublist _
        have hlateEnd : last.endMs < late.2 := by
          have hhead := List.head?_dropWhile_not (fun r : Int × Int => decide (r.2 ≤ last.endMs))
            (incoming.map range)
          rw [hlate, List.head?_cons] at hhead
          simp only [decide_eq_false_iff_not, not_le] at hhead
          exact hhead
        have hlateProper := hincoming late (hsub.subset (List.mem_cons_self ..))
        refine ⟨fun r hr => ?_, and_congr Iff.rfl ⟨fun h segment hmem r hr => ?_,
          fun h segment hmem r hr => ?_⟩⟩
        · rcases List.mem_cons.mp hr with rfl | hr
          · have h1 : 0 ≤ late.1 ∧ late.1 < late.2 := hlateProper
            exact ⟨by dsimp only; omega, by dsimp only; omega⟩
          · exact hincoming r (hsub.subset (List.mem_cons_of_mem _ hr))
        · exact h segment hmem r (List.mem_cons_of_mem _ hr)
        · rcases List.mem_cons.mp hr with rfl | hr
          · exact Or.inl ((hends segment hmem).trans (Int.le_max_right ..))
          · exact h segment hmem r hr
    · rw [if_neg hover]
      have hstored : stored = incoming.map range := by
        simp only [stored, guiChunkSegments, hlast, if_neg hover, range_postProcess]
      rw [hstored]
      refine ⟨hincoming, and_iff_left fun segment hmem r hr => ?_⟩
      obtain ⟨other, hother, rfl⟩ := List.mem_map.mp hr
      have h1 := hcommitted.inside segment hmem
      have h2 := hinside other hother
      exact Or.inl (by show segment.endMs ≤ other.startMs; omega)

/-! ## Storing the segments of a chunk -/

/-- What the store holds while a chunk is transcribed: the coordinator executes the job; the rows of
    the job belong to it; those of other chunks are committed, in order and before the chunk; and the
    UUIDs to come are not in use outside the chunk. -/
structure ChunkReady (times : List Int) (ids : List QString) (active : ActiveChunk) (db : Database) :
    Prop where
  target : ∀ now ∈ times, ChunkTarget db now active.activeJob.recordingId active.activeJob.id
    active.chunk.id active.ownerToken
  keys : SegmentKeys db.segments
  rows : ∀ row ∈ db.segments, row.jobId = active.activeJob.id →
    row.id ≠ [] ∧ Belongs db active.activeJob.recordingId active.activeJob.id row
  committed : ∀ row ∈ db.segments, row.jobId = active.activeJob.id → row.chunkId ≠ active.chunk.id →
    row.provisional = false
  before : CommittedBefore active.chunk (previousSegments db active)
  unused : ∀ row ∈ db.segments, (row.jobId = active.activeJob.id → row.chunkId ≠ active.chunk.id) →
    row.id ∉ ids

/-- A list of segments the coordinator may store for the chunk. -/
structure Storable (ids : List QString) (active : ActiveChunk) (list : List TranscriptSegment) :
    Prop where
  drawn : ∀ segment ∈ list, segment.id ∈ ids
  distinct : list.Pairwise fun a b => a.id ≠ b.id
  owned : ∀ segment ∈ list,
    (segment.recordingId = [] ∨ segment.recordingId = active.activeJob.recordingId) ∧
      (segment.jobId = [] ∨ segment.jobId = active.activeJob.id)

section Store

variable {times : List Int} {ids : List QString} {active : ActiveChunk} {db db' : Database}
  {list : List TranscriptSegment} {now : Int} {newId : Nat → QString} {provisional allowOverlap : Bool}
  {attempt : Int}

/-- The segments of the other chunks. -/
def otherSegments (db : Database) (active : ActiveChunk) : List TranscriptSegment :=
  (segmentsForJob db active.activeJob.id true).filter fun segment => segment.chunkId != active.chunk.id

theorem mem_otherSegments {row : TranscriptSegment} :
    row ∈ otherSegments db active ↔
      row ∈ db.segments ∧ row.jobId = active.activeJob.id ∧ row.chunkId ≠ active.chunk.id := by
  unfold otherSegments
  rw [List.mem_filter, mem_segmentsForJob, bne_iff_ne]
  exact ⟨fun h => ⟨h.1.1, h.1.2.1, h.2⟩, fun h => ⟨⟨h.1, h.2.1, Or.inl rfl⟩, h.2.2⟩⟩

theorem ChunkReady.previous_eq (h : ChunkReady times ids active db) :
    previousSegments db active = otherSegments db active := by
  refine List.filter_congr fun row hrow => ?_
  obtain ⟨hmem, hjob, -⟩ := mem_segmentsForJob.mp hrow
  by_cases hchunk : row.chunkId = active.chunk.id
  · rw [hchunk, bne_self_eq_false, Bool.false_and]
  · rw [h.committed row hmem hjob hchunk, Bool.not_false, Bool.and_true]

/-- The list a chunk is stored with. -/
abbrev storedList (db : Database) (active : ActiveChunk) (provisional : Bool) (attempt : Int)
    (list : List TranscriptSegment) : List TranscriptSegment :=
  combinedSegments (segmentsForJob db active.activeJob.id true) active.chunk.id provisional attempt list

/-- Its segments: those of the other chunks, and the given ones. -/
theorem mem_storedList {segment : TranscriptSegment} :
    segment ∈ storedList db active provisional attempt list ↔
      segment ∈ otherSegments db active ∨
        ∃ source ∈ list, segment = { source with chunkId := active.chunk.id, provisional, attempt } := by
  rw [(combinedSegments_perm ..).mem_iff, List.mem_append, mem_chunkSegments]
  rfl

theorem storedList_drawn (provisional : Bool) (attempt : Int) (h : ChunkReady times ids active db)
    (hids : [] ∉ ids) (hlist : Storable ids active list) :
    ∀ segment ∈ storedList db active provisional attempt list, segment.id ≠ [] := by
  intro segment hmem
  rcases mem_storedList.mp hmem with hother | ⟨source, hsource, rfl⟩
  · obtain ⟨hrow, hjob, -⟩ := mem_otherSegments.mp hother
    exact (h.rows segment hrow hjob).1
  · show source.id ≠ []
    intro hempty
    exact hids (hempty ▸ hlist.drawn source hsource)

theorem storedList_idsFree (h : ChunkReady times ids active db) (hids : [] ∉ ids)
    (hlist : Storable ids active list) :
    IdsFree active.activeJob.id db.segments (storedList db active provisional attempt list) where
  drawn := storedList_drawn provisional attempt h hids hlist
  distinct := by
    have hsymm : ∀ {a b : TranscriptSegment}, a.id ≠ b.id → b.id ≠ a.id := fun hne => hne.symm
    rw [(combinedSegments_perm ..).pairwise_iff hsymm, List.pairwise_append]
    refine ⟨?_, ?_, fun a ha b hb => ?_⟩
    · have hperm : (segmentsForJob db active.activeJob.id true).Perm
          (db.segments.filter fun row => row.jobId == active.activeJob.id && (true || !row.provisional)) :=
        List.perm_insertionSort _ _
      refine List.Pairwise.sublist List.filter_sublist ((hperm.pairwise_iff hsymm).mpr ?_)
      exact h.keys.ids.sublist List.filter_sublist
    · unfold chunkSegments
      exact List.pairwise_map.mpr hlist.distinct
    · obtain ⟨hrow, hjob, hchunk⟩ := mem_otherSegments.mp ha
      obtain ⟨source, hsource, rfl⟩ := mem_chunkSegments.mp hb
      intro hsame
      exact h.unused a hrow (fun _ => hchunk) (hsame ▸ hlist.drawn source hsource)
  others := by
    intro segment hmem row hrow hjob hsame
    rcases mem_storedList.mp hmem with hother | ⟨source, hsource, rfl⟩
    · obtain ⟨hsegment, hown, -⟩ := mem_otherSegments.mp hother
      have hrows := h.keys.eq_of_id hrow hsegment hsame
      exact hjob (hrows ▸ hown)
    · exact h.unused row hrow (fun hown => absurd hown hjob) (hsame ▸ hlist.drawn source hsource)

theorem storedList_belongs (h : ChunkReady times ids active db) (hnow : now ∈ times)
    (hlist : Storable ids active list) :
    ∀ segment ∈ storedList db active provisional attempt list,
      Belongs db active.activeJob.recordingId active.activeJob.id segment := by
  intro segment hmem
  rcases mem_storedList.mp hmem with hother | ⟨source, hsource, rfl⟩
  · obtain ⟨hrow, hjob, -⟩ := mem_otherSegments.mp hother
    exact (h.rows segment hrow hjob).2
  · obtain ⟨hrecording, hjob⟩ := hlist.owned source hsource
    exact ⟨hrecording, hjob, Or.inr (h.target now hnow).chunk⟩

theorem storeChunk_ok_iff (h : ChunkReady times ids active db) (hnow : now ∈ times) (hids : [] ∉ ids)
    (hlist : Storable ids active list) :
    (∃ db', replaceChunk t now newId active.activeJob.recordingId active.activeJob.id active.chunk.id
        list provisional attempt active.ownerToken db = (.ok (), db')) ↔
      NoManualEdit t active.activeJob.id active.chunk.id db.segments ∧
        validateSegments (storedList db active provisional attempt list) provisional = .ok () :=
  replaceChunk_ok_iff (h.target now hnow) h.keys (storedList_idsFree h hids hlist)
    (storedList_belongs h hnow hlist)

/-- Order depends on ranges alone. -/
theorem committedBefore_congr {first second : List TranscriptSegment}
    (hsame : first.map range = second.map range) :
    CommittedBefore chunk first ↔ CommittedBefore chunk second := by
  have hall : ∀ (P : Int × Int → Prop), (∀ segment ∈ first, P (range segment)) ↔
      ∀ segment ∈ second, P (range segment) := by
    intro P
    rw [← List.forall_mem_map (P := P), hsame, List.forall_mem_map]
  have hvalid : validateSegments first = .ok () ↔ validateSegments second = .ok () := by
    rw [validateSegments_eq_ok, validateSegments_eq_ok]
    exact and_congr (hall fun r => 0 ≤ r.1) (ordered_congr hsame)
  constructor
  · rintro ⟨hfirst, hinside⟩
    exact ⟨hvalid.mp hfirst, (hall fun r => r.2 ≤ chunk.startMs + chunk.overlapBeforeMs).mp hinside⟩
  · rintro ⟨hsecond, hinside⟩
    exact ⟨hvalid.mpr hsecond, (hall fun r => r.2 ≤ chunk.startMs + chunk.overlapBeforeMs).mpr hinside⟩

theorem map_range_of_core {first second : List TranscriptSegment}
    (hsame : first.map TranscriptSegment.core = second.map TranscriptSegment.core) :
    first.map range = second.map range := by
  have h := congrArg (List.map range) hsame
  rw [List.map_map, List.map_map] at h
  exact h

/-- **A partial list is stored** and leaves everything ready for the next one. -/
theorem ChunkReady.persisted (h : ChunkReady times ids active db) (hids : [] ∉ ids)
    (hlist : Storable ids active list) {terms : List GlossaryTerm}
    (hterms : ∀ term ∈ terms, term.canonicalText ≠ [])
    (hglossary : ∀ segment ∈ list, GlossaryOnly t terms segment)
    (hok : replaceChunk t now newId active.activeJob.recordingId active.activeJob.id active.chunk.id
      list true attempt active.ownerToken db = (.ok (), db')) :
    ChunkReady times ids active db' ∧
      NoManualEdit t active.activeJob.id active.chunk.id db'.segments ∧
      (previousSegments db' active).map TranscriptSegment.core =
        (previousSegments db active).map TranscriptSegment.core := by
  obtain ⟨-, -, -, -, hrewritten⟩ := replaceChunk_ok hok
  have hbelongs := hrewritten.belongs
  have hdrawn := storedList_drawn true attempt h hids hlist
  -- each row of the job is a segment of the list that was stored
  have hsource : ∀ row ∈ db'.segments, row.jobId = active.activeJob.id →
      ∃ k segment, segment ∈ storedList db active true attempt list ∧
        row = storedSegment now newId active.activeJob.recordingId active.activeJob.id k segment := by
    intro row hrow hjob
    rcases hrewritten.mem_segments.mp hrow with ⟨-, hne⟩ | hstored
    · exact absurd hjob hne
    · obtain ⟨k, segment, hk, rfl⟩ := mem_storedRows.mp hstored
      exact ⟨_, segment, List.mem_of_getElem? hk, rfl⟩
  have hvalid := h.before.valid
  rw [h.previous_eq] at hvalid
  have hsorted : (otherSegments db active).Pairwise fun a b => ¬ earlier b a := by
    obtain ⟨-, hord⟩ := validateSegments_eq_ok.mp hvalid
    refine hord.pairwise.imp_of_mem fun {a b} ha _ hab => ?_
    have hpos := hord.positive a ha
    unfold earlier
    omega
  have hcore := others_kept hrewritten (fun row hmem _ => hdrawn row hmem) hsorted
  have hcommitted : ∀ row ∈ db'.segments, row.jobId = active.activeJob.id →
      row.chunkId ≠ active.chunk.id → row.provisional = false := by
    intro row hrow hjob hchunk
    obtain ⟨k, segment, hmem, rfl⟩ := hsource row hrow hjob
    rcases mem_storedList.mp hmem with hother | ⟨source, -, rfl⟩
    · obtain ⟨hsegment, hown, hne⟩ := mem_otherSegments.mp hother
      exact h.committed segment hsegment hown hne
    · exact absurd rfl hchunk
  have hprevious' : previousSegments db' active = otherSegments db' active := by
    refine List.filter_congr fun row hrow => ?_
    obtain ⟨hmem, hjob, -⟩ := mem_segmentsForJob.mp hrow
    by_cases hchunk : row.chunkId = active.chunk.id
    · rw [hchunk, bne_self_eq_false, Bool.false_and]
    · rw [hcommitted row hmem hjob hchunk, Bool.not_false, Bool.and_true]
  have hsame : (previousSegments db' active).map TranscriptSegment.core =
      (previousSegments db active).map TranscriptSegment.core := by
    rw [hprevious', h.previous_eq]
    exact hcore
  refine ⟨⟨fun time htime => ?_, hrewritten.keys h.keys, fun row hrow hjob => ?_, hcommitted, ?_, ?_⟩,
    fun row hrow hjob hchunk => ?_, hsame⟩
  · rw [hrewritten.result]
    obtain ⟨hnamed, hlease, hrecording, hjob, hchunk⟩ := h.target time htime
    exact ⟨hnamed, hlease, hrecording, hjob, hchunk⟩
  · obtain ⟨k, segment, hmem, rfl⟩ := hsource row hrow hjob
    refine ⟨by rw [storedSegment_id (hdrawn segment hmem)]; exact hdrawn segment hmem,
      Or.inr rfl, Or.inr rfl, ?_⟩
    have hchunk := (hbelongs segment hmem).2.2
    rw [hrewritten.result]
    exact hchunk
  · exact (committedBefore_congr (map_range_of_core hsame)).mpr h.before
  · intro row hrow hkept
    rcases hrewritten.mem_segments.mp hrow with ⟨hold, hne⟩ | hstored
    · exact h.unused row hold fun hjob => absurd hjob hne
    · obtain ⟨k, segment, hk, rfl⟩ := mem_storedRows.mp hstored
      have hmem := List.mem_of_getElem? hk
      rw [storedSegment_id (hdrawn segment hmem)]
      have hchunk : segment.chunkId ≠ active.chunk.id := hkept rfl
      rcases mem_storedList.mp hmem with hother | ⟨source, -, rfl⟩
      · obtain ⟨hsegment, -, hne⟩ := mem_otherSegments.mp hother
        exact h.unused segment hsegment fun _ => hne
      · exact absurd rfl hchunk
  · obtain ⟨k, segment, hmem, rfl⟩ := hsource row hrow hjob
    rcases mem_storedList.mp hmem with hother | ⟨source, hsegment, rfl⟩
    · exact absurd hchunk (mem_otherSegments.mp hother).2.2
    · exact (hglossary source hsegment).not_manual hterms

/-! ## Who owns the reconciled segments -/

/-- Id and owner of a segment. -/
def owner (segment : TranscriptSegment) : QString × QString × QString :=
  (segment.id, segment.recordingId, segment.jobId)

theorem owner_text (segment : TranscriptSegment) (text : QString) :
    owner { segment with originalText := text } = owner segment := rfl

/-- Reconciliation drops segments, or makes one of its own when none is left. -/
theorem reconcileOverlap_owners (newId : QString) (previous : TranscriptSegment) (chunkEnd : Int)
    (incoming : List TranscriptSegment) :
    ((reconcileOverlap t newId previous chunkEnd incoming).map owner).Sublist (incoming.map owner) ∨
      (reconcileOverlap t newId previous chunkEnd incoming).map owner = [(newId, [], [])] := by
  cases incoming with
  | nil => exact Or.inl (List.Sublist.refl _)
  | cons first rest =>
    have hdedup : ((deduplicateFirst t previous first rest).map owner).Sublist
        ((first :: rest).map owner) := by
      rcases deduplicateFirst_cases (t := t) previous first rest with ⟨-, -, hdropped⟩ | hkept
      · rw [hdropped]
        exact List.sublist_cons_self ..
      · rw [hkept]
        exact List.Sublist.refl _
    have hclamp : ∀ list : List TranscriptSegment,
        (clampFirst previous.endMs list).map owner = list.map owner := by
      intro list
      cases list with
      | nil => rfl
      | cons segment rest =>
        dsimp only [clampFirst]
        split <;> rfl
    have hdrop := ((List.dropWhile_sublist (fun segment => decide (segment.endMs ≤ previous.endMs))
      (l := deduplicateFirst t previous first rest)).map owner).trans hdedup
    unfold reconcileOverlap
    dsimp only
    rw [hclamp]
    unfold prependPreserved
    split
    · exact Or.inl hdrop
    · cases hrest : (deduplicateFirst t previous first rest).dropWhile
          fun segment => decide (segment.endMs ≤ previous.endMs) with
      | nil => exact Or.inr rfl
      | cons segment remaining =>
        rw [hrest, List.map_cons] at hdrop
        dsimp only
        rw [List.map_cons, owner_text]
        exact Or.inl hdrop

theorem guiChunkSegments_owners (uuid : QString) (terms : List GlossaryTerm) (chunk : JobChunk)
    (previous incoming : List TranscriptSegment) :
    ((guiChunkSegments t uuid terms chunk previous incoming).map owner).Sublist (incoming.map owner) ∨
      (guiChunkSegments t uuid terms chunk previous incoming).map owner = [(uuid, [], [])] := by
  have hpost : ∀ list : List TranscriptSegment,
      (list.map fun segment => { postProcessSegment t terms segment with provisional := false }).map
        owner = list.map owner := by
    intro list
    rw [List.map_map]
    rfl
  unfold guiChunkSegments
  dsimp only
  rw [hpost]
  cases previous.getLast? with
  | none => exact Or.inl (List.Sublist.refl _)
  | some last =>
    dsimp only
    by_cases hoverlap : chunk.overlapBeforeMs > 0
    · rw [if_pos hoverlap]
      exact reconcileOverlap_owners uuid last chunk.endMs incoming
    · rw [if_neg hoverlap]
      exact Or.inl (List.Sublist.refl _)

theorem Storable.of_owners {incoming : List TranscriptSegment} {uuid : QString}
    (h : Storable ids active incoming) (huuid : uuid ∈ ids)
    (howners : (list.map owner).Sublist (incoming.map owner) ∨ list.map owner = [(uuid, [], [])]) :
    Storable ids active list := by
  rcases howners with hsub | hone
  · have hmem : ∀ segment ∈ list, ∃ source ∈ incoming, owner source = owner segment := fun segment hmem =>
      List.mem_map.mp (hsub.subset (List.mem_map_of_mem hmem))
    refine ⟨fun segment hsegment => ?_, ?_, fun segment hsegment => ?_⟩
    · obtain ⟨source, hsource, heq⟩ := hmem segment hsegment
      have hid : source.id = segment.id := congrArg Prod.fst heq
      exact hid ▸ h.drawn source hsource
    · have hpair : (incoming.map owner).Pairwise fun a b => a.1 ≠ b.1 := List.pairwise_map.mpr h.distinct
      have hlist := hpair.sublist hsub
      exact (List.pairwise_map (f := owner)).mp hlist
    · obtain ⟨source, hsource, heq⟩ := hmem segment hsegment
      have hrecording : source.recordingId = segment.recordingId := congrArg (fun o => o.2.1) heq
      have hjob : source.jobId = segment.jobId := congrArg (fun o => o.2.2) heq
      rw [← hrecording, ← hjob]
      exact h.owned source hsource
  · obtain ⟨segment, rfl, howner⟩ : ∃ segment, list = [segment] ∧ owner segment = (uuid, [], []) := by
      cases list with
      | nil => cases hone
      | cons segment rest =>
        rw [List.map_cons, List.cons.injEq, List.map_eq_nil_iff] at hone
        exact ⟨segment, by rw [hone.2], hone.1⟩
    refine ⟨fun other hmem => ?_, List.pairwise_singleton .., fun other hmem => ?_⟩
    · rw [List.mem_singleton.mp hmem, show segment.id = uuid from congrArg Prod.fst howner]
      exact huuid
    · rw [List.mem_singleton.mp hmem]
      exact ⟨Or.inl (congrArg (fun o => o.2.1) howner), Or.inl (congrArg (fun o => o.2.2) howner)⟩

/-! ## The commit -/

/-- What the coordinator holds of the messages received so far. -/
structure Received (t : CharTables) (ids : List QString) (active : ActiveChunk) : Prop where
  storable : Storable ids active active.currentSegments
  proper : ∀ segment ∈ active.currentSegments, ProperRange (range segment)
  inside : ∀ segment ∈ active.currentSegments, active.chunk.startMs ≤ segment.startMs
  glossary : ∀ segment ∈ active.currentSegments,
    GlossaryOnly t (glossaryTermsFromParameters active.activeJob.parameters) segment

/-- **The commit goes through** exactly when no manual edit is in the way and the ranges are apart. -/
theorem commitCurrentSegments_ok_iff (newId : Nat → QString) {uuid : QString} (h : ChunkReady times ids active db)
    (hreceived : Received t ids active) (hnow : now ∈ times) (hids : [] ∉ ids) (huuid : uuid ∈ ids) :
    (∃ db', commitCurrentSegments t now newId uuid active db = (.ok (), db')) ↔
      NoManualEdit t active.activeJob.id active.chunk.id db.segments ∧
        CommitApart active.chunk (previousSegments db active) (active.currentSegments.map range) := by
  have hlist := hreceived.storable.of_owners huuid (guiChunkSegments_owners (t := t) uuid
    (glossaryTermsFromParameters active.activeJob.parameters) active.chunk (previousSegments db active)
    active.currentSegments)
  obtain ⟨hproper, hcondition⟩ := guiChunkSegments_ranges (t := t) uuid
    (glossaryTermsFromParameters active.activeJob.parameters) h.before hreceived.proper hreceived.inside
  have hvalid := h.before.valid
  unfold commitCurrentSegments
  rw [storeChunk_ok_iff h hnow hids hlist, ← hcondition]
  rw [h.previous_eq] at hvalid hproper ⊢
  rw [validateSegments_combined hvalid hproper]
  rfl

/-- A partial list is stored when no manual edit is in the way. -/
theorem persistPartialSegments_ok_iff (newId : Nat → QString) (h : ChunkReady times ids active db)
    (hreceived : Received t ids active) (hnow : now ∈ times) (hids : [] ∉ ids) :
    (∃ db', persistPartialSegments t now newId active db = (.ok (), db')) ↔
      NoManualEdit t active.activeJob.id active.chunk.id db.segments := by
  unfold persistPartialSegments
  rw [storeChunk_ok_iff h hnow hids hreceived.storable]
  refine and_iff_left (validateSegments_overlap_eq_ok.mpr fun segment hmem => ?_)
  rcases mem_storedList.mp hmem with hother | ⟨source, hsource, rfl⟩
  · rw [← h.previous_eq] at hother
    exact h.before.proper segment hother
  · exact hreceived.proper source hsource

/-! ## The run of a chunk -/

/-- The range that a message carries into the list. -/
def acceptedRange (active : ActiveChunk) (message : PartialSegment) : Int × Int :=
  ((validatedRange active message).startMs, (validatedRange active message).endMs)

theorem Received.receive {message : PartialSegment} (h : Received t ids active)
    (haccepted : (validatedRange active message).error = .none) (hid : message.id ∈ ids)
    (hnew : ∀ segment ∈ active.currentSegments, segment.id ≠ message.id) :
    Received t ids (active.receive t message) := by
  have hrange : InsideChunk active.chunk active.recordingDurationMs
      (validatedRange active message).startMs (validatedRange active message).endMs := by
    refine @validateWorkerSegmentRange_inside message.payload _ _ _ _ ?_
    show validatedRange active message = _
    rw [← haccepted]
  set segment := segmentFromPayload t active message.id (validatedRange active message) message.payload
    with hsegment
  have hcurrent : (active.receive t message).currentSegments = active.currentSegments ++ [segment] := rfl
  have hall : ∀ {P : TranscriptSegment → Prop}, (∀ other ∈ active.currentSegments, P other) → P segment →
      ∀ other ∈ active.currentSegments ++ [segment], P other := by
    intro P hold hlast other hmem
    rcases List.mem_append.mp hmem with hmem | hmem
    · exact hold other hmem
    · rw [List.mem_singleton.mp hmem]
      exact hlast
  refine ⟨⟨?_, ?_, ?_⟩, ?_, ?_, ?_⟩
  · rw [hcurrent]
    exact hall h.storable.drawn hid
  · rw [hcurrent]
    refine List.pairwise_append.mpr ⟨h.storable.distinct, List.pairwise_singleton .., fun a ha b hb => ?_⟩
    rw [List.mem_singleton.mp hb]
    exact hnew a ha
  · rw [hcurrent]
    exact hall h.storable.owned ⟨Or.inr rfl, Or.inr rfl⟩
  · rw [hcurrent]
    exact hall h.proper ⟨hrange.nonneg, hrange.start_lt_end⟩
  · rw [hcurrent]
    exact hall h.inside hrange.chunk_start_le
  · rw [hcurrent]
    exact hall h.glossary ⟨rfl, rfl⟩

/-- The ends of what is committed decide the condition. -/
theorem commitApart_congr {first second : List TranscriptSegment} {ranges : List (Int × Int)}
    (hsame : first.map range = second.map range) :
    CommitApart chunk first ranges ↔ CommitApart chunk second ranges := by
  have hlast : (first.getLast?.map range) = second.getLast?.map range := by
    rw [← List.getLast?_map, ← List.getLast?_map, hsame]
  have hlate : ∀ previousEnd, LateApart first previousEnd ranges ↔ LateApart second previousEnd ranges := by
    intro previousEnd
    unfold LateApart
    split
    · exact Iff.rfl
    · refine and_congr Iff.rfl ?_
      rw [← List.forall_mem_map (f := range) (P := fun p => ∀ r ∈ _, RangeApart p r), hsame,
        List.forall_mem_map]
  unfold CommitApart
  cases hfirst : first.getLast? with
  | none =>
    rw [hfirst] at hlast
    cases hsecond : second.getLast? with
    | none => exact Iff.rfl
    | some last => rw [hsecond] at hlast; cases hlast
  | some last =>
    rw [hfirst] at hlast
    cases hsecond : second.getLast? with
    | none => rw [hsecond] at hlast; cases hlast
    | some last' =>
      rw [hsecond] at hlast
      have hend : last.endMs = last'.endMs := congrArg Prod.snd (Option.some.inj hlast)
      dsimp only
      rw [hend]
      split
      · exact hlate _
      · exact Iff.rfl

/-- An accepted message is stored exactly when no manual edit is in the way. -/
theorem receivePartialSegment_ok_iff (newId : Nat → QString) {message : PartialSegment} (h : ChunkReady times ids active db)
    (hreceived : Received t ids (active.receive t message)) (hnow : message.now ∈ times)
    (hids : [] ∉ ids) (haccepted : (validatedRange active message).error = .none) :
    (∃ next, receivePartialSegment t newId active message db = .ok next) ↔
      NoManualEdit t active.activeJob.id active.chunk.id db.segments := by
  have hready : ChunkReady times ids (active.receive t message) db := ⟨h.1, h.2, h.3, h.4, h.5, h.6⟩
  have hpersist := persistPartialSegments_ok_iff newId hready hreceived hnow hids
  refine Iff.trans ?_ hpersist
  unfold receivePartialSegment
  rw [haccepted]
  dsimp only
  constructor
  · rintro ⟨next, hnext⟩
    split at hnext
    next db' hpersist => exact ⟨db', hpersist⟩
    next => cases hnext
  · rintro ⟨db', hpersist⟩
    rw [hpersist]
    exact ⟨_, rfl⟩

theorem receivePartialSegment_ok {message : PartialSegment} {next : ActiveChunk × Database}
    (hok : receivePartialSegment t newId active message db = .ok next) :
    next.1 = active.receive t message ∧
      persistPartialSegments t message.now newId (active.receive t message) db = (.ok (), next.2) := by
  unfold receivePartialSegment at hok
  split at hok
  · split at hok
    next db' hpersist =>
      cases hok
      exact ⟨rfl, hpersist⟩
    next => cases hok
  · cases hok
  · cases hok

/-- **A run of messages and the commit**, by induction on the messages that are still to come. -/
theorem transcribeChunk_run (newId : Nat → QString) {uuid : QString} (hids : [] ∉ ids) (hnodup : ids.Nodup) (hnow : now ∈ times) :
    ∀ {messages : List PartialSegment} {active : ActiveChunk} {db : Database},
      ChunkReady times ids active db → Received t ids active →
      ids = active.currentSegments.map (·.id) ++ messages.map (·.id) ++ [uuid] →
      (∀ message ∈ messages, message.now ∈ times) →
      (∀ message ∈ messages, (validatedRange active message).error = .none) →
      ((∃ db', transcribeChunk t now newId uuid active db messages = .ok db') ↔
        NoManualEdit t active.activeJob.id active.chunk.id db.segments ∧
          CommitApart active.chunk (previousSegments db active)
            (active.currentSegments.map range ++ messages.map (acceptedRange active))) := by
  intro messages
  induction messages with
  | nil =>
    intro active db h hreceived hall _ _
    have huuid : uuid ∈ ids := by rw [hall]; exact List.mem_append_right _ (List.mem_singleton_self _)
    rw [List.map_nil, List.append_nil, ← commitCurrentSegments_ok_iff newId h hreceived hnow
      hids huuid]
    unfold transcribeChunk
    constructor
    · rintro ⟨db', hdb'⟩
      split at hdb'
      next after hcommit => exact ⟨after, hcommit⟩
      next => cases hdb'
    · rintro ⟨db', hcommit⟩
      rw [hcommit]
      exact ⟨db', rfl⟩
  | cons message rest ih =>
    intro active db h hreceived hall htimes haccepted
    have hfirst := haccepted message (List.mem_cons_self ..)
    -- the UUID of the message is one of those to come, and no segment has it yet
    have hid : message.id ∈ ids := by
      rw [hall]
      exact List.mem_append_left _ (List.mem_append_right _ (List.mem_cons_self ..))
    have hnew : ∀ segment ∈ active.currentSegments, segment.id ≠ message.id := by
      intro segment hmem
      have hsplit := hnodup
      rw [hall, List.append_assoc] at hsplit
      exact (List.pairwise_append.mp hsplit).2.2 segment.id (List.mem_map_of_mem hmem) message.id
        (List.mem_cons_self ..)
    have hreceived' := hreceived.receive hfirst hid hnew
    have hpersist := receivePartialSegment_ok_iff newId h hreceived'
      (htimes message (List.mem_cons_self ..)) hids hfirst
    have hready : ChunkReady times ids (active.receive t message) db := ⟨h.1, h.2, h.3, h.4, h.5, h.6⟩
    -- once the message is stored the rest goes on from there
    have hafter : ∀ next, receivePartialSegment t newId active message db = .ok next →
        ((∃ db', transcribeChunk t now newId uuid next.1 next.2 rest = .ok db') ↔
          CommitApart active.chunk (previousSegments db active)
            (active.currentSegments.map range ++ (message :: rest).map (acceptedRange active))) := by
      rintro ⟨active', db1⟩ hnext
      obtain ⟨hactive, hstored⟩ := receivePartialSegment_ok hnext
      dsimp only at hactive hstored
      subst hactive
      obtain ⟨hready', hmanual', hsame⟩ := hready.persisted hids hreceived'.storable
        canonicalText_ne_nil hreceived'.glossary hstored
      have hall' : ids = (active.receive t message).currentSegments.map (·.id) ++ rest.map (·.id) ++
          [uuid] := by
        rw [hall]
        simp only [ActiveChunk.receive, List.map_append, List.map_cons, List.map_nil, List.append_assoc,
          List.cons_append, List.nil_append]
        rfl
      have hrest := ih hready' hreceived' hall'
        (fun other hmem => htimes other (List.mem_cons_of_mem _ hmem))
        (fun other hmem => haccepted other (List.mem_cons_of_mem _ hmem))
      rw [hrest, and_iff_right hmanual', commitApart_congr (map_range_of_core hsame)]
      have hranges : (active.receive t message).currentSegments.map range ++
          rest.map (acceptedRange (active.receive t message)) =
          active.currentSegments.map range ++ (message :: rest).map (acceptedRange active) := by
        simp only [ActiveChunk.receive, List.map_append, List.map_cons, List.map_nil, List.append_assoc,
          List.singleton_append]
        rfl
      rw [hranges]
      exact Iff.rfl
    constructor
    · rintro ⟨db', hdb'⟩
      unfold transcribeChunk at hdb'
      split at hdb'
      next active' db1 hnext =>
        exact ⟨hpersist.mp ⟨_, hnext⟩, (hafter _ hnext).mp ⟨db', hdb'⟩⟩
      next => cases hdb'
    · rintro ⟨hmanual, hapart⟩
      obtain ⟨next, hnext⟩ := hpersist.mpr hmanual
      obtain ⟨db', hdb'⟩ := (hafter next hnext).mpr hapart
      refine ⟨db', ?_⟩
      unfold transcribeChunk
      rw [hnext]
      exact hdb'

end Store

/-- The application transcribes the second chunk of a recording of 15 minutes. -/
def activeSecondChunk : ActiveChunk :=
  { activeJob := { id := qs "job", recordingId := qs "recording", state := .transcribing }
    chunk := { secondChunk with id := qs "second", jobId := qs "job", attempts := 1 }
    recordingDurationMs := 900000
    ownerToken := qs "app"
    nextOrdinal := 1
    currentSegments := [] }

def afterFirstChunk : Database :=
  { recordings := [{ id := qs "recording" }]
    jobs := [activeSecondChunk.activeJob]
    chunks := [{ id := qs "first", jobId := qs "job", endMs := 600000, state := .completed },
      activeSecondChunk.chunk]
    segments := [{ segmentAtCut with
      id := qs "s", recordingId := qs "recording", jobId := qs "job", chunkId := qs "first" }]
    leases := [{ ownerToken := qs "app", jobId := qs "job", expiresAt := some 60000 }] }

/-- Two segments one after the other. -/
def messagesApart : List PartialSegment :=
  [⟨1, qs "a", timesPayload 600500 602000⟩, ⟨2, qs "b", timesPayload 602000 603000⟩]

/-- Two segments that overlap by a second; each of them is accepted. -/
def messagesOverlapping : List PartialSegment :=
  [⟨1, qs "a", timesPayload 600500 602000⟩, ⟨2, qs "b", timesPayload 601000 603000⟩]

theorem afterFirstChunk_ready :
    ChunkReady [3, 1, 2] [qs "a", qs "b", qs "u"] activeSecondChunk afterFirstChunk where
  target now hnow := by
    have hlease : afterFirstChunk.holdsLease now (qs "job") (qs "app") = true := by
      rcases List.mem_cons.mp hnow with rfl | hnow
      · decide
      rcases List.mem_cons.mp hnow with rfl | hnow
      · decide
      · rw [List.mem_singleton.mp hnow]
        decide
    exact ⟨by decide, hlease, by decide, ⟨_, rfl, rfl⟩, ⟨_, rfl, rfl⟩⟩
  keys := ⟨List.pairwise_singleton .., List.pairwise_singleton ..⟩
  rows row hrow _ := by
    rw [List.mem_singleton.mp hrow]
    exact ⟨by decide, Or.inr rfl, Or.inr rfl, Or.inr ⟨_, rfl, rfl⟩⟩
  committed row hrow _ _ := by
    rw [List.mem_singleton.mp hrow]
    rfl
  before := by
    refine ⟨rfl, fun segment hmem => ?_⟩
    rw [List.mem_singleton.mp hmem]
    decide
  unused row hrow _ := by
    rw [List.mem_singleton.mp hrow]
    decide

theorem afterFirstChunk_unedited :
    NoManualEdit asciiTables (qs "job") (qs "second") afterFirstChunk.segments := by
  intro row hrow _ hchunk
  rw [List.mem_singleton.mp hrow] at hchunk
  exact absurd hchunk (by decide)

end BreezeDesk.App
