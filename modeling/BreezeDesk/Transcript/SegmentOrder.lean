/-
  The order of committed segments.

  `OrderedSegments` says that the committed (non-provisional) segments of each job lie in time as their
  numbers count, without overlap.  Whole lists are validated and renumbered, so they keep it; so does a
  chunk that replaces its own segments among those of the other chunks.

  The save of a single segment keeps its number but checks for overlap only: a segment may be moved past
  its neighbours (`MovesPast`), and then the list of the job is refused when it is saved again.
  `committed_order` is the invariant for all runs without such a move.
-/
import BreezeDesk.Database.Operations

namespace BreezeDesk

open Transaction Runs

variable {t : CharTables} {db db' : Database} {now : Int} {newId : Nat → QString}
  {recordingId jobId chunkId : QString} {rows list segments : List TranscriptSegment}

/-! ## The invariant -/

/-- Two committed segments, the first of which ends before the second begins. -/
def EndsBefore (a b : TranscriptSegment) : Prop :=
  a.provisional = false → b.provisional = false → a.endMs ≤ b.startMs

structure OrderedSegments (rows : List TranscriptSegment) : Prop where
  keys : SegmentKeys rows
  ranges : ∀ row ∈ rows, 0 ≤ row.startMs ∧ row.startMs < row.endMs
  ordered : ∀ a ∈ rows, ∀ b ∈ rows, a.jobId = b.jobId → a.ordinal < b.ordinal → EndsBefore a b

theorem OrderedSegments.nil : OrderedSegments [] where
  keys := ⟨List.Pairwise.nil, List.Pairwise.nil⟩
  ranges row hmem := by cases hmem
  ordered a hmem := by cases hmem

theorem OrderedSegments.sublist {sub : List TranscriptSegment} (h : OrderedSegments rows)
    (hsub : sub.Sublist rows) : OrderedSegments sub where
  keys := h.keys.sublist hsub
  ranges row hmem := h.ranges row (hsub.subset hmem)
  ordered a ha b hb := h.ordered a (hsub.subset ha) b (hsub.subset hb)

/-- What the order of a segment depends on. -/
structure SamePlace (a b : TranscriptSegment) : Prop where
  id : a.id = b.id
  jobId : a.jobId = b.jobId
  ordinal : a.ordinal = b.ordinal
  provisional : a.provisional = b.provisional

/-- Rows that keep their places keep their keys. -/
theorem SegmentKeys.map {change : TranscriptSegment → TranscriptSegment} (h : SegmentKeys rows)
    (hchange : ∀ row, SamePlace (change row) row) : SegmentKeys (rows.map change) where
  ids := List.pairwise_map.mpr (h.ids.imp fun {a b} hne => by
    rw [(hchange a).id, (hchange b).id]
    exact hne)
  ordinals := List.pairwise_map.mpr (h.ordinals.imp fun {a b} hne => by
    rw [(hchange a).jobId, (hchange b).jobId, (hchange a).ordinal, (hchange b).ordinal]
    exact hne)

/-! ## Job operations -/

/-- Segments that lose their chunk stay where they are. -/
theorem orderedSegments_detachChunks {which : JobChunk → Bool} (h : OrderedSegments db.segments) :
    OrderedSegments (detachChunks which db).segments := by
  have hplace : ∀ row : TranscriptSegment, SamePlace
      (if (db.chunks.any fun chunk => which chunk && chunk.id == row.chunkId) = true then
        { row with chunkId := [] } else row) row := by
    intro row
    split <;> exact ⟨rfl, rfl, rfl, rfl⟩
  refine ⟨h.keys.map hplace, fun row hmem => ?_, fun a ha b hb => ?_⟩
  · obtain ⟨old, hold, hsame⟩ := mem_detachChunks hmem
    rw [hsame]
    exact h.ranges old hold
  · obtain ⟨olda, holda, hsamea⟩ := mem_detachChunks ha
    obtain ⟨oldb, holdb, hsameb⟩ := mem_detachChunks hb
    rw [hsamea, hsameb]
    exact h.ordered olda holda oldb holdb

theorem orderedSegments_statements :
    StatementsKeep (fun _ => True) fun db => OrderedSegments db.segments where
  jobs _ _ _ _ hI _ := hI
  newJob _ _ hI _ _ := hI
  claim _ _ _ _ hI _ _ _ _ := hI
  chunks _ _ hI := hI
  detach _ _ hI := orderedSegments_detachChunks hI
  events _ _ _ hI := hI
  index _ _ hI := hI
  leases _ _ hI _ _ := hI
  cascade _ _ hI := (orderedSegments_detachChunks hI).sublist List.filter_sublist

theorem orderedSegments_completion : CompletionKeeps fun db => OrderedSegments db.segments where
  recordings _ _ _ hI := hI
  segments _ _ hI := hI.sublist List.filter_sublist

/-! ## Whole lists -/

/-- Two relations along a list, one of them an order of numbers: the numbers tell the other. -/
theorem rel_of_ordinal {R : TranscriptSegment → TranscriptSegment → Prop}
    (hcount : rows.Pairwise fun a b => a.ordinal < b.ordinal) (hrel : rows.Pairwise R)
    {a b : TranscriptSegment} (ha : a ∈ rows) (hb : b ∈ rows) (hlt : a.ordinal < b.ordinal) : R a b := by
  induction rows with
  | nil => cases ha
  | cons first rest ih =>
    obtain ⟨hfirst, hcount⟩ := List.pairwise_cons.mp hcount
    obtain ⟨hfirstR, hrel⟩ := List.pairwise_cons.mp hrel
    rcases List.mem_cons.mp ha with rfl | harest
    · rcases List.mem_cons.mp hb with rfl | hbrest
      · omega
      · exact hfirstR b hbrest
    · rcases List.mem_cons.mp hb with rfl | hbrest
      · have := hfirst a harest
        omega
      · exact ih hcount hrel harest hbrest

/-- **A list in order** may replace the rows of a job. -/
theorem OrderedSegments.rewritten {allowOverlap : Bool} (hI : OrderedSegments db.segments)
    (h : Rewritten now newId recordingId jobId list allowOverlap db db')
    (hlist : list.Pairwise EndsBefore) : OrderedSegments db'.segments := by
  have hrows : ∀ row, row ∈ db'.segments ↔ (row ∈ db.segments ∧ row.jobId ≠ jobId) ∨
      row ∈ storedRows now newId recordingId jobId 0 list := fun row => h.mem_segments
  have hstored : (storedRows now newId recordingId jobId 0 list).Pairwise EndsBefore := by
    let place := fun row : TranscriptSegment => (row.provisional, row.startMs, row.endMs)
    let before := fun x y : Bool × Int × Int => x.1 = false → y.1 = false → x.2.2 ≤ y.2.1
    have hends : (storedRows now newId recordingId jobId 0 list).map place = list.map place :=
      map_storedRows (fun _ _ => rfl) list
    have hpairs : (list.map place).Pairwise before := List.pairwise_map.mpr hlist
    rw [← hends] at hpairs
    have hrows : (storedRows now newId recordingId jobId 0 list).Pairwise
        fun a b => before (place a) (place b) := List.pairwise_map.mp hpairs
    exact hrows
  have hranges : ∀ segment ∈ list, 0 ≤ segment.startMs ∧ segment.startMs < segment.endMs := by
    have hvalid := h.valid
    cases allowOverlap with
    | true => exact validateSegments_overlap_eq_ok.mp hvalid
    | false =>
      obtain ⟨hnonneg, hord⟩ := validateSegments_eq_ok.mp hvalid
      exact fun segment hmem => ⟨hnonneg segment hmem, hord.positive segment hmem⟩
  refine ⟨h.keys hI.keys, fun row hmem => ?_, fun a ha b hb hjob hlt => ?_⟩
  · rcases (hrows row).mp hmem with ⟨hold, -⟩ | hnew
    · exact hI.ranges row hold
    · obtain ⟨k, segment, hk, rfl⟩ := mem_storedRows.mp hnew
      exact hranges segment (List.mem_of_getElem? hk)
  · -- rows of one job are all old or all new
    rcases (hrows a).mp ha with ⟨holda, hother⟩ | hnewa
    · rcases (hrows b).mp hb with ⟨holdb, -⟩ | hnewb
      · exact hI.ordered a holda b holdb hjob hlt
      · exact absurd (hjob.trans (storedRows_jobId hnewb)) hother
    · rcases (hrows b).mp hb with ⟨-, hother⟩ | hnewb
      · exact absurd (hjob.symm.trans (storedRows_jobId hnewa)) hother
      · exact rel_of_ordinal storedRows_ordinals hstored hnewa hnewb hlt

theorem endsBefore_of_valid (h : validateSegments list = .ok ()) : list.Pairwise EndsBefore :=
  (validateSegments_eq_ok.mp h).2.pairwise.imp fun hle _ _ => hle

/-! ## A chunk -/

/-- Provisional segments join the committed ones of the other chunks without disturbing them. -/
theorem endsBefore_combined {attempt : Int} (hI : OrderedSegments db.segments) :
    (combinedSegments (segmentsForJob db jobId true) chunkId true attempt segments).Pairwise
      EndsBefore := by
  set others := (segmentsForJob db jobId true).filter fun segment => segment.chunkId != chunkId
    with hothers
  have hperm := combinedSegments_perm (segmentsForJob db jobId true) chunkId true attempt segments
  have hcommitted : ∀ row ∈ combinedSegments (segmentsForJob db jobId true) chunkId true attempt segments,
      row.provisional = false → row ∈ db.segments ∧ row.jobId = jobId := by
    intro row hmem hfinal
    rcases List.mem_append.mp (hperm.mem_iff.mp hmem) with hother | hnew
    · obtain ⟨hrow, hjob, -⟩ := mem_segmentsForJob.mp (List.mem_filter.mp hother).1
      exact ⟨hrow, hjob⟩
    · obtain ⟨segment, -, rfl⟩ := mem_chunkSegments.mp hnew
      cases hfinal
  -- no committed segment occurs twice
  have hdistinct : (combinedSegments (segmentsForJob db jobId true) chunkId true attempt
      segments).Pairwise fun a b => a.provisional = false → b.provisional = false →
        ¬ (a.jobId = b.jobId ∧ a.ordinal = b.ordinal) := by
    refine (hperm.pairwise_iff fun h hb ha hsame => h ha hb ⟨hsame.1.symm, hsame.2.symm⟩).mpr ?_
    refine List.pairwise_append.mpr ⟨?_, ?_, fun a _ b hb _ hfinal => ?_⟩
    · have hkeys : others.Pairwise fun a b => ¬ (a.jobId = b.jobId ∧ a.ordinal = b.ordinal) := by
        refine List.Pairwise.sublist List.filter_sublist ?_
        refine ((List.perm_insertionSort _ _).pairwise_iff fun h hsame => ?_).mpr ?_
        · exact h ⟨hsame.1.symm, hsame.2.symm⟩
        · exact hI.keys.ordinals.sublist List.filter_sublist
      exact hkeys.imp fun hne _ _ => hne
    · refine List.pairwise_iff_forall_sublist.mpr fun {a b} hsub hfinal => ?_
      obtain ⟨segment, -, rfl⟩ := mem_chunkSegments.mp (hsub.subset (List.mem_cons_self ..))
      cases hfinal
    · obtain ⟨segment, -, rfl⟩ := mem_chunkSegments.mp hb
      cases hfinal
  refine List.Pairwise.imp_of_mem ?_ (hdistinct.and (combinedSegments_sorted ..))
  rintro a b ha hb ⟨hne, hle⟩ hfinala hfinalb
  obtain ⟨hrowa, hjoba⟩ := hcommitted a ha hfinala
  obtain ⟨hrowb, hjobb⟩ := hcommitted b hb hfinalb
  have hjob : a.jobId = b.jobId := hjoba.trans hjobb.symm
  rcases lt_trichotomy a.ordinal b.ordinal with hlt | heq | hgt
  · exact hI.ordered a hrowa b hrowb hjob hlt hfinala hfinalb
  · exact absurd ⟨hjob, heq⟩ (hne hfinala hfinalb)
  · have hba := hI.ordered b hrowb a hrowa hjob.symm hgt hfinalb hfinala
    have := (hI.ranges b hrowb).2
    omega

/-- **Replacing a chunk** keeps the order. -/
theorem orderedSegments_replaceChunk {ownerToken : QString} {provisional : Bool} {attempt : Int}
    (hI : OrderedSegments db.segments)
    (hok : replaceChunk t now newId recordingId jobId chunkId segments provisional attempt ownerToken db =
      (.ok (), db')) : OrderedSegments db'.segments := by
  obtain ⟨-, -, -, -, hrewritten⟩ := replaceChunk_ok hok
  refine hI.rewritten hrewritten ?_
  cases provisional with
  | true => exact endsBefore_combined hI
  | false => exact endsBefore_of_valid hrewritten.valid

/-! ## One segment -/

/-- A committed segment is moved past another one of its job. -/
def MovesPast (db : Database) (step : Step) : Prop :=
  ∃ segment durable, step.operation = .saveEditedSegment segment ∧
    EditChecks db step.now segment durable ∧ durable.provisional = false ∧
    ∃ other ∈ db.segments, other.jobId = durable.jobId ∧ other.provisional = false ∧
      ((durable.ordinal < other.ordinal ∧ other.endMs ≤ segment.startMs) ∨
        (other.ordinal < durable.ordinal ∧ segment.endMs ≤ other.startMs))

/-- An id names one row, and with it the row that an operation is about. -/
theorem isRow_iff {durable row : TranscriptSegment} (h : SegmentKeys rows) (hdurable : durable ∈ rows)
    (hrow : row ∈ rows) : isRow durable row = true ↔ row = durable := by
  unfold isRow
  simp only [Bool.and_eq_true, beq_iff_eq]
  constructor
  · rintro ⟨⟨hid, -⟩, -⟩
    exact h.eq_of_id hrow hdurable hid
  · rintro rfl
    exact ⟨⟨rfl, rfl⟩, rfl⟩

theorem samePlace_editedRow (now : Int) (segment row : TranscriptSegment) :
    SamePlace (editedRow now segment row) row := ⟨rfl, rfl, rfl, rfl⟩

/-- **Moving a segment** without passing another one keeps the order. -/
theorem orderedSegments_saveEditedSegment {step : Step} {segment : TranscriptSegment}
    (hI : OrderedSegments db.segments) (hop : step.operation = .saveEditedSegment segment)
    (hnot : ¬ MovesPast db step)
    (hok : saveEditedSegment step.now segment db = (.ok (), db')) : OrderedSegments db'.segments := by
  obtain ⟨durable, hchecks, hresult⟩ := saveEditedSegment_ok hok
  have hdurable : durable ∈ db.segments := List.mem_of_find?_eq_some hchecks.found
  have hplace : ∀ row, SamePlace (if isRow durable row = true then editedRow step.now segment row else row)
      row := by
    intro row
    split
    · exact samePlace_editedRow ..
    · exact ⟨rfl, rfl, rfl, rfl⟩
  rw [hresult]
  refine ⟨hI.keys.map hplace, fun row hmem => ?_, fun a ha b hb => ?_⟩
  · obtain ⟨old, hold, rfl⟩ := mem_updateRows.mp hmem
    split
    · exact hchecks.range
    · exact hI.ranges old hold
  · obtain ⟨olda, holda, rfl⟩ := mem_updateRows.mp ha
    obtain ⟨oldb, holdb, rfl⟩ := mem_updateRows.mp hb
    intro hjob hlt hfinala hfinalb
    rw [(hplace olda).jobId, (hplace oldb).jobId] at hjob
    rw [(hplace olda).ordinal, (hplace oldb).ordinal] at hlt
    rw [(hplace olda).provisional] at hfinala
    rw [(hplace oldb).provisional] at hfinalb
    by_cases ha : olda = durable
    · have hb : oldb ≠ durable := fun hb => by rw [ha, hb] at hlt; omega
      rw [if_pos ((isRow_iff hI.keys hdurable holda).mpr ha),
        if_neg (mt (isRow_iff hI.keys hdurable holdb).mp hb)]
      subst ha
      rcases hchecks.apart oldb holdb hjob.symm fun hid => hb (hI.keys.eq_of_id holdb hdurable hid) with
        hbefore | hafter
      · exact absurd ⟨segment, olda, hop, hchecks, hfinala, oldb, holdb, hjob.symm, hfinalb,
          Or.inl ⟨hlt, hbefore⟩⟩ hnot
      · exact hafter
    · rw [if_neg (mt (isRow_iff hI.keys hdurable holda).mp ha)]
      by_cases hb : oldb = durable
      · rw [if_pos ((isRow_iff hI.keys hdurable holdb).mpr hb)]
        subst hb
        rcases hchecks.apart olda holda hjob fun hid => ha (hI.keys.eq_of_id holda hdurable hid) with
          hbefore | hafter
        · exact hbefore
        · exact absurd ⟨segment, oldb, hop, hchecks, hfinalb, olda, holda, hjob, hfinala,
            Or.inr ⟨hlt, hafter⟩⟩ hnot
      · rw [if_neg (mt (isRow_iff hI.keys hdurable holdb).mp hb)]
        exact hI.ordered olda holda oldb holdb hjob hlt hfinala hfinalb

/-! ## Every run -/

/-- One step keeps the order, unless it moves a segment past another one. -/
theorem performed_orderedSegments (step : Step) (hI : OrderedSegments db.segments)
    (hnot : ¬ MovesPast db step) : OrderedSegments (performed t db step).segments := by
  rcases accepted_or_unchanged t db step with haccepted | hsame
  · cases htranscript : step.operation.isTranscript with
    | false =>
      exact performed_anyJob orderedSegments_statements (fun _ _ => trivial) orderedSegments_completion htranscript hI
    | true =>
      have hok : perform t db step = (.ok (), performed t db step) := accepted_eq haccepted
      unfold perform at hok
      cases hop : step.operation <;> rw [hop] at htranscript hok
      case replaceTranscript =>
        obtain ⟨-, -, hrewritten⟩ := replaceTranscript_ok hok
        exact hI.rewritten hrewritten (endsBefore_of_valid hrewritten.valid)
      case saveEditedTranscript =>
        obtain ⟨-, hrewritten⟩ := saveEditedTranscript_ok hok
        exact hI.rewritten hrewritten (endsBefore_of_valid hrewritten.valid)
      case replaceChunk => exact orderedSegments_replaceChunk hI hok
      case saveEditedSegment => exact orderedSegments_saveEditedSegment hI hop hnot hok
      case deleteSegment =>
        rcases deleteSegment_ok hok with hsame | ⟨durable, -, -, hresult⟩
        · rw [hsame]
          exact hI
        · rw [hresult]
          exact hI.sublist List.filter_sublist
      all_goals cases htranscript
  · rw [hsame]
    exact hI

/-- What is read back in the order of the numbers. -/
theorem OrderedSegments.read (hI : OrderedSegments db.segments) (jobId : QString) :
    (∀ row ∈ segmentsForJob db jobId false, 0 ≤ row.startMs) ∧
      TimeOrdered (segmentsForJob db jobId false) ∧
      (segmentsForJob db jobId false).Pairwise fun a b => a.ordinal < b.ordinal := by
  have hcount : (segmentsForJob db jobId false).Pairwise fun a b => a.ordinal < b.ordinal := by
    have hsorted : (segmentsForJob db jobId false).Pairwise fun a b => a.ordinal ≤ b.ordinal :=
      List.pairwise_insertionSort _ _
    have hkeys : (segmentsForJob db jobId false).Pairwise
        fun a b => ¬ (a.jobId = b.jobId ∧ a.ordinal = b.ordinal) := by
      refine ((List.perm_insertionSort _ _).pairwise_iff fun h hsame => ?_).mpr ?_
      · exact h ⟨hsame.1.symm, hsame.2.symm⟩
      · exact hI.keys.ordinals.sublist List.filter_sublist
    refine List.Pairwise.imp_of_mem ?_ (hsorted.and hkeys)
    rintro a b ha hb ⟨hle, hne⟩
    have hjob := (mem_segmentsForJob.mp ha).2.1.trans (mem_segmentsForJob.mp hb).2.1.symm
    have : a.ordinal ≠ b.ordinal := fun heq => hne ⟨hjob, heq⟩
    omega
  refine ⟨fun row hmem => (hI.ranges row (mem_segmentsForJob.mp hmem).1).1, ⟨?_, fun row hmem => ?_⟩, hcount⟩
  · refine List.Pairwise.imp_of_mem (fun {a b} ha hb hlt => ?_) hcount
    obtain ⟨hrowa, hjoba, hfinala⟩ := mem_segmentsForJob.mp ha
    obtain ⟨hrowb, hjobb, hfinalb⟩ := mem_segmentsForJob.mp hb
    exact hI.ordered a hrowa b hrowb (hjoba.trans hjobb.symm) hlt (hfinala.resolve_left Bool.false_ne_true)
      (hfinalb.resolve_left Bool.false_ne_true)
  · exact (hI.ranges row (mem_segmentsForJob.mp hmem).1).2

/-- Without provisional segments both readings of a job are the same. -/
theorem segmentsForJob_of_committed
    (h : ∀ row ∈ segmentsForJob db jobId true, row.provisional = false) :
    segmentsForJob db jobId true = segmentsForJob db jobId false := by
  unfold segmentsForJob
  refine congrArg orderedByOrdinal (List.filter_congr fun row hrow => ?_)
  by_cases hjob : row.jobId = jobId
  · rw [h row (mem_segmentsForJob.mpr ⟨hrow, hjob, Or.inl rfl⟩)]
    rfl
  · rw [beq_eq_false_iff_ne.mpr hjob, Bool.false_and, Bool.false_and]

/-- **Committed order**: in every state of every run that moves no segment past another one, the
    committed segments of a job are in order of time as their numbers count, and a job without
    provisional segments passes the check for being saved as it is. -/
theorem committed_order (t : CharTables) (db : Database) (steps : List Step)
    (hstart : OrderedSegments db.segments)
    (hsteps : Guarded (performed t) (fun s step => ¬ MovesPast s step) db steps) :
    ∀ s ∈ states (performed t) db steps, ∀ jobId,
      (∀ row ∈ segmentsForJob s jobId false, 0 ≤ row.startMs) ∧
      TimeOrdered (segmentsForJob s jobId false) ∧
      ((segmentsForJob s jobId false).Pairwise fun a b => a.ordinal < b.ordinal) ∧
      ((∀ row ∈ segmentsForJob s jobId true, row.provisional = false) →
        ∀ includeProvisional, validateSegments (segmentsForJob s jobId includeProvisional) = .ok ()) := by
  have hkeeps : StepKeeps (performed t) (fun s step => ¬ MovesPast s step)
      fun s => OrderedSegments s.segments := fun s step hI hnot => performed_orderedSegments step hI hnot
  intro s hs jobId
  obtain ⟨hnonneg, htime, hcount⟩ := (states_invariant hkeeps hstart hsteps s hs).read jobId
  refine ⟨hnonneg, htime, hcount, fun hcommitted includeProvisional => ?_⟩
  have hsame : segmentsForJob s jobId includeProvisional = segmentsForJob s jobId false := by
    cases includeProvisional with
    | true => exact segmentsForJob_of_committed hcommitted
    | false => rfl
  rw [hsame]
  exact validateSegments_eq_ok.mpr ⟨hnonneg, htime⟩

/-! ## A segment moved past the next one -/

/-- A recording with one finished job. -/
def finishedJob : Database :=
  { recordings := [{ id := qs "recording", activeJobId := some (qs "job") }]
    jobs := [{ id := qs "job", recordingId := qs "recording", state := .completed }] }

def firstWords : TranscriptSegment :=
  { id := qs "first", recordingId := qs "recording", jobId := qs "job", startMs := 0, endMs := 10,
    originalText := qs "one" }

/-- Its transcript is saved with two segments. -/
def saveTwoSegments : Step :=
  { now := 0, newId := fun _ => []
    operation := .saveEditedTranscript (qs "recording") (qs "job")
      [firstWords, { firstWords with id := qs "second", startMs := 10, endMs := 20 }] }

/-- The first segment is moved behind the second one. -/
def moveFirst : Step :=
  { now := 0, newId := fun _ => []
    operation := .saveEditedSegment { firstWords with startMs := 30, endMs := 40 } }

theorem committed_order_twoSegments :
    TimeOrdered (segmentsForJob (performed asciiTables finishedJob saveTwoSegments) (qs "job") false) := by
  have hsteps : ∀ step ∈ [saveTwoSegments], ∀ s, ¬ MovesPast s step := by
    rintro step hmem s ⟨segment, durable, hop, -⟩
    rw [List.mem_singleton.mp hmem] at hop
    cases hop
  exact (committed_order asciiTables finishedJob [saveTwoSegments] OrderedSegments.nil
    (guarded_of_forall hsteps _) _ (run_mem_states _ _) (qs "job")).2.1

/-- **Out of order**: the move is accepted, no two segments overlap, and the list of the job is refused
    when it is saved as it is. -/
theorem saveEditedSegment_outOfOrder :
    Accepted asciiTables (performed asciiTables finishedJob saveTwoSegments) moveFirst ∧
      (segmentsForJob (run (performed asciiTables) finishedJob [saveTwoSegments, moveFirst]) (qs "job")
        false).map (fun row => (row.ordinal, row.startMs, row.endMs)) = [(0, 30, 40), (1, 10, 20)] ∧
      validateSegments (segmentsForJob
        (run (performed asciiTables) finishedJob [saveTwoSegments, moveFirst]) (qs "job") false) =
          .error (invalidRangeError 1) :=
  ⟨by decide, by decide, rfl⟩

end BreezeDesk
