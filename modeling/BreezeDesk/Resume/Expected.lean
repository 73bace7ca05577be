/-
  The transcript that a plan leads to, as a function of the plan and the worker.

  `advance` is one chunk: its messages, what the front end makes of them behind the segments before, and
  the repository's merge.  It is a function of ranges and texts, so it has no store, no clock and no ids;
  it is `none` where the front end or the repository refuses the chunk.  `transcript` is a whole plan.

  Both front ends handle a chunk by ranges and texts alone (`guiChunkSegments_essence`,
  `cliReconcile_essence`); this is why a session can go on with rows that another session has stored.
-/
import BreezeDesk.Resume.Sessions

namespace BreezeDesk.Resume

open App Asr Ranges

variable (t : CharTables)

/-! ## Definitions -/

def FrontEnd.terms (frontEnd : FrontEnd) (run : JobRun) : List GlossaryTerm :=
  match frontEnd with
  | .application => glossaryTermsFromParameters run.activeJob.parameters
  | .commandLine => cliTerms run

def validated (run : JobRun) (chunk : JobChunk) (payload : QCborMap) : WorkerSegmentValidationResult :=
  validateWorkerSegmentRange payload chunk.startMs chunk.endMs run.recordingDurationMs

def Accepted (run : JobRun) (chunk : JobChunk) (payload : QCborMap) : Prop :=
  (validated run chunk payload).error = .none

instance (run : JobRun) (chunk : JobChunk) : DecidablePred (Accepted run chunk) :=
  fun _ => inferInstanceAs (Decidable (_ = _))

/-- A message, with the glossary applied. -/
def heard (terms : List GlossaryTerm) (run : JobRun) (chunk : JobChunk) (payload : QCborMap) :
    TranscriptSegment :=
  essence (postProcessSegment t terms
    { startMs := (validated run chunk payload).startMs
      endMs := (validated run chunk payload).endMs
      originalText := (payload.value (qs "originalText")).toText })

/-- What the front end commits behind the segments before. -/
def FrontEnd.commit (frontEnd : FrontEnd) (run : JobRun) (chunk : JobChunk)
    (before incoming : List TranscriptSegment) : Option (List TranscriptSegment) :=
  match frontEnd with
  | .application => some ((guiChunkSegments t [] (frontEnd.terms run) chunk before incoming).map essence)
  | .commandLine => (cliReconcile t run chunk before incoming).toOption.map (·.map essence)

/-- What the repository makes of it. -/
def accept (before committed : List TranscriptSegment) : Option (List TranscriptSegment) :=
  match validateSegments (merged before committed) with
  | .ok () => some (merged before committed)
  | .error _ => none

def advance (frontEnd : FrontEnd) (run : JobRun) (before : List TranscriptSegment) (chunk : JobChunk) :
    Option (List TranscriptSegment) :=
  let messages := run.worker chunk.startMs chunk.endMs
  if ∀ payload ∈ messages, Accepted run chunk payload then
    (frontEnd.commit t run chunk before (messages.map (heard t (frontEnd.terms run) run chunk))).bind
      (accept before)
  else none

/-- A whole plan. -/
def transcript (frontEnd : FrontEnd) (run : JobRun) :
    List TranscriptSegment → List JobChunk → Option (List TranscriptSegment) :=
  List.foldlM (advance t frontEnd run)

variable {t}

theorem accept_eq_some {before committed after : List TranscriptSegment} :
    accept before committed = some after ↔
      after = merged before committed ∧ validateSegments after = .ok () := by
  unfold accept
  constructor
  · intro h
    split at h
    next hvalid =>
      cases h
      exact ⟨rfl, hvalid⟩
    next => cases h
  · rintro ⟨rfl, hvalid⟩
    rw [hvalid]

theorem advance_of_refused {frontEnd : FrontEnd} {run : JobRun} {before : List TranscriptSegment}
    {chunk : JobChunk} (h : ¬ ∀ payload ∈ run.worker chunk.startMs chunk.endMs, Accepted run chunk payload) :
    advance t frontEnd run before chunk = none :=
  if_neg h

theorem advance_of_accepted {frontEnd : FrontEnd} {run : JobRun} {before : List TranscriptSegment}
    {chunk : JobChunk} (h : ∀ payload ∈ run.worker chunk.startMs chunk.endMs, Accepted run chunk payload) :
    advance t frontEnd run before chunk =
      (frontEnd.commit t run chunk before ((run.worker chunk.startMs chunk.endMs).map
        (heard t (frontEnd.terms run) run chunk))).bind (accept before) :=
  if_pos h

/-! ## The plan of a chunk -/

/-- The part of a chunk that no session changes. -/
def plain (chunk : JobChunk) : JobChunk :=
  { id := chunk.id, jobId := chunk.jobId, ordinal := chunk.ordinal, startMs := chunk.startMs,
    endMs := chunk.endMs, overlapBeforeMs := chunk.overlapBeforeMs,
    overlapAfterMs := chunk.overlapAfterMs }

theorem plain_updatedChunk (chunk row : JobChunk) : plain (updatedChunk chunk row) = plain row := rfl

theorem advance_plain (frontEnd : FrontEnd) (run : JobRun) (before : List TranscriptSegment)
    (chunk : JobChunk) :
    advance t frontEnd run before (plain chunk) = advance t frontEnd run before chunk := by
  cases frontEnd <;> rfl

theorem advance_congr {frontEnd : FrontEnd} {run : JobRun} {before : List TranscriptSegment}
    {first second : JobChunk} (h : plain first = plain second) :
    advance t frontEnd run before first = advance t frontEnd run before second := by
  rw [← advance_plain, h, advance_plain]

theorem transcript_congr {frontEnd : FrontEnd} {run : JobRun} :
    ∀ {first second : List JobChunk} {before : List TranscriptSegment},
      first.map plain = second.map plain →
        transcript t frontEnd run before first = transcript t frontEnd run before second := by
  intro first
  induction first with
  | nil =>
    intro second before h
    rw [List.map_nil, eq_comm, List.map_eq_nil_iff] at h
    rw [h]
  | cons chunk rest ih =>
    intro second before h
    cases second with
    | nil => cases h
    | cons chunk' rest' =>
      rw [List.map_cons, List.map_cons, List.cons.injEq] at h
      show (advance t frontEnd run before chunk >>= fun after => transcript t frontEnd run after rest) =
        (advance t frontEnd run before chunk' >>= fun after => transcript t frontEnd run after rest')
      rw [advance_congr h.1]
      congr 1
      funext after
      exact ih h.2

theorem transcript_append {frontEnd : FrontEnd} {run : JobRun} {before : List TranscriptSegment}
    {first second : List JobChunk} :
    transcript t frontEnd run before (first ++ second) =
      (transcript t frontEnd run before first).bind fun after => transcript t frontEnd run after second :=
  List.foldlM_append ..

theorem transcript_cons {frontEnd : FrontEnd} {run : JobRun} {before : List TranscriptSegment}
    {chunk : JobChunk} {rest : List JobChunk} :
    transcript t frontEnd run before (chunk :: rest) =
      (advance t frontEnd run before chunk).bind fun after => transcript t frontEnd run after rest := rfl

/-! ## Ranges and texts are enough -/

theorem deduplicateFirst_essence (previous first : TranscriptSegment) (rest : List TranscriptSegment) :
    (deduplicateFirst t previous first rest).map essence =
      deduplicateFirst t (essence previous) (essence first) (rest.map essence) := by
  unfold deduplicateFirst
  dsimp only
  by_cases hmatch : (deduplicate t previous.displayText first.originalText).matchedUnits > 0
  · have hmatch' : (deduplicate t (essence previous).displayText
        (essence first).originalText).matchedUnits > 0 := hmatch
    rw [if_pos hmatch, if_pos hmatch']
    by_cases hempty : (deduplicate t previous.displayText first.originalText).text.isEmpty ∧
        first.endMs ≤ previous.endMs
    · have hempty' : (deduplicate t (essence previous).displayText
          (essence first).originalText).text.isEmpty ∧ (essence first).endMs ≤ (essence previous).endMs := hempty
      rw [if_pos hempty, if_pos hempty']
    · have hempty' : ¬ ((deduplicate t (essence previous).displayText
          (essence first).originalText).text.isEmpty ∧
          (essence first).endMs ≤ (essence previous).endMs) := hempty
      rw [if_neg hempty, if_neg hempty']
      rfl
  · have hmatch' : ¬ (deduplicate t (essence previous).displayText
        (essence first).originalText).matchedUnits > 0 := hmatch
    rw [if_neg hmatch, if_neg hmatch']
    rfl

theorem prependPreserved_essence (newId : QString) (previousEnd chunkEnd : Int) (preserved : List QString)
    (remaining : List TranscriptSegment) :
    (prependPreserved newId previousEnd chunkEnd preserved remaining).map essence =
      (prependPreserved [] previousEnd chunkEnd preserved (remaining.map essence)).map essence := by
  unfold prependPreserved
  split
  · rw [map_essence_essence]
  · cases remaining with
    | nil => rfl
    | cons first rest =>
      show essence _ :: rest.map essence = essence _ :: (rest.map essence).map essence
      rw [map_essence_essence]
      rfl

theorem clampFirst_essence (previousEnd : Int) (list : List TranscriptSegment) :
    (clampFirst previousEnd list).map essence = clampFirst previousEnd (list.map essence) := by
  cases list with
  | nil => rfl
  | cons first rest =>
    show List.map essence (if first.startMs < previousEnd then _ else _) =
      if first.startMs < previousEnd then _ else _
    split <;> rfl

theorem clampFirst_congr {previousEnd : Int} {first second : List TranscriptSegment}
    (h : first.map essence = second.map essence) :
    (clampFirst previousEnd first).map essence = (clampFirst previousEnd second).map essence := by
  rw [clampFirst_essence, h, ← clampFirst_essence]

theorem reconcileOverlap_essence (newId : QString) (previous : TranscriptSegment) (chunkEnd : Int)
    (incoming : List TranscriptSegment) :
    (reconcileOverlap t newId previous chunkEnd incoming).map essence =
      (reconcileOverlap t [] (essence previous) chunkEnd (incoming.map essence)).map essence := by
  cases incoming with
  | nil => rfl
  | cons first rest =>
    rw [List.map_cons]
    unfold reconcileOverlap
    dsimp only
    rw [← deduplicateFirst_essence, List.takeWhile_map, List.dropWhile_map]
    have hpreserved : ∀ ended : List TranscriptSegment,
        preservedText (ended.map essence) = preservedText ended := by
      intro ended
      unfold preservedText
      rw [List.map_map]
      rfl
    rw [hpreserved]
    exact clampFirst_congr (prependPreserved_essence ..)

/-- **The application** commits by ranges and texts. -/
theorem guiChunkSegments_essence (newId : QString) (terms : List GlossaryTerm) (chunk : JobChunk)
    (previous currentSegments : List TranscriptSegment) :
    (guiChunkSegments t newId terms chunk previous currentSegments).map essence =
      (guiChunkSegments t [] terms chunk (previous.map essence) (currentSegments.map essence)).map
        essence := by
  -- the glossary looks at the original text alone
  have hprocessed : ∀ {first second : List TranscriptSegment}, first.map essence = second.map essence →
      (first.map fun segment => { postProcessSegment t terms segment with provisional := false }).map essence =
        (second.map fun segment => { postProcessSegment t terms segment with provisional := false }).map
          essence := by
    intro first second h
    have hpost : ∀ list : List TranscriptSegment,
        (list.map fun segment => { postProcessSegment t terms segment with provisional := false }).map
          essence = (list.map essence).map fun segment => essence (postProcessSegment t terms segment) := by
      intro list
      rw [List.map_map, List.map_map]
      rfl
    rw [hpost, hpost, h]
  unfold guiChunkSegments
  rw [List.getLast?_map]
  cases previous.getLast? with
  | none => exact hprocessed (map_essence_essence _).symm
  | some last =>
    refine hprocessed ?_
    dsimp only [Option.map_some]
    split
    · exact reconcileOverlap_essence ..
    · exact (map_essence_essence _).symm

theorem reconcileAll_essence :
    ∀ {list : List TranscriptSegment} {previousEnd : Int},
      (reconcileAll previousEnd list).map (·.map essence) = reconcileAll previousEnd (list.map essence) := by
  intro list
  induction list with
  | nil => intro previousEnd; rfl
  | cons segment rest ih =>
    intro previousEnd
    have hrest := @ih segment.endMs
    by_cases h : max segment.startMs previousEnd < segment.endMs
    · have h' : max (essence segment).startMs previousEnd < (essence segment).endMs := h
      have hend : (essence segment).endMs = segment.endMs := rfl
      rw [List.map_cons, reconcileAll_cons h, reconcileAll_cons h', hend, ← hrest]
      cases reconcileAll segment.endMs rest <;> rfl
    · have h' : (essence segment).endMs ≤ max (essence segment).startMs previousEnd := not_lt.mp h
      rw [List.map_cons, reconcileAll_empty (not_lt.mp h), reconcileAll_empty h']
      rfl

/-- What the loop keeps goes on from the end before it. -/
theorem reconcileAll_chain :
    ∀ {list out : List TranscriptSegment} {previousEnd : Int}, reconcileAll previousEnd list = .ok out →
      Chain TranscriptSegment.startMs TranscriptSegment.endMs (some previousEnd) out := by
  intro list
  induction list with
  | nil =>
    intro out previousEnd h
    cases h
    trivial
  | cons segment rest ih =>
    intro out previousEnd h
    by_cases hlt : max segment.startMs previousEnd < segment.endMs
    · rw [reconcileAll_cons hlt] at h
      cases hrest : reconcileAll segment.endMs rest with
      | error message => rw [hrest] at h; cases h
      | ok tail =>
        rw [hrest] at h
        cases h
        refine ⟨fun p hp => ?_, hlt, ih hrest⟩
        cases hp
        exact le_max_right ..
    · rw [reconcileAll_empty (not_lt.mp hlt)] at h
      cases h

/-- It cuts ranges at the front, and nothing else. -/
theorem mem_reconcileAll :
    ∀ {list out : List TranscriptSegment} {previousEnd : Int}, reconcileAll previousEnd list = .ok out →
      ∀ segment ∈ out, ∃ source ∈ list, ∃ startMs, source.startMs ≤ startMs ∧ startMs < source.endMs ∧
        segment = { source with startMs } := by
  intro list
  induction list with
  | nil =>
    intro out previousEnd h segment hmem
    cases h
    cases hmem
  | cons first rest ih =>
    intro out previousEnd h segment hmem
    by_cases hlt : max first.startMs previousEnd < first.endMs
    · rw [reconcileAll_cons hlt] at h
      cases hrest : reconcileAll first.endMs rest with
      | error message => rw [hrest] at h; cases h
      | ok tail =>
        rw [hrest] at h
        cases h
        rcases List.mem_cons.mp hmem with rfl | hmem
        · exact ⟨first, List.mem_cons_self .., _, le_max_left .., hlt, rfl⟩
        · obtain ⟨source, hsource, hcut⟩ := ih hrest segment hmem
          exact ⟨source, List.mem_cons_of_mem _ hsource, hcut⟩
    · rw [reconcileAll_empty (not_lt.mp hlt)] at h
      cases h

/-- The loop depends on what it keeps. -/
theorem reconcileAll_congr {previousEnd : Int} {first second : List TranscriptSegment}
    (h : first.map essence = second.map essence) :
    (reconcileAll previousEnd first).map (·.map essence) =
      (reconcileAll previousEnd second).map (·.map essence) := by
  rw [reconcileAll_essence, h, ← reconcileAll_essence]

theorem cliDeduplicateFirst_essence (last first : TranscriptSegment) (rest : List TranscriptSegment) :
    (cliDeduplicateFirst t last first rest).map essence =
      cliDeduplicateFirst t (essence last) (essence first) (rest.map essence) := by
  unfold cliDeduplicateFirst
  dsimp only
  by_cases hempty : (trimmed (deduplicate t last.displayText first.originalText).text).isEmpty
  · have hempty' : (trimmed (deduplicate t (essence last).displayText
        (essence first).originalText).text).isEmpty := hempty
    rw [if_pos hempty, if_pos hempty']
  · have hempty' : ¬ (trimmed (deduplicate t (essence last).displayText
        (essence first).originalText).text).isEmpty := hempty
    rw [if_neg hempty, if_neg hempty']
    rfl

theorem cliChunkSegments_essence (terms : List GlossaryTerm) (chunk : JobChunk)
    (segments incoming : List TranscriptSegment) :
    (cliChunkSegments t terms chunk segments incoming).map (·.map essence) =
      (cliChunkSegments t terms chunk (segments.map essence) (incoming.map essence)).map (·.map essence) := by
  have hprocessed : ∀ {first second : List TranscriptSegment}, first.map essence = second.map essence →
      (first.map (postProcessSegment t terms)).map essence =
        (second.map (postProcessSegment t terms)).map essence := by
    intro first second h
    have hpost : ∀ list : List TranscriptSegment, (list.map (postProcessSegment t terms)).map essence =
        (list.map essence).map fun segment => essence (postProcessSegment t terms segment) := by
      intro list
      rw [List.map_map, List.map_map]
      rfl
    rw [hpost, hpost, h]
  unfold cliChunkSegments
  dsimp only
  have hend : (segments.map essence).getLast?.map (·.endMs) = segments.getLast?.map (·.endMs) := by
    rw [List.getLast?_map, Option.map_map]
    rfl
  rw [hend]
  refine reconcileAll_congr (hprocessed ?_)
  rw [List.getLast?_map]
  cases segments.getLast? with
  | none => exact (map_essence_essence _).symm
  | some last =>
    cases incoming with
    | nil => rfl
    | cons first rest =>
      rw [Option.map_some, List.map_cons]
      dsimp only
      split
      · rw [← cliDeduplicateFirst_essence, map_essence_essence]
      · exact (map_essence_essence (first :: rest)).symm

/-- **The front ends** commit by ranges and texts. -/
theorem cliReconcile_essence (run : JobRun) (chunk : JobChunk) (segments incoming : List TranscriptSegment) :
    (cliReconcile t run chunk segments incoming).toOption.map (·.map essence) =
      (cliReconcile t run chunk (segments.map essence) (incoming.map essence)).toOption.map
        (·.map essence) := by
  have h := cliChunkSegments_essence (t := t) (cliTerms run) chunk segments incoming
  unfold cliReconcile
  cases hleft : cliChunkSegments t (cliTerms run) chunk segments incoming with
  | ok left =>
    cases hright : cliChunkSegments t (cliTerms run) chunk (segments.map essence) (incoming.map essence) with
    | ok right =>
      rw [hleft, hright] at h
      exact congrArg some (Except.ok.inj h)
    | error message =>
      rw [hleft, hright] at h
      cases h
  | error message =>
    cases hright : cliChunkSegments t (cliTerms run) chunk (segments.map essence) (incoming.map essence) with
    | ok right =>
      rw [hleft, hright] at h
      cases h
    | error message' => rfl

end BreezeDesk.Resume
