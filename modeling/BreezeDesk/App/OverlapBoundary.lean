/-
  The boundary of two overlapping chunks, in the desktop application and on the command line.

  Both front ends cut the words that the first incoming segment repeats from the last committed one,
  apply the glossary, and keep new segments out of the time that is already committed:

  * the application (`guiChunkSegments`, from `reconcileOverlap` and the loop after it) drops segments
    that end inside committed time, moves their text into the next segment, and never fails;
  * the command line (`cliChunkSegments`) drops the first segment when nothing of its text is left,
    and refuses the chunk when any segment ends inside committed time.

  `boundary_agrees_iff` is the exact condition under which both commit the same times and texts.  It
  fails in two ways: a segment with text of its own that ends inside committed time makes the command
  line refuse the chunk, and a fully repeated segment that ends after it is dropped by the command
  line and kept, with an empty text, by the application.
-/
import BreezeDesk.Asr.OverlapDeduplicator
import BreezeDesk.Asr.WorkerSegments
import BreezeDesk.Glossary.PostProcessor

namespace BreezeDesk.App

open Asr Ranges

variable (t : CharTables)

/-! ## The glossary on a segment -/

/-- `applyExplicitAliases` on the original text, stored as edited text and audit. -/
def postProcessSegment (terms : List GlossaryTerm) (segment : TranscriptSegment) : TranscriptSegment :=
  let postProcessed := applyExplicitAliases t segment.originalText terms
  { segment with
    editedText := if postProcessed.replacements.isEmpty then [] else postProcessed.text
    replacementAudit := auditToJson postProcessed.replacements }

/-! ## The application -/

/-- The text of the segments that `reconcileOverlap` drops, trimmed, without the blank ones. -/
def preservedText (ended : List TranscriptSegment) : List QString :=
  (ended.map fun segment => trimmed segment.originalText).filter fun text => !text.isEmpty

/-- The text that was dropped goes in front of the next segment, or into one of its own. -/
def prependPreserved (newId : QString) (previousEnd chunkEnd : Int) (preserved : List QString)
    (remaining : List TranscriptSegment) : List TranscriptSegment :=
  if preserved.isEmpty then remaining
  else
    match remaining with
    | [] => [{ id := newId, startMs := previousEnd, endMs := max (previousEnd + 1) chunkEnd,
               originalText := joinSpace preserved }]
    | first :: rest =>
      { first with originalText := simplified (joinSpace preserved ++ [space] ++ first.originalText) } ::
        rest

/-- The first segment may not start inside committed time. -/
def clampFirst (previousEnd : Int) : List TranscriptSegment → List TranscriptSegment
  | [] => []
  | first :: rest =>
    if first.startMs < previousEnd then
      { first with
        startMs := previousEnd
        endMs := if first.endMs ≤ previousEnd then previousEnd + 1 else first.endMs } :: rest
    else first :: rest

/-- The first half of `reconcileOverlap`: the repeated words go. -/
def deduplicateFirst (previous first : TranscriptSegment) (rest : List TranscriptSegment) :
    List TranscriptSegment :=
  let deduplicated := deduplicate t previous.displayText first.originalText
  if deduplicated.matchedUnits > 0 then
    if deduplicated.text.isEmpty ∧ first.endMs ≤ previous.endMs then rest
    else { first with originalText := deduplicated.text } :: rest
  else first :: rest

/-- `reconcileOverlap`; `newId` is the UUID of the segment it may create. -/
def reconcileOverlap (newId : QString) (previous : TranscriptSegment) (chunkEnd : Int)
    (incoming : List TranscriptSegment) : List TranscriptSegment :=
  match incoming with
  | [] => []
  | first :: rest =>
    let incoming := deduplicateFirst t previous first rest
    let ended := incoming.takeWhile fun segment => segment.endMs ≤ previous.endMs
    let remaining := incoming.dropWhile fun segment => segment.endMs ≤ previous.endMs
    clampFirst previous.endMs
      (prependPreserved newId previous.endMs chunkEnd (preservedText ended) remaining)

/-- What `finalizeCurrentChunk` hands to the repository. -/
def guiChunkSegments (newId : QString) (terms : List GlossaryTerm) (chunk : JobChunk)
    (previous currentSegments : List TranscriptSegment) : List TranscriptSegment :=
  let reconciled :=
    match previous.getLast? with
    | some last =>
      if chunk.overlapBeforeMs > 0 then reconcileOverlap t newId last chunk.endMs currentSegments
      else currentSegments
    | none => currentSegments
  reconciled.map fun segment => { postProcessSegment t terms segment with provisional := false }

/-! ## The command line -/

def emptyRangeMessage : QString := qs "The ASR worker returned an empty segment time range."

/-- The loop over `incoming` that reconciles each range with the end before it. -/
def reconcileAll : Int → List TranscriptSegment → Except QString (List TranscriptSegment)
  | _, [] => .ok []
  | previousEnd, segment :: rest =>
    let reconciled := reconcileWorkerSegmentRange
      { startMs := segment.startMs, endMs := segment.endMs } previousEnd
    if reconciled.error ≠ .none then .error emptyRangeMessage
    else
      match reconcileAll reconciled.endMs rest with
      | .error message => .error message
      | .ok tail => .ok ({ segment with startMs := reconciled.startMs, endMs := reconciled.endMs } :: tail)

/-- The first segment goes when nothing of its text is left, else it keeps what is left. -/
def cliDeduplicateFirst (last first : TranscriptSegment) (rest : List TranscriptSegment) :
    List TranscriptSegment :=
  let deduplicated := deduplicate t last.displayText first.originalText
  if (trimmed deduplicated.text).isEmpty then rest
  else { first with originalText := deduplicated.text } :: rest

/-- What the command line's chunk loop hands to `completeChunk`, or the reason it fails the job. -/
def cliChunkSegments (terms : List GlossaryTerm) (chunk : JobChunk)
    (segments incoming : List TranscriptSegment) : Except QString (List TranscriptSegment) :=
  let deduplicated :=
    match segments.getLast?, incoming with
    | some last, first :: rest =>
      if chunk.overlapBeforeMs > 0 then cliDeduplicateFirst t last first rest else incoming
    | _, _ => incoming
  let previousEnd := (segments.getLast?.map (·.endMs)).getD 0
  reconcileAll previousEnd (deduplicated.map (postProcessSegment t terms))

/-! ## Times and texts -/

variable {t}

@[simp] theorem content_postProcessSegment (terms : List GlossaryTerm) (segment : TranscriptSegment) :
    (postProcessSegment t terms segment).content = segment.content := rfl

theorem map_content_postProcess (terms : List GlossaryTerm) (list : List TranscriptSegment) :
    (list.map (postProcessSegment t terms)).map TranscriptSegment.content =
      list.map TranscriptSegment.content := by
  rw [List.map_map]
  rfl

theorem map_content_commit (terms : List GlossaryTerm) (list : List TranscriptSegment) :
    (list.map fun segment => { postProcessSegment t terms segment with provisional := false }).map
      TranscriptSegment.content = list.map TranscriptSegment.content := by
  rw [List.map_map]
  rfl

theorem timeOrdered_postProcess (terms : List GlossaryTerm) {list : List TranscriptSegment}
    (h : TimeOrdered list) : TimeOrdered (list.map (postProcessSegment t terms)) := by
  refine (ordered_congr ?_).mpr h
  rw [List.map_map]
  rfl

/-! ## The command line's loop -/

theorem reconcileAll_cons {previousEnd : Int} {segment : TranscriptSegment}
    {rest : List TranscriptSegment} (h : max segment.startMs previousEnd < segment.endMs) :
    reconcileAll previousEnd (segment :: rest) =
      (reconcileAll segment.endMs rest).map
        ({ segment with startMs := max segment.startMs previousEnd } :: ·) := by
  have hok : reconcileWorkerSegmentRange { startMs := segment.startMs, endMs := segment.endMs }
      previousEnd = { startMs := max segment.startMs previousEnd, endMs := segment.endMs } := by
    simp only [reconcileWorkerSegmentRange, ne_eq, not_true_eq_false, if_false]
    rw [if_neg (by omega)]
  simp only [reconcileAll, hok, ne_eq, not_true_eq_false, if_false]
  cases reconcileAll segment.endMs rest <;> rfl

/-- A range that is empty once it is cut makes the loop fail. -/
theorem reconcileAll_empty {previousEnd : Int} {segment : TranscriptSegment}
    {rest : List TranscriptSegment} (h : segment.endMs ≤ max segment.startMs previousEnd) :
    reconcileAll previousEnd (segment :: rest) = .error emptyRangeMessage := by
  have hempty : (reconcileWorkerSegmentRange { startMs := segment.startMs, endMs := segment.endMs }
      previousEnd).error = .emptyRange := by
    simp only [reconcileWorkerSegmentRange, ne_eq, not_true_eq_false, if_false]
    rw [if_pos (by omega)]
  simp only [reconcileAll, hempty]
  rfl

/-- A segment that ends inside committed time makes the loop fail. -/
theorem reconcileAll_error {previousEnd : Int} {segment : TranscriptSegment}
    {rest : List TranscriptSegment} (h : segment.endMs ≤ previousEnd) :
    reconcileAll previousEnd (segment :: rest) = .error emptyRangeMessage :=
  reconcileAll_empty (by omega)

/-- Ordered segments after `previousEnd` pass as they are. -/
theorem reconcileAll_ordered :
    ∀ {list : List TranscriptSegment} {previousEnd : Int}, TimeOrdered list →
      (∀ segment ∈ list, previousEnd ≤ segment.startMs) → reconcileAll previousEnd list = .ok list := by
  intro list
  induction list with
  | nil => intro previousEnd _ _; rfl
  | cons segment rest ih =>
    intro previousEnd hord hafter
    have hpos := hord.positive segment (List.mem_cons_self ..)
    have hstart := hafter segment (List.mem_cons_self ..)
    have hmax : max segment.startMs previousEnd = segment.startMs := Int.max_eq_left hstart
    rw [reconcileAll_cons (by omega), hmax,
      ih hord.tail (List.pairwise_cons.mp hord.pairwise).1]
    rfl

/-- Of ordered segments only the first one can reach into committed time. -/
theorem reconcileAll_first {previousEnd : Int} {first : TranscriptSegment}
    {rest : List TranscriptSegment} (hord : TimeOrdered (first :: rest)) (hend : previousEnd < first.endMs) :
    reconcileAll previousEnd (first :: rest) =
      .ok ({ first with startMs := max first.startMs previousEnd } :: rest) := by
  have hpos := hord.positive first (List.mem_cons_self ..)
  rw [reconcileAll_cons (by omega),
    reconcileAll_ordered hord.tail (List.pairwise_cons.mp hord.pairwise).1]
  rfl

theorem reconcileAll_length :
    ∀ {list out : List TranscriptSegment} {previousEnd : Int},
      reconcileAll previousEnd list = .ok out → out.length = list.length := by
  intro list
  induction list with
  | nil => intro out previousEnd h; cases h; rfl
  | cons segment rest ih =>
    intro out previousEnd h
    by_cases hmax : max segment.startMs previousEnd < segment.endMs
    · rw [reconcileAll_cons hmax] at h
      cases htail : reconcileAll segment.endMs rest with
      | error message => rw [htail] at h; cases h
      | ok tail =>
        rw [htail] at h
        cases h
        simp only [List.length_cons, ih htail]
    · rw [reconcileAll_empty (by omega)] at h
      cases h

/-! ## The application's boundary -/

theorem clampFirst_first {previousEnd : Int} {first : TranscriptSegment}
    {rest : List TranscriptSegment} (hend : previousEnd < first.endMs) :
    clampFirst previousEnd (first :: rest) =
      { first with startMs := max first.startMs previousEnd } :: rest := by
  simp only [clampFirst]
  by_cases h : first.startMs < previousEnd
  · rw [if_pos h, if_neg (by omega), Int.max_eq_right (by omega)]
  · rw [if_neg h, Int.max_eq_left (by omega)]

theorem preservedText_blank {ended : List TranscriptSegment}
    (h : ∀ segment ∈ ended, trimmed segment.originalText = []) : preservedText ended = [] := by
  unfold preservedText
  rw [List.filter_eq_nil_iff]
  intro text htext
  obtain ⟨segment, hmem, rfl⟩ := List.mem_map.mp htext
  rw [h segment hmem]
  decide

/-- What is left of the first incoming text once the repeated words are cut. -/
def remainingText (t : CharTables) (previous first : TranscriptSegment) : QString :=
  (deduplicate t previous.displayText first.originalText).text

/-- The first incoming text only repeats what is committed. -/
def FullyRepeated (t : CharTables) (previous first : TranscriptSegment) : Prop :=
  (trimmed (remainingText t previous first)).isEmpty = true

instance (t : CharTables) (previous first : TranscriptSegment) :
    Decidable (FullyRepeated t previous first) :=
  inferInstanceAs (Decidable (_ = true))

/-- The first half of `reconcileOverlap` either drops an ended, empty segment or keeps what is left. -/
theorem deduplicateFirst_cases (previous first : TranscriptSegment) (rest : List TranscriptSegment) :
    (FullyRepeated t previous first ∧ first.endMs ≤ previous.endMs ∧
        deduplicateFirst t previous first rest = rest) ∨
      deduplicateFirst t previous first rest =
        { first with originalText := remainingText t previous first } :: rest := by
  unfold deduplicateFirst
  dsimp only
  by_cases hmatch : (deduplicate t previous.displayText first.originalText).matchedUnits > 0
  · rw [if_pos hmatch]
    by_cases hempty : (deduplicate t previous.displayText first.originalText).text.isEmpty ∧
        first.endMs ≤ previous.endMs
    · rw [if_pos hempty]
      refine Or.inl ⟨?_, hempty.2, rfl⟩
      show (trimmed _).isEmpty = true
      rw [remainingText, deduplicate_text_of_matched (by omega)]
      exact hempty.1
    · rw [if_neg hempty]
      exact Or.inr rfl
  · rw [if_neg hmatch]
    right
    have hsame : remainingText t previous first = first.originalText :=
      deduplicate_text_of_unmatched (by omega)
    rw [hsame]

/-- **The application at the boundary**, when the first segment with text ends after committed time:
    nothing is dropped but text that is blank. -/
theorem reconcileOverlap_kept {newId : QString} {previous first : TranscriptSegment} {chunkEnd : Int}
    {rest : List TranscriptSegment} (hend : previous.endMs < first.endMs) :
    reconcileOverlap t newId previous chunkEnd (first :: rest) =
      { first with
        originalText := remainingText t previous first
        startMs := max first.startMs previous.endMs } :: rest := by
  rcases deduplicateFirst_cases (t := t) previous first rest with ⟨-, hle, -⟩ | hkeep
  · omega
  · have hnot : ¬ decide (first.endMs ≤ previous.endMs) = true := by
      rw [decide_eq_true_eq]
      omega
    unfold reconcileOverlap
    simp only [hkeep, List.takeWhile_cons, List.dropWhile_cons, if_neg hnot]
    have hnone : prependPreserved newId previous.endMs chunkEnd (preservedText [])
        ({ first with originalText := remainingText t previous first } :: rest) =
        { first with originalText := remainingText t previous first } :: rest := rfl
    rw [hnone, clampFirst_first (by exact hend)]

/-- When the first segment only repeats and ends in committed time, the application goes on with the
    others as they are. -/
theorem reconcileOverlap_repeated {newId : QString} {previous first : TranscriptSegment}
    {chunkEnd : Int} {rest : List TranscriptSegment} (hrep : FullyRepeated t previous first)
    (hend : first.endMs ≤ previous.endMs)
    (hrest : ∀ second, rest.head? = some second → previous.endMs < second.endMs) :
    reconcileOverlap t newId previous chunkEnd (first :: rest) = clampFirst previous.endMs rest := by
  -- the segments after the first one are all kept
  have htake : rest.takeWhile (fun segment => decide (segment.endMs ≤ previous.endMs)) = [] := by
    cases rest with
    | nil => rfl
    | cons second rest =>
      have := hrest second rfl
      rw [List.takeWhile_cons, if_neg (by rw [decide_eq_true_eq]; omega)]
  have hdrop : rest.dropWhile (fun segment => decide (segment.endMs ≤ previous.endMs)) = rest := by
    cases rest with
    | nil => rfl
    | cons second rest =>
      have := hrest second rfl
      rw [List.dropWhile_cons, if_neg (by rw [decide_eq_true_eq]; omega)]
  unfold reconcileOverlap
  dsimp only
  rcases deduplicateFirst_cases (t := t) previous first rest with ⟨-, -, hdropped⟩ | hkeep
  · rw [hdropped, htake, hdrop]
    rfl
  · have hpos : decide (first.endMs ≤ previous.endMs) = true := decide_eq_true hend
    rw [hkeep, List.takeWhile_cons, List.dropWhile_cons]
    simp only [hpos, if_true, htake, hdrop]
    have hblank : preservedText [{ first with originalText := remainingText t previous first }] = [] :=
      preservedText_blank fun segment hmem => by
        rw [List.mem_singleton.mp hmem]
        exact List.isEmpty_iff.mp hrep
    rw [hblank]
    rfl

/-! ## Agreement -/

/-- Both front ends commit the same times and texts for the chunk. -/
def SameCommit (t : CharTables) (newId : QString) (terms : List GlossaryTerm) (chunk : JobChunk)
    (committed incoming : List TranscriptSegment) : Prop :=
  ∃ out, cliChunkSegments t terms chunk committed incoming = .ok out ∧
    out.map TranscriptSegment.content =
      (guiChunkSegments t newId terms chunk committed incoming).map TranscriptSegment.content

/-- **The condition.**  The first incoming segment brings text of its own and ends after committed
    time; or it only repeats, ends by committed time, and the next one ends after it. -/
def BoundaryAgrees (t : CharTables) (committed incoming : List TranscriptSegment) : Prop :=
  ∀ previous first rest, committed.getLast? = some previous → incoming = first :: rest →
    if FullyRepeated t previous first then
      first.endMs ≤ previous.endMs ∧
        ∀ second, rest.head? = some second → previous.endMs < second.endMs
    else previous.endMs < first.endMs

variable {newId : QString} {terms : List GlossaryTerm} {chunk : JobChunk}
  {committed incoming : List TranscriptSegment}

theorem guiChunkSegments_content {previous : TranscriptSegment} (hlast : committed.getLast? = some previous)
    (hoverlap : 0 < chunk.overlapBeforeMs) :
    (guiChunkSegments t newId terms chunk committed incoming).map TranscriptSegment.content =
      (reconcileOverlap t newId previous chunk.endMs incoming).map TranscriptSegment.content := by
  simp only [guiChunkSegments, hlast, gt_iff_lt, if_pos hoverlap, map_content_commit]

theorem cliChunkSegments_eq {previous first : TranscriptSegment} {rest : List TranscriptSegment}
    (hlast : committed.getLast? = some previous) (hoverlap : 0 < chunk.overlapBeforeMs) :
    cliChunkSegments t terms chunk committed (first :: rest) =
      reconcileAll previous.endMs
        ((cliDeduplicateFirst t previous first rest).map (postProcessSegment t terms)) := by
  simp only [cliChunkSegments, hlast, gt_iff_lt, if_pos hoverlap, Option.map_some, Option.getD_some]

theorem cliDeduplicateFirst_repeated {previous first : TranscriptSegment}
    {rest : List TranscriptSegment} (h : FullyRepeated t previous first) :
    cliDeduplicateFirst t previous first rest = rest := by
  unfold cliDeduplicateFirst
  exact if_pos h

theorem cliDeduplicateFirst_own {previous first : TranscriptSegment} {rest : List TranscriptSegment}
    (h : ¬ FullyRepeated t previous first) :
    cliDeduplicateFirst t previous first rest =
      { first with originalText := remainingText t previous first } :: rest := by
  unfold cliDeduplicateFirst
  exact if_neg h

/-- Without committed or without incoming segments both keep the chunk as it came. -/
theorem sameCommit_of_none (hnone : committed.getLast? = none ∨ incoming = [])
    (hord : TimeOrdered incoming) (hnonneg : ∀ segment ∈ incoming, 0 ≤ segment.startMs) :
    SameCommit t newId terms chunk committed incoming := by
  rcases hnone with hnone | rfl
  · refine ⟨incoming.map (postProcessSegment t terms), ?_, ?_⟩
    · have hcli : cliChunkSegments t terms chunk committed incoming =
          reconcileAll 0 (incoming.map (postProcessSegment t terms)) := by
        simp only [cliChunkSegments, hnone, Option.map_none, Option.getD_none]
      rw [hcli]
      refine reconcileAll_ordered (timeOrdered_postProcess terms hord) fun segment hmem => ?_
      obtain ⟨source, hsource, rfl⟩ := List.mem_map.mp hmem
      exact hnonneg source hsource
    · simp only [guiChunkSegments, hnone, map_content_commit, map_content_postProcess]
  · refine ⟨[], ?_, ?_⟩
    · unfold cliChunkSegments
      cases committed.getLast? <;> rfl
    · unfold guiChunkSegments
      cases committed.getLast? with
      | none => rfl
      | some last =>
        dsimp only
        split <;> rfl

/-- **Agreement at an overlapped boundary**, for every sorted list of accepted worker segments. -/
theorem boundary_agrees_iff (t : CharTables) (newId : QString) (terms : List GlossaryTerm)
    (chunk : JobChunk) (committed incoming : List TranscriptSegment) (recordingDurationMs : Int)
    (hoverlap : 0 < chunk.overlapBeforeMs)
    (hsorted : incoming.Pairwise fun a b => a.endMs ≤ b.startMs)
    (haccepted : ∀ segment ∈ incoming,
      AcceptedRange chunk recordingDurationMs segment.startMs segment.endMs) :
    SameCommit t newId terms chunk committed incoming ↔ BoundaryAgrees t committed incoming := by
  have hord : TimeOrdered incoming :=
    ⟨hsorted, fun segment hmem => (haccepted segment hmem).inside.start_lt_end⟩
  cases hlast : committed.getLast? with
  | none =>
    constructor
    · intro _ previous first rest hprevious _
      rw [hlast] at hprevious
      cases hprevious
    · intro _
      exact sameCommit_of_none (Or.inl hlast) hord fun segment hmem =>
        (haccepted segment hmem).inside.nonneg
  | some previous =>
    cases incoming with
    | nil =>
      constructor
      · intro _ previous first rest _ hcons
        cases hcons
      · intro _
        exact sameCommit_of_none (Or.inr rfl) hord fun segment hmem => by cases hmem
    | cons first rest =>
      have hcondition : BoundaryAgrees t committed (first :: rest) ↔
          if FullyRepeated t previous first then
            first.endMs ≤ previous.endMs ∧
              ∀ second, rest.head? = some second → previous.endMs < second.endMs
          else previous.endMs < first.endMs := by
        constructor
        · intro h
          exact h previous first rest hlast rfl
        · intro h previous' first' rest' hprevious hcons
          rw [hlast] at hprevious
          cases hprevious
          cases hcons
          exact h
      rw [hcondition]
      unfold SameCommit
      rw [guiChunkSegments_content hlast hoverlap, cliChunkSegments_eq hlast hoverlap]
      by_cases hrep : FullyRepeated t previous first
      · rw [if_pos hrep, cliDeduplicateFirst_repeated hrep]
        constructor
        · rintro ⟨out, hout, hsame⟩
          -- the command line has one segment less, unless the application drops the first one too
          have hend : first.endMs ≤ previous.endMs := by
            by_contra hafter
            rw [reconcileOverlap_kept (by omega)] at hsame
            have hlen := congrArg List.length hsame
            have hcount := reconcileAll_length hout
            simp only [List.length_map, List.length_cons] at hlen hcount
            omega
          refine ⟨hend, fun second hsecond => ?_⟩
          by_contra hinside
          cases rest with
          | nil => cases hsecond
          | cons second' rest =>
            cases hsecond
            rw [List.map_cons, reconcileAll_error (by show second.endMs ≤ _; omega)] at hout
            cases hout
        · rintro ⟨hend, hrest⟩
          rw [reconcileOverlap_repeated hrep hend hrest]
          cases rest with
          | nil => exact ⟨[], rfl, rfl⟩
          | cons second rest =>
            have hsecond := hrest second rfl
            have hord' := timeOrdered_postProcess (t := t) terms hord.tail
            rw [List.map_cons] at hord' ⊢
            refine ⟨_, reconcileAll_first hord' hsecond, ?_⟩
            rw [clampFirst_first hsecond, List.map_cons, List.map_cons, map_content_postProcess]
            rfl
      · rw [if_neg hrep, cliDeduplicateFirst_own hrep]
        constructor
        · rintro ⟨out, hout, -⟩
          by_contra hinside
          rw [List.map_cons, reconcileAll_error (by show first.endMs ≤ _; omega)] at hout
          cases hout
        · intro hend
          have hcut : TimeOrdered ({ first with originalText := remainingText t previous first } :: rest) :=
            ⟨List.pairwise_cons.mpr (List.pairwise_cons.mp hord.pairwise), fun segment hmem => by
              rcases List.mem_cons.mp hmem with rfl | hmem
              · exact hord.positive first (List.mem_cons_self ..)
              · exact hord.positive segment (List.mem_cons_of_mem _ hmem)⟩
          have hord' := timeOrdered_postProcess (t := t) terms hcut
          rw [List.map_cons] at hord' ⊢
          refine ⟨_, reconcileAll_first hord' hend, ?_⟩
          rw [reconcileOverlap_kept hend, List.map_cons, List.map_cons, map_content_postProcess]
          rfl

/-! ## A boundary after a hard cut -/

/-- The second chunk of a recording of 15 minutes, cut hard at 10 minutes. -/
def secondChunk : JobChunk :=
  { ordinal := 1, startMs := 599100, endMs := 900000, overlapBeforeMs := 900 }

/-- The last segment of the first chunk reaches up to the cut. -/
def segmentAtCut : TranscriptSegment :=
  { startMs := 598000, endMs := 600000, originalText := qs "we ship today" }

def firstChunkSegments : List TranscriptSegment := [segmentAtCut]

/-- The worker hears one more word in the overlap, and goes on after the cut. -/
def wordInOverlap : List TranscriptSegment :=
  [{ startMs := 599100, endMs := 599900, originalText := qs "okay" },
    { startMs := 600000, endMs := 602000, originalText := qs "next topic" }]

/-- The repeated words are cut from a segment that goes on after the cut. -/
def repeatedWords : List TranscriptSegment :=
  [{ startMs := 599100, endMs := 601000, originalText := qs "ship today, then we rest" }]

theorem accepted_of_inside {incoming : List TranscriptSegment}
    (h : ∀ segment ∈ incoming, 599100 ≤ segment.startMs ∧ segment.startMs < segment.endMs ∧
      segment.endMs ≤ 900000) :
    ∀ segment ∈ incoming, AcceptedRange secondChunk 900000 segment.startMs segment.endMs := by
  intro segment hmem
  obtain ⟨hstart, hlt, hend⟩ := h segment hmem
  have hinside : InsideChunk secondChunk 900000 segment.startMs segment.endMs :=
    ⟨by omega, hstart, hlt, hend, hend⟩
  exact hinside.accepted

theorem boundary_agrees_repeatedWords :
    SameCommit asciiTables [] [] secondChunk firstChunkSegments repeatedWords :=
  (boundary_agrees_iff asciiTables [] [] secondChunk firstChunkSegments repeatedWords 900000
    (by decide) (by simp [repeatedWords])
    (accepted_of_inside (by intro segment hmem; rw [List.mem_singleton.mp hmem]; decide))).mpr (by
      intro previous first rest hlast hcons
      cases hlast
      cases hcons
      rw [if_neg (by decide +kernel)]
      decide)

/-- **A word inside the overlap.**  The worker's segments are accepted, sorted and apart, and the
    chunk ends after the committed time; the command line refuses the chunk all the same. -/
theorem boundary_disagrees_wordInOverlap :
    0 < secondChunk.overlapBeforeMs ∧
      (∀ last, firstChunkSegments.getLast? = some last → last.endMs < secondChunk.endMs) ∧
      (wordInOverlap.Pairwise fun a b => a.endMs ≤ b.startMs) ∧
      (∀ segment ∈ wordInOverlap,
        AcceptedRange secondChunk 900000 segment.startMs segment.endMs) ∧
      cliChunkSegments asciiTables [] secondChunk firstChunkSegments wordInOverlap =
        .error emptyRangeMessage ∧
      ¬ SameCommit asciiTables [] [] secondChunk firstChunkSegments wordInOverlap := by
  have hrefused : cliChunkSegments asciiTables [] secondChunk firstChunkSegments wordInOverlap =
      .error emptyRangeMessage := by
    have hlast : firstChunkSegments.getLast? = some segmentAtCut := rfl
    rw [wordInOverlap, cliChunkSegments_eq hlast (by decide),
      cliDeduplicateFirst_own (by decide +kernel), List.map_cons]
    exact reconcileAll_error (by decide)
  refine ⟨by decide, ?_, by simp [wordInOverlap], ?_, hrefused, ?_⟩
  · intro last hlast
    cases hlast
    decide
  · refine accepted_of_inside fun segment hmem => ?_
    rcases List.mem_cons.mp hmem with rfl | hmem
    · decide
    · rw [List.mem_singleton.mp hmem]
      decide
  · rintro ⟨out, hout, -⟩
    rw [hrefused] at hout
    cases hout

end BreezeDesk.App
