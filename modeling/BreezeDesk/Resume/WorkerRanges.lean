/-
  The times of a segment on their way from the worker to the store.

  The worker's times are numbers of 64 bits that nobody has checked.  `validateWorkerSegmentRange` subtracts
  twice, each time behind a test; `validateWorkerSegmentRange64` is the same function with the width of its
  differences written out.  Then the command line runs each accepted range against the end before it
  (`reconcileAll`), and what comes out goes through two more checks, one in `saveChunkSegments` and one in the
  repository.

  `worker_ranges` — no difference overflows, an accepted range is where the worker said up to the tolerance,
  and the two later checks never refuse what the loop lets pass.
-/
import BreezeDesk.Resume.Sessions
import Mathlib.Algebra.Order.Group.Unbundled.Int

namespace BreezeDesk.Resume

open App Asr Ranges

/-! ## Sixty-four bits -/

def IsInt64 (value : Int) : Prop := -2 ^ 63 ≤ value ∧ value < 2 ^ 63

instance : DecidablePred IsInt64 := fun value => inferInstanceAs (Decidable (-2 ^ 63 ≤ value ∧ value < 2 ^ 63))

/-- `left - right` as a `qint64`: nothing when it does not fit. -/
def subtract64 (left right : Int) : Option Int :=
  if IsInt64 (left - right) then some (left - right) else none

/-- `validateWorkerSegmentRange` with its differences on 64 bits, formed in the order of the source's `||`. -/
def validateWorkerSegmentRange64 (payload : QCborMap) (activeChunkStartMs activeChunkEndMs
    recordingDurationMs : Int) : Option WorkerSegmentValidationResult :=
  match readInteger payload (qs "startMs"), readInteger payload (qs "endMs") with
  | some rawStartMs, some rawEndMs =>
    let allowedStartMs := max 0 activeChunkStartMs
    let allowedEndMs := min activeChunkEndMs recordingDurationMs
    if allowedEndMs ≤ allowedStartMs then some { error := .outsideActiveRange }
    else do
      let earliestMs ← subtract64 allowedStartMs WorkerSegmentTimestampToleranceMs
      if rawStartMs < earliestMs then some { error := .outsideActiveRange }
      else do
        let overshootMs ← if rawEndMs > allowedEndMs then subtract64 rawEndMs allowedEndMs else some 0
        if overshootMs > WorkerSegmentTimestampToleranceMs ∨ rawEndMs ≤ rawStartMs then
          some { error := .outsideActiveRange }
        else
          let startMs := max allowedStartMs rawStartMs
          let endMs := min allowedEndMs rawEndMs
          some { startMs, endMs, error := if endMs ≤ startMs then .emptyRange else .none }
  | _, _ => some { error := .malformedTimestamps }

/-- A payload whose integers are a `qint64` each, as `QCborValue` holds them. -/
def Carries64 (payload : QCborMap) : Prop := ∀ key value, readInteger payload key = some value → IsInt64 value

theorem subtract64_eq {left right : Int} (h : IsInt64 (left - right)) :
    subtract64 left right = some (left - right) := if_pos h

/-- **No difference overflows**, whatever the worker sends. -/
theorem validateWorkerSegmentRange64_eq {payload : QCborMap} {startMs endMs durationMs : Int}
    (hpayload : Carries64 payload) (hstart : IsInt64 startMs) :
    validateWorkerSegmentRange64 payload startMs endMs durationMs =
      some (validateWorkerSegmentRange payload startMs endMs durationMs) := by
  unfold validateWorkerSegmentRange64 validateWorkerSegmentRange
  cases hrawStart : readInteger payload (qs "startMs") with
  | none => rfl
  | some rawStartMs =>
    cases hrawEnd : readInteger payload (qs "endMs") with
    | none => rfl
    | some rawEndMs =>
      have hend := hpayload _ _ hrawEnd
      have htolerance : WorkerSegmentTimestampToleranceMs = 1000 := rfl
      unfold IsInt64 at hstart hend
      dsimp only
      generalize hallowedStart : max 0 startMs = allowedStartMs
      generalize min endMs durationMs = allowedEndMs
      by_cases hempty : allowedEndMs ≤ allowedStartMs
      · rw [if_pos hempty, if_pos (Or.inl hempty)]
      -- the allowed range is not empty, so it starts at zero or later and ends behind that
      have hearliest : IsInt64 (allowedStartMs - WorkerSegmentTimestampToleranceMs) := by
        unfold IsInt64
        omega
      have hovershoot : IsInt64 (rawEndMs - allowedEndMs) ∨ rawEndMs ≤ allowedEndMs := by
        unfold IsInt64
        omega
      rw [if_neg hempty, subtract64_eq hearliest, Option.bind_eq_bind, Option.bind_some]
      by_cases hearly : rawStartMs < allowedStartMs - WorkerSegmentTimestampToleranceMs
      · rw [if_pos hearly, if_pos (Or.inr (Or.inl hearly))]
      rw [if_neg hearly]
      by_cases hlate : rawEndMs > allowedEndMs
      · have hfits := hovershoot.resolve_right (by omega)
        rw [if_pos hlate, subtract64_eq hfits, Option.bind_some, ← apply_ite some]
        exact congrArg some (if_congr (by omega) rfl rfl)
      · rw [if_neg hlate, Option.bind_some, ← apply_ite some]
        exact congrArg some (if_congr (by omega) rfl rfl)

/-! ## What is accepted -/

/-- An accepted range: inside what is allowed, and where the worker said up to the tolerance. -/
structure AcceptedWithin (payload : QCborMap) (chunk : JobChunk) (recordingDurationMs startMs endMs : Int) :
    Prop where
  allowed : max 0 chunk.startMs ≤ startMs ∧ startMs < endMs ∧ endMs ≤ min chunk.endMs recordingDurationMs
  near_start : ∃ rawStartMs, readInteger payload (qs "startMs") = some rawStartMs ∧
    |startMs - rawStartMs| ≤ WorkerSegmentTimestampToleranceMs
  near_end : ∃ rawEndMs, readInteger payload (qs "endMs") = some rawEndMs ∧
    |endMs - rawEndMs| ≤ WorkerSegmentTimestampToleranceMs

theorem validateWorkerSegmentRange_within {payload : QCborMap} {chunk : JobChunk}
    {recordingDurationMs startMs endMs : Int}
    (h : validateWorkerSegmentRange payload chunk.startMs chunk.endMs recordingDurationMs =
      { startMs, endMs, error := .none }) :
    AcceptedWithin payload chunk recordingDurationMs startMs endMs := by
  have htolerance : WorkerSegmentTimestampToleranceMs = 1000 := rfl
  unfold validateWorkerSegmentRange at h
  cases hrawStart : readInteger payload (qs "startMs") with
  | none => rw [hrawStart] at h; cases h
  | some rawStartMs =>
    cases hrawEnd : readInteger payload (qs "endMs") with
    | none => rw [hrawStart, hrawEnd] at h; cases h
    | some rawEndMs =>
      rw [hrawStart, hrawEnd] at h
      dsimp only at h
      split at h
      · cases h
      · next hallowed =>
        injection h with hstart hend herror
        split at herror
        · cases herror
        · next hproper =>
          refine ⟨⟨by omega, by omega, by omega⟩, ⟨rawStartMs, hrawStart, ?_⟩, ⟨rawEndMs, hrawEnd, ?_⟩⟩
          · rw [abs_le']
            omega
          · rw [abs_le']
            omega

/-- Nothing wider than 64 bits leaves the validator. -/
theorem validateWorkerSegmentRange_int64 {payload : QCborMap} {startMs endMs durationMs : Int}
    (hpayload : Carries64 payload) (hstart : IsInt64 startMs) :
    IsInt64 (validateWorkerSegmentRange payload startMs endMs durationMs).startMs ∧
      IsInt64 (validateWorkerSegmentRange payload startMs endMs durationMs).endMs := by
  have hzero : IsInt64 0 := by decide
  unfold validateWorkerSegmentRange
  cases hrawStart : readInteger payload (qs "startMs") with
  | none => exact ⟨hzero, hzero⟩
  | some rawStartMs =>
    cases hrawEnd : readInteger payload (qs "endMs") with
    | none => exact ⟨hzero, hzero⟩
    | some rawEndMs =>
      have hfirst := hpayload _ _ hrawStart
      have hlast := hpayload _ _ hrawEnd
      dsimp only
      split
      · exact ⟨hzero, hzero⟩
      · unfold IsInt64 at *
        dsimp only
        omega

/-- Reconciliation only compares: it returns one of the numbers it was given. -/
theorem reconcileWorkerSegmentRange_int64 {validated : WorkerSegmentValidationResult} {previousEndMs : Int}
    (hstart : IsInt64 validated.startMs) (hend : IsInt64 validated.endMs) (hprevious : IsInt64 previousEndMs) :
    IsInt64 (reconcileWorkerSegmentRange validated previousEndMs).startMs ∧
      IsInt64 (reconcileWorkerSegmentRange validated previousEndMs).endMs := by
  unfold reconcileWorkerSegmentRange
  split
  · exact ⟨hstart, hend⟩
  · unfold IsInt64 at *
    dsimp only
    omega

/-! ## The loop -/

/-- The loop over accepted ranges fails at an empty one, or leaves ranges in order that begin no earlier than
    the end it started with. -/
theorem reconcileAll_accepted {chunk : JobChunk} {recordingDurationMs : Int} :
    ∀ {list : List TranscriptSegment} (previousEnd : Int),
      (∀ segment ∈ list, InsideChunk chunk recordingDurationMs segment.startMs segment.endMs) →
      reconcileAll previousEnd list = .error emptyRangeMessage ∨
        ∃ out, reconcileAll previousEnd list = .ok out ∧ TimeOrdered out ∧
          ∀ segment ∈ out, previousEnd ≤ segment.startMs ∧
            InsideChunk chunk recordingDurationMs segment.startMs segment.endMs := by
  intro list
  induction list with
  | nil => exact fun _ _ => Or.inr ⟨[], rfl, Ordered.nil, fun segment hmem => absurd hmem List.not_mem_nil⟩
  | cons segment rest ih =>
    intro previousEnd hinside
    have hsegment := hinside segment (List.mem_cons_self ..)
    by_cases hproper : max segment.startMs previousEnd < segment.endMs
    · rw [reconcileAll_cons hproper]
      rcases ih segment.endMs fun other hmem => hinside other (List.mem_cons_of_mem _ hmem) with
        hempty | ⟨out, hout, hordered, hbounds⟩
      · rw [hempty]
        exact Or.inl rfl
      · rw [hout]
        refine Or.inr ⟨_, rfl, ordered_cons.mpr ⟨fun other hmem => (hbounds other hmem).1, hproper, hordered⟩, ?_⟩
        intro other hmem
        rcases List.mem_cons.mp hmem with rfl | hmem
        · obtain ⟨h0, hlow, -, hhigh, hduration⟩ := hsegment
          refine ⟨Int.le_max_right _ _, ⟨?_, ?_, hproper, hhigh, hduration⟩⟩ <;> dsimp only <;> omega
        · -- later ranges begin behind this one, which ends behind `previousEnd`
          obtain ⟨hafter, hother⟩ := hbounds other hmem
          exact ⟨by omega, hother⟩
    · rw [reconcileAll_empty (by omega)]
      exact Or.inl rfl

/-- What the loop leaves for the checks that follow it. -/
structure Passable (run : JobRun) (chunk : JobChunk) (previousEnd : Int) (segments : List TranscriptSegment) :
    Prop where
  ordered : TimeOrdered segments
  inside : ∀ segment ∈ segments, previousEnd ≤ segment.startMs ∧
    InsideChunk chunk run.recordingDurationMs segment.startMs segment.endMs
  saved : requireInside run chunk segments = .ok ()
  valid : validateSegments segments = .ok ()

/-- **Worker ranges** neither overflow nor leave the chunk, and the checks behind the loop accept them. -/
theorem worker_ranges (run : JobRun) (chunk : JobChunk) (hstart : IsInt64 chunk.startMs) :
    (∀ payload, Carries64 payload →
      validateWorkerSegmentRange64 payload chunk.startMs chunk.endMs run.recordingDurationMs =
        some (validateWorkerSegmentRange payload chunk.startMs chunk.endMs run.recordingDurationMs)) ∧
    (∀ payload previousEnd, Carries64 payload → IsInt64 previousEnd →
      let reconciled := reconcileWorkerSegmentRange
        (validateWorkerSegmentRange payload chunk.startMs chunk.endMs run.recordingDurationMs) previousEnd
      IsInt64 reconciled.startMs ∧ IsInt64 reconciled.endMs) ∧
    (∀ payload startMs endMs, validateWorkerSegmentRange payload chunk.startMs chunk.endMs
        run.recordingDurationMs = { startMs, endMs, error := .none } →
      AcceptedWithin payload chunk run.recordingDurationMs startMs endMs) ∧
    ∀ previousEnd segments,
      (∀ segment ∈ segments, AcceptedRange chunk run.recordingDurationMs segment.startMs segment.endMs) →
      reconcileAll previousEnd segments = .error emptyRangeMessage ∨
        ∃ out, reconcileAll previousEnd segments = .ok out ∧ Passable run chunk previousEnd out := by
  refine ⟨fun payload hpayload => validateWorkerSegmentRange64_eq hpayload hstart,
    fun payload previousEnd hpayload hprevious => ?_,
    fun payload startMs endMs h => validateWorkerSegmentRange_within h, fun previousEnd segments haccepted => ?_⟩
  · obtain ⟨hfirst, hlast⟩ := validateWorkerSegmentRange_int64 hpayload hstart
    exact reconcileWorkerSegmentRange_int64 hfirst hlast hprevious
  · refine (reconcileAll_accepted previousEnd fun segment hmem => (haccepted segment hmem).inside).imp_right ?_
    rintro ⟨out, hout, hordered, hinside⟩
    exact ⟨out, hout, hordered, hinside, requireInside_of_inside fun segment hmem => (hinside segment hmem).2,
      validateSegments_eq_ok.mpr ⟨fun segment hmem => (hinside segment hmem).2.nonneg, hordered⟩⟩

/-- The second half of a recording of four seconds. -/
def secondHalf : JobChunk := { startMs := 2000, endMs := 4000 }

def fourSeconds : JobRun := { activeJob := {}, recordingDurationMs := 4000, worker := fun _ _ => [] }

/-- A range that begins early is cut at the chunk, and the next one at the end of the first. -/
theorem worker_ranges_overlapping :
    validateWorkerSegmentRange64 (timesPayload 1500 3000) 2000 4000 4000 =
        some { startMs := 2000, endMs := 3000 } ∧
      ∃ out, reconcileAll 0 [{ startMs := 2000, endMs := 3000 }, { startMs := 2500, endMs := 4000 }] = .ok out ∧
        Passable fourSeconds secondHalf 0 out := by
  obtain ⟨-, -, -, hloop⟩ := worker_ranges fourSeconds secondHalf (by decide)
  refine ⟨by decide, (hloop 0 _ fun segment hmem => ?_).resolve_left fun hempty => ?_⟩
  · apply InsideChunk.accepted
    rcases List.mem_pair.mp hmem with rfl | rfl
    · constructor <;> decide
    · constructor <;> decide
  · have hpassed : reconcileAll 0 [{ startMs := 2000, endMs := 3000 }, { startMs := 2500, endMs := 4000 }] =
        .ok [{ startMs := 2000, endMs := 3000 }, { startMs := 3000, endMs := 4000 }] := rfl
    rw [hpassed] at hempty
    cases hempty

end BreezeDesk.Resume
