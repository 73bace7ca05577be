/-
  The checks on a segment's times that stand between the worker and the store.

  `validateWorkerSegmentRange` reads the two times of a `PartialSegment` payload, tolerates a second
  of overshoot on either side of the active chunk, and clamps what it accepts into the chunk.
  `reconcileWorkerSegmentRange` moves a validated start up to the end of what is already committed,
  and refuses the segment when nothing is left.
-/
import BreezeDesk.Transcript.Segment

namespace BreezeDesk.Asr

def WorkerSegmentTimestampToleranceMs : Int := 1000

inductive WorkerSegmentValidationError where
  | none | malformedTimestamps | outsideActiveRange | emptyRange
  deriving DecidableEq, Repr

structure WorkerSegmentValidationResult where
  startMs : Int := 0
  endMs : Int := 0
  error : WorkerSegmentValidationError := .none
  deriving DecidableEq, Repr

def validateWorkerSegmentRange (payload : QCborMap) (activeChunkStartMs activeChunkEndMs
    recordingDurationMs : Int) : WorkerSegmentValidationResult :=
  match readInteger payload (qs "startMs"), readInteger payload (qs "endMs") with
  | some rawStartMs, some rawEndMs =>
    let allowedStartMs := max 0 activeChunkStartMs
    let allowedEndMs := min activeChunkEndMs recordingDurationMs
    if allowedEndMs ≤ allowedStartMs ∨
        rawStartMs < allowedStartMs - WorkerSegmentTimestampToleranceMs ∨
        (rawEndMs > allowedEndMs ∧ rawEndMs - allowedEndMs > WorkerSegmentTimestampToleranceMs) ∨
        rawEndMs ≤ rawStartMs then
      { error := .outsideActiveRange }
    else
      let startMs := max allowedStartMs rawStartMs
      let endMs := min allowedEndMs rawEndMs
      { startMs, endMs, error := if endMs ≤ startMs then .emptyRange else .none }
  | _, _ => { error := .malformedTimestamps }

def reconcileWorkerSegmentRange (validated : WorkerSegmentValidationResult) (previousEndMs : Int) :
    WorkerSegmentValidationResult :=
  if validated.error ≠ .none then validated
  else
    let startMs := max validated.startMs previousEndMs
    { validated with startMs, error := if validated.endMs ≤ startMs then .emptyRange else .none }

/-- Some payload makes the validator accept exactly this range for the chunk. -/
def AcceptedRange (chunk : JobChunk) (recordingDurationMs startMs endMs : Int) : Prop :=
  ∃ payload, validateWorkerSegmentRange payload chunk.startMs chunk.endMs recordingDurationMs =
    { startMs, endMs, error := .none }

/-- What acceptance is worth: a non-empty range inside the chunk and inside the recording. -/
structure InsideChunk (chunk : JobChunk) (recordingDurationMs startMs endMs : Int) : Prop where
  nonneg : 0 ≤ startMs
  chunk_start_le : chunk.startMs ≤ startMs
  start_lt_end : startMs < endMs
  end_le_chunk : endMs ≤ chunk.endMs
  end_le_duration : endMs ≤ recordingDurationMs

theorem validateWorkerSegmentRange_inside {payload : QCborMap} {chunk : JobChunk}
    {recordingDurationMs startMs endMs : Int}
    (h : validateWorkerSegmentRange payload chunk.startMs chunk.endMs recordingDurationMs =
      { startMs, endMs, error := .none }) :
    InsideChunk chunk recordingDurationMs startMs endMs := by
  unfold validateWorkerSegmentRange at h
  split at h
  · dsimp only at h
    split at h
    · cases h
    · rename_i rawStartMs rawEndMs _ _ _
      injection h with hstart hend herror
      split at herror
      · cases herror
      · constructor <;> omega
  · cases h

theorem AcceptedRange.inside {chunk : JobChunk} {recordingDurationMs startMs endMs : Int}
    (h : AcceptedRange chunk recordingDurationMs startMs endMs) :
    InsideChunk chunk recordingDurationMs startMs endMs := by
  obtain ⟨payload, hpayload⟩ := h
  exact validateWorkerSegmentRange_inside hpayload

/-- The payload that carries just the two times. -/
def timesPayload (startMs endMs : Int) : QCborMap :=
  [(qs "startMs", .integer startMs), (qs "endMs", .integer endMs)]

/-- A range inside the chunk is accepted as it is sent. -/
theorem InsideChunk.accepted {chunk : JobChunk} {recordingDurationMs startMs endMs : Int}
    (h : InsideChunk chunk recordingDurationMs startMs endMs) :
    AcceptedRange chunk recordingDurationMs startMs endMs := by
  obtain ⟨h0, hlow, hlt, hhigh, hdur⟩ := h
  refine ⟨timesPayload startMs endMs, ?_⟩
  have hstart : readInteger (timesPayload startMs endMs) (qs "startMs") = some startMs := rfl
  have hend : readInteger (timesPayload startMs endMs) (qs "endMs") = some endMs := rfl
  have htolerance : WorkerSegmentTimestampToleranceMs = 1000 := rfl
  have hfirst : max (max 0 chunk.startMs) startMs = startMs := by omega
  have hlast : min (min chunk.endMs recordingDurationMs) endMs = endMs := by omega
  unfold validateWorkerSegmentRange
  rw [hstart, hend]
  dsimp only
  rw [if_neg (by omega), hfirst, hlast, if_neg (by omega)]

end BreezeDesk.Asr
