/-
  The rows of a transcription job: `TranscriptionJob.h`, and the moves between its states:
  `JobStateMachine`.

  State and stage columns hold names in the source; every writer stores a name of its enumeration, so
  the columns hold the enumerations here.
-/
import BreezeDesk.Core.Values

namespace BreezeDesk

/-! ## Times -/

/-- `QDateTime`: `none` is an invalid date, otherwise milliseconds of UTC. -/
abbrev QDateTime := Option Int

/-- `fromStorageString (toStorageString d)`: the ISO text has four digits for the year, so a date
    outside the years 1 to 9999 is stored as an empty text and read back as invalid. -/
def storedTime (dateTime : QDateTime) : QDateTime :=
  dateTime.filter fun t => -62135596800000 ≤ t && t ≤ 253402300799999

/-! ## Enumerations -/

inductive JobState where
  | queued | preparing | normalizing | waitingForModel | loadingModel | analyzingSpeech | transcribing
  | finalizing | completed | cancelling | cancelled | failed | interrupted
  deriving DecidableEq, Repr

inductive JobStage where
  | preparing | inspectingMedia | normalizingAudio | analyzingSpeech | loadingModel | transcribing
  | finalizing | completed
  deriving DecidableEq, Repr

inductive ChunkState where
  | pending | running | completed | cancelled | failed | interrupted
  deriving DecidableEq, Repr

def jobStateName : JobState → QString
  | .queued => qs "Queued"
  | .preparing => qs "Preparing"
  | .normalizing => qs "Normalizing"
  | .waitingForModel => qs "WaitingForModel"
  | .loadingModel => qs "LoadingModel"
  | .analyzingSpeech => qs "AnalyzingSpeech"
  | .transcribing => qs "Transcribing"
  | .finalizing => qs "Finalizing"
  | .completed => qs "Completed"
  | .cancelling => qs "Cancelling"
  | .cancelled => qs "Cancelled"
  | .failed => qs "Failed"
  | .interrupted => qs "Interrupted"

/-! ## Rows -/

structure TranscriptionJob where
  id : QString := []
  recordingId : QString := []
  state : JobState := .queued
  stage : JobStage := .preparing
  progress : Rat := 0
  modelId : QString := []
  modelChecksum : QString := []
  engineVersion : QString := []
  workerVersion : QString := []
  backend : QString := []
  language : QString := qs "zh"
  preset : QString := qs "balanced"
  glossaryProfileId : QString := []
  meetingContext : QString := []
  vadEnabled : Bool := true
  errorCode : QString := []
  errorMessage : QString := []
  diagnostics : QJsonObject := []
  parameters : QJsonObject := []
  queuePosition : Int := 0
  retryCount : Int := 0
  createdAt : QDateTime := none
  startedAt : QDateTime := none
  completedAt : QDateTime := none
  interruptedAt : QDateTime := none
  lastCompletedChunk : Int := -1
  queueHidden : Bool := false

structure JobChunk where
  id : QString := []
  jobId : QString := []
  ordinal : Int := 0
  startMs : Int := 0
  endMs : Int := 0
  overlapBeforeMs : Int := 0
  overlapAfterMs : Int := 0
  state : ChunkState := .pending
  attempts : Int := 0
  startedAt : QDateTime := none
  completedAt : QDateTime := none
  error : QString := []
  resultHash : QString := []
  diagnostics : QJsonObject := []

structure JobEvent where
  id : Int := 0
  jobId : QString := []
  eventType : QString := []
  severity : QString := qs "info"
  state : Option JobState := none
  stage : Option JobStage := none
  progress : Option Rat := none
  code : QString := []
  message : QString := []
  payload : QJsonObject := []
  createdAt : QDateTime := none

structure AsrExecutionLease where
  ownerToken : QString := []
  jobId : QString := []
  acquiredAt : QDateTime := none
  heartbeatAt : QDateTime := none
  expiresAt : QDateTime := none
  deriving DecidableEq, Repr

structure JobClaimResult where
  claimed : Bool := false
  job : Option TranscriptionJob := none
  lease : Option AsrExecutionLease := none
  activeJobId : QString := []

/-! ## The state machine -/

/-- The table of `JobStateMachine`. -/
def transitions : JobState → List JobState
  | .queued => [.preparing, .cancelled]
  | .preparing =>
    [.normalizing, .analyzingSpeech, .waitingForModel, .loadingModel, .cancelling, .failed, .interrupted]
  | .normalizing =>
    [.waitingForModel, .loadingModel, .analyzingSpeech, .cancelling, .failed, .interrupted]
  | .waitingForModel => [.loadingModel, .cancelling, .failed, .interrupted]
  | .loadingModel => [.analyzingSpeech, .transcribing, .cancelling, .failed, .interrupted]
  | .analyzingSpeech =>
    [.waitingForModel, .loadingModel, .transcribing, .cancelling, .failed, .interrupted]
  | .transcribing => [.finalizing, .cancelling, .failed, .interrupted]
  | .finalizing => [.completed, .cancelling, .failed, .interrupted]
  | .cancelling => [.cancelled]
  | .interrupted => [.queued, .cancelled]
  | .failed => [.queued]
  | .completed => []
  | .cancelled => [.queued]

namespace JobState

def canTransition (source target : JobState) : Bool :=
  source == target || (transitions source).contains target

def isTerminal (state : JobState) : Bool :=
  state == .completed || state == .cancelled || state == .failed

def isRunning (state : JobState) : Bool :=
  state != .queued && !state.isTerminal && state != .interrupted

def validateTransition (source target : JobState) : Result Unit :=
  if canTransition source target then .ok ()
  else .error (.validation .invalidStateTransition
    (qs "A job cannot move from " ++ jobStateName source ++ qs " to " ++ jobStateName target ++ qs "."))

theorem validateTransition_eq_ok {source target : JobState} {u : Unit} :
    validateTransition source target = .ok u ↔ canTransition source target = true := by
  unfold validateTransition
  by_cases h : canTransition source target = true
  · rw [if_pos h]
    exact ⟨fun _ => h, fun _ => rfl⟩
  · rw [if_neg h]
    constructor
    · intro h'
      cases h'
    · intro h'
      exact absurd h' h

end JobState

/-- Stages in the order of the enumeration; the source compares them as integers. -/
def JobStage.toNat : JobStage → Nat
  | .preparing => 0
  | .inspectingMedia => 1
  | .normalizingAudio => 2
  | .analyzingSpeech => 3
  | .loadingModel => 4
  | .transcribing => 5
  | .finalizing => 6
  | .completed => 7

/-! ## `MonotonicJobProgress` -/

def stageRange : JobStage → Rat × Rat
  | .preparing => (0, 2 / 100)
  | .inspectingMedia => (2 / 100, 5 / 100)
  | .normalizingAudio => (5 / 100, 20 / 100)
  | .analyzingSpeech => (20 / 100, 30 / 100)
  | .loadingModel => (30 / 100, 35 / 100)
  | .transcribing => (35 / 100, 95 / 100)
  | .finalizing => (95 / 100, 1)
  | .completed => (1, 1)

/-- `MonotonicJobProgress::map`. -/
def mapProgress (stage : JobStage) (stageFraction : Rat) : Rat :=
  (stageRange stage).1 + ((stageRange stage).2 - (stageRange stage).1) * max 0 (min stageFraction 1)

end BreezeDesk
