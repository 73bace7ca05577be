/-
  A transcript segment, the row that everything else is about: `TranscriptSegment.h`.

  Probabilities are doubles that are only stored and read back; they are rationals here.
-/
import BreezeDesk.Jobs.TranscriptionJob
import BreezeDesk.Library.Ranges
import Mathlib.Data.Int.Order.Basic

namespace BreezeDesk

structure TranscriptSegment where
  id : QString := []
  recordingId : QString := []
  jobId : QString := []
  chunkId : QString := []
  ordinal : Int := 0
  startMs : Int := 0
  endMs : Int := 0
  originalText : QString := []
  editedText : QString := []
  averageProbability : Rat := 0
  minimumProbability : Rat := 0
  noSpeechProbability : Rat := 0
  lowConfidence : Bool := false
  reviewed : Bool := false
  replacementAudit : QJsonArray := []
  provisional : Bool := false
  attempt : Int := 1
  createdAt : QDateTime := none
  updatedAt : QDateTime := none

namespace TranscriptSegment

def displayText (segment : TranscriptSegment) : QString :=
  if segment.editedText.isEmpty then segment.originalText else segment.editedText

def isEdited (segment : TranscriptSegment) : Bool :=
  !segment.editedText.isEmpty && segment.editedText != segment.originalText

/-- What a chunk commits, and what two runs of the program are compared by. -/
def content (segment : TranscriptSegment) : Int × Int × QString :=
  (segment.startMs, segment.endMs, segment.originalText)

end TranscriptSegment

/-- Segments in order of time, none reaching into another, each with a positive length. -/
abbrev TimeOrdered (segments : List TranscriptSegment) : Prop :=
  Ranges.Ordered TranscriptSegment.startMs TranscriptSegment.endMs segments

end BreezeDesk
