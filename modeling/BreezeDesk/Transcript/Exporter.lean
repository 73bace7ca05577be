/-
  `TranscriptExporter` — a transcript as text, Markdown, subtitles or a table.

  Before anything is rendered, the segments are sorted and their times repaired (`orderedValidSegments`).
  Subtitles are wrapped by a loop that cuts at a space in the second half of the line, and at the maximum
  where there is none (`wrapTurn`).  The rendered text is normalized to line feeds and encoded.

  The sort of the standard library is a parameter that carries its specification, since the order of
  segments that compare equal is its own choice; so is the formatting of a probability with six digits.  The
  JSON format is left out.
-/
import BreezeDesk.Core.Decimal
import BreezeDesk.Ipc.Cbor
import BreezeDesk.Library.Loop
import BreezeDesk.Transcript.Segment

namespace BreezeDesk

open Loop

/-! ## Texts -/

def lineFeed : QChar := 0x0A

def carriageReturn : QChar := 0x0D

def quotationMark : QChar := 0x22

/-- `QString::replace("\r\n", "\n")`. -/
def joinedLineEndings : QString → QString
  | [] => []
  | [c] => [c]
  | c :: d :: rest =>
    if c = carriageReturn ∧ d = lineFeed then lineFeed :: joinedLineEndings rest
    else c :: joinedLineEndings (d :: rest)

def normalizedLineEndings (text : QString) : QString :=
  (joinedLineEndings text).map fun c => if c = carriageReturn then lineFeed else c

def csvField (text : QString) : QString :=
  let value := (normalizedLineEndings text).flatMap fun c =>
    if c = quotationMark then [quotationMark, quotationMark] else [c]
  quotationMark :: value ++ [quotationMark]

/-- `QString::lastIndexOf` of a character, from a position backwards. -/
def lastIndexOf (c : QChar) (text : QString) (start : Nat) : Option Nat :=
  (List.range (start + 1)).reverse.find? fun i => text[i]? == some c

/-- `TimeUtils::formatClock`. -/
def formatClock (milliseconds : Int) (decimalSeparator : QChar) : QString :=
  let bounded := (max 0 milliseconds).toNat
  zeroPadded 2 (bounded / 3600000) ++ qs ":" ++ zeroPadded 2 (bounded / 60000 % 60) ++ qs ":" ++
    zeroPadded 2 (bounded / 1000 % 60) ++ [decimalSeparator] ++ zeroPadded 3 (bounded % 1000)

/-! ## Subtitles -/

/-- Where a line that is too long is cut. -/
def wrapAt (maximum : Nat) (remaining : QString) : Nat :=
  match lastIndexOf space remaining maximum with
  | none => maximum
  | some split => if split < maximum / 2 then maximum else split

/-- One turn of the loop over the lines. -/
def wrapTurn (maximum : Nat) : List QString × QString → Turn (List QString × QString) (List QString)
  | (lines, remaining) =>
    if maximum < remaining.length then
      let split := wrapAt maximum remaining
      .again (lines ++ [trimmed (remaining.take split)], trimmed (remaining.drop split))
    else .done (if remaining.isEmpty then lines else lines ++ [remaining])

/-- The lines of a text; `wrapLines_spec` shows that this many turns are enough. -/
def wrapLines (maximum : Nat) (text : QString) : List QString :=
  (run (wrapTurn maximum) (text.length + 1) ([], text)).getD []

/-- `QStringList::join(QLatin1Char('\n'))`. -/
def joinLines (lines : List QString) : QString := [lineFeed].intercalate lines

def subtitleText (input : QString) (maximum : Int) : QString :=
  let text := simplified input
  if maximum ≤ 0 ∨ text.length ≤ maximum then text else joinLines (wrapLines maximum.toNat text)

def subtitleTime (value : Int) (comma : Bool) : QString := formatClock value (if comma then 0x2C else 0x2E)

/-! ## Times -/

/-- The order of the export: by start, then by ordinal. -/
def ExportsBefore (left right : TranscriptSegment) : Prop :=
  left.startMs < right.startMs ∨ (left.startMs = right.startMs ∧ left.ordinal < right.ordinal)

instance (left right : TranscriptSegment) : Decidable (ExportsBefore left right) :=
  inferInstanceAs (Decidable (_ ∨ _))

structure ExportPlatform where
  /-- `std::sort` with the order of the export. -/
  sort : List TranscriptSegment → List TranscriptSegment
  sort_perm : ∀ segments, (sort segments).Perm segments
  sort_ordered : ∀ segments, (sort segments).Pairwise fun left right => ¬ ExportsBefore right left
  /-- `QString::number(value, 'f', 6)`. -/
  fixedSix : Rat → QString
  fixedSix_plain : ∀ value, ∀ c ∈ fixedSix value, isDigit c = true ∨ c = 0x2E ∨ c = 0x2D

/-- The loop that repairs the times. -/
def repairTimes : Int → List TranscriptSegment → List TranscriptSegment
  | _, [] => []
  | previousEnd, segment :: rest =>
    let startMs := max previousEnd (max 0 segment.startMs)
    let endMs := max (startMs + 1) segment.endMs
    { segment with startMs, endMs } :: repairTimes endMs rest

variable (platform : ExportPlatform)

def orderedValidSegments (segments : List TranscriptSegment) : List TranscriptSegment :=
  repairTimes 0 (platform.sort segments)

/-! ## Rendering -/

inductive TranscriptExportFormat where
  | txt | markdown | srt | vtt | csv

structure TranscriptExportMetadata where
  recordingId : QString := []
  title : QString := []
  modelId : QString := []
  language : QString := []

structure TranscriptExportOptions where
  includeTimecodes : Bool := false
  utf8Bom : Bool := false
  subtitleMaximumLineLength : Int := 42

def renderTxt (options : TranscriptExportOptions) (segments : List TranscriptSegment) : QString :=
  segments.flatMap fun segment =>
    (if options.includeTimecodes then qs "[" ++ subtitleTime segment.startMs false ++ qs "] " else []) ++
      trimmed segment.displayText ++ [lineFeed]

def frontMatter (metadata : TranscriptExportMetadata) : QString :=
  qs "---\ntitle: \"" ++ metadata.title ++ qs "\"\nrecordingId: " ++ metadata.recordingId ++ qs "\nmodel: " ++
    metadata.modelId ++ qs "\nlanguage: " ++ metadata.language ++ qs "\n---\n\n"

def renderMarkdown (metadata : TranscriptExportMetadata) (segments : List TranscriptSegment) : QString :=
  frontMatter metadata ++ segments.flatMap fun segment =>
    qs "**[" ++ subtitleTime segment.startMs false ++ qs "]** " ++ trimmed segment.displayText ++ qs "\n\n"

/-- One cue; SRT numbers it and writes times with a comma. -/
def renderCue (srt : Bool) (maximum : Int) (index : Nat) (segment : TranscriptSegment) : QString :=
  (if srt then decimal (index + 1) ++ [lineFeed] else []) ++ subtitleTime segment.startMs srt ++ qs " --> " ++
    subtitleTime segment.endMs srt ++ [lineFeed] ++ subtitleText segment.displayText maximum ++ qs "\n\n"

def renderCues (srt : Bool) (maximum : Int) (segments : List TranscriptSegment) : QString :=
  (if srt then [] else qs "WEBVTT\n\n") ++
    segments.zipIdx.flatMap fun (segment, index) => renderCue srt maximum index segment

/-- `QStringList::join(QLatin1Char(','))`. -/
def joinFields (fields : List QString) : QString := [0x2C].intercalate fields

/-- `QString::number` of a time. -/
def signedDecimal (value : Int) : QString := qs (toString value)

def renderRow (segment : TranscriptSegment) : QString :=
  joinFields [signedDecimal segment.startMs, signedDecimal segment.endMs, csvField segment.originalText,
    csvField segment.editedText, platform.fixedSix segment.averageProbability] ++ [lineFeed]

def renderCsv (segments : List TranscriptSegment) : QString :=
  qs "start,end,original_text,edited_text,confidence\n" ++ segments.flatMap (renderRow platform)

def renderText (format : TranscriptExportFormat) (metadata : TranscriptExportMetadata)
    (input : List TranscriptSegment) (options : TranscriptExportOptions) : QString :=
  let segments := orderedValidSegments platform input
  normalizedLineEndings <|
    match format with
    | .txt => renderTxt options segments
    | .markdown => renderMarkdown metadata segments
    | .srt => renderCues true options.subtitleMaximumLineLength segments
    | .vtt => renderCues false options.subtitleMaximumLineLength segments
    | .csv => renderCsv platform segments

/-- `withOptionalBom`. -/
def withOptionalBom (bytes : QByteArray) (bom : Bool) : QByteArray :=
  if bom then [0xEF, 0xBB, 0xBF] ++ bytes else bytes

def render (format : TranscriptExportFormat) (metadata : TranscriptExportMetadata)
    (input : List TranscriptSegment) (options : TranscriptExportOptions) : QByteArray :=
  withOptionalBom (toUtf8 (renderText platform format metadata input options)) options.utf8Bom

end BreezeDesk
