/-
  The times of an export.

  `orderedValidSegments` goes through the sorted segments once and pushes every cue behind the end of the one
  before; the end of the one before is all that it carries along (`repaired`).  A cue whose times are valid
  already and that nothing reaches into keeps them, so a list without overlaps is only sorted.

  A reader of subtitles finds the times again: `readTimes` goes through the lines of a file, block by block,
  and parses the clocks.  It relies on two facts about what stands between the clocks: no line of a text is
  empty unless the whole text is (`payload_lines`), and no clock has a space.
-/
import BreezeDesk.Transcript.CueLines

namespace BreezeDesk

/-! ## Repairing times -/

/-- A segment without its times. -/
def untimed (segment : TranscriptSegment) : TranscriptSegment := { segment with startMs := 0, endMs := 0 }

def cueTimes (segments : List TranscriptSegment) : List (Int × Int) :=
  segments.map fun segment => (segment.startMs, segment.endMs)

variable {segments : List TranscriptSegment} {previousEnd limit : Int}

theorem untimed_repairTimes (segments : List TranscriptSegment) :
    ∀ previousEnd, (repairTimes previousEnd segments).map untimed = segments.map untimed := by
  induction segments with
  | nil => exact fun _ => rfl
  | cons segment rest ih =>
    intro previousEnd
    rw [repairTimes, List.map_cons, List.map_cons, ih]
    rfl

/-- **One pass**: the cues begin behind `previousEnd`, have a positive length and do not overlap. -/
theorem repaired (segments : List TranscriptSegment) : ∀ previousEnd, 0 ≤ previousEnd →
    (∀ cue ∈ repairTimes previousEnd segments, previousEnd ≤ cue.startMs) ∧
      TimeOrdered (repairTimes previousEnd segments) := by
  induction segments with
  | nil => exact fun _ _ => ⟨fun cue hcue => (by cases hcue), Ranges.Ordered.nil⟩
  | cons segment rest ih =>
    intro previousEnd hnonneg
    rw [repairTimes]
    have hstart : previousEnd ≤ max previousEnd (max 0 segment.startMs) := le_max_left _ _
    have hend : max previousEnd (max 0 segment.startMs) + 1 ≤
        max (max previousEnd (max 0 segment.startMs) + 1) segment.endMs := le_max_left _ _
    obtain ⟨hbehind, hordered⟩ :=
      ih (max (max previousEnd (max 0 segment.startMs) + 1) segment.endMs) (by omega)
    refine ⟨List.forall_mem_cons.mpr ⟨hstart, fun cue hcue => ?_⟩, Ranges.ordered_cons.mpr ⟨hbehind, ?_, hordered⟩⟩
    · have hcueStart := hbehind cue hcue
      omega
    · show max previousEnd (max 0 segment.startMs) < max (max previousEnd (max 0 segment.startMs) + 1) segment.endMs
      omega

/-- A millisecond for each segment is enough room. -/
theorem repaired_le (segments : List TranscriptSegment) : ∀ limit previousEnd, previousEnd ≤ limit → 0 ≤ limit →
    (∀ segment ∈ segments, segment.startMs ≤ limit ∧ segment.endMs ≤ limit) →
    ∀ cue ∈ repairTimes previousEnd segments, cue.endMs ≤ limit + segments.length := by
  induction segments with
  | nil => exact fun _ _ _ _ _ cue hcue => (by cases hcue)
  | cons segment rest ih =>
    intro limit previousEnd hprevious hlimit hall
    obtain ⟨⟨hstart, hend⟩, hrest⟩ := List.forall_mem_cons.mp hall
    rw [repairTimes]
    have hnext : max (max previousEnd (max 0 segment.startMs) + 1) segment.endMs ≤ limit + 1 := by omega
    have hlater := ih (limit + 1) _ hnext (by omega) fun other hother => by
      obtain ⟨hs, he⟩ := hrest other hother
      exact ⟨by omega, by omega⟩
    rw [List.length_cons]
    refine List.forall_mem_cons.mpr ⟨?_, fun cue hcue => ?_⟩
    · show max (max previousEnd (max 0 segment.startMs) + 1) segment.endMs ≤ _
      omega
    · have hbound := hlater cue hcue
      omega

/-- Times that are valid where they stand. -/
def StandsValid (previousEnd : Int) (segment : TranscriptSegment) : Prop :=
  previousEnd ≤ segment.startMs ∧ 0 ≤ segment.startMs ∧ segment.startMs < segment.endMs

theorem repairTimes_of_valid {segment : TranscriptSegment} (h : StandsValid previousEnd segment)
    (rest : List TranscriptSegment) :
    repairTimes previousEnd (segment :: rest) = segment :: repairTimes segment.endMs rest := by
  obtain ⟨hbehind, hnonneg, hpos⟩ := h
  have hstart : max previousEnd (max 0 segment.startMs) = segment.startMs := by omega
  have hend : max (segment.startMs + 1) segment.endMs = segment.endMs := by omega
  rw [repairTimes, hstart, hend]

/-- **Valid times are kept** in the place where they stand. -/
theorem repaired_getElem? (segments : List TranscriptSegment) : ∀ (previousEnd : Int) (i : Nat)
    {segment cue : TranscriptSegment}, segments[i]? = some segment → (repairTimes previousEnd segments)[i]? = some cue →
    StandsValid (((repairTimes previousEnd segments).take i).getLast?.elim previousEnd (·.endMs)) segment →
    cue = segment := by
  induction segments with
  | nil => exact fun _ _ _ _ h => (by cases h)
  | cons first rest ih =>
    intro previousEnd i segment cue hsegment hcue hvalid
    cases i with
    | zero =>
      obtain rfl : first = segment := Option.some.inj hsegment
      replace hvalid : StandsValid previousEnd first := hvalid
      rw [repairTimes_of_valid hvalid] at hcue
      exact (Option.some.inj hcue).symm
    -- the first cue is the one before for the rest, unless a later one stands between
    | succ i =>
      rw [repairTimes] at hcue hvalid
      refine ih _ i hsegment hcue ?_
      rw [List.take_succ_cons, List.getLast?_cons] at hvalid
      generalize max (max previousEnd (max 0 first.startMs) + 1) first.endMs = firstEnd at *
      cases hlast : ((repairTimes firstEnd rest).take i).getLast? with
      | none =>
        rw [hlast] at hvalid
        exact hvalid
      | some earlier =>
        rw [hlast] at hvalid
        exact hvalid

/-- A list without overlaps is kept. -/
theorem repairTimes_eq_self (segments : List TranscriptSegment) : ∀ previousEnd,
    (∀ segment ∈ segments, previousEnd ≤ segment.startMs ∧ 0 ≤ segment.startMs) → TimeOrdered segments →
    repairTimes previousEnd segments = segments := by
  induction segments with
  | nil => exact fun _ _ _ => rfl
  | cons segment rest ih =>
    intro previousEnd hall hordered
    obtain ⟨hbehind, hpos, hrest⟩ := Ranges.ordered_cons.mp hordered
    obtain ⟨hfirst, hothers⟩ := List.forall_mem_cons.mp hall
    rw [repairTimes_of_valid ⟨hfirst.1, hfirst.2, hpos⟩, ih segment.endMs (fun other hother => ?_) hrest]
    exact ⟨hbehind other hother, (hothers other hother).2⟩

/-- Sorting a list without overlaps puts it in order of time. -/
theorem timeOrdered_sort (platform : ExportPlatform)
    (hpos : ∀ segment ∈ segments, segment.startMs < segment.endMs)
    (hapart : segments.Pairwise (Ranges.Apart TranscriptSegment.startMs TranscriptSegment.endMs)) :
    TimeOrdered (platform.sort segments) := by
  have hperm := platform.sort_perm segments
  have hsorted : (platform.sort segments).Pairwise fun left right => left.startMs ≤ right.startMs := by
    refine (platform.sort_ordered segments).imp fun hbefore => ?_
    unfold ExportsBefore at hbefore
    omega
  refine (Ranges.ordered_iff_apart (fun segment hsegment => ?_) hsorted).mpr ?_
  · exact hpos segment (hperm.mem_iff.mp hsegment)
  · exact (Ranges.pairwise_apart_perm hperm).mpr hapart

/-! ## Clocks -/

def clockColon : QChar := 0x3A

/-- The time of a clock: the last ten characters are minutes, seconds and milliseconds. -/
def parseClock (separator : QChar) (text : QString) : Option Int :=
  match text.drop (text.length - 10) with
  | [c, m, m', c', s, s', p, f, f', f''] => do
    let hours ← toNumber (text.take (text.length - 10))
    let minutes ← toNumber [m, m']
    let seconds ← toNumber [s, s']
    let milliseconds ← toNumber [f, f', f'']
    if c = clockColon ∧ c' = clockColon ∧ p = separator ∧ minutes < 60 ∧ seconds < 60 then
      some (((hours * 60 + minutes) * 60 + seconds) * 1000 + milliseconds : Nat)
    else none
  | _ => none

/-- **A clock** is read back, whatever the hours. -/
theorem parseClock_formatClock (separator : QChar) {time : Int} (h : 0 ≤ time) :
    parseClock separator (formatClock time separator) = some time := by
  obtain ⟨n, rfl⟩ : ∃ n : Nat, time = n := ⟨time.toNat, by omega⟩
  have hbounded : (max 0 (n : Int)).toNat = n := by omega
  obtain ⟨m, m', hm⟩ : ∃ m m', zeroPadded 2 (n / 60000 % 60) = [m, m'] :=
    List.length_eq_two.mp (length_zeroPadded (by decide) (by omega))
  obtain ⟨s, s', hs⟩ : ∃ s s', zeroPadded 2 (n / 1000 % 60) = [s, s'] :=
    List.length_eq_two.mp (length_zeroPadded (by decide) (by omega))
  obtain ⟨f, f', f'', hf⟩ : ∃ f f' f'', zeroPadded 3 (n % 1000) = [f, f', f''] :=
    List.length_eq_three.mp (length_zeroPadded (by decide) (by omega))
  have hclock : formatClock n separator =
      zeroPadded 2 (n / 3600000) ++ [clockColon, m, m', clockColon, s, s', separator, f, f', f''] := by
    unfold formatClock
    dsimp only
    rw [hbounded, hm, hs, hf]
    simp only [List.append_assoc]
    rfl
  -- the fields behind the hours have ten characters, so the hours are what comes before
  have hlength : (formatClock n separator).length - 10 = (zeroPadded 2 (n / 3600000)).length := by
    rw [hclock, List.length_append]
    show (zeroPadded 2 (n / 3600000)).length + 10 - 10 = _
    omega
  unfold parseClock
  rw [hlength, hclock, List.drop_left, List.take_left]
  dsimp only
  rw [toNumber_zeroPadded, ← hm, ← hs, ← hf, toNumber_zeroPadded, toNumber_zeroPadded, toNumber_zeroPadded]
  show (if clockColon = clockColon ∧ clockColon = clockColon ∧ separator = separator ∧ n / 60000 % 60 < 60 ∧
      n / 1000 % 60 < 60 then
    some ((((n / 3600000 * 60 + n / 60000 % 60) * 60 + n / 1000 % 60) * 1000 + n % 1000 : Nat) : Int) else none) =
      some (n : Int)
  rw [if_pos ⟨rfl, rfl, rfl, by omega, by omega⟩]
  -- the bounds of the fields hold, so the time is put together again
  have hparts : ((n / 3600000 * 60 + n / 60000 % 60) * 60 + n / 1000 % 60) * 1000 + n % 1000 = n := by omega
  rw [hparts]

theorem formatClock_injective (separator : QChar) {first second : Int} (hfirst : 0 ≤ first) (hsecond : 0 ≤ second)
    (h : formatClock first separator = formatClock second separator) : first = second := by
  have hread := congrArg (parseClock separator) h
  rw [parseClock_formatClock separator hfirst, parseClock_formatClock separator hsecond] at hread
  exact Option.some.inj hread

theorem mem_formatClock {separator c : QChar} {time : Int} (h : c ∈ formatClock time separator) :
    isDigit c = true ∨ c = clockColon ∨ c = separator := by
  unfold formatClock at h
  simp only [List.mem_append] at h
  rcases h with ((((((h | h) | h) | h) | h) | h) | h)
  · exact Or.inl (isDigit_of_mem_zeroPadded h)
  · exact Or.inr (Or.inl (List.mem_singleton.mp h))
  · exact Or.inl (isDigit_of_mem_zeroPadded h)
  · exact Or.inr (Or.inl (List.mem_singleton.mp h))
  · exact Or.inl (isDigit_of_mem_zeroPadded h)
  · exact Or.inr (Or.inr (List.mem_singleton.mp h))
  · exact Or.inl (isDigit_of_mem_zeroPadded h)

/-! ## Lines of a subtitle file -/

variable {srt : Bool} {maximum : Int} {index : Nat} {segment : TranscriptSegment}

def timingLine (srt : Bool) (segment : TranscriptSegment) : QString :=
  subtitleTime segment.startMs srt ++ qs " --> " ++ subtitleTime segment.endMs srt

/-- The lines of a cue; the last one is empty. -/
def cueLines (srt : Bool) (maximum : Int) (index : Nat) (segment : TranscriptSegment) : List QString :=
  (if srt then [decimal (index + 1)] else []) ++ timingLine srt segment ::
    payloadLines segment.displayText maximum ++ [[]]

theorem not_mem_timingLine {c : QChar} (hdigit : isDigit c = false) (hclock : c ≠ clockColon ∧ c ≠ 0x2C ∧ c ≠ 0x2E)
    (harrow : c ∉ qs " --> ") : c ∉ timingLine srt segment := by
  obtain ⟨hcolon, hcomma, hdot⟩ := hclock
  have htime : ∀ value, c ∉ subtitleTime value srt := by
    intro value hmem
    rcases mem_formatClock hmem with h | h | h
    · rw [hdigit] at h
      cases h
    · exact hcolon h
    · cases srt with
      | false => exact hdot h
      | true => exact hcomma h
  unfold timingLine
  rw [List.mem_append, List.mem_append, not_or, not_or]
  exact ⟨⟨htime _, harrow⟩, htime _⟩

theorem splitOn_renderCue (srt : Bool) (maximum : Int) (index : Nat) (segment : TranscriptSegment) (rest : QString) :
    (renderCue srt maximum index segment ++ rest).splitOn lineFeed =
      cueLines srt maximum index segment ++ rest.splitOn lineFeed := by
  have htiming : (timingLine srt segment ++ lineFeed :: (subtitleText segment.displayText maximum ++
      lineFeed :: lineFeed :: rest)).splitOn lineFeed =
      timingLine srt segment :: payloadLines segment.displayText maximum ++ [[]] ++ rest.splitOn lineFeed := by
    rw [List.splitOn_append_cons_self_of_not_mem (not_mem_timingLine (by decide) (by decide) (by decide)),
      List.splitOn_append_cons_self, List.append_assoc]
    exact congrArg (fun lines => timingLine srt segment :: (payloadLines segment.displayText maximum ++ lines))
      (List.splitOn_append_cons_self [] rest)
  have hnumber : lineFeed ∉ decimal (index + 1) := by
    intro hmem
    have hdigit := isDigit_of_mem_decimal hmem
    revert hdigit
    decide
  -- a cue ends in two line feeds: the end of its payload and an empty line
  have hrender : renderCue srt maximum index segment ++ rest =
      (if srt then decimal (index + 1) ++ [lineFeed] else []) ++ (timingLine srt segment ++
        lineFeed :: (subtitleText segment.displayText maximum ++ lineFeed :: lineFeed :: rest)) := by
    have hbreaks : qs "\n\n" = [lineFeed, lineFeed] := rfl
    unfold renderCue timingLine
    rw [hbreaks]
    simp only [List.append_assoc, List.cons_append, List.nil_append]
  rw [hrender]
  unfold cueLines
  by_cases hsrt : srt = true
  · rw [if_pos hsrt, if_pos hsrt, List.append_assoc, List.singleton_append,
      List.splitOn_append_cons_self_of_not_mem hnumber, htiming]
    simp only [List.append_assoc, List.cons_append, List.nil_append]
  · rw [if_neg hsrt, if_neg hsrt, List.nil_append, List.nil_append, htiming]

/-- **The lines** of a subtitle file are the lines of its cues. -/
theorem splitOn_renderCues (srt : Bool) (maximum : Int) (segments : List TranscriptSegment) :
    (renderCues srt maximum segments).splitOn lineFeed =
      (if srt then [] else [qs "WEBVTT", []]) ++
        (segments.zipIdx.flatMap fun (segment, index) => cueLines srt maximum index segment) ++ [[]] := by
  have hcues : ∀ cues : List (TranscriptSegment × Nat),
      (cues.flatMap fun (segment, index) => renderCue srt maximum index segment).splitOn lineFeed =
        (cues.flatMap fun (segment, index) => cueLines srt maximum index segment) ++ [[]] := by
    intro cues
    induction cues with
    | nil => rfl
    | cons cue rest ih =>
      rw [List.flatMap_cons, List.flatMap_cons, splitOn_renderCue, ih, List.append_assoc]
  unfold renderCues
  by_cases hsrt : srt = true
  · rw [if_pos hsrt, if_pos hsrt, List.nil_append, List.nil_append, hcues]
  · have hheader : qs "WEBVTT\n\n" = qs "WEBVTT" ++ lineFeed :: ([] ++ [lineFeed]) := rfl
    have hempty : ∀ rest : QString, ([] ++ lineFeed :: rest).splitOn lineFeed = [] :: rest.splitOn lineFeed :=
      fun rest => List.splitOn_append_cons_self_of_not_mem List.not_mem_nil rest
    rw [if_neg hsrt, if_neg hsrt, hheader, List.append_assoc, List.cons_append, List.append_assoc,
      List.singleton_append, List.splitOn_append_cons_self_of_not_mem (by decide), hempty, hcues]
    rfl

/-! ## Reading subtitles -/

/-- The two times of a timing line. -/
def parseTiming (separator : QChar) (line : QString) : Option (Int × Int) :=
  let start := line.takeWhile (· != space)
  let rest := line.drop start.length
  if rest.take 5 = qs " --> " then do
    let startMs ← parseClock separator start
    let endMs ← parseClock separator (rest.drop 5)
    some (startMs, endMs)
  else none

/-- Where the reader is: between two cues, behind a number, or in a text. -/
inductive CueScan where
  | between | timing | payload

/-- The times of the cues, line by line. -/
def scanCues (srt : Bool) : CueScan → List QString → Option (List (Int × Int))
  | _, [] => some []
  | .between, line :: rest =>
    if line.isEmpty then scanCues srt .between rest
    else if srt then
      if (toNumber line).isSome then scanCues srt .timing rest else none
    else do
      let times ← parseTiming 0x2E line
      let others ← scanCues srt .payload rest
      some (times :: others)
  | .timing, line :: rest => do
    let times ← parseTiming 0x2C line
    let others ← scanCues srt .payload rest
    some (times :: others)
  | .payload, line :: rest =>
    if line.isEmpty then scanCues srt .between rest else scanCues srt .payload rest

/-- The times of a subtitle file. -/
def readTimes (srt : Bool) (text : QString) : Option (List (Int × Int)) :=
  let lines := text.splitOn lineFeed
  if srt then scanCues srt .between lines
  else
    match lines with
    | header :: rest => if header = qs "WEBVTT" then scanCues srt .between rest else none
    | [] => none

theorem parseTiming_timingLine (srt : Bool) (hstart : 0 ≤ segment.startMs) (hend : 0 ≤ segment.endMs) :
    parseTiming (if srt then 0x2C else 0x2E) (timingLine srt segment) = some (segment.startMs, segment.endMs) := by
  have harrow : qs " --> " = space :: qs "--> " := rfl
  -- the first blank of the line is the one of the arrow
  have hclock : ∀ c ∈ subtitleTime segment.startMs srt, (c != space) = true := by
    intro c hc
    rw [bne_iff_ne]
    intro hspace
    rcases mem_formatClock (hspace ▸ hc) with h | h | h
    · revert h
      decide
    · revert h
      decide
    · cases srt with
      | false => revert h; decide
      | true => revert h; decide
  have htake : (timingLine srt segment).takeWhile (· != space) = subtitleTime segment.startMs srt := by
    unfold timingLine
    rw [List.append_assoc, List.takeWhile_append_of_pos hclock, harrow, List.cons_append,
      List.takeWhile_cons_of_neg (by decide), List.append_nil]
  have hdrop : (timingLine srt segment).drop (subtitleTime segment.startMs srt).length =
      qs " --> " ++ subtitleTime segment.endMs srt := by
    unfold timingLine
    rw [List.append_assoc, List.drop_left]
  have hfive : ∀ rest : QString, (qs " --> " ++ rest).take 5 = qs " --> " ∧ (qs " --> " ++ rest).drop 5 = rest :=
    fun _ => ⟨rfl, rfl⟩
  unfold parseTiming
  dsimp only
  rw [htake, hdrop, (hfive _).1, if_pos rfl, (hfive _).2]
  unfold subtitleTime
  rw [parseClock_formatClock _ hstart, parseClock_formatClock _ hend]
  rfl

theorem scanCues_payload (srt : Bool) (display : QString) (maximum : Int) (rest : List QString) :
    scanCues srt .payload (payloadLines display maximum ++ [] :: rest) = scanCues srt .between rest := by
  rcases payloadLines_ne_nil display maximum with hempty | hlines
  · rw [hempty]
    rfl
  · generalize payloadLines display maximum = lines at hlines
    induction lines with
    | nil => rfl
    | cons line others ih =>
      obtain ⟨hline, hothers⟩ := List.forall_mem_cons.mp hlines
      rw [List.cons_append, scanCues, if_neg fun h => hline (List.isEmpty_iff.mp h)]
      exact ih hothers

/-- **One cue** is read, and the reader stands between two cues again. -/
theorem scanCues_cue (maximum : Int) (index : Nat) (hstart : 0 ≤ segment.startMs) (hend : 0 ≤ segment.endMs)
    (rest : List QString) :
    scanCues srt .between (cueLines srt maximum index segment ++ rest) =
      (scanCues srt .between rest).map ((segment.startMs, segment.endMs) :: ·) := by
  have hshape : cueLines srt maximum index segment ++ rest = (if srt then [decimal (index + 1)] else []) ++
      timingLine srt segment :: (payloadLines segment.displayText maximum ++ [] :: rest) := by
    unfold cueLines
    simp only [List.append_assoc, List.cons_append, List.nil_append]
  have hnumber : ¬ (decimal (index + 1)).isEmpty = true := fun h => decimal_ne_nil _ (List.isEmpty_iff.mp h)
  have htiming : ¬ (timingLine srt segment).isEmpty = true := by
    intro h
    have hempty := congrArg List.length (List.isEmpty_iff.mp h)
    unfold timingLine at hempty
    rw [List.length_append, List.length_append] at hempty
    have harrow : (qs " --> ").length = 5 := rfl
    rw [List.length_nil] at hempty
    omega
  have hread := parseTiming_timingLine srt hstart hend
  rw [hshape]
  cases srt with
  -- SubRip cues begin with their number, WebVTT cues with their timing
  | true =>
    rw [if_pos rfl, List.singleton_append, scanCues, if_neg hnumber, if_pos rfl, toNumber_decimal,
      if_pos Option.isSome_some, scanCues]
    rw [if_pos rfl] at hread
    rw [hread, scanCues_payload]
    cases scanCues true .between rest <;> rfl
  | false =>
    rw [if_neg Bool.false_ne_true, List.nil_append, scanCues, if_neg htiming, if_neg Bool.false_ne_true]
    rw [if_neg Bool.false_ne_true] at hread
    rw [hread, scanCues_payload]
    cases scanCues false .between rest <;> rfl

theorem scanCues_cues (srt : Bool) (maximum : Int) (cues : List (TranscriptSegment × Nat))
    (h : ∀ cue ∈ cues, 0 ≤ cue.1.startMs ∧ 0 ≤ cue.1.endMs) :
    scanCues srt .between ((cues.flatMap fun (segment, index) => cueLines srt maximum index segment) ++ [[]]) =
      some (cueTimes (cues.map Prod.fst)) := by
  induction cues with
  | nil => rfl
  | cons cue rest ih =>
    obtain ⟨⟨hstart, hend⟩, hrest⟩ := List.forall_mem_cons.mp h
    rw [List.flatMap_cons, List.append_assoc, scanCues_cue maximum cue.2 hstart hend, ih hrest]
    rfl

/-- **The times of a subtitle file** are read back. -/
theorem readTimes_renderCues (srt : Bool) (maximum : Int)
    (h : ∀ segment ∈ segments, 0 ≤ segment.startMs ∧ 0 ≤ segment.endMs) :
    readTimes srt (renderCues srt maximum segments) = some (cueTimes segments) := by
  have hscan := scanCues_cues srt maximum segments.zipIdx fun cue hcue => h cue.1 (List.fst_mem_of_mem_zipIdx hcue)
  rw [List.zipIdx_map_fst] at hscan
  unfold readTimes
  dsimp only
  rw [splitOn_renderCues]
  cases srt with
  | true => exact hscan
  | false => exact hscan

theorem carriageReturn_not_mem_renderCues (srt : Bool) (maximum : Int) (segments : List TranscriptSegment) :
    carriageReturn ∉ renderCues srt maximum segments := by
  have hline : ∀ cue : TranscriptSegment × Nat, ∀ line ∈ cueLines srt maximum cue.2 cue.1, carriageReturn ∉ line := by
    intro cue line hline hmem
    unfold cueLines at hline
    rcases List.mem_append.mp hline with hline | hline
    · rcases List.mem_append.mp hline with hline | hline
      · by_cases hsrt : srt = true
        · rw [if_pos hsrt, List.mem_singleton] at hline
          rw [hline] at hmem
          have hdigit := isDigit_of_mem_decimal hmem
          revert hdigit
          decide
        · rw [if_neg hsrt] at hline
          cases hline
      · rcases List.mem_cons.mp hline with htiming | hpayload
        · rw [htiming] at hmem
          exact not_mem_timingLine (by decide) (by decide) (by decide) hmem
        · exact carriageReturn_not_mem_simplified _ ((payloadLines_part _ _ line hpayload).subset hmem)
    · rw [List.mem_singleton.mp hline] at hmem
      cases hmem
  -- the text is its lines with line feeds between them
  have hlines : renderCues srt maximum segments =
      [lineFeed].intercalate ((renderCues srt maximum segments).splitOn lineFeed) :=
    (List.intercalate_splitOn lineFeed).symm
  intro hmem
  rw [hlines, splitOn_renderCues] at hmem
  rcases mem_intercalate hmem with h | ⟨line, hline', hc⟩
  · revert h
    decide
  · rcases List.mem_append.mp hline' with h | h
    · rcases List.mem_append.mp h with h | h
      · by_cases hsrt : srt = true
        · rw [if_pos hsrt] at h
          cases h
        · rw [if_neg hsrt, List.mem_cons, List.mem_singleton] at h
          rcases h with rfl | rfl
          · revert hc
            decide
          · cases hc
      · obtain ⟨cue, -, hmem⟩ := List.mem_flatMap.mp h
        exact hline cue line hmem hc
    · rw [List.mem_singleton.mp h] at hc
      cases hc

/-! ## The export -/

variable (platform : ExportPlatform) (input : List TranscriptSegment)

theorem timed_orderedValidSegments :
    (∀ cue ∈ orderedValidSegments platform input, 0 ≤ cue.startMs ∧ cue.startMs < cue.endMs) ∧
      TimeOrdered (orderedValidSegments platform input) := by
  obtain ⟨hbehind, hordered⟩ := repaired (platform.sort input) 0 le_rfl
  exact ⟨fun cue hcue => ⟨hbehind cue hcue, hordered.2 cue hcue⟩, hordered⟩

/-- Segments without overlaps are sorted, and nothing else. -/
theorem orderedValidSegments_eq_sort (hnonneg : ∀ segment ∈ input, 0 ≤ segment.startMs)
    (hpos : ∀ segment ∈ input, segment.startMs < segment.endMs)
    (hapart : input.Pairwise (Ranges.Apart TranscriptSegment.startMs TranscriptSegment.endMs)) :
    orderedValidSegments platform input = platform.sort input := by
  refine repairTimes_eq_self _ 0 (fun segment hsegment => ?_) (timeOrdered_sort platform hpos hapart)
  have hstart := hnonneg segment ((platform.sort_perm input).mem_iff.mp hsegment)
  exact ⟨hstart, hstart⟩

theorem orderedValidSegments_eq_self (hnonneg : ∀ segment ∈ input, 0 ≤ segment.startMs) (hordered : TimeOrdered input) :
    orderedValidSegments platform input = input := by
  have hapart := hordered.pairwise.imp fun {left right} (h : left.endMs ≤ right.startMs) =>
    (Or.inl h : Ranges.Apart TranscriptSegment.startMs TranscriptSegment.endMs left right)
  rw [orderedValidSegments_eq_sort platform input hnonneg hordered.2 hapart]
  exact (timeOrdered_sort platform hordered.2 hapart).eq_of_perm hordered (platform.sort_perm input)

theorem readTimes_renderText (metadata : TranscriptExportMetadata) (options : TranscriptExportOptions) :
    readTimes true (renderText platform .srt metadata input options) =
        some (cueTimes (orderedValidSegments platform input)) ∧
      readTimes false (renderText platform .vtt metadata input options) =
        some (cueTimes (orderedValidSegments platform input)) := by
  have htimed : ∀ cue ∈ orderedValidSegments platform input, 0 ≤ cue.startMs ∧ 0 ≤ cue.endMs := by
    intro cue hcue
    obtain ⟨hstart, hlength⟩ := (timed_orderedValidSegments platform input).1 cue hcue
    exact ⟨hstart, by omega⟩
  unfold renderText
  dsimp only
  have hplain := carriageReturn_not_mem_renderCues
  rw [normalizedLineEndings_of_none (hplain _ _ _), normalizedLineEndings_of_none (hplain _ _ _)]
  exact ⟨readTimes_renderCues true _ htimed, readTimes_renderCues false _ htimed⟩

/-- **Subtitle cues** are the segments in the order of time, well timed, and their clocks are read back.

    Valid times are kept where they stand, so segments without overlaps are exported as they are; and a
    millisecond for each segment is all that the latest time can grow by. -/
theorem subtitle_cues :
    ((platform.sort input).Perm input ∧
      (platform.sort input).Pairwise (fun left right => ¬ ExportsBefore right left) ∧
      (orderedValidSegments platform input).map untimed = (platform.sort input).map untimed) ∧
    ((∀ cue ∈ orderedValidSegments platform input, 0 ≤ cue.startMs ∧ cue.startMs < cue.endMs) ∧
      (orderedValidSegments platform input).Pairwise fun earlier later => earlier.endMs ≤ later.startMs) ∧
    (∀ (i : Nat) (segment cue : TranscriptSegment), (platform.sort input)[i]? = some segment →
      (orderedValidSegments platform input)[i]? = some cue →
      StandsValid (((orderedValidSegments platform input).take i).getLast?.elim 0 (·.endMs)) segment → cue = segment) ∧
    ((∀ segment ∈ input, 0 ≤ segment.startMs ∧ segment.startMs < segment.endMs) →
      input.Pairwise (Ranges.Apart TranscriptSegment.startMs TranscriptSegment.endMs) →
      orderedValidSegments platform input = platform.sort input) ∧
    ((∀ segment ∈ input, 0 ≤ segment.startMs) → TimeOrdered input → orderedValidSegments platform input = input) ∧
    (∀ limit, 0 ≤ limit → (∀ segment ∈ input, segment.startMs ≤ limit ∧ segment.endMs ≤ limit) →
      ∀ cue ∈ orderedValidSegments platform input, cue.endMs ≤ limit + input.length) ∧
    (∀ metadata options,
      readTimes true (renderText platform .srt metadata input options) =
          some (cueTimes (orderedValidSegments platform input)) ∧
        readTimes false (renderText platform .vtt metadata input options) =
          some (cueTimes (orderedValidSegments platform input))) ∧
    (∀ separator first second, 0 ≤ first → 0 ≤ second → formatClock first separator = formatClock second separator →
      first = second) := by
  have hperm := platform.sort_perm input
  obtain ⟨htimed, hordered⟩ := timed_orderedValidSegments platform input
  refine ⟨⟨hperm, platform.sort_ordered input, untimed_repairTimes _ 0⟩, ⟨htimed, hordered.pairwise⟩,
    ?_, ?_, ?_, ?_, ?_, ?_⟩
  · exact fun i segment cue hsegment hcue => repaired_getElem? _ 0 i hsegment hcue
  · intro hvalid hapart
    exact orderedValidSegments_eq_sort platform input (fun segment h => (hvalid segment h).1)
      (fun segment h => (hvalid segment h).2) hapart
  · exact orderedValidSegments_eq_self platform input
  · intro limit hlimit hall cue hcue
    have hbound := repaired_le (platform.sort input) limit 0 hlimit hlimit
      (fun segment h => hall segment (hperm.mem_iff.mp h)) cue hcue
    rwa [hperm.length_eq] at hbound
  · exact readTimes_renderText platform input
  · exact fun separator _ _ => formatClock_injective separator

end BreezeDesk
