/-
  `MediaMetadata::fromFfprobeJson` — the audio stream that is used of a file, and how long it is.

  One pass over the streams holds on to the first audio stream until the first one comes that is marked as the
  default; codec, sample rate, channels, start and duration are taken over together (`ProbeState.select`).
  The duration that is reported is the end of that stream on the timeline of the container, or else what the
  container says of itself.

  * `probed_spec`                — after the pass all that was kept belongs to one stream;
  * `checkedAdd_eq_some_iff`     — the arithmetic of 64 bits is that of the integers, or it is refused;
  * `fromFfprobeJson_consistent` — the result.

  How a text becomes milliseconds (`parseMilliseconds`, which goes through floating point) is a parameter.
-/
import BreezeDesk.Core.Decimal
import BreezeDesk.Core.Values
import BreezeDesk.Library.Preferred

namespace BreezeDesk

open Preference

/-! ## Numbers -/

/-- `QJsonValue::toInt`. -/
def QJsonValue.toInt (value : QJsonValue) : Int :=
  if IsInt value.toInteger then value.toInteger else 0

def parseInt (value : QJsonValue) : Int :=
  (QString.toInt value.toText).getD value.toInt

def checkedSubtract (left right : Int64) : Option Int64 :=
  if (0 < right ∧ left < Int64.minValue + right) ∨ (right < 0 ∧ Int64.maxValue + right < left) then none
  else some (left - right)

def checkedAdd (left right : Int64) : Option Int64 :=
  if (0 < right ∧ Int64.maxValue - right < left) ∨ (right < 0 ∧ left < Int64.minValue - right) then none
  else some (left + right)

/-- The integers of 64 bits. -/
def Fits (value : Int) : Prop := -2 ^ 63 ≤ value ∧ value < 2 ^ 63

instance (value : Int) : Decidable (Fits value) := inferInstanceAs (Decidable (_ ∧ _))

theorem fits_toInt (value : Int64) : Fits value.toInt := ⟨value.le_toInt, value.toInt_lt⟩

theorem toInt_add_of_fits {left right : Int64} (h : Fits (left.toInt + right.toInt)) :
    (left + right).toInt = left.toInt + right.toInt := by
  rw [Int64.toInt_add]
  exact Int.bmod_eq_of_le (by have := h.1; omega) (by have := h.2; omega)

theorem toInt_sub_of_fits {left right : Int64} (h : Fits (left.toInt - right.toInt)) :
    (left - right).toInt = left.toInt - right.toInt := by
  rw [Int64.toInt_sub]
  exact Int.bmod_eq_of_le (by have := h.1; omega) (by have := h.2; omega)

/-- **A difference** is the one of the integers, or it is refused because it has no 64 bits. -/
theorem checkedSubtract_spec (left right : Int64) :
    (Fits (left.toInt - right.toInt) → checkedSubtract left right = some (left - right)) ∧
      (¬ Fits (left.toInt - right.toInt) → checkedSubtract left right = none) := by
  have hleft := fits_toInt left
  have hright := fits_toInt right
  unfold Fits at hleft hright ⊢
  -- the bound is moved towards zero, so it does not overflow itself
  have hmin : 0 < right.toInt → (Int64.minValue + right).toInt = -2 ^ 63 + right.toInt := fun hpos =>
    toInt_add_of_fits ⟨by rw [Int64.toInt_minValue]; omega, by rw [Int64.toInt_minValue]; omega⟩
  have hmax : right.toInt < 0 → (Int64.maxValue + right).toInt = 2 ^ 63 - 1 + right.toInt := fun hneg =>
    toInt_add_of_fits ⟨by rw [Int64.toInt_maxValue]; omega, by rw [Int64.toInt_maxValue]; omega⟩
  unfold checkedSubtract
  simp only [Int64.lt_iff_toInt_lt, Int64.toInt_zero]
  refine ⟨fun h => if_neg ?_, fun h => if_pos ?_⟩
  · rintro (⟨hpos, hlt⟩ | ⟨hneg, hlt⟩)
    · rw [hmin hpos] at hlt
      omega
    · rw [hmax hneg] at hlt
      omega
  · rcases Int.lt_trichotomy right.toInt 0 with hneg | hzero | hpos
    · exact Or.inr ⟨hneg, by rw [hmax hneg]; omega⟩
    · omega
    · exact Or.inl ⟨hpos, by rw [hmin hpos]; omega⟩

/-- **A sum**, in the same way. -/
theorem checkedAdd_spec (left right : Int64) :
    (Fits (left.toInt + right.toInt) → checkedAdd left right = some (left + right)) ∧
      (¬ Fits (left.toInt + right.toInt) → checkedAdd left right = none) := by
  have hleft := fits_toInt left
  have hright := fits_toInt right
  unfold Fits at hleft hright ⊢
  have hmax : 0 < right.toInt → (Int64.maxValue - right).toInt = 2 ^ 63 - 1 - right.toInt := fun hpos =>
    toInt_sub_of_fits ⟨by rw [Int64.toInt_maxValue]; omega, by rw [Int64.toInt_maxValue]; omega⟩
  have hmin : right.toInt < 0 → (Int64.minValue - right).toInt = -2 ^ 63 - right.toInt := fun hneg =>
    toInt_sub_of_fits ⟨by rw [Int64.toInt_minValue]; omega, by rw [Int64.toInt_minValue]; omega⟩
  unfold checkedAdd
  simp only [Int64.lt_iff_toInt_lt, Int64.toInt_zero]
  refine ⟨fun h => if_neg ?_, fun h => if_pos ?_⟩
  · rintro (⟨hpos, hlt⟩ | ⟨hneg, hlt⟩)
    · rw [hmax hpos] at hlt
      omega
    · rw [hmin hneg] at hlt
      omega
  · rcases Int.lt_trichotomy right.toInt 0 with hneg | hzero | hpos
    · exact Or.inr ⟨hneg, by rw [hmin hneg]; omega⟩
    · omega
    · exact Or.inl ⟨hpos, by rw [hmax hpos]; omega⟩

/-! ## The pass over the streams -/

structure MediaMetadata where
  formatName : QString := []
  codecName : QString := []
  durationMs : Int64 := 0
  sampleRate : Int := 0
  channelCount : Int := 0
  bitRate : Int64 := 0
  /-- The place among the audio streams. -/
  audioStreamIndex : Int := -1
  hasAudio : Bool := false
  hasVideo : Bool := false

/-- What the pass keeps.  A time and the flag that says whether it is known are one value here. -/
structure ProbeState where
  metadata : MediaMetadata := {}
  audioStreamIndex : Nat := 0
  selectedAudioIsDefault : Bool := false
  selectedAudioDurationMs : Int64 := 0
  selectedAudioStartMs : Option Int64 := none
  earliestStreamStartMs : Option Int64 := none

def isAudio (stream : QJsonObject) : Bool := (stream.value (qs "codec_type")).toText == qs "audio"

def isVideo (stream : QJsonObject) : Bool := (stream.value (qs "codec_type")).toText == qs "video"

def isDefault (stream : QJsonObject) : Bool :=
  parseInt ((stream.value (qs "disposition")).toObject.value (qs "default")) != 0

/-- `if (!earliestStreamStartKnown || streamStartMs < earliestStreamStartMs)`. -/
def earliestOf (earliest : Option Int64) (start : Int64) : Option Int64 :=
  match earliest with
  | none => some start
  | some known => some (if start < known then start else known)

section Probe

variable (parseMilliseconds : QJsonValue → Option Int64)

def streamStart (stream : QJsonObject) : Option Int64 := parseMilliseconds (stream.value (qs "start_time"))

def streamDuration (stream : QJsonObject) : Int64 :=
  (parseMilliseconds (stream.value (qs "duration"))).getD 0

/-- The body of `if (select)`. -/
def ProbeState.select (stream : QJsonObject) (s : ProbeState) : ProbeState :=
  { s with
    metadata := { s.metadata with
      audioStreamIndex := s.audioStreamIndex
      codecName := (stream.value (qs "codec_name")).toText
      sampleRate := parseInt (stream.value (qs "sample_rate"))
      channelCount := parseInt (stream.value (qs "channels")) }
    selectedAudioDurationMs := streamDuration parseMilliseconds stream
    selectedAudioStartMs := streamStart parseMilliseconds stream
    selectedAudioIsDefault := isDefault stream }

def ProbeState.setEarliest (stream : QJsonObject) (s : ProbeState) : ProbeState :=
  match isAudio stream || isVideo stream, streamStart parseMilliseconds stream with
  | true, some start => { s with earliestStreamStartMs := earliestOf s.earliestStreamStartMs start }
  | _, _ => s

/-- `if (type == "audio")`. -/
def ProbeState.readAudio (stream : QJsonObject) (s : ProbeState) : ProbeState :=
  let selected :=
    if !s.metadata.hasAudio || (!s.selectedAudioIsDefault && isDefault stream)
    then s.select parseMilliseconds stream else s
  { selected with
    metadata := { selected.metadata with hasAudio := true }
    audioStreamIndex := selected.audioStreamIndex + 1 }

/-- The body of the loop. -/
def readStream (s : ProbeState) (entry : QJsonValue) : ProbeState :=
  let stream := entry.toObject
  let s := s.setEarliest parseMilliseconds stream
  if isAudio stream then s.readAudio parseMilliseconds stream
  else if isVideo stream then { s with metadata := { s.metadata with hasVideo := true } }
  else s

def probed (root : QJsonObject) : ProbeState :=
  (root.value (qs "streams")).toArray.foldl (readStream parseMilliseconds) {}

/-- Where the stream begins on the timeline; a start that is not known counts as that of the timeline. -/
def relativeAudioStart (selectedAudioStart formatStart : Option Int64) : Option Int64 :=
  match selectedAudioStart, formatStart with
  | some start, some formatStart => checkedSubtract start formatStart
  | _, _ => some 0

/-- Where the selected stream ends on the timeline of the container, if that is known. -/
def audioTimelineEnd (s : ProbeState) (formatStart : Option Int64) : Option Int64 :=
  if 0 < s.selectedAudioDurationMs then
    (relativeAudioStart s.selectedAudioStartMs formatStart).bind fun relativeAudioStartMs =>
      (checkedAdd relativeAudioStartMs s.selectedAudioDurationMs).map (max 0)
  else none

/-- The metadata, and the error if there is one. -/
def MediaMetadata.fromFfprobeJson (root : QJsonObject) : MediaMetadata × Option QString :=
  let s := probed parseMilliseconds root
  let format := (root.value (qs "format")).toObject
  let formatStart := (parseMilliseconds (format.value (qs "start_time"))).or s.earliestStreamStartMs
  let formatDuration := parseMilliseconds (format.value (qs "duration"))
  ({ s.metadata with
      formatName := (format.value (qs "format_name")).toText
      bitRate := QString.toLongLong (format.value (qs "bit_rate")).toText
      durationMs := (audioTimelineEnd s formatStart).getD (formatDuration.getD s.metadata.durationMs) },
    if s.metadata.hasAudio then none
    else some (qs "The selected media does not contain an audio stream."))

end Probe

/-! ## What the pass keeps -/

section Selection

variable (parseMilliseconds : QJsonValue → Option Int64) {streams : List QJsonObject} {s : ProbeState}
  {stream : QJsonObject}

/-- The known starts of the audio and video streams. -/
def streamStarts (streams : List QJsonObject) : List Int64 :=
  (streams.filter fun stream => isAudio stream || isVideo stream).filterMap (streamStart parseMilliseconds)

def Earliest (starts : List Int64) : Option Int64 → Prop
  | none => starts = []
  | some t => t ∈ starts ∧ ∀ other ∈ starts, t ≤ other

/-- Everything that was kept is that of one stream. -/
structure Selected (stream : QJsonObject) (index : Nat) (s : ProbeState) : Prop where
  audioStreamIndex : s.metadata.audioStreamIndex = index
  codecName : s.metadata.codecName = (stream.value (qs "codec_name")).toText
  sampleRate : s.metadata.sampleRate = parseInt (stream.value (qs "sample_rate"))
  channelCount : s.metadata.channelCount = parseInt (stream.value (qs "channels"))
  duration : s.selectedAudioDurationMs = streamDuration parseMilliseconds stream
  start : s.selectedAudioStartMs = streamStart parseMilliseconds stream

/-- The pass has come through `streams`. -/
structure Probes (streams : List QJsonObject) (s : ProbeState) : Prop where
  index : s.audioStreamIndex = (streams.filter isAudio).length
  hasAudio : s.metadata.hasAudio = !(streams.filter isAudio).isEmpty
  marked : s.selectedAudioIsDefault = (streams.filter isAudio).any isDefault
  selected : ∀ stream, (streams.filter isAudio)[preferred isDefault (streams.filter isAudio)]? = some stream →
    Selected parseMilliseconds stream (preferred isDefault (streams.filter isAudio)) s
  unselected : streams.filter isAudio = [] → s.metadata.audioStreamIndex = -1 ∧ s.selectedAudioDurationMs = 0
  earliest : Earliest (streamStarts parseMilliseconds streams) s.earliestStreamStartMs
  durationMs : s.metadata.durationMs = 0

theorem earliest_concat {starts : List Int64} {known : Option Int64} (h : Earliest starts known) (start : Int64) :
    Earliest (starts ++ [start]) (earliestOf known start) := by
  cases known with
  | none =>
    have hnil : starts = [] := h
    subst hnil
    exact ⟨List.mem_singleton_self _, fun other hother => by
      rw [List.mem_singleton.mp hother]
      exact Int64.le_refl _⟩
  | some known =>
    obtain ⟨hmem, hleast⟩ := h
    show Earliest (starts ++ [start]) (some (if start < known then start else known))
    split
    · rename_i hlt
      refine ⟨List.mem_append_right _ (List.mem_singleton_self _), fun other hother => ?_⟩
      rcases List.mem_append.mp hother with hother | hother
      · exact Int64.le_trans (Int64.le_of_lt hlt) (hleast other hother)
      · rw [List.mem_singleton.mp hother]
        exact Int64.le_refl _
    · rename_i hge
      refine ⟨List.mem_append_left _ hmem, fun other hother => ?_⟩
      rcases List.mem_append.mp hother with hother | hother
      · exact hleast other hother
      · rw [List.mem_singleton.mp hother]
        exact Int64.not_lt.mp hge

theorem streamStarts_concat (streams : List QJsonObject) (stream : QJsonObject) :
    streamStarts parseMilliseconds (streams ++ [stream]) = streamStarts parseMilliseconds streams ++
      (if isAudio stream || isVideo stream then (streamStart parseMilliseconds stream).toList else []) := by
  unfold streamStarts
  rw [List.filter_append, List.filterMap_append]
  cases hkind : isAudio stream || isVideo stream with
  | true =>
    cases hstart : streamStart parseMilliseconds stream <;>
      simp [hkind, hstart]
  | false => simp [hkind]

theorem earliest_setEarliest (stream : QJsonObject)
    (h : Earliest (streamStarts parseMilliseconds streams) s.earliestStreamStartMs) :
    Earliest (streamStarts parseMilliseconds (streams ++ [stream]))
      (s.setEarliest parseMilliseconds stream).earliestStreamStartMs := by
  rw [streamStarts_concat]
  unfold ProbeState.setEarliest
  cases hkind : isAudio stream || isVideo stream with
  | false => simpa using h
  | true =>
    cases hstart : streamStart parseMilliseconds stream with
    | none => simpa using h
    | some start => exact earliest_concat h start

theorem setEarliest_same (s : ProbeState) (stream : QJsonObject) :
    ∃ earliest, s.setEarliest parseMilliseconds stream = { s with earliestStreamStartMs := earliest } := by
  unfold ProbeState.setEarliest
  split
  · exact ⟨_, rfl⟩
  · exact ⟨_, rfl⟩

theorem Selected.of_same {index : Nat} {s' : ProbeState} (h : Selected parseMilliseconds stream index s)
    (hindex : s'.metadata.audioStreamIndex = s.metadata.audioStreamIndex)
    (hcodec : s'.metadata.codecName = s.metadata.codecName) (hrate : s'.metadata.sampleRate = s.metadata.sampleRate)
    (hchannels : s'.metadata.channelCount = s.metadata.channelCount)
    (hduration : s'.selectedAudioDurationMs = s.selectedAudioDurationMs)
    (hstart : s'.selectedAudioStartMs = s.selectedAudioStartMs) : Selected parseMilliseconds stream index s' :=
  ⟨hindex.trans h.audioStreamIndex, hcodec.trans h.codecName, hrate.trans h.sampleRate,
    hchannels.trans h.channelCount, hduration.trans h.duration, hstart.trans h.start⟩

/-- One more audio stream: it is selected where it is the one that is preferred now. -/
theorem Probes.readAudio (h : Probes parseMilliseconds streams s) (haudio : isAudio stream = true) :
    Probes parseMilliseconds (streams ++ [stream])
      ((s.setEarliest parseMilliseconds stream).readAudio parseMilliseconds stream) := by
  have hearliest := earliest_setEarliest parseMilliseconds stream h.earliest
  obtain ⟨earliest, hset⟩ := setEarliest_same parseMilliseconds s stream
  rw [hset] at hearliest ⊢
  have hfilter : (streams ++ [stream]).filter isAudio = streams.filter isAudio ++ [stream] := by
    rw [List.filter_append, List.filter_cons_of_pos haudio, List.filter_nil]
  have hlength : (streams.filter isAudio ++ [stream]).length = (streams.filter isAudio).length + 1 :=
    List.length_append
  have hany : (streams.filter isAudio ++ [stream]).any isDefault =
      ((streams.filter isAudio).any isDefault || isDefault stream) := by
    rw [List.any_append, List.any_cons, List.any_nil, Bool.or_false]
  have hempty : (streams.filter isAudio ++ [stream]).isEmpty = false := by
    cases streams.filter isAudio <;> rfl
  have hcondition : (!s.metadata.hasAudio || (!s.selectedAudioIsDefault && isDefault stream)) = true ↔
      streams.filter isAudio = [] ∨ ((streams.filter isAudio).any isDefault = false ∧ isDefault stream = true) := by
    rw [h.hasAudio, h.marked, Bool.not_not, Bool.or_eq_true, Bool.and_eq_true, List.isEmpty_iff, Bool.not_eq_true']
  have hplace := preferred_concat isDefault (streams.filter isAudio) stream
  unfold ProbeState.readAudio
  dsimp only
  by_cases hselect : (!s.metadata.hasAudio || (!s.selectedAudioIsDefault && isDefault stream)) = true
  · -- the new stream is the preferred one
    rw [if_pos hselect]
    rw [if_pos (hcondition.mp hselect)] at hplace
    have hmarked : isDefault stream = ((streams.filter isAudio).any isDefault || isDefault stream) := by
      rcases hcondition.mp hselect with hnil | ⟨hnone, -⟩
      · rw [hnil, List.any_nil, Bool.false_or]
      · rw [hnone, Bool.false_or]
    refine ⟨?_, ?_, ?_, fun chosen hchosen => ?_, fun hnil => ?_, hearliest, h.durationMs⟩
    · rw [hfilter, hlength, ← h.index]
      rfl
    · rw [hfilter, hempty]
      rfl
    · rw [hfilter, hany]
      exact hmarked
    · rw [hfilter, hplace, List.getElem?_append_right (Nat.le_refl _), Nat.sub_self] at hchosen
      obtain rfl : stream = chosen := Option.some.inj hchosen
      rw [hfilter, hplace]
      exact ⟨congrArg Int.ofNat h.index, rfl, rfl, rfl, rfl, rfl⟩
    · rw [hfilter] at hnil
      exact absurd hnil (List.append_ne_nil_of_right_ne_nil _ (List.cons_ne_nil _ _))
  · -- the stream that was selected stays
    rw [if_neg hselect]
    rw [if_neg fun hnew => hselect (hcondition.mpr hnew)] at hplace
    have hne : streams.filter isAudio ≠ [] := fun hnil => hselect (hcondition.mpr (Or.inl hnil))
    have hmarked : (streams.filter isAudio).any isDefault =
        ((streams.filter isAudio).any isDefault || isDefault stream) := by
      cases hnew : isDefault stream with
      | false => rw [Bool.or_false]
      | true =>
        cases hold : (streams.filter isAudio).any isDefault with
        | true => rfl
        | false => exact absurd (hcondition.mpr (Or.inr ⟨hold, hnew⟩)) hselect
    refine ⟨?_, ?_, ?_, fun chosen hchosen => ?_, fun hnil => ?_, hearliest, h.durationMs⟩
    · rw [hfilter, hlength, ← h.index]
    · rw [hfilter, hempty]
      rfl
    · rw [hfilter, hany, ← hmarked]
      exact h.marked
    · rw [hfilter, hplace, List.getElem?_append_left (preferred_lt hne)] at hchosen
      rw [hfilter, hplace]
      exact (h.selected chosen hchosen).of_same parseMilliseconds rfl rfl rfl rfl rfl rfl
    · rw [hfilter] at hnil
      exact absurd hnil (List.append_ne_nil_of_right_ne_nil _ (List.cons_ne_nil _ _))

/-- Any other stream leaves the selection alone. -/
theorem Probes.readOther (h : Probes parseMilliseconds streams s) (haudio : isAudio stream = false)
    (hasVideo : Bool) :
    Probes parseMilliseconds (streams ++ [stream])
      { s.setEarliest parseMilliseconds stream with
        metadata := { (s.setEarliest parseMilliseconds stream).metadata with hasVideo } } := by
  have hearliest := earliest_setEarliest parseMilliseconds stream h.earliest
  obtain ⟨earliest, hset⟩ := setEarliest_same parseMilliseconds s stream
  rw [hset] at hearliest ⊢
  have hfilter : (streams ++ [stream]).filter isAudio = streams.filter isAudio := by
    rw [List.filter_append, List.filter_cons_of_neg (by rw [haudio]; exact Bool.false_ne_true), List.filter_nil,
      List.append_nil]
  refine ⟨hfilter ▸ h.index, hfilter ▸ h.hasAudio, hfilter ▸ h.marked, fun chosen hchosen => ?_, fun hnil => ?_,
    hearliest, h.durationMs⟩
  · rw [hfilter] at hchosen ⊢
    exact (h.selected chosen hchosen).of_same parseMilliseconds rfl rfl rfl rfl rfl rfl
  · rw [hfilter] at hnil
    exact h.unselected hnil

theorem Probes.readStream (h : Probes parseMilliseconds streams s) (entry : QJsonValue) :
    Probes parseMilliseconds (streams ++ [entry.toObject]) (readStream parseMilliseconds s entry) := by
  unfold BreezeDesk.readStream
  dsimp only
  cases haudio : isAudio entry.toObject with
  | true =>
    rw [if_pos rfl]
    exact h.readAudio parseMilliseconds haudio
  | false =>
    rw [if_neg Bool.false_ne_true]
    split
    · exact h.readOther parseMilliseconds haudio true
    · exact h.readOther parseMilliseconds haudio _

def streamObjects (root : QJsonObject) : List QJsonObject := (root.value (qs "streams")).toArray.map (·.toObject)

def audioStreams (root : QJsonObject) : List QJsonObject := (streamObjects root).filter isAudio

theorem Probes.foldl (entries : List QJsonValue) : ∀ {streams : List QJsonObject} {s : ProbeState},
    Probes parseMilliseconds streams s →
      Probes parseMilliseconds (streams ++ entries.map (·.toObject))
        (entries.foldl (BreezeDesk.readStream parseMilliseconds) s) := by
  induction entries with
  | nil =>
    intro streams s h
    rw [List.map_nil, List.append_nil]
    exact h
  | cons entry rest ih =>
    intro streams s h
    have hrest := ih (h.readStream parseMilliseconds entry)
    rw [List.append_assoc, List.singleton_append] at hrest
    exact hrest

/-- **After the pass** all that was kept belongs to one stream. -/
theorem probed_spec (root : QJsonObject) :
    Probes parseMilliseconds (streamObjects root) (probed parseMilliseconds root) := by
  have hinitial : Probes parseMilliseconds [] {} :=
    ⟨rfl, rfl, rfl, fun _ h => (by cases h), fun _ => ⟨rfl, rfl⟩, rfl, rfl⟩
  exact hinitial.foldl parseMilliseconds _

/-! ## The result -/

def formatObject (root : QJsonObject) : QJsonObject := (root.value (qs "format")).toObject

/-- Where the timeline begins: as the container says, or else with the earliest audio or video stream. -/
def TimelineStart (root : QJsonObject) (timeline : Int64) : Prop :=
  match parseMilliseconds ((formatObject root).value (qs "start_time")) with
  | some start => timeline = start
  | none => Earliest (streamStarts parseMilliseconds (streamObjects root)) (some timeline)

/-- The stream begins at `start`, and the timeline at `timeline`. -/
def OnTimeline (root stream : QJsonObject) (start timeline : Int64) : Prop :=
  streamStart parseMilliseconds stream = some start ∧ TimelineStart parseMilliseconds root timeline

/-- What is reported of the stream that was selected. -/
structure Reports (root stream : QJsonObject) (metadata : MediaMetadata) : Prop where
  codecName : metadata.codecName = (stream.value (qs "codec_name")).toText
  sampleRate : metadata.sampleRate = parseInt (stream.value (qs "sample_rate"))
  channelCount : metadata.channelCount = parseInt (stream.value (qs "channels"))
  /-- Where nothing overflows, the end of the stream on the timeline. -/
  onTimeline : ∀ start timeline, 0 < streamDuration parseMilliseconds stream →
    OnTimeline parseMilliseconds root stream start timeline → Fits (start.toInt - timeline.toInt) →
    Fits (start.toInt - timeline.toInt + (streamDuration parseMilliseconds stream).toInt) →
    metadata.durationMs.toInt =
      max 0 (start.toInt - timeline.toInt + (streamDuration parseMilliseconds stream).toInt)
  /-- Without a start, the duration of the stream. -/
  alone : 0 < streamDuration parseMilliseconds stream → streamStart parseMilliseconds stream = none →
    metadata.durationMs = streamDuration parseMilliseconds stream
  /-- In all other cases, the duration of the container. -/
  container : (0 < streamDuration parseMilliseconds stream → ∃ start timeline,
      OnTimeline parseMilliseconds root stream start timeline ∧
        ¬ (Fits (start.toInt - timeline.toInt) ∧
          Fits (start.toInt - timeline.toInt + (streamDuration parseMilliseconds stream).toInt))) →
    metadata.durationMs = (parseMilliseconds ((formatObject root).value (qs "duration"))).getD 0

theorem toInt_max (a b : Int64) : (max a b).toInt = max a.toInt b.toInt := by
  show (if a ≤ b then b else a).toInt = if a.toInt ≤ b.toInt then b.toInt else a.toInt
  simp only [Int64.le_iff_toInt_le]
  split <;> rfl

/-- The start that the code takes for that of the timeline is the only one there is. -/
theorem formatStart_of_timelineStart {root : QJsonObject} {timeline : Int64}
    (h : TimelineStart parseMilliseconds root timeline) :
    (parseMilliseconds ((formatObject root).value (qs "start_time"))).or
      (probed parseMilliseconds root).earliestStreamStartMs = some timeline := by
  have hearliest := (probed_spec parseMilliseconds root).earliest
  unfold TimelineStart at h
  cases hformat : parseMilliseconds ((formatObject root).value (qs "start_time")) with
  | some start =>
    rw [hformat] at h
    rw [Option.some_or, show timeline = start from h]
  | none =>
    rw [hformat] at h
    obtain ⟨hmem, hleast⟩ := h
    rw [Option.none_or]
    cases hknown : (probed parseMilliseconds root).earliestStreamStartMs with
    | none =>
      rw [hknown] at hearliest
      rw [show streamStarts parseMilliseconds (streamObjects root) = [] from hearliest] at hmem
      cases hmem
    | some known =>
      rw [hknown] at hearliest
      exact congrArg some (Int64.le_antisymm (hearliest.2 timeline hmem) (hleast known hearliest.1))

theorem audioTimelineEnd_of_fits (hpositive : 0 < s.selectedAudioDurationMs) {start timeline : Int64}
    (hstart : s.selectedAudioStartMs = some start) (hdifference : Fits (start.toInt - timeline.toInt))
    (hsum : Fits (start.toInt - timeline.toInt + s.selectedAudioDurationMs.toInt)) :
    ∃ durationMs, audioTimelineEnd s (some timeline) = some durationMs ∧
      durationMs.toInt = max 0 (start.toInt - timeline.toInt + s.selectedAudioDurationMs.toInt) := by
  have hsub := toInt_sub_of_fits hdifference
  rw [← hsub] at hsum
  refine ⟨max 0 (start - timeline + s.selectedAudioDurationMs), ?_, ?_⟩
  · unfold audioTimelineEnd
    rw [if_pos hpositive, hstart]
    show (checkedSubtract start timeline).bind _ = _
    rw [(checkedSubtract_spec start timeline).1 hdifference, Option.bind_some, (checkedAdd_spec _ _).1 hsum]
    rfl
  · rw [toInt_max, toInt_add_of_fits hsum, hsub, Int64.toInt_zero]

theorem audioTimelineEnd_of_overflow {start timeline : Int64}
    (hstart : s.selectedAudioStartMs = some start)
    (h : ¬ (Fits (start.toInt - timeline.toInt) ∧
      Fits (start.toInt - timeline.toInt + s.selectedAudioDurationMs.toInt))) :
    audioTimelineEnd s (some timeline) = none := by
  unfold audioTimelineEnd
  split
  · rw [hstart]
    show (checkedSubtract start timeline).bind _ = _
    by_cases hdifference : Fits (start.toInt - timeline.toInt)
    · rw [(checkedSubtract_spec start timeline).1 hdifference, Option.bind_some]
      have hsum : ¬ Fits ((start - timeline).toInt + s.selectedAudioDurationMs.toInt) := fun hsum =>
        h ⟨hdifference, toInt_sub_of_fits hdifference ▸ hsum⟩
      rw [(checkedAdd_spec _ _).2 hsum]
      rfl
    · rw [(checkedSubtract_spec start timeline).2 hdifference]
      rfl
  · rfl

theorem audioTimelineEnd_of_unknown (hpositive : 0 < s.selectedAudioDurationMs)
    (hstart : s.selectedAudioStartMs = none) (formatStart : Option Int64) :
    audioTimelineEnd s formatStart = some s.selectedAudioDurationMs := by
  have hpos : 0 < s.selectedAudioDurationMs.toInt := Int64.lt_iff_toInt_lt.mp hpositive
  have hadd := (checkedAdd_spec 0 s.selectedAudioDurationMs).1
    (by rw [Int64.toInt_zero, Int.zero_add]; exact fits_toInt _)
  unfold audioTimelineEnd
  rw [if_pos hpositive, hstart]
  show (checkedAdd 0 s.selectedAudioDurationMs).map (max 0) = _
  rw [hadd, Option.map_some, Int64.zero_add]
  refine congrArg some (Int64.toInt.inj ?_)
  rw [toInt_max, Int64.toInt_zero]
  omega

/-- The start of a stream is one of those whose earliest is taken. -/
theorem exists_timelineStart {root : QJsonObject} (hmem : stream ∈ audioStreams root) {start : Int64}
    (hstart : streamStart parseMilliseconds stream = some start) :
    ∃ timeline, TimelineStart parseMilliseconds root timeline := by
  have hearliest := (probed_spec parseMilliseconds root).earliest
  obtain ⟨hobject, haudio⟩ := List.mem_filter.mp hmem
  have hstarts : start ∈ streamStarts parseMilliseconds (streamObjects root) := by
    refine List.mem_filterMap.mpr ⟨stream, List.mem_filter.mpr ⟨hobject, ?_⟩, hstart⟩
    rw [haudio, Bool.true_or]
  unfold TimelineStart
  cases parseMilliseconds ((formatObject root).value (qs "start_time")) with
  | some formatStart => exact ⟨formatStart, rfl⟩
  | none =>
    cases hknown : (probed parseMilliseconds root).earliestStreamStartMs with
    | some known =>
      rw [hknown] at hearliest
      exact ⟨known, hearliest⟩
    | none =>
      rw [hknown] at hearliest
      rw [show streamStarts parseMilliseconds (streamObjects root) = [] from hearliest] at hstarts
      cases hstarts

theorem reports_of_selected {root : QJsonObject} {index : Nat}
    (h : Selected parseMilliseconds stream index (probed parseMilliseconds root)) :
    Reports parseMilliseconds root stream (MediaMetadata.fromFfprobeJson parseMilliseconds root).1 := by
  have hunset := (probed_spec parseMilliseconds root).durationMs
  have hduration : (MediaMetadata.fromFfprobeJson parseMilliseconds root).1.durationMs =
      (audioTimelineEnd (probed parseMilliseconds root)
        ((parseMilliseconds ((formatObject root).value (qs "start_time"))).or
          (probed parseMilliseconds root).earliestStreamStartMs)).getD
        ((parseMilliseconds ((formatObject root).value (qs "duration"))).getD 0) := by
    rw [← hunset]
    rfl
  refine ⟨h.codecName, h.sampleRate, h.channelCount, fun start timeline hpositive hon hdifference hsum => ?_,
    fun hpositive hstart => ?_, fun hother => ?_⟩
  · rw [← h.duration] at hpositive hsum ⊢
    obtain ⟨durationMs, hend, hvalue⟩ :=
      audioTimelineEnd_of_fits hpositive (h.start.trans hon.1) hdifference hsum
    rw [hduration, formatStart_of_timelineStart parseMilliseconds hon.2, hend]
    exact hvalue
  · rw [← h.duration] at hpositive ⊢
    rw [hduration, audioTimelineEnd_of_unknown hpositive (h.start.trans hstart)]
    rfl
  · rw [hduration]
    by_cases hpositive : 0 < streamDuration parseMilliseconds stream
    · obtain ⟨start, timeline, hon, hover⟩ := hother hpositive
      rw [← h.duration] at hover
      rw [formatStart_of_timelineStart parseMilliseconds hon.2,
        audioTimelineEnd_of_overflow (h.start.trans hon.1) hover]
      rfl
    · rw [← h.duration] at hpositive
      rw [show audioTimelineEnd (probed parseMilliseconds root) _ = none from if_neg hpositive]
      rfl

/-- **The selection is consistent.**  The index is the place of the first audio stream that is marked as the
    default, or of the first one when none is; all that is reported is that of this one stream. -/
theorem fromFfprobeJson_consistent (root : QJsonObject) :
    (audioStreams root = [] →
      (MediaMetadata.fromFfprobeJson parseMilliseconds root).1.audioStreamIndex = -1 ∧
        (MediaMetadata.fromFfprobeJson parseMilliseconds root).2 =
          some (qs "The selected media does not contain an audio stream.")) ∧
      (audioStreams root ≠ [] → ∃ stream,
        (audioStreams root)[preferred isDefault (audioStreams root)]? = some stream ∧
        (MediaMetadata.fromFfprobeJson parseMilliseconds root).1.audioStreamIndex =
          preferred isDefault (audioStreams root) ∧
        (MediaMetadata.fromFfprobeJson parseMilliseconds root).2 = none ∧
        (∀ start, streamStart parseMilliseconds stream = some start →
          ∃ timeline, TimelineStart parseMilliseconds root timeline) ∧
        Reports parseMilliseconds root stream (MediaMetadata.fromFfprobeJson parseMilliseconds root).1) := by
  have h := probed_spec parseMilliseconds root
  refine ⟨fun hnil => ⟨(h.unselected hnil).1, ?_⟩, fun hne => ?_⟩
  · have hhas : (probed parseMilliseconds root).metadata.hasAudio = false := by
      rw [h.hasAudio, show (streamObjects root).filter isAudio = [] from hnil]
      rfl
    show (if (probed parseMilliseconds root).metadata.hasAudio then none else _) = _
    rw [hhas, if_neg Bool.false_ne_true]
  · have hplace := List.getElem?_eq_getElem (preferred_lt (p := isDefault) hne)
    have hselected := h.selected _ hplace
    have hhas : (probed parseMilliseconds root).metadata.hasAudio = true := by
      rw [h.hasAudio]
      cases hlist : audioStreams root with
      | nil => exact absurd hlist hne
      | cons _ _ =>
        rw [show (streamObjects root).filter isAudio = _ from hlist]
        rfl
    refine ⟨_, hplace, hselected.audioStreamIndex, ?_, fun start hstart => ?_, ?_⟩
    · show (if (probed parseMilliseconds root).metadata.hasAudio then none else _) = _
      rw [hhas, if_pos rfl]
    · exact exists_timelineStart parseMilliseconds (List.getElem_mem _) hstart
    · exact reports_of_selected parseMilliseconds hselected

end Selection

/-! ## A stream without a start -/

/-- Seconds with three decimals, as the reader of milliseconds takes them. -/
def millisecondsOf (value : QJsonValue) : Option Int64 :=
  (toSigned (value.toText.filter (· != 0x2E))).map Int64.ofInt

/-- An audio stream of ten seconds that does not say where it begins, in a container of twenty seconds whose
    timeline begins after five. -/
def startless : QJsonObject :=
  [(qs "streams", .array [.object [(qs "codec_type", .string (qs "audio")), (qs "duration", .string (qs "10.000"))]]),
    (qs "format", .object [(qs "start_time", .string (qs "5.000")), (qs "duration", .string (qs "20.000"))])]

/-- **Without a start** the stream's own duration is reported: neither that of the container, nor an end
    counted from a start at zero. -/
theorem startless_durationMs :
    (audioStreams startless).map (streamStart millisecondsOf) = [none] ∧
      (audioStreams startless).map (streamDuration millisecondsOf) = [10000] ∧
      millisecondsOf ((formatObject startless).value (qs "start_time")) = some 5000 ∧
      millisecondsOf ((formatObject startless).value (qs "duration")) = some 20000 ∧
      (MediaMetadata.fromFfprobeJson millisecondsOf startless).1.durationMs = 10000 ∧
      (MediaMetadata.fromFfprobeJson millisecondsOf startless).1.durationMs ≠ 20000 ∧
      (MediaMetadata.fromFfprobeJson millisecondsOf startless).1.durationMs.toInt ≠ max 0 (0 - 5000 + 10000) := by
  decide

end BreezeDesk
