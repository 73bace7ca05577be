/-
  The chunk plan on its way from the worker into the two front ends.

  The worker plans with the default configuration and sends `SpeechAnalysisCompleted`
  (`speechAnalysisCompleted`).  The desktop application decodes that payload and checks it entry by
  entry (`decodeWorkerChunkPlan`); the command line checks the rows it is about to store
  (`validateDurableChunkGeometry`).  The two checks were written separately.  Both accept exactly
  the chains of `ChunkPlanner`:

  * `decodeWorkerChunkPlan_encode` / `validateDurableChunkGeometry_ok` — a covering chain passes;
  * `decodeWorkerChunkPlan_sound` — what passes is a covering chain, whatever the payload was.

  Payloads are `QCborMap`s, so a missing key, a value of the wrong type and a chunk that is not a
  map are inputs like any other.
-/
import BreezeDesk.Asr.ChunkPlanner
import BreezeDesk.Jobs.TranscriptionJob

namespace BreezeDesk.Asr

/-! ## The worker's payload -/

def chunkEntries (chunk : TranscriptionChunk) : QCborMap :=
  [(qs "ordinal", .integer chunk.ordinal), (qs "startMs", .integer chunk.startMs),
    (qs "endMs", .integer chunk.endMs), (qs "overlapBeforeMs", .integer chunk.overlapBeforeMs),
    (qs "overlapAfterMs", .integer chunk.overlapAfterMs)]

def encodeChunk (chunk : TranscriptionChunk) : QCborValue :=
  .map (chunkEntries chunk)

def encodeRegion (region : SpeechRegion) : QCborValue :=
  .map [(qs "startMs", .integer region.startMs), (qs "endMs", .integer region.endMs)]

/-- The payload of `SpeechAnalysisCompleted`. -/
def speechAnalysisCompleted (durationMs : Int) (regions : List SpeechRegion)
    (chunkPlan : List TranscriptionChunk) : QCborMap :=
  [(qs "durationMs", .integer durationMs), (qs "speechRegions", .array (regions.map encodeRegion)),
    (qs "chunks", .array (chunkPlan.map encodeChunk))]

/-! ## The desktop decoder -/

/-- The geometry of a stored chunk. -/
def planned (chunk : JobChunk) : TranscriptionChunk :=
  ⟨chunk.ordinal, chunk.startMs, chunk.endMs, chunk.overlapBeforeMs, chunk.overlapAfterMs⟩

/-- `makeJobChunks`; `newId index` is the fresh UUID drawn for the chunk at that index. -/
def makeJobChunk (newId : Nat → QString) (jobId : QString) (index : Nat)
    (source : TranscriptionChunk) : JobChunk :=
  { id := newId index, jobId, ordinal := source.ordinal, startMs := source.startMs,
    endMs := source.endMs, overlapBeforeMs := source.overlapBeforeMs,
    overlapAfterMs := source.overlapAfterMs }

def makeJobChunks (newId : Nat → QString) (jobId : QString) (chunks : List TranscriptionChunk) :
    List JobChunk :=
  chunks.mapIdx (makeJobChunk newId jobId)

def MaximumWorkerChunks : Nat := 4096

def invalidChunk (index : Nat) : QString :=
  qs ("The worker returned an invalid transcription chunk at index " ++ toString index ++ ".")

/-- The five `readInteger` calls. -/
def readChunk (map : QCborMap) : Option TranscriptionChunk := do
  let ordinal ← readInteger map (qs "ordinal")
  let startMs ← readInteger map (qs "startMs")
  let endMs ← readInteger map (qs "endMs")
  let overlapBeforeMs ← readInteger map (qs "overlapBeforeMs")
  let overlapAfterMs ← readInteger map (qs "overlapAfterMs")
  return ⟨ordinal, startMs, endMs, overlapBeforeMs, overlapAfterMs⟩

/-- One turn of the decoder's loop. -/
def decodeChunk (durationMs : Int) (index : Nat) (previousEnd previousOverlapAfter : Int)
    (encodedChunk : QCborValue) : Except QString TranscriptionChunk :=
  match encodedChunk.map? with
  | none => .error (qs "The worker returned a non-map transcription chunk.")
  | some map =>
    match readChunk map with
    | none => .error (invalidChunk index)
    | some ⟨ordinal, startMs, endMs, overlapBeforeMs, overlapAfterMs⟩ =>
      if ordinal ≠ index ∨ startMs < 0 ∨ endMs ≤ startMs ∨ endMs > durationMs ∨ overlapBeforeMs < 0 ∨
          overlapAfterMs < 0 ∨ overlapBeforeMs ≥ endMs - startMs ∨ overlapAfterMs ≥ endMs - startMs then
        .error (invalidChunk index)
      else if (index = 0 ∧ (startMs ≠ 0 ∨ overlapBeforeMs ≠ 0)) ∨
          (index > 0 ∧ (overlapBeforeMs ≠ previousOverlapAfter ∨ startMs ≠ previousEnd - overlapBeforeMs)) then
        .error (qs "The worker returned a discontinuous transcription chunk plan.")
      else .ok ⟨ordinal, startMs, endMs, overlapBeforeMs, overlapAfterMs⟩

def decodeChunks (durationMs : Int) : Nat → Int → Int → List QCborValue →
    Except QString (List TranscriptionChunk)
  | _, _, _, [] => .ok []
  | index, previousEnd, previousOverlapAfter, encodedChunk :: rest =>
    match decodeChunk durationMs index previousEnd previousOverlapAfter encodedChunk with
    | .error error => .error error
    | .ok chunk =>
      match decodeChunks durationMs (index + 1) chunk.endMs chunk.overlapAfterMs rest with
      | .error error => .error error
      | .ok chunks => .ok (chunk :: chunks)

/-- `decodeWorkerChunkPlan`: the duration and the chunks, or the text of the error. -/
def decodeWorkerChunkPlan (newId : Nat → QString) (payload : QCborMap) (jobId : QString) :
    Except QString (Int × List JobChunk) :=
  match (payload.value (qs "durationMs")).integer?, (payload.value (qs "chunks")).array? with
  | some durationMs, some encodedChunks =>
    if durationMs ≤ 0 ∨ encodedChunks.isEmpty ∨ encodedChunks.length > MaximumWorkerChunks then
      .error (qs "The worker returned an invalid speech-analysis duration or chunk count.")
    else
      match decodeChunks durationMs 0 0 0 encodedChunks with
      | .error error => .error error
      | .ok chunks =>
        if lastEnd 0 chunks ≠ durationMs ∨ lastOverlap 0 chunks ≠ 0 then
          .error (qs "The worker chunk plan does not cover the normalized audio exactly.")
        else .ok (durationMs, makeJobChunks newId jobId chunks)
  | _, _ => .error (qs "SpeechAnalysisCompleted is missing durationMs or chunks.")

/-! ## The command line's check -/

def invalidArgument (message : String) : UserFacingError :=
  .validation .invalidArgument (qs message)

/-- One turn of the loop of `validateDurableChunkGeometry`. -/
def validateChunk (index : Nat) (previousEndMs previousOverlapAfterMs : Int) (chunk : JobChunk) :
    Result Unit :=
  let lengthMs := chunk.endMs - chunk.startMs
  if chunk.ordinal ≠ index ∨ chunk.startMs < 0 ∨ chunk.endMs ≤ chunk.startMs then
    .error (invalidArgument "The durable transcription chunk plan contains an invalid chunk.")
  else if chunk.overlapBeforeMs < 0 ∨ chunk.overlapAfterMs < 0 ∨ chunk.overlapBeforeMs ≥ lengthMs ∨
      chunk.overlapAfterMs ≥ lengthMs then
    .error (invalidArgument "The durable transcription chunk plan contains an invalid chunk.")
  else if ¬ (if index = 0 then chunk.startMs = 0 ∧ chunk.overlapBeforeMs = 0
      else chunk.overlapBeforeMs = previousOverlapAfterMs ∧
        chunk.startMs = previousEndMs - chunk.overlapBeforeMs) then
    .error (invalidArgument "The durable transcription chunk plan is discontinuous.")
  else .ok ()

def validateChunks : Nat → Int → Int → List JobChunk → Result Unit
  | _, _, _, [] => .ok ()
  | index, previousEndMs, previousOverlapAfterMs, chunk :: rest =>
    match validateChunk index previousEndMs previousOverlapAfterMs chunk with
    | .error error => .error error
    | .ok () => validateChunks (index + 1) chunk.endMs chunk.overlapAfterMs rest

def validateDurableChunkGeometry (chunks : List JobChunk) : Result Unit :=
  if chunks.isEmpty then
    .error (invalidArgument "The durable transcription chunk plan is empty.")
  else
    match validateChunks 0 0 0 chunks with
    | .error error => .error error
    | .ok () =>
      if lastOverlap 0 (chunks.map planned) ≠ 0 then
        .error (invalidArgument "The durable transcription chunk plan has an invalid trailing overlap.")
      else .ok ()

/-! ## A covering chain passes both checks -/

theorem readChunk_chunkEntries (chunk : TranscriptionChunk) :
    readChunk (chunkEntries chunk) = some chunk := rfl

@[simp] theorem planned_makeJobChunk (newId : Nat → QString) (jobId : QString) (index : Nat)
    (chunk : TranscriptionChunk) : planned (makeJobChunk newId jobId index chunk) = chunk := rfl

@[simp] theorem planned_makeJobChunks (newId : Nat → QString) (jobId : QString)
    (chunks : List TranscriptionChunk) : (makeJobChunks newId jobId chunks).map planned = chunks := by
  unfold makeJobChunks
  apply List.ext_getElem
  · simp
  · intro i h1 h2
    simp

/-- In a chain that begins at `0`, a chunk that is not the first one starts after `0`; the first one
    starts at `0` because nothing precedes it. -/
structure Entry (index : Nat) (previousEnd previousOverlap : Int) : Prop where
  first : index = 0 → previousEnd = 0 ∧ previousOverlap = 0
  nonneg : previousOverlap ≤ previousEnd

theorem Entry.zero : Entry 0 0 0 := ⟨fun _ => ⟨rfl, rfl⟩, Int.le_refl 0⟩

theorem Entry.next {limit : Int} {index : Nat} {previousEnd previousOverlap : Int}
    {chunk : TranscriptionChunk} (he : Entry index previousEnd previousOverlap)
    (hf : Follows index previousEnd previousOverlap chunk) (hw : WellSized limit chunk) :
    Entry (index + 1) chunk.endMs chunk.overlapAfterMs := by
  refine ⟨fun h => absurd h (Nat.succ_ne_zero index), ?_⟩
  have h1 := hf.start_eq
  have h2 := he.nonneg
  have h3 := hw.overlapAfter_lt
  omega

theorem decodeChunk_encodeChunk {limit durationMs : Int} {index : Nat}
    {previousEnd previousOverlap : Int} {chunk : TranscriptionChunk}
    (he : Entry index previousEnd previousOverlap)
    (hf : Follows index previousEnd previousOverlap chunk) (hw : WellSized limit chunk)
    (hend : chunk.endMs ≤ durationMs) :
    decodeChunk durationMs index previousEnd previousOverlap (encodeChunk chunk) = .ok chunk := by
  obtain ⟨ordinal, startMs, endMs, overlapBeforeMs, overlapAfterMs⟩ := chunk
  obtain ⟨hord, hov, hstart⟩ := hf
  obtain ⟨hlt, hlen, hb0, hb, ha0, ha⟩ := hw
  obtain ⟨hfirst, hnonneg⟩ := he
  dsimp only at *
  simp only [decodeChunk, encodeChunk, QCborValue.map?, readChunk_chunkEntries]
  rw [if_neg (by omega), if_neg ?_]
  rintro (⟨hi, h⟩ | ⟨hi, h⟩)
  · obtain ⟨he0, ho0⟩ := hfirst hi
    omega
  · omega

theorem validateChunk_ok {limit : Int} {index : Nat} {previousEnd previousOverlap : Int}
    {chunk : JobChunk} (he : Entry index previousEnd previousOverlap)
    (hf : Follows index previousEnd previousOverlap (planned chunk))
    (hw : WellSized limit (planned chunk)) :
    validateChunk index previousEnd previousOverlap chunk = .ok () := by
  obtain ⟨hord, hov, hstart⟩ := hf
  obtain ⟨hlt, hlen, hb0, hb, ha0, ha⟩ := hw
  obtain ⟨hfirst, hnonneg⟩ := he
  dsimp only [planned] at *
  unfold validateChunk
  dsimp only
  rw [if_neg (by omega), if_neg (by omega), if_neg ?_]
  rw [Decidable.not_not]
  split
  · rename_i hi
    obtain ⟨he0, ho0⟩ := hfirst hi
    omega
  · omega

/-- The decoder's loop gives back every chain it is sent. -/
theorem decodeChunks_encode {limit durationMs : Int} :
    ∀ {chunks : List TranscriptionChunk} {index : Nat} {previousEnd previousOverlap : Int},
      Entry index previousEnd previousOverlap →
      Chain limit index previousEnd previousOverlap chunks →
      (∀ chunk ∈ chunks, chunk.endMs ≤ durationMs) →
      decodeChunks durationMs index previousEnd previousOverlap (chunks.map encodeChunk) = .ok chunks := by
  intro chunks
  induction chunks with
  | nil => intros; rfl
  | cons chunk rest ih =>
    intro index previousEnd previousOverlap he hchain hend
    obtain ⟨hf, hw, hrest⟩ := hchain
    have hchunk := decodeChunk_encodeChunk he hf hw (hend chunk (List.mem_cons_self ..))
    have htail := ih (he.next hf hw) (by exact_mod_cast hrest)
      (fun c hc => hend c (List.mem_cons_of_mem _ hc))
    simp only [List.map_cons, decodeChunks, hchunk, htail]

theorem validateChunks_ok {limit : Int} :
    ∀ {chunks : List JobChunk} {index : Nat} {previousEnd previousOverlap : Int},
      Entry index previousEnd previousOverlap →
      Chain limit index previousEnd previousOverlap (chunks.map planned) →
      validateChunks index previousEnd previousOverlap chunks = .ok () := by
  intro chunks
  induction chunks with
  | nil => intros; rfl
  | cons chunk rest ih =>
    intro index previousEnd previousOverlap he hchain
    obtain ⟨hf, hw, hrest⟩ := hchain
    have htail := ih (he.next hf hw) (by exact_mod_cast hrest)
    simp only [validateChunks, validateChunk_ok he hf hw]
    exact htail

/-- **The desktop decoder accepts a covering plan** and stores it as it was planned. -/
theorem decodeWorkerChunkPlan_encode {limit durationMs : Int} {chunks : List TranscriptionChunk}
    (hc : Covers limit durationMs chunks) (hd : 0 < durationMs)
    (hcount : chunks.length ≤ MaximumWorkerChunks) (newId : Nat → QString) (jobId : QString)
    (regions : List SpeechRegion) :
    decodeWorkerChunkPlan newId (speechAnalysisCompleted durationMs regions chunks) jobId =
      .ok (durationMs, makeJobChunks newId jobId chunks) := by
  have hloop : decodeChunks durationMs 0 0 0 (chunks.map encodeChunk) = .ok chunks := by
    refine decodeChunks_encode Entry.zero hc.chain fun chunk hmem => ?_
    have := hc.chain.end_le_lastEnd.2 chunk hmem
    rwa [hc.end_eq] at this
  show (if _ then _ else _) = _
  rw [if_neg ?_]
  · rw [hloop]
    dsimp only
    rw [if_neg (by simp [hc.end_eq, hc.overlap_eq])]
  · have hne := hc.nonempty
    simp only [List.isEmpty_iff, List.map_eq_nil_iff, List.length_map]
    rintro (h | h | h)
    · omega
    · exact hne h
    · omega

/-- **The command line accepts the rows of a covering plan.** -/
theorem validateDurableChunkGeometry_ok {limit durationMs : Int} {chunks : List JobChunk}
    (hc : Covers limit durationMs (chunks.map planned)) :
    validateDurableChunkGeometry chunks = .ok () := by
  unfold validateDurableChunkGeometry
  rw [if_neg (by simpa using hc.nonempty), validateChunks_ok Entry.zero hc.chain]
  dsimp only
  rw [if_neg (by simp [hc.overlap_eq])]

/-! ## Whatever passes is a covering chain -/

theorem decodeChunk_sound {durationMs : Int} {index : Nat} {previousEnd previousOverlap : Int}
    {encoded : QCborValue} {chunk : TranscriptionChunk}
    (he : Entry index previousEnd previousOverlap)
    (h : decodeChunk durationMs index previousEnd previousOverlap encoded = .ok chunk) :
    Follows index previousEnd previousOverlap chunk ∧ WellSized durationMs chunk := by
  obtain ⟨hfirst, -⟩ := he
  unfold decodeChunk at h
  split at h
  · cases h
  · split at h
    · cases h
    · split at h
      · cases h
      · split at h
        · cases h
        · -- every test has failed, which is the geometry
          rename_i hshape hjoint
          cases h
          have hjoin : (index = 0 → _) ∧ (index > 0 → _) := ⟨fun hi => not_or.mp fun hbad =>
            hjoint (Or.inl ⟨hi, hbad⟩), fun hi => not_or.mp fun hbad => hjoint (Or.inr ⟨hi, hbad⟩)⟩
          refine ⟨?_, ?_⟩
          · constructor <;> dsimp only <;> rcases Nat.eq_zero_or_pos index with hi | hi
            · omega
            · omega
            · have := hfirst hi; have := hjoin.1 hi; omega
            · have := hjoin.2 hi; omega
            · have := hfirst hi; have := hjoin.1 hi; omega
            · have := hjoin.2 hi; omega
          · constructor <;> dsimp only <;> omega

theorem decodeChunks_sound {durationMs : Int} :
    ∀ {encoded : List QCborValue} {index : Nat} {previousEnd previousOverlap : Int}
      {chunks : List TranscriptionChunk}, Entry index previousEnd previousOverlap →
      decodeChunks durationMs index previousEnd previousOverlap encoded = .ok chunks →
      Chain durationMs index previousEnd previousOverlap chunks ∧ chunks.length = encoded.length := by
  intro encoded
  induction encoded with
  | nil =>
    intro index previousEnd previousOverlap chunks _ h
    cases h
    exact ⟨trivial, rfl⟩
  | cons value rest ih =>
    intro index previousEnd previousOverlap chunks he h
    unfold decodeChunks at h
    cases hchunk : decodeChunk durationMs index previousEnd previousOverlap value with
    | error e => rw [hchunk] at h; cases h
    | ok chunk =>
      rw [hchunk] at h
      dsimp only at h
      obtain ⟨hf, hw⟩ := decodeChunk_sound he hchunk
      cases htail : decodeChunks durationMs (index + 1) chunk.endMs chunk.overlapAfterMs rest with
      | error e => rw [htail] at h; cases h
      | ok tail =>
        rw [htail] at h
        cases h
        obtain ⟨hchain, hlen⟩ := ih (he.next hf hw) htail
        exact ⟨⟨hf, hw, by exact_mod_cast hchain⟩, by simp [hlen]⟩

/-- **What the desktop decoder accepts** covers the duration it reports, whatever was sent. -/
theorem decodeWorkerChunkPlan_sound {newId : Nat → QString} {payload : QCborMap} {jobId : QString}
    {durationMs : Int} {chunks : List JobChunk}
    (h : decodeWorkerChunkPlan newId payload jobId = .ok (durationMs, chunks)) :
    0 < durationMs ∧ chunks.length ≤ MaximumWorkerChunks ∧
      Covers durationMs durationMs (chunks.map planned) := by
  unfold decodeWorkerChunkPlan at h
  split at h
  · rename_i duration encoded _ _
    split at h
    · cases h
    · rename_i hcount
      cases hloop : decodeChunks duration 0 0 0 encoded with
      | error e => rw [hloop] at h; cases h
      | ok plan =>
        rw [hloop] at h
        dsimp only at h
        obtain ⟨hchain, hlen⟩ := decodeChunks_sound Entry.zero hloop
        split at h
        · cases h
        · rename_i hends
          cases h
          simp only [not_or, List.isEmpty_iff] at hcount
          rw [not_or, Decidable.not_not, Decidable.not_not] at hends
          obtain ⟨hpos, hne, hmax⟩ := hcount
          refine ⟨by omega, by simp [makeJobChunks]; omega, ?_⟩
          rw [planned_makeJobChunks]
          refine ⟨hchain, fun hnil => hne ?_, hends.1, hends.2⟩
          rw [hnil] at hlen
          exact List.length_eq_zero_iff.mp hlen.symm
  · cases h

/-! ## The geometry of every plan -/

/-- The geometry of a plan, chunk by chunk: `limit` bounds the length of a chunk. -/
structure PlanGeometry (limit durationMs : Int) (chunks : List TranscriptionChunk) : Prop where
  nonempty : chunks ≠ []
  ordinal_eq : ∀ i (h : i < chunks.length), chunks[i].ordinal = i
  first : ∀ chunk, chunks.head? = some chunk → chunk.startMs = 0
  last : ∀ chunk, chunks.getLast? = some chunk → chunk.endMs = durationMs ∧ chunk.overlapAfterMs = 0
  next : ∀ i (h : i + 1 < chunks.length),
    chunks[i + 1].startMs = chunks[i].endMs - chunks[i].overlapAfterMs ∧
      chunks[i + 1].overlapBeforeMs = chunks[i].overlapAfterMs
  sized : ∀ chunk ∈ chunks, WellSized limit chunk

theorem Chain.sized {limit : Int} :
    ∀ {chunks : List TranscriptionChunk} {i e o : Int}, Chain limit i e o chunks →
      ∀ chunk ∈ chunks, WellSized limit chunk := by
  intro chunks
  induction chunks with
  | nil => intro i e o _ chunk hmem; cases hmem
  | cons d rest ih =>
    intro i e o h chunk hmem
    obtain ⟨-, hw, hrest⟩ := h
    rcases List.mem_cons.mp hmem with rfl | hmem
    · exact hw
    · exact ih hrest chunk hmem

/-- A chunk of a plan lies between the start and the end of what is planned. -/
theorem Covers.within {limit durationMs : Int} {chunks : List TranscriptionChunk} (h : Covers limit durationMs chunks) :
    ∀ chunk ∈ chunks, 0 ≤ chunk.startMs ∧ chunk.startMs < chunk.endMs ∧ chunk.endMs ≤ durationMs := by
  intro chunk hchunk
  have hend := h.chain.end_le_lastEnd.2 chunk hchunk
  rw [h.end_eq] at hend
  exact ⟨h.chain.le_start (Int.le_refl 0) chunk hchunk, (h.chain.sized chunk hchunk).start_lt_end, hend⟩

theorem Chain.getElem {limit : Int} :
    ∀ {chunks : List TranscriptionChunk} {i e o : Int}, Chain limit i e o chunks →
      (∀ n (h : n < chunks.length), chunks[n].ordinal = i + n) ∧
      ∀ n (h : n + 1 < chunks.length),
        chunks[n + 1].startMs = chunks[n].endMs - chunks[n].overlapAfterMs ∧
          chunks[n + 1].overlapBeforeMs = chunks[n].overlapAfterMs := by
  intro chunks
  induction chunks with
  | nil =>
    intro i e o _
    exact ⟨fun n h => absurd h (Nat.not_lt_zero n), fun n h => absurd h (Nat.not_lt_zero _)⟩
  | cons d rest ih =>
    intro i e o h
    obtain ⟨hf, -, hrest⟩ := h
    obtain ⟨hord, hnext⟩ := ih hrest
    refine ⟨fun n hn => ?_, fun n hn => ?_⟩
    · cases n with
      | zero => simpa using hf.ordinal_eq
      | succ n =>
        rw [List.getElem_cons_succ, hord n (by simpa using hn)]
        omega
    · cases n with
      | zero =>
        cases rest with
        | nil => simp at hn
        | cons c rest => exact ⟨hrest.1.start_eq, hrest.1.overlapBefore_eq⟩
      | succ n => simpa using hnext n (by simpa using hn)

theorem Covers.geometry {limit durationMs : Int} {chunks : List TranscriptionChunk}
    (hc : Covers limit durationMs chunks) : PlanGeometry limit durationMs chunks := by
  obtain ⟨hchain, hne, hend, hover⟩ := hc
  obtain ⟨hord, hnext⟩ := hchain.getElem
  refine ⟨hne, fun i h => by rw [hord i h]; omega, ?_, ?_, hnext, hchain.sized⟩
  · intro chunk hhead
    cases chunks with
    | nil => cases hhead
    | cons d rest =>
      cases hhead
      have := hchain.1.start_eq
      omega
  · intro chunk hlast
    simp only [lastEnd, lastOverlap, hlast, Option.map_some, Option.getD_some] at hend hover
    exact ⟨hend, hover⟩

/-- 20 minutes without speech: two ten-minute chunks and no overlap. -/
example : plan 10 {} 1200000 [] =
    some [⟨0, 0, 600000, 0, 0⟩, ⟨1, 600000, 1200000, 0, 0⟩] := by decide +kernel

end BreezeDesk.Asr
