/-
  The title in the front matter of a Markdown export.

  Front matter is YAML, and the title stands there between two quotation marks, as it is.  `readScalar` reads a
  double-quoted scalar of one line: a backslash begins an escape, the next quotation mark ends the scalar and
  the line, and no control character is allowed but the tab.

  What an escape stands for is shorter than the escape (`length_readScalar`), and a scalar that ends early is
  shorter than the title.  So the title is read back exactly if nothing in it means anything
  (`readTitle_renderText`).
-/
import BreezeDesk.Transcript.Wrapping

namespace BreezeDesk

def backslash : QChar := 0x5C

/-- Where the reader of a scalar is: in the text, behind a backslash, or in the digits of a code point. -/
inductive ScalarScan where
  | plain | escaped | code (digits value : Nat)

/-- What a backslash and one more character stand for. -/
def simpleEscapes : List (QChar × QChar) :=
  [(0x30, 0x00), (0x61, 0x07), (0x62, 0x08), (0x74, 0x09), (0x09, 0x09), (0x6E, 0x0A), (0x76, 0x0B), (0x66, 0x0C),
    (0x72, 0x0D), (0x65, 0x1B), (0x20, 0x20), (0x22, 0x22), (0x2F, 0x2F), (0x5C, 0x5C), (0x4E, 0x85), (0x5F, 0xA0),
    (0x4C, 0x2028), (0x50, 0x2029)]

/-- The letters that begin a code point, and how many digits it has. -/
def codeEscapes : List (QChar × Nat) := [(0x78, 2), (0x75, 4), (0x55, 8)]

def hexadecimalDigit (c : QChar) : Option Nat :=
  if isDigit c then some (c.toNat - 0x30)
  else if 0x41 ≤ c ∧ c ≤ 0x46 then some (c.toNat - 0x37)
  else if 0x61 ≤ c ∧ c ≤ 0x66 then some (c.toNat - 0x57)
  else none

/-- The units of a code point. -/
def unitsOfCode (value : Nat) : Option QString :=
  if value < 0x10000 then some [UInt16.ofNat value]
  else if value < 0x110000 then
    some [UInt16.ofNat (0xD800 + (value - 0x10000) / 0x400), UInt16.ofNat (0xDC00 + (value - 0x10000) % 0x400)]
  else none

/-- A character that may stand in a quoted scalar. -/
def IsScalarChar (c : QChar) : Prop := c = 0x09 ∨ 0x20 ≤ c.toNat

instance (c : QChar) : Decidable (IsScalarChar c) := inferInstanceAs (Decidable (_ ∨ _))

/-- The value of a double-quoted scalar, from behind its first quotation mark. -/
def readScalar : ScalarScan → QString → Option QString
  | _, [] => none
  | .plain, c :: rest =>
    if c = quotationMark then (if rest.head? = some lineFeed then some [] else none)
    else if c = backslash then readScalar .escaped rest
    else if IsScalarChar c then (readScalar .plain rest).map (c :: ·)
    else none
  | .escaped, c :: rest =>
    match simpleEscapes.lookup c, codeEscapes.lookup c with
    | some d, _ => (readScalar .plain rest).map (d :: ·)
    | none, some digits => readScalar (.code digits 0) rest
    | none, none => none
  | .code digits value, c :: rest =>
    match hexadecimalDigit c with
    | none => none
    | some digit =>
      if digits = 1 then do
        let units ← unitsOfCode (value * 16 + digit)
        let others ← readScalar .plain rest
        some (units ++ others)
      else readScalar (.code (digits - 1) (value * 16 + digit)) rest

/-- The title that the front matter says. -/
def readTitle (text : QString) : Option QString :=
  let opening := qs "---\ntitle: \""
  if text.take opening.length = opening then readScalar .plain (text.drop opening.length) else none

/-- A title in which nothing means anything. -/
def PlainTitle (title : QString) : Prop := ∀ c ∈ title, c ≠ quotationMark ∧ c ≠ backslash ∧ IsScalarChar c

variable {text title value : QString} {c : QChar}

theorem length_unitsOfCode {code : Nat} {units : QString} (h : unitsOfCode code = some units) : units.length ≤ 2 := by
  unfold unitsOfCode at h
  split at h
  · cases h
    simp
  · split at h
    · cases h
      simp
    · cases h

/-- How much longer than the rest of its text a value can still become. -/
def ScalarScan.excess : ScalarScan → Nat
  | .plain | .escaped => 0
  | .code _ _ => 1

/-- **No value is longer** than what stands before the closing quotation mark.  By induction on that text. -/
theorem length_readScalar (tail : QString) (text : QString) : ∀ (scan : ScalarScan) {value : QString},
    readScalar scan (text ++ quotationMark :: lineFeed :: tail) = some value →
    value.length ≤ text.length + scan.excess := by
  induction text with
  | nil =>
    intro scan value h
    cases scan with
    | plain =>
      cases h
      exact Nat.zero_le _
    | escaped =>
      -- the quotation mark is escaped, and behind it comes a line break
      cases h
    | code digits code => cases h
  | cons c rest ih =>
    intro scan value h
    rw [List.cons_append] at h
    cases scan with
    | plain =>
      rw [readScalar] at h
      split at h
      · split at h
        · cases h
          exact Nat.zero_le _
        · cases h
      · split at h
        · have hrest := ih .escaped h
          simp only [ScalarScan.excess, List.length_cons] at hrest ⊢
          omega
        · split at h
          · obtain ⟨others, hothers, rfl⟩ := Option.map_eq_some_iff.mp h
            have hrest := ih .plain hothers
            simp only [ScalarScan.excess, List.length_cons] at hrest ⊢
            omega
          · cases h
    | escaped =>
      rw [readScalar] at h
      split at h
      · obtain ⟨others, hothers, rfl⟩ := Option.map_eq_some_iff.mp h
        have hrest := ih .plain hothers
        simp only [ScalarScan.excess, List.length_cons] at hrest ⊢
        omega
      · have hrest := ih _ h
        simp only [ScalarScan.excess, List.length_cons] at hrest ⊢
        omega
      · cases h
    | code digits code =>
      rw [readScalar] at h
      split at h
      · cases h
      · split at h
        · obtain ⟨units, hunits, h⟩ := Option.bind_eq_some_iff.mp h
          obtain ⟨others, hothers, h⟩ := Option.bind_eq_some_iff.mp h
          cases h
          -- the last digit of a code may give two units, which is what `excess` allows for
          have hshort := length_unitsOfCode hunits
          have hrest := ih .plain hothers
          simp only [ScalarScan.excess, List.length_cons, List.length_append] at hrest ⊢
          omega
        · have hrest := ih _ h
          simp only [ScalarScan.excess, List.length_cons] at hrest ⊢
          omega

/-- **A scalar** is read as it stands exactly if nothing in it means anything. -/
theorem readScalar_iff (tail : QString) (text : QString) : ∀ {value : QString}, text.length ≤ value.length →
    (readScalar .plain (text ++ quotationMark :: lineFeed :: tail) = some value ↔ value = text ∧ PlainTitle text) := by
  induction text with
  | nil =>
    intro value _
    constructor
    · intro h
      cases h
      exact ⟨rfl, fun c hc => (by cases hc)⟩
    · rintro ⟨rfl, -⟩
      rfl
  | cons c rest ih =>
    intro value hlength
    rw [List.cons_append, readScalar]
    constructor
    · intro h
      split at h
      · -- the scalar ends too early
        split at h
        · cases h
          simp at hlength
        · cases h
      next hquote =>
        split at h
        · -- an escape is longer than what it stands for
          have hshort := length_readScalar tail rest .escaped h
          simp only [ScalarScan.excess, List.length_cons] at hshort hlength
          omega
        next hslash =>
          split at h
          next hchar =>
            obtain ⟨others, hothers, rfl⟩ := Option.map_eq_some_iff.mp h
            obtain ⟨rfl, hplain⟩ := (ih (by simpa using hlength)).mp hothers
            exact ⟨rfl, List.forall_mem_cons.mpr ⟨⟨hquote, hslash, hchar⟩, hplain⟩⟩
          · cases h
    · rintro ⟨rfl, hplain⟩
      obtain ⟨⟨hquote, hslash, hchar⟩, hothers⟩ := List.forall_mem_cons.mp hplain
      rw [if_neg hquote, if_neg hslash, if_pos hchar, (ih le_rfl).mpr ⟨rfl, hothers⟩]
      rfl

/-- **The title** is read back exactly if it is plain. -/
theorem readTitle_renderText (platform : ExportPlatform) (metadata : TranscriptExportMetadata)
    (input : List TranscriptSegment) (options : TranscriptExportOptions) :
    readTitle (renderText platform .markdown metadata input options) = some metadata.title ↔
      PlainTitle metadata.title := by
  obtain ⟨more, hmore⟩ : ∃ more, renderMarkdown metadata (orderedValidSegments platform input) =
      qs "---\ntitle: \"" ++ (metadata.title ++ ([quotationMark, lineFeed] ++ more)) := by
    have hclosing : qs "\"\nrecordingId: " = [quotationMark, lineFeed] ++ qs "recordingId: " := rfl
    unfold renderMarkdown frontMatter
    rw [hclosing]
    simp only [List.append_assoc]
    exact ⟨_, rfl⟩
  -- the title is between characters that no line ending can join
  have hrendered : renderText platform .markdown metadata input options =
      qs "---\ntitle: \"" ++ (normalizedLineEndings metadata.title ++
        quotationMark :: lineFeed :: normalizedLineEndings more) := by
    have hquote : quotationMark ≠ lineFeed := by decide
    unfold renderText
    dsimp only
    rw [hmore, normalizedLineEndings_append (Or.inl (by decide)),
      normalizedLineEndings_append (Or.inr (by simpa using hquote)),
      normalizedLineEndings_append (Or.inl (by decide))]
    rfl
  unfold readTitle
  dsimp only
  rw [hrendered, List.take_left' rfl, if_pos rfl, List.drop_left' rfl,
    readScalar_iff _ _ (length_normalizedLineEndings metadata.title)]
  constructor
  · rintro ⟨hsame, hplain⟩
    rw [hsame]
    exact hplain
  · intro hplain
    -- a carriage return would have been normalized, but it is no plain character
    have hreturn : carriageReturn ∉ metadata.title := by
      intro hmem
      have hchar := (hplain _ hmem).2.2
      revert hchar
      decide
    rw [normalizedLineEndings_of_none hreturn]
    exact ⟨rfl, hplain⟩

end BreezeDesk
