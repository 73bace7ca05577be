/-
  `OverlapDeduplicator` — cutting the words a chunk repeats from its predecessor.

  Both texts are read as units: single CJK code points and case-folded words.  The longest suffix of
  the previous units that is a prefix of the incoming ones is removed when it has at least two units,
  together with the spaces and punctuation after it; a match of one unit is kept as uncertain.
-/
import BreezeDesk.Core.Text

namespace BreezeDesk.Asr

structure OverlapUnit where
  normalized : QString
  start : Nat
  finish : Nat
  cjk : Bool
  deriving DecidableEq, Repr

def isHighSurrogate (c : QChar) : Bool := 0xD800 ≤ c && c ≤ 0xDBFF

def isLowSurrogate (c : QChar) : Bool := 0xDC00 ≤ c && c ≤ 0xDFFF

/-- The steps of the scanning loop: one code unit, or a surrogate pair. -/
def glyphs : QString → List QString
  | [] => []
  | [c] => [[c]]
  | c :: d :: rest =>
    if isHighSurrogate c && isLowSurrogate d then [c, d] :: glyphs rest else [c] :: glyphs (d :: rest)

/-- The code point of a step; `QChar::surrogateToUcs4` for a pair. -/
def codePoint : QString → Nat
  | [high, low] => (high.toNat - 0xD800) * 0x400 + (low.toNat - 0xDC00) + 0x10000
  | first :: _ => first.toNat
  | [] => 0

def isCjk (codePoint : Nat) : Bool :=
  (0x3400 ≤ codePoint && codePoint ≤ 0x4DBF) || (0x4E00 ≤ codePoint && codePoint ≤ 0x9FFF) ||
    (0xF900 ≤ codePoint && codePoint ≤ 0xFAFF) || (0x20000 ≤ codePoint && codePoint ≤ 0x3134F)

variable (t : CharTables)

def isWordStart (glyph : QString) : Bool :=
  match glyph with
  | first :: _ => t.isLetterOrNumber first || first == 0x5F
  | [] => false

/-- `flushWord`: the word collected so far, if any, becomes a unit that ends at `finish`. -/
def flushWord (word : QString) (wordStart finish : Nat) : List OverlapUnit :=
  if word.isEmpty then [] else [⟨t.toCaseFolded word, wordStart, finish, false⟩]

def unitsFrom : List QString → Nat → QString → Nat → List OverlapUnit
  | [], index, word, wordStart => flushWord t word wordStart index
  | glyph :: rest, index, word, wordStart =>
    let next := index + glyph.length
    if isCjk (codePoint glyph) then
      flushWord t word wordStart index ++ ⟨glyph, index, next, true⟩ :: unitsFrom rest next [] 0
    else if isWordStart t glyph then
      unitsFrom rest next (word ++ glyph) (if word.isEmpty then index else wordStart)
    else flushWord t word wordStart index ++ unitsFrom rest next [] 0

def units (text : QString) : List OverlapUnit :=
  unitsFrom t (glyphs text) 0 [] 0

/-- The longest match of at most `length` units: a suffix of `previous`, a prefix of `incoming`. -/
def longestMatch (previous incoming : List OverlapUnit) : Nat → Nat
  | 0 => 0
  | length + 1 =>
    if (previous.drop (previous.length - (length + 1))).map (·.normalized) =
        (incoming.take (length + 1)).map (·.normalized) then length + 1
    else longestMatch previous incoming length

structure DeduplicationResult where
  text : QString
  matchedUnits : Nat := 0
  ambiguous : Bool := false
  diagnostic : QString := []
  deriving DecidableEq, Repr

def deduplicate (previousText incomingText : QString) (timestampsOverlap : Bool := true) :
    DeduplicationResult :=
  if !timestampsOverlap || previousText.isEmpty || incomingText.isEmpty then { text := incomingText }
  else
    let previous := units t previousText
    let incoming := units t incomingText
    let matched := longestMatch previous incoming (min previous.length incoming.length)
    if matched < 2 then
      { text := incomingText
        ambiguous := matched == 1
        diagnostic := if matched == 1 then
          qs "A one-unit overlap was retained because it is not sufficiently certain" else [] }
    else
      let cut := (incoming[matched - 1]?.map (·.finish)).getD 0
      { text := (incomingText.drop cut).dropWhile fun c => isSpace c || t.isPunct c
        matchedUnits := matched
        diagnostic := qs ("Removed " ++ toString matched ++ " deterministic overlap units") }

variable {t}

/-- Without a match the incoming text stays as it is. -/
theorem deduplicate_text_of_unmatched {previousText incomingText : QString}
    (h : (deduplicate t previousText incomingText).matchedUnits = 0) :
    (deduplicate t previousText incomingText).text = incomingText := by
  unfold deduplicate at h ⊢
  split at h
  · rename_i hskip; rw [if_pos hskip]
  · rename_i hskip
    rw [if_neg hskip]
    dsimp only at h ⊢
    split at h
    · rename_i hfew; rw [if_pos hfew]
    · rename_i hfew
      dsimp only at h
      omega

/-- After a match nothing blank is left but the empty text, since the cut also takes the spaces. -/
theorem deduplicate_text_of_matched {previousText incomingText : QString}
    (h : (deduplicate t previousText incomingText).matchedUnits ≠ 0) :
    (trimmed (deduplicate t previousText incomingText).text).isEmpty =
      (deduplicate t previousText incomingText).text.isEmpty := by
  unfold deduplicate at h ⊢
  split at h
  · exact absurd rfl h
  · rename_i hskip
    rw [if_neg hskip]
    dsimp only at h ⊢
    split at h
    · exact absurd rfl h
    · rename_i hmany
      rw [if_neg hmany]
      dsimp only
      generalize hrest : List.dropWhile (fun c => isSpace c || t.isPunct c) _ = rest
      cases rest with
      | nil => rfl
      | cons c rest =>
        -- the first character that is kept is neither space nor punctuation
        have hc : (isSpace c || t.isPunct c) = false := by
          have hhead := List.head?_dropWhile_not (fun c => isSpace c || t.isPunct c)
            (List.drop ((Option.map (fun u => u.finish) ((units t incomingText)[longestMatch
              (units t previousText) (units t incomingText)
              (min (units t previousText).length (units t incomingText).length) - 1]?)).getD 0)
              incomingText)
          rw [hrest] at hhead
          exact hhead
        have hvisible : trimmed (c :: rest) ≠ [] := by
          intro hblank
          have := (trimmed_eq_nil_iff _).mp hblank c (List.mem_cons_self ..)
          rw [this] at hc
          cases hc
        cases htrim : trimmed (c :: rest) with
        | nil => exact absurd htrim hvisible
        | cons _ _ => rfl

end BreezeDesk.Asr
