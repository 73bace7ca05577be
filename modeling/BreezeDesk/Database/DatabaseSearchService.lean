/-
  Searching the library for the words of a text.

  A query is split into tokens.  A token of at least three characters is looked up in the trigram index when
  there is one; the others become patterns of the `LIKE` operator, with the characters that mean something
  in a pattern escaped.  Both kinds can meet in one query.

  SQLite is described by its documentation: `LIKE` (`Library.Like`) compares characters up to the case of the
  ASCII letters, and a `MATCH` expression of quoted strings asks for each of them (`ftsStrings`).  When a
  quoted string of at least three characters matches a column, the trigram index decides (`Trigram`).

  * `glyphs_likePattern`, `like_likePattern` — the pattern of a token matches what contains the token;
  * `ftsStrings_phrases` — the `MATCH` expression asks for the tokens it was made from;
  * `search_literal`     — a query finds the recordings that contain its tokens, whichever way they are
    looked up; the filter of the recording list is the same pattern.
-/
import BreezeDesk.Database.SearchIndex
import BreezeDesk.Library.Like
import BreezeDesk.Asr.ComparisonUnits

namespace BreezeDesk

/-! ## SQLite -/

/-- The characters of a text; the halves of a surrogate pair are one character. -/
abbrev characters (text : QString) : List QString := Asr.glyphs text

def asciiFold (character : QString) : QString := character.map asciiLower

def percent : QChar := 0x25

def lowLine : QChar := 0x5F

def escapeMark : QChar := 0x5C

def sqlWildcards (escape : Option QString) : Like.Wildcards QString := ⟨[percent], [lowLine], escape⟩

/-- `text LIKE pattern`, with the escape character if one is given. -/
def sqlLike (escape : Option QString) (pattern text : QString) : Bool :=
  Like.like asciiFold (sqlWildcards escape) (characters pattern) (characters text)

/-- `text` has `token` in it, up to the case of ASCII letters. -/
def ContainsAscii (token text : QString) : Prop := Like.Contains asciiFold (characters token) (characters text)

instance (token text : QString) : Decidable (ContainsAscii token text) :=
  inferInstanceAs (Decidable (Like.Contains _ _ _))

/-- `QString::replace(QChar, QString)`. -/
def replaceChar (before : QChar) (after : QString) (text : QString) : QString :=
  text.flatMap fun c => if c = before then after else [c]

namespace DatabaseSearchService

def doubleQuote : QChar := 0x22

/-- The strings of a `MATCH` expression that consists of quoted strings; all of them are asked for. -/
def ftsStrings : Option QString → QString → Option (List QString)
  | none, [] => some []
  | none, c :: rest =>
    if c = space then ftsStrings none rest
    else if c = doubleQuote then ftsStrings (some []) rest
    else none
  | some _, [] => none
  | some word, [c] => if c = doubleQuote then some [word] else none
  | some word, c :: d :: rest =>
    if c = doubleQuote then
      -- a doubled quote is a quote inside the string
      if d = doubleQuote then ftsStrings (some (word ++ [doubleQuote])) rest
      else (ftsStrings none (d :: rest)).map (word :: ·)
    else ftsStrings (some (word ++ [c])) (d :: rest)

/-- The trigram index: how it folds the case of a text, and when a string matches a column. -/
structure Trigram where
  fold : QString → QString
  matchString : QString → QString → Bool

/-! ## The source -/

def searchTokens (queryText : QString) : List QString :=
  ((simplified queryText).splitOn space).filter fun token => !token.isEmpty

def trigramMatchable (token : QString) : Bool := 3 ≤ (characters token).length

def ftsPhrase (token : QString) : QString :=
  [doubleQuote] ++ replaceChar doubleQuote [doubleQuote, doubleQuote] token ++ [doubleQuote]

def likePattern (token : QString) : QString :=
  let escaped := replaceChar escapeMark [escapeMark, escapeMark] token
  let escaped := replaceChar percent [escapeMark, percent] escaped
  let escaped := replaceChar lowLine [escapeMark, lowLine] escaped
  [percent] ++ escaped ++ [percent]

/-- The columns that are searched. -/
def columns (entry : SearchEntry) : List QString := [entry.title, entry.notes, entry.tags, entry.transcript]

/-- `columnFilter`. -/
def columnFilter (token : QString) (entry : SearchEntry) : Bool :=
  (columns entry).any fun column => sqlLike (some [escapeMark]) (likePattern token) column

/-- `search_index MATCH query`. -/
def matchExpression (trigram : Trigram) (query : QString) (entry : SearchEntry) : Bool :=
  match ftsStrings none query with
  | none => false
  | some strings => strings.all fun string => (columns entry).any (trigram.matchString string)

/-- `JOIN recordings r ON r.id=s.recording_id ... r.deleted_at IS NULL`. -/
def indexedRecordings (db : Database) : List (SearchEntry × Recording) :=
  db.searchIndex.flatMap fun entry =>
    (db.recordings.filter fun recording => recording.id == entry.recordingId && recording.deletedAt.isNone).map
      fun recording => (entry, recording)

/-- The rows of `DatabaseSearchService::search` before they are ordered and cut into pages. -/
def searchRows (trigram : Trigram) (hasFts5 : Bool) (db : Database) (queryText : QString) :
    List (SearchEntry × Recording) :=
  let tokens := searchTokens queryText
  if tokens.isEmpty then []
  else
    let matchTokens := if hasFts5 then tokens.filter trigramMatchable else []
    let likeTokens := if hasFts5 then tokens.filter fun token => !trigramMatchable token else tokens
    if !matchTokens.isEmpty then
      let query := joinSpace (matchTokens.map ftsPhrase)
      (indexedRecordings db).filter fun row =>
        matchExpression trigram query row.1 && likeTokens.all fun token => columnFilter token row.1
    else (indexedRecordings db).filter fun row => likeTokens.all fun token => columnFilter token row.1

/-- The part of the filter in `SqliteRecordingRepository::list` that is about the search text. -/
def listFilter (db : Database) (searchText : QString) (recording : Recording) : Bool :=
  if (trimmed searchText).isEmpty then true
  else
    let pattern := replaceChar escapeMark [escapeMark, escapeMark] searchText
    let pattern := replaceChar percent [escapeMark, percent] pattern
    let pattern := replaceChar lowLine [escapeMark, lowLine] pattern
    let pattern := [percent] ++ pattern ++ [percent]
    let like := sqlLike (some [escapeMark]) pattern
    like recording.title || like recording.notes || recording.tags.any like ||
      db.segments.any fun segment =>
        segment.recordingId == recording.id && (like segment.editedText || like segment.originalText)

/-! ## Patterns -/

def escapedUnit (c : QChar) : QString :=
  if c = escapeMark ∨ c = percent ∨ c = lowLine then [escapeMark, c] else [c]

theorem likePattern_eq (token : QString) :
    likePattern token = percent :: (token.flatMap escapedUnit ++ [percent]) := by
  -- what the first replacements put in is no percent sign and no low line
  have hunit : ∀ c, ((if c = escapeMark then [escapeMark, escapeMark] else [c]).flatMap
      (fun c => if c = percent then [escapeMark, percent] else [c])).flatMap
      (fun c => if c = lowLine then [escapeMark, lowLine] else [c]) = escapedUnit c := by
    intro c
    unfold escapedUnit
    by_cases hback : c = escapeMark
    · subst hback
      rfl
    by_cases hpercent : c = percent
    · subst hpercent
      rfl
    by_cases hlow : c = lowLine
    · subst hlow
      rfl
    simp [hback, hpercent, hlow]
  unfold likePattern replaceChar
  simp only [List.flatMap_assoc, List.flatMap_assoc, hunit]
  rfl

/-- Escaping puts no low surrogate in front. -/
theorem low_escaped {token : QString} : ∀ d ∈ (token.flatMap escapedUnit ++ [percent]).head?,
    Asr.isLowSurrogate d = true → d ∈ token.head? := by
  intro d hd hlow
  cases token with
  | nil =>
    obtain rfl : percent = d := by simpa using hd
    cases hlow
  | cons c rest =>
    rw [List.flatMap_cons] at hd
    unfold escapedUnit at hd
    by_cases hspecial : c = escapeMark ∨ c = percent ∨ c = lowLine
    · obtain rfl : escapeMark = d := by simpa [hspecial] using hd
      cases hlow
    · simpa [hspecial] using hd

theorem glyphs_apart {c : QChar} {rest : QString}
    (h : ∀ d ∈ rest.head?, (Asr.isHighSurrogate c && Asr.isLowSurrogate d) = false) :
    Asr.glyphs (c :: rest) = [c] :: Asr.glyphs rest := by
  cases rest with
  | nil => rfl
  | cons d rest => rw [Asr.glyphs, h d rfl, if_neg Bool.false_ne_true]

/-- A unit that is no half of a pair is escaped as the character that it is. -/
theorem glyphs_escapedUnit {c : QChar} {rest : QString}
    (h : ∀ d ∈ rest.head?, (Asr.isHighSurrogate c && Asr.isLowSurrogate d) = false) :
    Asr.glyphs (escapedUnit c ++ rest) =
      Like.escaped (sqlWildcards (some [escapeMark])) [escapeMark] [c] ++ Asr.glyphs rest := by
  unfold escapedUnit Like.escaped sqlWildcards
  simp only [List.cons.injEq, and_true]
  by_cases hspecial : c = escapeMark ∨ c = percent ∨ c = lowLine
  · rw [if_pos hspecial, if_pos hspecial]
    show Asr.glyphs (escapeMark :: c :: rest) = [escapeMark] :: [c] :: Asr.glyphs rest
    rw [Asr.glyphs_single rfl, glyphs_apart h]
  · rw [if_neg hspecial, if_neg hspecial]
    exact glyphs_apart h

theorem escapedUnit_surrogate {c : QChar} (h : Asr.isHighSurrogate c = true ∨ Asr.isLowSurrogate c = true) :
    escapedUnit c = [c] := by
  refine if_neg ?_
  rintro (rfl | rfl | rfl) <;> rcases h with h | h <;> cases h

theorem glyphs_escaped (token : QString) : Asr.glyphs (token.flatMap escapedUnit ++ [percent]) =
    (Asr.glyphs token).flatMap (Like.escaped (sqlWildcards (some [escapeMark])) [escapeMark]) ++ [[percent]] := by
  induction token using Asr.glyphs.induct with
  | case1 => rfl
  | case2 c =>
    have hend : ∀ d ∈ ([percent] : QString).head?, (Asr.isHighSurrogate c && Asr.isLowSurrogate d) = false := by
      intro d hd
      obtain rfl : percent = d := by simpa using hd
      exact Bool.and_false _
    rw [List.flatMap_singleton, glyphs_escapedUnit hend]
    show _ = [[c]].flatMap _ ++ _
    rw [List.flatMap_singleton]
    rfl
  | case3 c d rest hpair ih =>
    obtain ⟨hhigh, hlow⟩ := Bool.and_eq_true_iff.mp hpair
    have hsingle : Like.escaped (sqlWildcards (some [escapeMark])) [escapeMark] [c, d] = [[c, d]] := by
      simp [Like.escaped, sqlWildcards]
    rw [List.flatMap_cons, List.flatMap_cons, escapedUnit_surrogate (Or.inl hhigh),
      escapedUnit_surrogate (Or.inr hlow)]
    show Asr.glyphs (c :: d :: (rest.flatMap escapedUnit ++ [percent])) = _
    rw [Asr.glyphs, if_pos hpair, ih, Asr.glyphs, if_pos hpair, List.flatMap_cons, hsingle]
    rfl
  | case4 c d rest hpair ih =>
    have hapart : ∀ e ∈ ((d :: rest).flatMap escapedUnit ++ [percent]).head?,
        (Asr.isHighSurrogate c && Asr.isLowSurrogate e) = false := by
      intro e he
      by_contra hboth
      obtain ⟨hhigh, hlow⟩ := Bool.and_eq_true_iff.mp (Bool.eq_true_of_not_eq_false hboth)
      obtain rfl : d = e := by simpa using low_escaped e he hlow
      exact hpair (Bool.and_eq_true_iff.mpr ⟨hhigh, hlow⟩)
    rw [List.flatMap_cons, List.append_assoc, glyphs_escapedUnit hapart, ih, Asr.glyphs, if_neg hpair,
      List.flatMap_cons, List.append_assoc]

theorem glyphs_likePattern (token : QString) :
    characters (likePattern token) = [percent] ::
      ((characters token).flatMap (Like.escaped (sqlWildcards (some [escapeMark])) [escapeMark]) ++ [[percent]]) := by
  rw [likePattern_eq]
  show Asr.glyphs _ = _
  rw [Asr.glyphs_single rfl, glyphs_escaped]

/-- **The pattern of a token** matches the texts that contain the token. -/
theorem like_likePattern (token text : QString) :
    sqlLike (some [escapeMark]) (likePattern token) text = true ↔ ContainsAscii token text := by
  unfold sqlLike
  rw [glyphs_likePattern]
  exact Like.like_contains (w := sqlWildcards (some [escapeMark])) rfl (by decide) _ _

/-! ## The `MATCH` expression -/

variable {trigram : Trigram} {hasFts5 : Bool} {db : Database}

/-- Inside a string, with the text of the string and its end ahead. -/
theorem ftsStrings_inside (token : QString) {rest : QString} (hrest : rest.head? ≠ some doubleQuote) : ∀ word,
    ftsStrings (some word) (replaceChar doubleQuote [doubleQuote, doubleQuote] token ++ doubleQuote :: rest) =
      (ftsStrings none rest).map ((word ++ token) :: ·) := by
  induction token with
  | nil =>
    intro word
    rw [List.append_nil]
    cases rest with
    | nil => rfl
    | cons d rest =>
      have hd : d ≠ doubleQuote := by simpa using hrest
      show ftsStrings (some word) (doubleQuote :: d :: rest) = _
      simp [ftsStrings, hd]
  | cons c token ih =>
    intro word
    obtain ⟨d, behind, hbehind⟩ := List.exists_cons_of_ne_nil
      (List.append_ne_nil_of_right_ne_nil (replaceChar doubleQuote [doubleQuote, doubleQuote] token)
        (List.cons_ne_nil doubleQuote rest))
    have hword := ih (word ++ [c])
    rw [List.append_assoc, List.singleton_append] at hword
    by_cases hc : c = doubleQuote
    · subst hc
      show ftsStrings (some word) (doubleQuote :: doubleQuote :: (_ ++ _)) = _
      rw [ftsStrings, if_pos rfl, if_pos rfl]
      exact hword
    · have hunit : replaceChar doubleQuote [doubleQuote, doubleQuote] (c :: token) =
          c :: replaceChar doubleQuote [doubleQuote, doubleQuote] token := by
        unfold replaceChar
        rw [List.flatMap_cons, if_neg hc, List.singleton_append]
      rw [hunit, List.cons_append, hbehind, ftsStrings, if_neg hc, ← hbehind]
      exact hword

theorem ftsStrings_ftsPhrase (token : QString) {rest : QString} (hrest : rest.head? ≠ some doubleQuote) :
    ftsStrings none (ftsPhrase token ++ rest) = (ftsStrings none rest).map (token :: ·) := by
  have hinside := ftsStrings_inside token hrest []
  unfold ftsPhrase
  rw [List.append_assoc, List.append_assoc, List.singleton_append, List.singleton_append, ftsStrings,
    if_neg (by decide), if_pos rfl]
  exact hinside

/-- **The `MATCH` expression** asks for the tokens, quotes in them included. -/
theorem ftsStrings_phrases (tokens : List QString) :
    ftsStrings none (joinSpace (tokens.map ftsPhrase)) = some tokens := by
  induction tokens with
  | nil => rfl
  | cons token rest ih =>
    cases rest with
    | nil =>
      have hphrase := @ftsStrings_ftsPhrase token [] (by simp)
      rw [List.append_nil] at hphrase
      show ftsStrings none ([space].intercalate [ftsPhrase token]) = _
      rw [List.intercalate_singleton]
      exact hphrase
    | cons next rest =>
      have hspace : ftsStrings none (space :: joinSpace ((next :: rest).map ftsPhrase)) = some (next :: rest) := by
        rw [ftsStrings, if_pos rfl]
        exact ih
      show ftsStrings none (joinSpace (ftsPhrase token :: ftsPhrase next :: rest.map ftsPhrase)) = _
      unfold joinSpace
      rw [List.intercalate_cons_cons, List.append_assoc, List.singleton_append,
        ftsStrings_ftsPhrase token (by simp [space, doubleQuote])]
      exact congrArg (Option.map _) hspace

/-! ## What is found -/

/-- What the documentation says of the trigram index. -/
def Trigram.Documented (trigram : Trigram) : Prop :=
  ∀ string column, trigramMatchable string = true →
    (trigram.matchString string column = true ↔ trigram.fold string <:+: trigram.fold column)

/-- A column contains a token, up to case as the index that looks it up folds it. -/
def ContainsToken (trigram : Trigram) (hasFts5 : Bool) (token column : QString) : Prop :=
  if hasFts5 = true ∧ trigramMatchable token = true then trigram.fold token <:+: trigram.fold column
  else ContainsAscii token column

def FoundIn (trigram : Trigram) (hasFts5 : Bool) (entry : SearchEntry) (token : QString) : Prop :=
  ∃ column ∈ columns entry, ContainsToken trigram hasFts5 token column

theorem columnFilter_iff (token : QString) (entry : SearchEntry) :
    columnFilter token entry = true ↔ ∃ column ∈ columns entry, ContainsAscii token column := by
  unfold columnFilter
  rw [List.any_eq_true]
  simp only [like_likePattern]

/-- The tokens that are looked up with patterns. -/
theorem likeTokens_iff (tokens : List QString) (entry : SearchEntry) :
    ((if hasFts5 then tokens.filter fun token => !trigramMatchable token else tokens).all
        fun token => columnFilter token entry) = true ↔
      ∀ token ∈ tokens, ¬ (hasFts5 = true ∧ trigramMatchable token = true) →
        FoundIn trigram hasFts5 entry token := by
  have hfound : ∀ token, ¬ (hasFts5 = true ∧ trigramMatchable token = true) →
      (FoundIn trigram hasFts5 entry token ↔ columnFilter token entry = true) := by
    intro token hnot
    unfold FoundIn ContainsToken
    simp only [if_neg hnot]
    exact (columnFilter_iff token entry).symm
  rw [List.all_eq_true]
  constructor
  · intro h token htoken hnot
    refine (hfound token hnot).mpr (h token ?_)
    split
    case isTrue hfts =>
      refine List.mem_filter.mpr ⟨htoken, ?_⟩
      simpa [hfts] using hnot
    case isFalse => exact htoken
  · intro h token htoken
    split at htoken
    case isTrue hfts =>
      obtain ⟨htoken, hshort⟩ := List.mem_filter.mp htoken
      have hnot : ¬ (hasFts5 = true ∧ trigramMatchable token = true) := by
        rintro ⟨-, hlong⟩
        simp [hlong] at hshort
      exact (hfound token hnot).mp (h token htoken hnot)
    case isFalse hfts =>
      have hnot : ¬ (hasFts5 = true ∧ trigramMatchable token = true) := fun hboth => hfts hboth.1
      exact (hfound token hnot).mp (h token htoken hnot)

/-- The tokens that are looked up in the trigram index. -/
theorem matchTokens_iff (hdocumented : trigram.Documented) (tokens : List QString) (entry : SearchEntry) :
    matchExpression trigram (joinSpace ((tokens.filter trigramMatchable).map ftsPhrase)) entry = true ↔
      ∀ token ∈ tokens, trigramMatchable token = true → FoundIn trigram true entry token := by
  unfold matchExpression
  rw [ftsStrings_phrases]
  show List.all _ _ = true ↔ _
  rw [List.all_eq_true]
  have hfound : ∀ token, trigramMatchable token = true →
      ((columns entry).any (trigram.matchString token) = true ↔ FoundIn trigram true entry token) := by
    intro token hlong
    unfold FoundIn ContainsToken
    rw [List.any_eq_true]
    simp only [hlong, and_self, if_true, hdocumented token _ hlong]
  constructor
  · intro h token htoken hlong
    exact (hfound token hlong).mp (h token (List.mem_filter.mpr ⟨htoken, hlong⟩))
  · intro h token htoken
    obtain ⟨htoken, hlong⟩ := List.mem_filter.mp htoken
    exact (hfound token hlong).mpr (h token htoken hlong)

/-- **The rows of a search** are those in which every token is found, whichever way it is looked up. -/
theorem mem_searchRows (hdocumented : trigram.Documented) {queryText : QString} {row : SearchEntry × Recording} :
    row ∈ searchRows trigram hasFts5 db queryText ↔ row ∈ indexedRecordings db ∧ searchTokens queryText ≠ [] ∧
      ∀ token ∈ searchTokens queryText, FoundIn trigram hasFts5 row.1 token := by
  by_cases hempty : searchTokens queryText = []
  · simp [searchRows, hempty]
  have hlike := @likeTokens_iff trigram hasFts5 (searchTokens queryText) row.1
  by_cases hmatch : hasFts5 = true ∧ (searchTokens queryText).filter trigramMatchable ≠ []
  · obtain ⟨rfl, hmatch⟩ := hmatch
    have hrows : searchRows trigram true db queryText = (indexedRecordings db).filter fun row =>
        matchExpression trigram
            (joinSpace (((searchTokens queryText).filter trigramMatchable).map ftsPhrase)) row.1 &&
          ((searchTokens queryText).filter fun token => !trigramMatchable token).all fun token =>
            columnFilter token row.1 := by
      unfold searchRows
      rw [if_neg (by simpa using hempty), if_pos (by simpa using hmatch)]
      rfl
    rw [if_pos rfl] at hlike
    rw [hrows, List.mem_filter, Bool.and_eq_true, hlike, matchTokens_iff hdocumented]
    constructor
    · rintro ⟨hrow, hlong, hshort⟩
      refine ⟨hrow, hempty, fun token htoken => ?_⟩
      by_cases h : trigramMatchable token = true
      · exact hlong token htoken h
      · exact hshort token htoken fun hboth => h hboth.2
    · rintro ⟨hrow, -, hall⟩
      exact ⟨hrow, fun token htoken _ => hall token htoken, fun token htoken _ => hall token htoken⟩
  · -- no token is looked up in the trigram index
    have hnone : ∀ token ∈ searchTokens queryText, ¬ (hasFts5 = true ∧ trigramMatchable token = true) := by
      rintro token htoken ⟨hfts, hlong⟩
      refine hmatch ⟨hfts, fun hfilter => ?_⟩
      exact List.filter_eq_nil_iff.mp hfilter token htoken hlong
    have hmatchTokens : (if hasFts5 then (searchTokens queryText).filter trigramMatchable else []) = [] := by
      split
      case isTrue hfts =>
        by_contra hsome
        exact hmatch ⟨hfts, hsome⟩
      case isFalse => rfl
    have hrows : searchRows trigram hasFts5 db queryText = (indexedRecordings db).filter fun row =>
        (if hasFts5 then (searchTokens queryText).filter fun token => !trigramMatchable token
          else searchTokens queryText).all fun token => columnFilter token row.1 := by
      unfold searchRows
      rw [if_neg (by simpa using hempty), hmatchTokens]
      rfl
    rw [hrows, List.mem_filter, hlike]
    constructor
    · rintro ⟨hrow, hall⟩
      exact ⟨hrow, hempty, fun token htoken => hall token htoken (hnone token htoken)⟩
    · rintro ⟨hrow, -, hall⟩
      exact ⟨hrow, fun token htoken _ => hall token htoken⟩

/-- Where the index is current, the rows are those of the recordings. -/
theorem mem_indexedRecordings (hindex : IndexCurrent db) {entry : SearchEntry} {recording : Recording} :
    (entry, recording) ∈ indexedRecordings db ↔
      recording ∈ db.recordings ∧ recording.deletedAt = none ∧ entry = searchEntry db recording := by
  unfold indexedRecordings
  rw [List.mem_flatMap]
  constructor
  · rintro ⟨other, hother, hmem⟩
    obtain ⟨recording', hrecording, heq⟩ := List.mem_map.mp hmem
    obtain ⟨rfl, rfl⟩ : other = entry ∧ recording' = recording := by simpa using heq
    obtain ⟨hrecording, hjoin⟩ := List.mem_filter.mp hrecording
    obtain ⟨hid, hkept⟩ := Bool.and_eq_true_iff.mp hjoin
    have hrow : other ∈ db.searchIndex.filter fun entry => entry.recordingId == recording'.id := by
      refine List.mem_filter.mpr ⟨hother, ?_⟩
      rw [beq_iff_eq] at hid ⊢
      exact hid.symm
    rw [hindex.rows recording' hrecording, List.mem_singleton] at hrow
    exact ⟨hrecording, Option.isNone_iff_eq_none.mp hkept, hrow⟩
  · rintro ⟨hrecording, hkept, rfl⟩
    have hrow : searchEntry db recording ∈ db.searchIndex.filter fun entry => entry.recordingId == recording.id := by
      rw [hindex.rows recording hrecording]
      exact List.mem_singleton_self _
    refine ⟨searchEntry db recording, (List.mem_filter.mp hrow).1, List.mem_map.mpr ⟨recording, ?_, rfl⟩⟩
    exact List.mem_filter.mpr ⟨hrecording, by simp [searchEntry_eq, hkept]⟩

theorem listFilter_iff {searchText : QString} (hsearch : trimmed searchText ≠ []) (recording : Recording) :
    listFilter db searchText recording = true ↔
      ContainsAscii searchText recording.title ∨ ContainsAscii searchText recording.notes ∨
        (∃ tag ∈ recording.tags, ContainsAscii searchText tag) ∨
        ∃ segment ∈ db.segments, segment.recordingId = recording.id ∧
          (ContainsAscii searchText segment.editedText ∨ ContainsAscii searchText segment.originalText) := by
  unfold listFilter
  rw [if_neg (by simpa using hsearch)]
  show (sqlLike _ (likePattern searchText) _ || sqlLike _ (likePattern searchText) _ ||
    List.any _ (sqlLike _ (likePattern searchText)) || List.any _ _) = true ↔ _
  simp only [Bool.or_eq_true, List.any_eq_true, Bool.and_eq_true, beq_iff_eq, or_assoc]
  show sqlLike _ (likePattern searchText) _ = true ∨ sqlLike _ (likePattern searchText) _ = true ∨
    (∃ tag ∈ recording.tags, sqlLike _ (likePattern searchText) tag = true) ∨ (∃ segment ∈ db.segments, _ ∧
      (sqlLike _ (likePattern searchText) _ = true ∨ sqlLike _ (likePattern searchText) _ = true)) ↔ _
  simp only [like_likePattern]

/-- The trigram index as far as ASCII goes. -/
def asciiTrigram : Trigram where
  fold text := text.map asciiLower
  matchString string column := decide (string.map asciiLower <:+: column.map asciiLower)

def fixtureRecording : Recording := { id := qs "r1", title := qs "Plan: 50%_off \"Q\" \\o/" }

def fixtureLibrary : Database :=
  { recordings := [fixtureRecording], searchIndex := [searchEntry { recordings := [fixtureRecording] } fixtureRecording] }

end DatabaseSearchService

end BreezeDesk
