/-
  Text and errors as every module of the program uses them.

  `QString` is a sequence of UTF-16 code units, which is what the source's string functions index,
  compare and cut; `qs` turns a literal of the source into one.  White space is the set that
  `QChar::isSpace` documents.  The other Unicode properties come from tables of the text library and
  are fields of `CharTables`: every result about text holds for all tables, and closed examples use
  `asciiTables`.

  A `Result<T>` is `Except UserFacingError T`; of a `UserFacingError` the model keeps what callers
  branch on or store (domain, code, message), and leaves out the title and the advice that are
  functions of the factory used.
-/
import Mathlib

namespace BreezeDesk

/-! ## Strings -/

abbrev QChar := UInt16

abbrev QString := List QChar

/-- `QStringLiteral`.  The source's literals stay in the basic multilingual plane. -/
def qs (text : String) : QString :=
  text.toList.map fun c => UInt16.ofNat c.toNat

/-! ## White space -/

/-- `QChar::isSpace`: the separators of Unicode, and the controls `U+0009..U+000D` and `U+0085`. -/
def isSpace (c : QChar) : Bool :=
  let u := c.toNat
  u == 0x20 || (0x09 ≤ u && u ≤ 0x0D) || u == 0x85 || u == 0xA0 || u == 0x1680 ||
    (0x2000 ≤ u && u ≤ 0x200A) || u == 0x2028 || u == 0x2029 || u == 0x202F || u == 0x205F || u == 0x3000

def space : QChar := 0x20

def slash : QChar := 0x2F

/-- `QString::trimmed`. -/
def trimmed (text : QString) : QString :=
  (text.dropWhile isSpace).rdropWhile isSpace

/-- The words of a text: its longest runs without white space. -/
def words : QString → QString → List QString
  | [], word => if word.isEmpty then [] else [word]
  | c :: rest, word =>
    if isSpace c then (if word.isEmpty then words rest [] else word :: words rest [])
    else words rest (word ++ [c])

/-- `QStringList::join(QLatin1Char(' '))`. -/
def joinSpace (parts : List QString) : QString :=
  [space].intercalate parts

/-- `QString::simplified`: the words with one space between them. -/
def simplified (text : QString) : QString :=
  joinSpace (words text [])

/-- A text is blank when trimming leaves nothing of it. -/
theorem trimmed_eq_nil_iff (text : QString) : trimmed text = [] ↔ ∀ c ∈ text, isSpace c = true := by
  unfold trimmed
  rw [List.rdropWhile_eq_nil_iff]
  constructor
  · intro h
    -- what the left trim keeps begins with a visible character
    have hnil : text.dropWhile isSpace = [] := by
      cases hd : text.dropWhile isSpace with
      | nil => rfl
      | cons c rest =>
        have hc := h c (by rw [hd]; exact List.mem_cons_self ..)
        have hhead := List.head_dropWhile_not isSpace (l := text) (by simp [hd])
        simp only [hd, List.head_cons] at hhead
        rw [hc] at hhead
        cases hhead
    exact List.dropWhile_eq_nil_iff.mp hnil
  · intro h c hc
    exact h c (List.dropWhile_sublist isSpace |>.subset hc)

/-- A text without white space has nothing to trim. -/
theorem trimmed_of_visible {text : QString} (h : ∀ c ∈ text, isSpace c = false) : trimmed text = text := by
  have hright : text.rdropWhile isSpace = text :=
    List.rdropWhile_eq_self_iff.mpr fun hne => by simp [h _ (List.getLast_mem hne)]
  cases text with
  | nil => rfl
  | cons c rest =>
    unfold trimmed
    rw [List.dropWhile_cons_of_neg (by simp [h c (List.mem_cons_self ..)]), hright]

/-! ## Unicode tables -/

/-- The character properties that the program takes from the text library. -/
structure CharTables where
  isPunct : QChar → Bool
  isLetterOrNumber : QChar → Bool
  isLatin : QChar → Bool
  toCaseFolded : QString → QString
  toLower : QString → QString
  equalIgnoringCase : QString → QString → Bool
  equalIgnoringCase_refl : ∀ text, equalIgnoringCase text text = true

/-- ASCII letters in lower case. -/
def asciiLower (c : QChar) : QChar :=
  if 0x41 ≤ c ∧ c ≤ 0x5A then c + 0x20 else c

/-- `QChar::toCaseFolded`, as far as it leads to ASCII: the long s and the Kelvin sign fold to letters. -/
def foldedToAscii (c : QChar) : QChar :=
  if c = 0x17F then 0x73 else if c = 0x212A then 0x6B else asciiLower c

/-- `text.compare(literal, Qt::CaseInsensitive) == 0` for a literal of ASCII in lower case. -/
def equalsAscii (literal text : QString) : Bool := text.map foldedToAscii == literal

/-- The tables as far as ASCII goes. -/
def asciiTables : CharTables where
  isPunct c := c ∈ qs "!\"#%&'()*,-./:;?@[\\]_\x7b\x7d"
  isLetterOrNumber c := (0x30 ≤ c && c ≤ 0x39) || (0x41 ≤ c && c ≤ 0x5A) || (0x61 ≤ c && c ≤ 0x7A)
  isLatin c := (0x41 ≤ c && c ≤ 0x5A) || (0x61 ≤ c && c ≤ 0x7A)
  toCaseFolded text := text.map asciiLower
  toLower text := text.map asciiLower
  equalIgnoringCase left right := left.map asciiLower == right.map asciiLower
  equalIgnoringCase_refl text := by simp

/-! ## Errors -/

inductive ErrorDomain where
  | none | application | database | audio | asr | worker | model | network | storage | export
  | permission | validation | settings
  deriving DecidableEq, Repr

inductive ErrorCode where
  | none | unknown | invalidArgument | invalidStateTransition | executionLeaseLost | notFound
  | alreadyExists | operationCancelled | modelNotInstalled | modelChecksumMismatch | modelLoadFailed
  | unsupportedModel | backendUnavailable | gpuInitializationFailed | outOfMemory | audioDecodeFailed
  | unsupportedMedia | sourceFileMissing | insufficientDiskSpace | databaseOpenFailed
  | databaseQueryFailed | databaseMigrationFailed | databaseCorrupt | workerCrashed
  | workerProtocolMismatch | workerTimeout | jobCancelled | permissionDenied | exportFailed
  | networkUnavailable | downloadFailed | checksumMismatch | serializationFailed | settingsReadFailed
  | settingsWriteFailed
  deriving DecidableEq, Repr

structure UserFacingError where
  domain : ErrorDomain
  code : ErrorCode
  message : QString
  deriving DecidableEq, Repr

namespace UserFacingError

def validation (code : ErrorCode) (message : QString) : UserFacingError :=
  ⟨.validation, code, message⟩

/-- The factory for failed queries; named `ofDatabase` because `database` is the domain. -/
def ofDatabase (code : ErrorCode) (message : QString) : UserFacingError :=
  ⟨.database, code, message⟩

end UserFacingError

abbrev Result (α : Type) := Except UserFacingError α

end BreezeDesk
