/-
  What a model download makes of the headers of a reply (`ModelDownloadOperation`).

  The model file is requested from an offset: the size of the partial file that is already there.  A reply is
  accepted when its status, its `Content-Length` and its `Content-Range` say that its body is exactly the
  missing rest of the file.  A reply with status `200` to a request with an offset carries the whole file
  instead: the range was ignored.

  `headerVerdict` follows the checks of `validateResponseHeaders` in their order; `accepted_of_verdict` says
  what a reply that passes them has declared.
-/
import BreezeDesk.Core.Values
import Mathlib.Data.List.DropRight

namespace BreezeDesk.Models

/-! ## Manifest entries -/

/-- The fields of a manifest entry that a download reads, with what `ModelManifestEntry::isValid` checks of
    them. -/
structure ModelManifestEntry where
  fileSize : Nat
  sha256 : QByteArray
  fileSize_pos : 0 < fileSize
  sha256_size : sha256.length = 64

theorem ModelManifestEntry.sha256_ne_nil (entry : ModelManifestEntry) : entry.sha256 ≠ [] := by
  intro h
  have hsize := entry.sha256_size
  rw [h] at hsize
  cases hsize

/-! ## Bytes -/

/-- `QByteArrayLiteral`. -/
def qba (text : String) : QByteArray :=
  text.toList.map fun c => UInt8.ofNat c.toNat

def isSpaceByte (c : UInt8) : Bool := c == 0x20 || (0x09 ≤ c && c ≤ 0x0D)

/-- `QByteArray::trimmed`. -/
def trimmedBytes (text : QByteArray) : QByteArray :=
  (text.dropWhile isSpaceByte).rdropWhile isSpaceByte

def lowerByte (c : UInt8) : UInt8 := if 0x41 ≤ c ∧ c ≤ 0x5A then c + 0x20 else c

/-- `left.compare(right, Qt::CaseInsensitive) == 0`. -/
def equalIgnoringCase (left right : QByteArray) : Bool :=
  left.map lowerByte == right.map lowerByte

/-- `text.indexOf(c, start)`, where `none` stands for `-1`. -/
def indexOf (text : QByteArray) (c : UInt8) (start : Nat) : Option Nat :=
  ((text.drop start).idxOf? c).map (· + start)

/-- `text.mid(start, length)`. -/
def mid (text : QByteArray) (start length : Nat) : QByteArray := (text.drop start).take length

/-- A decimal number that fits into `qint64`. -/
def parseNonNegativeInteger (text : QByteArray) : Option Nat :=
  if text.isEmpty then none
  else if text.any fun c => c < 0x30 || 0x39 < c then none
  else
    let parsed := text.foldl (fun value c => value * 10 + (c.toNat - 0x30)) 0
    if parsed < 2 ^ 63 then some parsed else none

/-! ## Headers -/

/-- `rawHeaderPairs`. -/
abbrev RawHeaders := List (QByteArray × QByteArray)

/-- The value of a header that occurs at most once: `none` when it is there twice, `some none` when it is
    not there. -/
def readSingleHeader (headers : RawHeaders) (name : QByteArray) : Option (Option QByteArray) :=
  match headers.filter fun header => equalIgnoringCase header.1 name with
  | [] => some none
  | [header] => some (some (trimmedBytes header.2))
  | _ => none

/-- `bytes <start>-<end>/<total>`, to the end of the file. -/
def contentRangeMatches (value : QByteArray) (expectedStart expectedTotal : Nat) : Bool :=
  let trimmed := trimmedBytes value
  if trimmed.length < 8 || !equalIgnoringCase (trimmed.take 6) (qba "bytes ") then false
  else
    match indexOf trimmed 0x2D 6 with
    | none => false
    | some dash =>
      match indexOf trimmed 0x2F (dash + 1) with
      | none => false
      | some slash =>
        if (indexOf trimmed 0x2D (dash + 1)).isSome || (indexOf trimmed 0x2F (slash + 1)).isSome then false
        else
          match parseNonNegativeInteger (mid trimmed 6 (dash - 6)),
            parseNonNegativeInteger (mid trimmed (dash + 1) (slash - dash - 1)),
            parseNonNegativeInteger (trimmed.drop (slash + 1)) with
          | some start, some finish, some total =>
            start == expectedStart && total == expectedTotal && expectedTotal > 0 &&
              finish == expectedTotal - 1
          | _, _, _ => false

/-- What is done about a reply: wait for other headers, ask again without a range, read its body, or fail. -/
inductive HeaderVerdict where
  | waiting
  | rangeIgnored
  | accepted
  | refused (message : QString) (retryable discardPartial : Bool)
  deriving DecidableEq

def httpMessage (status : Nat) : QString := qs ("Model server returned HTTP " ++ toString status ++ ".")

/-- The declared length, where there is one, is what is missing. -/
def contentLengthMatches (value : Option QByteArray) (expectedRemaining : Int) : Bool :=
  match value with
  | none => true
  | some text =>
    match parseNonNegativeInteger text with
    | none => false
    | some declaredLength => (declaredLength : Int) == expectedRemaining

/-- A request with an offset needs the range, one without must not get any. -/
def rangeVerdict (fileSize requestOffset : Nat) (contentRange : Option QByteArray) : HeaderVerdict :=
  if requestOffset > 0 then
    match contentRange with
    | none => .refused (qs "Model server returned an invalid Content-Range.") false true
    | some value =>
      if contentRangeMatches value requestOffset fileSize then .accepted
      else .refused (qs "Model server returned an invalid Content-Range.") false true
  else if contentRange.isSome then
    .refused (qs "Model server returned Content-Range for a fresh download.") false true
  else .accepted

/-- The checks of `validateResponseHeaders`. -/
def headerVerdict (fileSize requestOffset status : Nat) (headers : RawHeaders) : HeaderVerdict :=
  if status = 0 ∨ (300 ≤ status ∧ status < 400) then .waiting
  else if 500 ≤ status ∧ status ≤ 599 then .refused (httpMessage status) true false
  else if 400 ≤ status ∧ status ≤ 499 then .refused (httpMessage status) false true
  else if requestOffset > 0 ∧ status = 200 then .rangeIgnored
  else if (requestOffset = 0 ∧ status ≠ 200) ∨ (requestOffset > 0 ∧ status ≠ 206) then
    .refused (qs "Model server returned an invalid HTTP status for this download.") false true
  else
    match readSingleHeader headers (qba "Content-Length") with
    | none => .refused (qs "Model server returned duplicate Content-Length headers.") false true
    | some contentLength =>
      if contentLengthMatches contentLength ((fileSize : Int) - requestOffset) then
        match readSingleHeader headers (qba "Content-Range") with
        | none => .refused (qs "Model server returned duplicate Content-Range headers.") false true
        | some contentRange => rangeVerdict fileSize requestOffset contentRange
      else .refused (qs "Model server returned an invalid Content-Length.") false true

/-- What the headers of an accepted reply say: the body is the file from the offset on. -/
structure AnswersRequest (fileSize requestOffset status : Nat) (headers : RawHeaders) : Prop where
  status : status = if requestOffset = 0 then 200 else 206
  length : ∃ contentLength, readSingleHeader headers (qba "Content-Length") = some contentLength ∧
    contentLengthMatches contentLength ((fileSize : Int) - requestOffset) = true
  range : readSingleHeader headers (qba "Content-Range") = some none ∧ requestOffset = 0 ∨
    ∃ value, readSingleHeader headers (qba "Content-Range") = some (some value) ∧ 0 < requestOffset ∧
      contentRangeMatches value requestOffset fileSize = true

theorem rangeVerdict_accepted {fileSize requestOffset : Nat} {contentRange : Option QByteArray}
    (h : rangeVerdict fileSize requestOffset contentRange = .accepted) :
    contentRange = none ∧ requestOffset = 0 ∨
      ∃ value, contentRange = some value ∧ 0 < requestOffset ∧
        contentRangeMatches value requestOffset fileSize = true := by
  unfold rangeVerdict at h
  split at h
  next hoffset =>
    split at h
    · cases h
    next value =>
      split at h
      next hmatches => exact .inr ⟨value, rfl, hoffset, hmatches⟩
      next => cases h
  next hoffset =>
    split at h
    · cases h
    next hnone =>
      exact .inl ⟨Option.not_isSome_iff_eq_none.mp hnone, by omega⟩

/-- **A reply is accepted** only when its headers answer the request. -/
theorem accepted_of_verdict {fileSize requestOffset status : Nat} {headers : RawHeaders}
    (h : headerVerdict fileSize requestOffset status headers = .accepted) :
    AnswersRequest fileSize requestOffset status headers := by
  unfold headerVerdict at h
  split at h
  · cases h
  split at h
  · cases h
  split at h
  · cases h
  split at h
  · cases h
  split at h
  · cases h
  next hstatus =>
    split at h
    · cases h
    next contentLength hlength =>
      split at h
      next hmatches =>
        split at h
        · cases h
        next contentRange hrange =>
          refine ⟨?_, ⟨contentLength, hlength, hmatches⟩, ?_⟩
          · split
            · omega
            · omega
          · rw [hrange]
            rcases rangeVerdict_accepted h with ⟨rfl, hoffset⟩ | ⟨value, rfl, hoffset, hvalue⟩
            · exact .inl ⟨rfl, hoffset⟩
            · exact .inr ⟨value, rfl, hoffset, hvalue⟩
      next => cases h

example : contentRangeMatches (qba "Bytes 10-99/100 ") 10 100 = true := by decide

end BreezeDesk.Models
