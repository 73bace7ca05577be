/-
  `GlossaryPostProcessor` — explicit aliases replaced by their canonical text, with an audit.

  `applyExplicitAliases` takes every alias of every enabled term, longest first, and replaces its
  matches from left to right, never inside a stretch already replaced and, for Latin aliases, only
  between word boundaries.  The audit lists the replacements with their positions in the result, and
  is stored as JSON beside the original text.  `renderAudit` replays a stored audit on the original
  text, or refuses one that does not fit it.

  The specification is the patched sequence of `Library.Patch`: `PatchOf text result` says that
  `result.text` is `text` with some stretches replaced, and that the audit is the list of these
  stretches at their positions.  Every replacement keeps it (`PatchOf.replaceMatch`).  Replaying
  the stretches is `Patch.apply_marks`, so the audit of a result renders to that result
  (`renderAudit_applyExplicitAliases`).

  One condition is needed, that no canonical text is empty: an empty replacement has no extent, so
  the overlap test does not see it and two audit entries can share a position.
-/
import BreezeDesk.Core.Values
import BreezeDesk.Library.Loop
import BreezeDesk.Library.Patch
import Mathlib.Data.List.Pairwise
import Mathlib.Data.List.Sort

namespace BreezeDesk

open Loop Patch

/-! ## Data -/

structure GlossaryTerm where
  id : QString := []
  canonicalText : QString := []
  aliases : List QString := []
  priority : Int := 0
  caseSensitive : Bool := false
  enabled : Bool := true
  deriving DecidableEq, Repr

/-- `aliasText` is the source's `alias`. -/
structure GlossaryReplacement where
  termId : QString := []
  aliasText : QString := []
  canonicalText : QString := []
  originalText : QString := []
  start : Int := 0
  length : Int := 0
  confidence : Rat := 1
  applied : Bool := true
  deriving DecidableEq

structure GlossaryPostProcessResult where
  text : QString
  replacements : List GlossaryReplacement
  deriving DecidableEq

structure Candidate where
  termId : QString
  aliasText : QString
  canonical : QString
  caseSensitive : Bool
  priority : Int

variable (t : CharTables)

/-! ## Replacing the aliases -/

def isWordCharacter (c : QChar) : Bool := t.isLetterOrNumber c || c == 0x5F

def boundariesAllow (text : QString) (start length : Nat) (aliasText : QString) : Bool :=
  if !aliasText.any t.isLatin then true
  else (start == 0 || !(text[start - 1]?.any (isWordCharacter t))) &&
    (start + length == text.length || !(text[start + length]?.any (isWordCharacter t)))

def candidates (terms : List GlossaryTerm) : List Candidate :=
  (terms.filter (·.enabled)).flatMap fun term =>
    (term.aliases.filter fun aliasText => !aliasText.isEmpty && aliasText != term.canonicalText).map fun aliasText =>
      ⟨term.id, aliasText, term.canonicalText, term.caseSensitive, term.priority⟩

/-- The comparison of the stable sort: longer aliases first, then higher priorities. -/
def candidateBefore (left right : Candidate) : Prop :=
  left.aliasText.length > right.aliasText.length ∨
    (left.aliasText.length = right.aliasText.length ∧ left.priority > right.priority)

instance : DecidableRel candidateBefore := fun _ _ => inferInstanceAs (Decidable (_ ∨ _))

def sortedCandidates (terms : List GlossaryTerm) : List Candidate :=
  (candidates terms).insertionSort fun left right => ¬ candidateBefore right left

def matchesAt (text pattern : QString) (caseSensitive : Bool) (position : Nat) : Bool :=
  let slice := (text.drop position).take pattern.length
  slice.length == pattern.length &&
    (if caseSensitive then slice == pattern else t.equalIgnoringCase slice pattern)

/-- `QString::indexOf`. -/
def indexOf (text pattern : QString) (start : Nat) (caseSensitive : Bool) : Option Nat :=
  (List.range' start (text.length - start)).find? (matchesAt t text pattern caseSensitive)

/-- `QString::replace(position, length, by)`. -/
def replaceRange (text : QString) (position length : Nat) (after : QString) : QString :=
  text.take position ++ after ++ text.drop (position + length)

def overlaps (result : GlossaryPostProcessResult) (candidate : Candidate) (position : Nat) : Bool :=
  result.replacements.any fun replacement =>
    (position : Int) < replacement.start + replacement.length &&
      replacement.start < position + candidate.aliasText.length

/-- Entries behind a replacement move by the difference of the lengths. -/
def shifted (position : Nat) (delta : Int) (replacement : GlossaryReplacement) : GlossaryReplacement :=
  if replacement.start > (position : Int) then
    { replacement with start := replacement.start + delta }
  else replacement

def replaceMatch (result : GlossaryPostProcessResult) (candidate : Candidate) (position : Nat) :
    GlossaryPostProcessResult :=
  let matchedText := (result.text.drop position).take candidate.aliasText.length
  let delta : Int := candidate.canonical.length - candidate.aliasText.length
  { text := replaceRange result.text position candidate.aliasText.length candidate.canonical
    replacements := result.replacements.map (shifted position delta) ++
      [{ termId := candidate.termId, aliasText := candidate.aliasText, canonicalText := candidate.canonical,
         originalText := matchedText, start := position, length := candidate.canonical.length }] }

/-- One turn of the loop over the matches of a candidate; the number is the source's `from`. -/
def candidateTurn (candidate : Candidate) : GlossaryPostProcessResult × Nat →
    Turn (GlossaryPostProcessResult × Nat) GlossaryPostProcessResult
  | (result, start) =>
    if start < result.text.length then
      match indexOf t result.text candidate.aliasText start candidate.caseSensitive with
      | none => .done result
      | some position =>
        if !boundariesAllow t result.text position candidate.aliasText.length candidate.aliasText ||
            overlaps result candidate position then
          .again (result, position + candidate.aliasText.length)
        else
          .again (replaceMatch result candidate position, position + candidate.canonical.length)
    else .done result

/-- The loop of one candidate; `applyCandidate_induct` shows that this many turns are enough. -/
def applyCandidate (result : GlossaryPostProcessResult) (candidate : Candidate) :
    GlossaryPostProcessResult :=
  (run (candidateTurn t candidate) (result.text.length + 1) (result, 0)).getD result

def sortedByStart (replacements : List GlossaryReplacement) : List GlossaryReplacement :=
  replacements.insertionSort fun left right => left.start ≤ right.start

def applyExplicitAliases (text : QString) (terms : List GlossaryTerm) : GlossaryPostProcessResult :=
  let result := (sortedCandidates terms).foldl (applyCandidate t) ⟨text, []⟩
  { result with replacements := sortedByStart result.replacements }

/-! ## Rendering an audit -/

/-- The checking loop of `renderAudit`: each entry with its position in the original text. -/
def positionAudit (originalText : QString) : List GlossaryReplacement → Int → Int →
    Option (List (Int × GlossaryReplacement))
  | [], _, _ => some []
  | replacement :: rest, accumulatedDelta, previousOriginalEnd =>
    if replacement.start < 0 ∨ replacement.length ≠ replacement.canonicalText.length ∨
        replacement.originalText.isEmpty then none
    else
      let originalStart := replacement.start - accumulatedDelta
      let originalEnd := originalStart + replacement.originalText.length
      if originalStart < previousOriginalEnd ∨ originalEnd > originalText.length then none
      else if !t.equalIgnoringCase
          ((originalText.drop originalStart.toNat).take replacement.originalText.length)
          replacement.originalText then none
      else
        (positionAudit originalText rest
          (accumulatedDelta + (replacement.canonicalText.length - replacement.originalText.length))
          originalEnd).map ((originalStart, replacement) :: ·)

def renderEntry (entry : Int × GlossaryReplacement) (rendered : QString) : QString :=
  if entry.2.applied then
    replaceRange rendered entry.1.toNat entry.2.originalText.length entry.2.canonicalText
  else rendered

def renderAudit (originalText : QString) (replacements : List GlossaryReplacement) : Option QString :=
  (positionAudit t originalText (sortedByStart replacements) 0 0).map fun positioned =>
    positioned.foldr renderEntry originalText

/-! ## The audit as JSON -/

def replacementToJson (item : GlossaryReplacement) : QJsonValue :=
  .object [(qs "termId", .string item.termId), (qs "alias", .string item.aliasText),
    (qs "canonicalText", .string item.canonicalText), (qs "originalText", .string item.originalText),
    (qs "start", .number item.start), (qs "length", .number item.length),
    (qs "confidence", .number item.confidence), (qs "applied", .bool item.applied)]

def auditToJson (replacements : List GlossaryReplacement) : QJsonArray :=
  replacements.map replacementToJson

def replacementFromJson (value : QJsonValue) : GlossaryReplacement :=
  let object := value.toObject
  { termId := (object.value (qs "termId")).toText
    aliasText := (object.value (qs "alias")).toText
    canonicalText := (object.value (qs "canonicalText")).toText
    originalText := (object.value (qs "originalText")).toText
    start := (object.value (qs "start")).toInteger
    length := (object.value (qs "length")).toInteger
    confidence := (object.value (qs "confidence")).toDouble
    applied := (object.value (qs "applied")).toBool }

def auditFromJson (json : QJsonArray) : List GlossaryReplacement :=
  json.map replacementFromJson

theorem auditFromJson_auditToJson (replacements : List GlossaryReplacement) :
    auditFromJson (auditToJson replacements) = replacements := by
  unfold auditFromJson auditToJson
  rw [List.map_map]
  refine (List.map_congr_left fun item _ => ?_).trans (List.map_id _)
  have hinteger : ∀ n : Int, QJsonValue.toInteger (.number (n : Rat)) = n := by
    intro n
    simp [QJsonValue.toInteger]
  show ({ item with
    start := QJsonValue.toInteger (.number (item.start : Rat))
    length := QJsonValue.toInteger (.number (item.length : Rat)) } : GlossaryReplacement) = item
  rw [hinteger, hinteger]

/-! ## Results are patched texts -/

variable {t}

/-- A replaced stretch, without its position. -/
structure Edit where
  termId : QString
  aliasText : QString
  canonicalText : QString
  originalText : QString

/-- The audit entry of a stretch at a position of the result. -/
def placed (mark : Nat × Edit) : GlossaryReplacement :=
  { termId := mark.2.termId, aliasText := mark.2.aliasText, canonicalText := mark.2.canonicalText,
    originalText := mark.2.originalText, start := mark.1, length := mark.2.canonicalText.length }

abbrev Pieces := List (QChar ⊕ Edit)

/-- **The specification of the post-processor**: the result is the text with the stretches of `P`
    replaced, and its audit lists these stretches, in any order, at their positions. -/
structure PatchOf (text : QString) (result : GlossaryPostProcessResult) (P : Pieces) : Prop where
  source_eq : expand Edit.originalText P = text
  text_eq : expand Edit.canonicalText P = result.text
  audit : result.replacements.Perm ((marks Edit.canonicalText 0 P).map placed)
  canonical_ne : ∀ e, .inr e ∈ P → e.canonicalText ≠ []
  original_ne : ∀ e, .inr e ∈ P → e.originalText ≠ []

theorem patchOf_unchanged (text : QString) : PatchOf text ⟨text, []⟩ (kept text) where
  source_eq := expand_kept _ text
  text_eq := expand_kept _ text
  audit := by rw [marks_kept]; exact List.Perm.nil
  canonical_ne e he := absurd he (not_mem_kept text e)
  original_ne e he := absurd he (not_mem_kept text e)

theorem indexOf_spec {text pattern : QString} {start position : Nat} {caseSensitive : Bool}
    (h : indexOf t text pattern start caseSensitive = some position) :
    start ≤ position ∧ position + pattern.length ≤ text.length ∧
      ((text.drop position).take pattern.length).length = pattern.length := by
  have hmatch := List.find?_some h
  have hmem := List.mem_of_find?_eq_some h
  simp only [matchesAt, Bool.and_eq_true, beq_iff_eq] at hmatch
  have hlen := hmatch.1
  have hrange := List.mem_range'_1.mp hmem
  refine ⟨hrange.1, ?_, hlen⟩
  rw [List.length_take, List.length_drop] at hlen
  omega

theorem shifted_of_le {position : Nat} {delta : Int} {mark : Nat × Edit} (h : mark.1 ≤ position) :
    shifted position delta (placed mark) = placed mark := by
  have hnot : ¬ (placed mark).start > (position : Int) := by
    show ¬ (mark.1 : Int) > position
    omega
  exact if_neg hnot

theorem shifted_of_lt {position n n' : Nat} {delta : Int} {e : Edit} (h : position < n)
    (hdelta : (n : Int) + delta = n') : shifted position delta (placed (n, e)) = placed (n', e) := by
  have hbehind : (placed (n, e)).start > (position : Int) := by
    show (n : Int) > position
    omega
  unfold shifted
  rw [if_pos hbehind]
  simp only [placed, hdelta]

/-- **One replacement** of a window that meets no earlier one patches the text further. -/
theorem PatchOf.replaceMatch {text : QString} {result : GlossaryPostProcessResult} {P : Pieces}
    (h : PatchOf text result P) {candidate : Candidate} {position : Nat}
    (hpos : 0 < candidate.aliasText.length) (hcanonical : candidate.canonical ≠ [])
    (hinside : position + candidate.aliasText.length ≤ result.text.length)
    (hfree : overlaps result candidate position = false) :
    ∃ Q, PatchOf text (replaceMatch result candidate position) Q := by
  obtain ⟨hsource, htext, haudit, hcan, horig⟩ := h
  set k := candidate.aliasText.length with hk
  -- the overlap test has looked at every stretch
  have hapart : ∀ m ∈ marks Edit.canonicalText 0 P, Apart position k m.1 m.2.canonicalText.length := by
    intro m hm
    have hmem : placed m ∈ result.replacements := haudit.mem_iff.mpr (List.mem_map_of_mem hm)
    have hno := List.any_eq_false.mp hfree (placed m) hmem
    rw [Bool.and_eq_true, decide_eq_true_eq, decide_eq_true_eq] at hno
    have hstart : (placed m).start = m.1 := rfl
    have hlength : (placed m).length = m.2.canonicalText.length := rfl
    rw [hstart, hlength] at hno
    unfold Apart
    omega
  obtain ⟨before, window, behind, hP, hlen, hwindow⟩ :=
    exists_split Edit.canonicalText hcan hpos (Nat.zero_le position)
      (by rw [htext]; omega) hapart
  rw [Nat.zero_add] at hlen
  subst hP
  -- the text around the window
  have hresult : result.text =
      expand Edit.canonicalText before ++ window ++ expand Edit.canonicalText behind := by
    rw [← htext, expand_append, expand_append, expand_kept]
  have hmatched : (result.text.drop position).take k = window := by
    rw [hresult, List.append_assoc, ← hlen, List.drop_left, ← hwindow, List.take_left]
  let e : Edit := ⟨candidate.termId, candidate.aliasText, candidate.canonical, window⟩
  refine ⟨before ++ .inr e :: behind, ?_, ?_, ?_, ?_, ?_⟩
  · rw [← hsource]
    simp only [expand_append, expand, expand_kept, e, List.append_assoc]
  · have htake : result.text.take position = expand Edit.canonicalText before := by
      rw [hresult, List.append_assoc, ← hlen, List.take_left]
    have hdrop : result.text.drop (position + k) = expand Edit.canonicalText behind := by
      rw [hresult, ← hlen, ← hwindow, ← List.length_append, List.drop_left]
    simp only [BreezeDesk.replaceMatch, replaceRange, ← hk, htake, hdrop, expand_append, expand, e,
      List.append_assoc]
  · -- marks before the window stay where they are, those behind it shift
    rw [marks_window] at haudit
    rw [marks_replace, List.map_append, List.map_cons]
    simp only [BreezeDesk.replaceMatch, ← hk, hmatched]
    have hshift := haudit.map (shifted position ((candidate.canonical.length : Int) - k))
    rw [List.map_append, List.map_append] at hshift
    have hstay : ((marks Edit.canonicalText 0 before).map placed).map
        (shifted position ((candidate.canonical.length : Int) - k)) =
        (marks Edit.canonicalText 0 before).map placed := by
      rw [List.map_map]
      refine List.map_congr_left fun m hm => shifted_of_le ?_
      have hb := (marks_bounds Edit.canonicalText m hm).2
      omega
    have hmove : (((marks Edit.canonicalText 0 behind).map fun m =>
          (m.1 + ((expand Edit.canonicalText before).length + window.length), m.2)).map placed).map
        (shifted position ((candidate.canonical.length : Int) - k)) =
        ((marks Edit.canonicalText 0 behind).map fun m =>
          (m.1 + ((expand Edit.canonicalText before).length + e.canonicalText.length), m.2)).map
            placed := by
      rw [List.map_map, List.map_map, List.map_map]
      refine List.map_congr_left fun m _ => shifted_of_lt ?_ ?_
      · omega
      · dsimp only [e]
        omega
    rw [hstay, hmove] at hshift
    have hnew : placed ((expand Edit.canonicalText before).length, e) =
        { termId := candidate.termId, aliasText := candidate.aliasText,
          canonicalText := candidate.canonical, originalText := window, start := position,
          length := candidate.canonical.length } := by
      simp only [placed, e, hlen]
    rw [hnew]
    refine (hshift.append_right _).trans ?_
    rw [List.append_assoc]
    exact List.Perm.append_left _ (List.perm_append_singleton _ _)
  · intro e' he'
    rcases List.mem_append.mp he' with he' | he'
    · exact hcan e' (by simp [he'])
    · rcases List.mem_cons.mp he' with he' | he'
      · cases he'
        exact hcanonical
      · exact hcan e' (by simp [he'])
  · intro e' he'
    rcases List.mem_append.mp he' with he' | he'
    · exact horig e' (by simp [he'])
    · rcases List.mem_cons.mp he' with he' | he'
      · cases he'
        exact List.ne_nil_of_length_pos (show 0 < window.length by omega)
      · exact horig e' (by simp [he'])

/-- **A turn of the loop** lowers what is left to search, and keeps whatever a replacement keeps. -/
theorem candidateTurn_sound {I : GlossaryPostProcessResult → Prop} {candidate : Candidate}
    (hpos : 0 < candidate.aliasText.length)
    (hkeep : ∀ {result : GlossaryPostProcessResult} {position : Nat}, I result →
      position + candidate.aliasText.length ≤ result.text.length →
      overlaps result candidate position = false → I (replaceMatch result candidate position)) :
    TurnSound (candidateTurn t candidate) (fun s => I s.1) (fun s => s.1.text.length - s.2) I := by
  rintro ⟨result, start⟩ hI
  by_cases hleft : start < result.text.length
  · cases hindex : indexOf t result.text candidate.aliasText start candidate.caseSensitive with
    | none =>
      simp only [candidateTurn, if_pos hleft, hindex]
      exact hI
    | some position =>
      obtain ⟨hle, hinside, -⟩ := indexOf_spec hindex
      by_cases hskip : (!boundariesAllow t result.text position candidate.aliasText.length
          candidate.aliasText || overlaps result candidate position) = true
      · simp only [candidateTurn, if_pos hleft, hindex, if_pos hskip]
        exact ⟨hI, by omega⟩
      · simp only [candidateTurn, if_pos hleft, hindex, if_neg hskip]
        have hfree : overlaps result candidate position = false := by
          cases ho : overlaps result candidate position with
          | false => rfl
          | true => exact absurd (by rw [ho, Bool.or_true]) hskip
        refine ⟨hkeep hI hinside hfree, ?_⟩
        have hlen : (replaceMatch result candidate position).text.length =
            position + candidate.canonical.length +
              (result.text.length - (position + candidate.aliasText.length)) := by
          simp only [replaceMatch, replaceRange, List.length_append, List.length_take,
            List.length_drop]
          omega
        rw [hlen]
        omega
  · simp only [candidateTurn, if_neg hleft]
    exact hI

/-- The loop of a candidate with a non-empty alias ends within its turns, whatever it inserts. -/
theorem applyCandidate_induct {I : GlossaryPostProcessResult → Prop}
    {result : GlossaryPostProcessResult} {candidate : Candidate}
    (hpos : 0 < candidate.aliasText.length)
    (hkeep : ∀ {result : GlossaryPostProcessResult} {position : Nat}, I result →
      position + candidate.aliasText.length ≤ result.text.length →
      overlaps result candidate position = false → I (replaceMatch result candidate position))
    (hI : I result) :
    run (candidateTurn t candidate) (result.text.length + 1) (result, 0) =
        some (applyCandidate t result candidate) ∧ I (applyCandidate t result candidate) := by
  obtain ⟨final, hfinal, hrun⟩ := run_total (candidateTurn_sound (t := t) hpos hkeep)
    (s := (result, 0)) hI
  have hfuel := hrun (result.text.length + 1) (by dsimp only; omega)
  unfold applyCandidate
  rw [hfuel]
  exact ⟨rfl, hfinal⟩

theorem applyCandidate_patch {text : QString} {result : GlossaryPostProcessResult}
    {candidate : Candidate} (hpos : 0 < candidate.aliasText.length)
    (hcanonical : candidate.canonical ≠ []) (hP : ∃ P, PatchOf text result P) :
    ∃ P, PatchOf text (applyCandidate t result candidate) P := by
  refine (applyCandidate_induct (I := fun result => ∃ P, PatchOf text result P) hpos ?_ hP).2
  rintro result position ⟨P, hP⟩ hinside hfree
  exact hP.replaceMatch hpos hcanonical hinside hfree

/-- The candidates have a non-empty alias and the canonical text of their term. -/
theorem mem_sortedCandidates {terms : List GlossaryTerm} {candidate : Candidate}
    (h : candidate ∈ sortedCandidates terms) :
    0 < candidate.aliasText.length ∧ ∃ term ∈ terms, candidate.canonical = term.canonicalText := by
  have hmem : candidate ∈ candidates terms := (List.perm_insertionSort _ _).mem_iff.mp h
  obtain ⟨term, hterm, hcandidate⟩ := List.mem_flatMap.mp hmem
  obtain ⟨aliasText, halias, rfl⟩ := List.mem_map.mp hcandidate
  have hkeep := (List.mem_filter.mp halias).2
  simp only [Bool.and_eq_true, Bool.not_eq_true', List.isEmpty_eq_false_iff] at hkeep
  exact ⟨List.length_pos_of_ne_nil hkeep.1, term, (List.mem_filter.mp hterm).1, rfl⟩

theorem foldl_applyCandidate_patch {text : QString} :
    ∀ {list : List Candidate} {result : GlossaryPostProcessResult},
      (∀ candidate ∈ list, 0 < candidate.aliasText.length ∧ candidate.canonical ≠ []) →
      (∃ P, PatchOf text result P) → ∃ P, PatchOf text (list.foldl (applyCandidate t) result) P := by
  intro list
  induction list with
  | nil => intro result _ hP; exact hP
  | cons candidate rest ih =>
    intro result hall hP
    obtain ⟨hpos, hcanonical⟩ := hall candidate (List.mem_cons_self ..)
    exact ih (fun c hc => hall c (List.mem_cons_of_mem _ hc))
      (applyCandidate_patch hpos hcanonical hP)

/-! ## The audit of a result renders to the result -/

/-- The entries of a patched text stand at increasing positions. -/
theorem placed_increasing {P : Pieces} (hne : ∀ e, .inr e ∈ P → e.canonicalText ≠ []) :
    ((marks Edit.canonicalText 0 P).map placed).Pairwise fun left right => left.start < right.start := by
  rw [List.pairwise_map]
  refine (marks_pairwise Edit.canonicalText hne).imp fun {a b} hab => ?_
  show (a.1 : Int) < b.1
  omega

/-- Entries at increasing positions are told apart by them. -/
theorem eq_of_start {entries : List GlossaryReplacement}
    (hstrict : entries.Pairwise fun left right => left.start < right.start) {a b : GlossaryReplacement}
    (ha : a ∈ entries) (hb : b ∈ entries) (hab : a.start = b.start) : a = b := by
  have hdistinct : entries.Pairwise fun left right => left.start ≠ right.start :=
    hstrict.imp fun hlt => Int.ne_of_lt hlt
  have hsymm : Std.Symm fun left right : GlossaryReplacement => left.start ≠ right.start :=
    ⟨fun _ _ hne => hne.symm⟩
  by_contra hne
  exact hdistinct.forall ha hb hne hab

/-- Sorting the entries of a patched text puts them into the order of the text. -/
theorem sortedByStart_placed {P : Pieces} (hne : ∀ e, .inr e ∈ P → e.canonicalText ≠ [])
    {replacements : List GlossaryReplacement}
    (h : replacements.Perm ((marks Edit.canonicalText 0 P).map placed)) :
    sortedByStart replacements = (marks Edit.canonicalText 0 P).map placed := by
  have hstrict := placed_increasing hne
  revert h hstrict
  generalize (marks Edit.canonicalText 0 P).map placed = entries
  intro h hstrict
  have hsorted : entries.Pairwise fun left right => left.start ≤ right.start :=
    hstrict.imp fun hlt => Int.le_of_lt hlt
  have hperm : (sortedByStart replacements).Perm entries := (List.perm_insertionSort _ _).trans h
  have hsort : (sortedByStart replacements).Pairwise fun left right => left.start ≤ right.start :=
    List.pairwise_insertionSort _ _
  exact hperm.eq_of_pairwise
    (fun a b ha hb hab hba => eq_of_start hstrict (hperm.mem_iff.mp ha) hb (Int.le_antisymm hab hba))
    hsort hsorted

/-- The checking loop accepts the entries of a patched text and finds their old positions. -/
theorem positionAudit_marks {P : Pieces} (horiginal : ∀ e, .inr e ∈ P → e.originalText ≠ []) :
    ∀ (done : QString) (n : Nat) (previousOriginalEnd : Int), previousOriginalEnd ≤ done.length →
      positionAudit t (done ++ expand Edit.originalText P)
          ((marks Edit.canonicalText n P).map placed) ((n : Int) - done.length) previousOriginalEnd =
        some (((marks Edit.originalText done.length P).zip (marks Edit.canonicalText n P)).map
          fun pair => ((pair.1.1 : Int), placed pair.2)) := by
  induction P with
  | nil => intro done n previousOriginalEnd _; rfl
  | cons p P ih =>
    intro done n previousOriginalEnd hle
    have hrest : ∀ e, .inr e ∈ P → e.originalText ≠ [] :=
      fun e he => horiginal e (List.mem_cons_of_mem _ he)
    cases p with
    | inl c =>
      have h := ih hrest (done ++ [c]) (n + 1) previousOriginalEnd
        (by rw [List.length_append]; push_cast; omega)
      have hdelta : ((n + 1 : Nat) : Int) - (done ++ [c]).length = (n : Int) - done.length := by
        rw [List.length_append, List.length_singleton]
        push_cast
        omega
      rw [hdelta] at h
      simpa only [List.append_assoc, List.singleton_append, List.length_append,
        List.length_singleton, expand, marks] using h
    | inr e =>
      have hne := horiginal e (List.mem_cons_self ..)
      have h := ih hrest (done ++ e.originalText) (n + e.canonicalText.length)
        (done.length + e.originalText.length) (by rw [List.length_append]; push_cast; omega)
      have hdelta : ((n + e.canonicalText.length : Nat) : Int) - (done ++ e.originalText).length =
          (n : Int) - done.length + ((e.canonicalText.length : Int) - e.originalText.length) := by
        rw [List.length_append]
        push_cast
        omega
      rw [hdelta, List.append_assoc, List.length_append] at h
      -- the entry itself: its old position is the end of what is done, and the text is there
      have hstart : (n : Int) - ((n : Int) - done.length) = done.length := by omega
      have hslice : ((done ++ (e.originalText ++ expand Edit.originalText P)).drop done.length).take
          e.originalText.length = e.originalText := by
        rw [List.drop_left, List.take_left]
      have hshape : ¬ ((n : Int) < 0 ∨ (e.canonicalText.length : Int) ≠ e.canonicalText.length ∨
          e.originalText.isEmpty = true) := by
        rw [List.isEmpty_iff]
        rintro (hneg | hlen | hnil)
        · omega
        · exact hlen rfl
        · exact hne hnil
      have hrange : ¬ ((done.length : Int) < previousOriginalEnd ∨
          (done.length : Int) + e.originalText.length >
            (done ++ (e.originalText ++ expand Edit.originalText P)).length) := by
        rw [List.length_append, List.length_append]
        push_cast
        omega
      simp only [expand, marks, List.map_cons, positionAudit, placed, if_neg hshape, hstart,
        if_neg hrange, Int.toNat_natCast, hslice, t.equalIgnoringCase_refl, Bool.not_true,
        Bool.false_eq_true, if_false]
      rw [h]
      rfl

/-- Replaying the positioned entries is the replay of the library. -/
theorem foldr_renderEntry {P : Pieces} :
    ∀ (k n : Nat) (text : QString),
      (((marks Edit.originalText k P).zip (marks Edit.canonicalText n P)).map
        fun pair => ((pair.1.1 : Int), placed pair.2)).foldr renderEntry text =
      (marks Edit.originalText k P).foldr (replaceAt Edit.originalText Edit.canonicalText) text := by
  induction P with
  | nil => intro k n text; rfl
  | cons p P ih =>
    intro k n text
    cases p with
    | inl c => exact ih (k + 1) (n + 1) text
    | inr e =>
      simp only [marks, List.zip_cons_cons, List.map_cons, List.foldr_cons, ih]
      rfl

/-- Post-processing patches the text, and its audit lists the stretches in the order of the text. -/
theorem applyExplicitAliases_patch (text : QString) {terms : List GlossaryTerm}
    (hterms : ∀ term ∈ terms, term.canonicalText ≠ []) :
    ∃ P, PatchOf text (applyExplicitAliases t text terms) P ∧
      (applyExplicitAliases t text terms).replacements = (marks Edit.canonicalText 0 P).map placed := by
  have hcandidates : ∀ candidate ∈ sortedCandidates terms,
      0 < candidate.aliasText.length ∧ candidate.canonical ≠ [] := by
    intro candidate hmem
    obtain ⟨hpos, term, hterm, hcanonical⟩ := mem_sortedCandidates hmem
    exact ⟨hpos, by rw [hcanonical]; exact hterms term hterm⟩
  obtain ⟨P, hP⟩ := foldl_applyCandidate_patch (t := t) hcandidates ⟨_, patchOf_unchanged text⟩
  have hsorted := sortedByStart_placed hP.canonical_ne hP.audit
  exact ⟨P, ⟨hP.source_eq, hP.text_eq, List.Perm.of_eq hsorted, hP.canonical_ne, hP.original_ne⟩, hsorted⟩

/-- **Audit round trip.**  Stored as JSON and read back, the audit of a post-processed text renders
    the original text to exactly that text. -/
theorem renderAudit_applyExplicitAliases (text : QString) {terms : List GlossaryTerm}
    (hterms : ∀ term ∈ terms, term.canonicalText ≠ []) :
    renderAudit t text
        (auditFromJson (auditToJson (applyExplicitAliases t text terms).replacements)) =
      some (applyExplicitAliases t text terms).text := by
  rw [auditFromJson_auditToJson]
  obtain ⟨P, hP, haudit⟩ := applyExplicitAliases_patch (t := t) text hterms
  rw [haudit]
  -- the second sort finds the entries in order already
  unfold renderAudit
  rw [sortedByStart_placed hP.canonical_ne (List.Perm.refl _)]
  have hpositions := positionAudit_marks (t := t) hP.original_ne [] 0 0 (Int.le_refl 0)
  have hzero : ((0 : Nat) : Int) - ([] : QString).length = 0 := rfl
  rw [List.nil_append, hP.source_eq, hzero] at hpositions
  rw [hpositions, Option.map_some, foldr_renderEntry]
  have hreplay := apply_marks Edit.originalText Edit.canonicalText P []
  rw [List.nil_append, List.nil_append, hP.source_eq, hP.text_eq] at hreplay
  rw [hreplay]

end BreezeDesk
