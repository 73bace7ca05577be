/-
  Which occurrences of an alias are replaced.

  The loop over a candidate goes on behind every occurrence it comes to, whether it replaced it or not, so in
  the text it comes to the visited occurrences of `Library.Leftmost`.  The loop invariant (`ScanOf`) reads the
  patched text in two parts: pieces for what is done, and the rest of the text as it was.  Where the done part
  ends, the boundary rule sees either the text or the last canonical text.

  An occurrence that is rejected is skipped with all that overlaps it, and a canonical text that ends in a word
  character takes the left boundary of an occurrence directly behind it.  `aliases_missed_iff` says that these
  are the two ways in which an acceptable occurrence is missed.
-/
import BreezeDesk.Glossary.PostProcessor
import BreezeDesk.Library.Leftmost

namespace BreezeDesk

open Leftmost Loop Patch

variable (t : CharTables) (text : QString) (candidate : Candidate)

/-! ## Boundaries -/

/-- A text that leaves what stands behind it free. -/
def EndsFree (before : QString) : Prop := ∀ c ∈ before.getLast?, isWordCharacter t c = false

/-- A text that leaves what stands before it free. -/
def StartsFree (after : QString) : Prop := ∀ c ∈ after.head?, isWordCharacter t c = false

def LatinLike (aliasText : QString) : Prop := aliasText.any t.isLatin = true

/-- An occurrence of the alias. -/
def Occurs (p : Nat) : Prop := matchesAt t text candidate.aliasText candidate.caseSensitive p = true

instance : DecidablePred (Occurs t text candidate) := fun _ => inferInstanceAs (Decidable (_ = _))

def FreeLeft (p : Nat) : Prop := LatinLike t candidate.aliasText → EndsFree t (text.take p)

def FreeRight (p : Nat) : Prop :=
  LatinLike t candidate.aliasText → StartsFree t (text.drop (p + candidate.aliasText.length))

/-- The canonical text leaves what stands behind it free. -/
def FreeBehind : Prop := LatinLike t candidate.aliasText → EndsFree t candidate.canonical

variable {t text candidate} {before after slice : QString}

theorem endsFree_append (h : after ≠ []) : EndsFree t (before ++ after) ↔ EndsFree t after := by
  unfold EndsFree
  rw [List.getLast?_append_of_ne_nil _ h]

theorem endsFree_nil : EndsFree t [] := by
  intro c hc
  cases hc

/-- **The boundary rule**, in a text that is cut around the occurrence. -/
theorem boundariesAllow_iff (before slice after aliasText : QString) :
    boundariesAllow t (before ++ (slice ++ after)) before.length slice.length aliasText = true ↔
      (LatinLike t aliasText → EndsFree t before ∧ StartsFree t after) := by
  unfold boundariesAllow LatinLike
  cases hlatin : aliasText.any t.isLatin with
  | false => simp
  | true =>
    have hleft : (before.length == 0 || !((before ++ (slice ++ after))[before.length - 1]?.any (isWordCharacter t))) =
        true ↔ EndsFree t before := by
      -- the character before the occurrence is the last one of `before`
      rcases List.eq_nil_or_concat before with rfl | ⟨others, c, rfl⟩
      · simp [EndsFree]
      · have hat : (others ++ [c] ++ (slice ++ after))[(others ++ [c]).length - 1]? = some c := by simp
        rw [List.concat_eq_append, hat]
        simp [EndsFree]
    have hright : (before.length + slice.length == (before ++ (slice ++ after)).length ||
        !((before ++ (slice ++ after))[before.length + slice.length]?.any (isWordCharacter t))) = true ↔
        StartsFree t after := by
      cases after with
      | nil => simp [StartsFree]
      | cons c rest =>
        have hat : (before ++ (slice ++ c :: rest))[before.length + slice.length]? = some c := by
          rw [← List.append_assoc, ← List.length_append]
          simp
        have hlength : (before.length + slice.length == (before ++ (slice ++ c :: rest)).length) = false := by
          simp
        rw [hat, hlength]
        simp [StartsFree]
    simp only [Bool.not_true, Bool.false_eq_true, if_false, Bool.and_eq_true, hleft, hright, true_implies]

/-- A window of a text, with what stands between an earlier point and the window. -/
theorem exists_window {i q k : Nat} (hle : i ≤ q) (hinside : q + k ≤ text.length) :
    ∃ gap slice, gap.length = q - i ∧ slice.length = k ∧ text.drop i = gap ++ (slice ++ text.drop (q + k)) ∧
      text.take q = text.take i ++ gap ∧ text.take (q + k) = text.take i ++ (gap ++ slice) := by
  have hgap : (text.drop i).take (q - i) ++ text.drop q = text.drop i := by
    have hsplit := List.take_append_drop (q - i) (text.drop i)
    rwa [List.drop_drop, Nat.add_sub_cancel' hle] at hsplit
  have hslice : (text.drop q).take k ++ text.drop (q + k) = text.drop q := by
    have hsplit := List.take_append_drop k (text.drop q)
    rwa [List.drop_drop] at hsplit
  have hbefore : text.take q = text.take i ++ (text.drop i).take (q - i) := by
    rw [← List.take_add, Nat.add_sub_cancel' hle]
  refine ⟨(text.drop i).take (q - i), (text.drop q).take k, ?_, ?_, ?_, hbefore, ?_⟩
  · rw [List.length_take, List.length_drop]
    omega
  · rw [List.length_take, List.length_drop]
    omega
  · rw [hslice, hgap]
  · rw [List.take_add, hbefore, List.append_assoc]

/-- **The boundary rule** in the text. -/
theorem acceptable_iff {p : Nat} (h : p + candidate.aliasText.length ≤ text.length) :
    boundariesAllow t text p candidate.aliasText.length candidate.aliasText = true ↔
      FreeLeft t text candidate p ∧ FreeRight t text candidate p := by
  obtain ⟨gap, slice, hgap, hslice, hwhole, hbefore, -⟩ := exists_window (Nat.zero_le p) h
  have hnil : text.take 0 = [] := rfl
  rw [hnil, List.nil_append] at hbefore
  rw [List.drop_zero] at hwhole
  have hrule := boundariesAllow_iff (t := t) gap slice (text.drop (p + candidate.aliasText.length)) candidate.aliasText
  rw [← hwhole, hgap, hslice, Nat.sub_zero] at hrule
  rw [hrule]
  unfold FreeLeft FreeRight
  rw [hbefore]
  exact ⟨fun hboth => ⟨fun hlatin => (hboth hlatin).1, fun hlatin => (hboth hlatin).2⟩,
    fun hboth hlatin => ⟨hboth.1 hlatin, hboth.2 hlatin⟩⟩

/-! ## The search -/

/-- What is done does not matter for the matches in the rest of the text. -/
theorem matchesAt_append (done pattern : QString) (caseSensitive : Bool) (i d : Nat) :
    matchesAt t (done ++ text.drop i) pattern caseSensitive (done.length + d) =
      matchesAt t text pattern caseSensitive (i + d) := by
  have hdrop : (done ++ text.drop i).drop (done.length + d) = text.drop (i + d) := by
    rw [← List.drop_drop, List.drop_left, List.drop_drop]
  unfold matchesAt
  rw [hdrop]

theorem Occurs.inside {p : Nat} (h : Occurs t text candidate p) (hpos : 0 < candidate.aliasText.length) :
    p + candidate.aliasText.length ≤ text.length := by
  unfold Occurs matchesAt at h
  simp only [Bool.and_eq_true, beq_iff_eq, List.length_take, List.length_drop] at h
  omega

/-- The search finds the first match. -/
theorem indexOf_eq_some {pattern : QString} {caseSensitive : Bool} {start position : Nat}
    (h : indexOf t text pattern start caseSensitive = some position) :
    start ≤ position ∧ matchesAt t text pattern caseSensitive position = true ∧
      ∀ r, start ≤ r → r < position → ¬ matchesAt t text pattern caseSensitive r = true := by
  obtain ⟨hmatch, hrange, hnone⟩ := List.find?_range'_eq_some.mp h
  refine ⟨(List.mem_range'_1.mp hrange).1, hmatch, fun r hr hlt hmatched => ?_⟩
  have hno := hnone r hr hlt
  rw [hmatched] at hno
  cases hno

theorem indexOf_eq_none {pattern : QString} {caseSensitive : Bool} {start : Nat}
    (h : indexOf t text pattern start caseSensitive = none) :
    ∀ r, start ≤ r → r < text.length → ¬ matchesAt t text pattern caseSensitive r = true := by
  intro r hr hlt hmatched
  have hno := List.find?_range'_eq_none.mp h r hr (by omega)
  rw [hmatched] at hno
  cases hno

/-! ## The loop -/

/-- The stretches of the text that have been replaced begin here. -/
def Taken (P : Pieces) (p : Nat) : Prop := ∃ e, (p, e) ∈ marks Edit.originalText 0 P

theorem taken_kept {P : Pieces} {more : QString} {p : Nat} : Taken (P ++ kept more) p ↔ Taken P p := by
  unfold Taken
  rw [marks_append, marks_kept, List.append_nil]

theorem taken_edit {P : Pieces} {e : Edit} {p : Nat} :
    Taken (P ++ [.inr e]) p ↔ Taken P p ∨ p = (expand Edit.originalText P).length := by
  unfold Taken
  rw [marks_append, Nat.zero_add]
  show (∃ e', (p, e') ∈ _ ++ [((expand Edit.originalText P).length, e)]) ↔ _
  constructor
  · rintro ⟨e', hmem⟩
    rcases List.mem_append.mp hmem with hold | hnew
    · exact Or.inl ⟨e', hold⟩
    · exact Or.inr (congrArg Prod.fst (List.mem_singleton.mp hnew))
  · rintro (⟨e', hold⟩ | rfl)
    · exact ⟨e', List.mem_append_left _ hold⟩
    · exact ⟨e, List.mem_append_right _ (List.mem_singleton_self _)⟩

/-- Both ends of an occurrence are free, given what has been replaced. -/
def LeftAsSeen (t : CharTables) (text : QString) (candidate : Candidate) (P : Pieces) (p : Nat) : Prop :=
  (Behind (Taken P) candidate.aliasText.length p → FreeBehind t candidate) ∧
    (¬ Behind (Taken P) candidate.aliasText.length p → FreeLeft t text candidate p)

/-- **The loop invariant.**  `P` are the pieces of what is done, which ends at `i` in the text. -/
structure ScanOf (t : CharTables) (text : QString) (candidate : Candidate) (state : GlossaryPostProcessResult × Nat)
    (i : Nat) (P : Pieces) : Prop where
  inside : i ≤ text.length
  source_eq : expand Edit.originalText P = text.take i
  text_eq : state.1.text = expand Edit.canonicalText P ++ text.drop i
  start_eq : state.2 = (expand Edit.canonicalText P).length
  audit : state.1.replacements = (marks Edit.canonicalText 0 P).map placed
  edits : ∀ e, .inr e ∈ P → e.originalText.length = candidate.aliasText.length
  point : i = 0 ∨ ∃ p, Visited (Occurs t text candidate) candidate.aliasText.length p ∧
    i = p + candidate.aliasText.length
  taken_visited : ∀ p, Taken P p →
    Visited (Occurs t text candidate) candidate.aliasText.length p ∧ p + candidate.aliasText.length ≤ i
  taken_iff : ∀ p, Visited (Occurs t text candidate) candidate.aliasText.length p → p < i →
    (Taken P p ↔ FreeRight t text candidate p ∧ LeftAsSeen t text candidate P p)
  context : LatinLike t candidate.aliasText →
    (EndsFree t (expand Edit.canonicalText P) ↔ LeftAsSeen t text candidate P i)

theorem scanOf_start : ScanOf t text candidate (⟨text, []⟩, 0) 0 [] where
  inside := Nat.zero_le _
  source_eq := rfl
  text_eq := rfl
  start_eq := rfl
  audit := rfl
  edits e he := by cases he
  point := Or.inl rfl
  taken_visited p hp := by
    obtain ⟨e, he⟩ := hp
    cases he
  taken_iff p _ hlt := absurd hlt (Nat.not_lt_zero p)
  context := by
    intro _
    refine ⟨fun _ => ⟨?_, fun _ _ => endsFree_nil⟩, fun _ => endsFree_nil⟩
    rintro ⟨before, ⟨e, he⟩, -⟩
    cases he

section Turn

variable {state : GlossaryPostProcessResult × Nat} {i q : Nat} {P : Pieces}

/-- The next occurrence, and the texts around it. -/
structure NextOf (t : CharTables) (text : QString) (candidate : Candidate) (i q : Nat) (gap slice : QString) :
    Prop where
  le : i ≤ q
  visited : Visited (Occurs t text candidate) candidate.aliasText.length q
  least : ∀ r, i ≤ r → r < q → ¬ Occurs t text candidate r
  inside : q + candidate.aliasText.length ≤ text.length
  length_gap : gap.length = q - i
  length_slice : slice.length = candidate.aliasText.length
  drop_eq : text.drop i = gap ++ (slice ++ text.drop (q + candidate.aliasText.length))
  take_eq : text.take q = text.take i ++ gap
  take_end : text.take (q + candidate.aliasText.length) = text.take i ++ (gap ++ slice)

theorem ScanOf.exists_next (h : ScanOf t text candidate state i P) (hpos : 0 < candidate.aliasText.length)
    (hle : i ≤ q) (hq : Occurs t text candidate q) (hnone : ∀ r, i ≤ r → r < q → ¬ Occurs t text candidate r) :
    ∃ gap slice, NextOf t text candidate i q gap slice := by
  have hinside := hq.inside hpos
  obtain ⟨gap, slice, hgap, hslice, hdrop, htake, hend⟩ := exists_window hle hinside
  exact ⟨gap, slice, hle, visited_of_least h.point hle hq hnone, hnone, hinside, hgap, hslice, hdrop, htake, hend⟩

variable {gap : QString}

/-- Nothing that is taken reaches up to an occurrence behind a gap. -/
theorem ScanOf.not_behind (h : ScanOf t text candidate state i P) (hlt : i < q) :
    ¬ Behind (Taken P) candidate.aliasText.length q := by
  rintro ⟨before, hbefore, rfl⟩
  have hle := (h.taken_visited before hbefore).2
  omega

theorem ScanOf.not_taken (h : ScanOf t text candidate state i P) (hpos : 0 < candidate.aliasText.length)
    (hle : i ≤ q) : ¬ Taken P q := by
  intro htaken
  have hend := (h.taken_visited q htaken).2
  omega

/-- **What the boundary rule sees** to the left of the next occurrence. -/
theorem ScanOf.endsFree_iff (h : ScanOf t text candidate state i P) (hnext : NextOf t text candidate i q gap slice)
    (hlatin : LatinLike t candidate.aliasText) :
    EndsFree t (expand Edit.canonicalText P ++ gap) ↔ LeftAsSeen t text candidate P q := by
  -- without a gap the occurrence stands right behind what is done
  by_cases hgap : gap = []
  · have hsame : i = q := by
      have hlength := hnext.length_gap
      have hle := hnext.le
      rw [hgap] at hlength
      simp only [List.length_nil] at hlength
      omega
    rw [hgap, List.append_nil, ← hsame]
    exact h.context hlatin
  · have hlt : i < q := by
      have hlength := hnext.length_gap
      have hsome := List.length_pos_of_ne_nil hgap
      omega
    have hfree : EndsFree t gap ↔ FreeLeft t text candidate q := by
      unfold FreeLeft
      rw [hnext.take_eq, endsFree_append hgap]
      exact ⟨fun hends _ => hends, fun hends => hends hlatin⟩
    rw [endsFree_append hgap, hfree]
    have hnot := h.not_behind hlt
    exact ⟨fun hleft => ⟨fun hbehind => absurd hbehind hnot, fun _ => hleft⟩, fun hseen => hseen.2 hnot⟩

theorem NextOf.lt_or_eq (hnext : NextOf t text candidate i q gap slice) (hpos : 0 < candidate.aliasText.length)
    {p : Nat} (hp : Visited (Occurs t text candidate) candidate.aliasText.length p)
    (hlt : p < q + candidate.aliasText.length) : p < i ∨ p = q := by
  rcases Nat.lt_or_ge p i with hbefore | hafter
  · exact Or.inl hbefore
  · rcases Nat.lt_trichotomy p q with hless | heq | hmore
    · exact absurd hp.found (hnext.least p hafter hless)
    · exact Or.inr heq
    · have happart := Visited.apart hpos p hp hnext.visited hmore
      omega

/-- What is seen to the left of an earlier occurrence does not change. -/
theorem leftAsSeen_congr {Q : Pieces} {p : Nat}
    (hsame : ∀ before, before + candidate.aliasText.length = p → (Taken Q before ↔ Taken P before)) :
    LeftAsSeen t text candidate Q p ↔ LeftAsSeen t text candidate P p := by
  have hbehind : Behind (Taken Q) candidate.aliasText.length p ↔ Behind (Taken P) candidate.aliasText.length p := by
    constructor
    · rintro ⟨before, htaken, heq⟩
      exact ⟨before, (hsame before heq).mp htaken, heq⟩
    · rintro ⟨before, htaken, heq⟩
      exact ⟨before, (hsame before heq).mpr htaken, heq⟩
  unfold LeftAsSeen
  rw [hbehind]

/-- **An occurrence that is rejected** becomes a part of what is done, as it is. -/
theorem ScanOf.rejected (h : ScanOf t text candidate state i P) (hnext : NextOf t text candidate i q gap slice)
    (hpos : 0 < candidate.aliasText.length)
    (hreject : ¬ (FreeRight t text candidate q ∧ LeftAsSeen t text candidate P q)) :
    ScanOf t text candidate
      (state.1, (expand Edit.canonicalText P ++ gap).length + candidate.aliasText.length)
      (q + candidate.aliasText.length) (P ++ kept (gap ++ slice)) := by
  have hsame : ∀ p, Taken (P ++ kept (gap ++ slice)) p ↔ Taken P p := fun p => taken_kept
  have hseen : ∀ p, LeftAsSeen t text candidate (P ++ kept (gap ++ slice)) p ↔ LeftAsSeen t text candidate P p :=
    fun p => leftAsSeen_congr fun before _ => hsame before
  refine ⟨hnext.inside, ?_, ?_, ?_, ?_, ?_, Or.inr ⟨q, hnext.visited, rfl⟩, ?_, ?_, ?_⟩
  · rw [expand_append, expand_kept, h.source_eq, hnext.take_end]
  · show state.1.text = _
    rw [expand_append, expand_kept, h.text_eq, hnext.drop_eq]
    simp only [List.append_assoc]
  · show (expand Edit.canonicalText P ++ gap).length + candidate.aliasText.length = _
    rw [expand_append, expand_kept, List.length_append, List.length_append, List.length_append, hnext.length_slice]
    omega
  · show state.1.replacements = _
    rw [marks_append, marks_kept, List.append_nil]
    exact h.audit
  · intro e he
    rcases List.mem_append.mp he with hold | hkept
    · exact h.edits e hold
    · exact absurd hkept (not_mem_kept _ e)
  · intro p hp
    obtain ⟨hvisited, hend⟩ := h.taken_visited p ((hsame p).mp hp)
    have hle := hnext.le
    exact ⟨hvisited, by omega⟩
  · intro p hp hlt
    rw [hsame, hseen]
    rcases hnext.lt_or_eq hpos hp hlt with hbefore | rfl
    · exact h.taken_iff p hp hbefore
    · exact ⟨fun htaken => absurd htaken (h.not_taken hpos hnext.le), fun hboth => absurd hboth hreject⟩
  · intro hlatin
    -- the last thing done is the occurrence itself, as it stands in the text
    have hslice : slice ≠ [] := by
      intro hnil
      have hlength := hnext.length_slice
      rw [hnil] at hlength
      simp only [List.length_nil] at hlength
      omega
    have hfree : FreeLeft t text candidate (q + candidate.aliasText.length) ↔ EndsFree t slice := by
      unfold FreeLeft
      rw [hnext.take_end, ← List.append_assoc, endsFree_append hslice]
      exact ⟨fun hends => hends hlatin, fun hends _ => hends⟩
    have hnot : ¬ Behind (Taken P) candidate.aliasText.length (q + candidate.aliasText.length) := by
      rintro ⟨before, hbefore, heq⟩
      obtain rfl : before = q := by omega
      exact h.not_taken hpos hnext.le hbefore
    rw [hseen, expand_append, expand_kept, ← List.append_assoc, endsFree_append hslice, ← hfree]
    exact ⟨fun hleft => ⟨fun hbehind => absurd hbehind hnot, fun _ => hleft⟩, fun hboth => hboth.2 hnot⟩

/-- The stretch that is replaced. -/
def editOf (candidate : Candidate) (slice : QString) : Edit :=
  ⟨candidate.termId, candidate.aliasText, candidate.canonical, slice⟩

/-- **An occurrence that is accepted** is replaced. -/
theorem ScanOf.accepted (h : ScanOf t text candidate state i P) (hnext : NextOf t text candidate i q gap slice)
    (hpos : 0 < candidate.aliasText.length)
    (haccept : FreeRight t text candidate q ∧ LeftAsSeen t text candidate P q) :
    ScanOf t text candidate
      (replaceMatch state.1 candidate (expand Edit.canonicalText P ++ gap).length,
        (expand Edit.canonicalText P ++ gap).length + candidate.canonical.length)
      (q + candidate.aliasText.length) (P ++ kept gap ++ [.inr (editOf candidate slice)]) := by
  have hwhole : state.1.text = expand Edit.canonicalText P ++ gap ++
      (slice ++ text.drop (q + candidate.aliasText.length)) := by
    rw [h.text_eq, hnext.drop_eq, List.append_assoc]
  have hposition : (expand Edit.originalText (P ++ kept gap)).length = q := by
    rw [expand_append, expand_kept, h.source_eq, ← hnext.take_eq, List.length_take]
    have hinside := hnext.inside
    omega
  have hsame : ∀ p, Taken (P ++ kept gap ++ [.inr (editOf candidate slice)]) p ↔ Taken P p ∨ p = q := by
    intro p
    rw [taken_edit, taken_kept, hposition]
  -- only the occurrence next to the replaced one sees something else
  have hseen : ∀ p, p ≠ q + candidate.aliasText.length →
      (LeftAsSeen t text candidate (P ++ kept gap ++ [.inr (editOf candidate slice)]) p ↔
        LeftAsSeen t text candidate P p) := by
    intro p hp
    apply leftAsSeen_congr
    intro before heq
    rw [hsame]
    exact or_iff_left (by omega)
  have hedit : expand Edit.canonicalText [Sum.inr (editOf candidate slice)] = candidate.canonical :=
    List.append_nil _
  refine ⟨hnext.inside, ?_, ?_, ?_, ?_, ?_, Or.inr ⟨q, hnext.visited, rfl⟩, ?_, ?_, ?_⟩
  · have hslice : expand Edit.originalText [Sum.inr (editOf candidate slice)] = slice := List.append_nil _
    rw [expand_append, expand_append, expand_kept, hslice, h.source_eq, hnext.take_end, List.append_assoc]
  · show replaceRange state.1.text (expand Edit.canonicalText P ++ gap).length candidate.aliasText.length
      candidate.canonical = _
    have hdrop : (expand Edit.canonicalText P ++ gap ++ (slice ++ text.drop (q + candidate.aliasText.length))).drop
        ((expand Edit.canonicalText P ++ gap).length + candidate.aliasText.length) =
        text.drop (q + candidate.aliasText.length) := by
      rw [← List.drop_drop, List.drop_left, ← hnext.length_slice, List.drop_left]
    unfold replaceRange
    rw [hwhole, List.take_left, hdrop, expand_append, expand_append, expand_kept, hedit]
  · show (expand Edit.canonicalText P ++ gap).length + candidate.canonical.length = _
    rw [expand_append, expand_append, expand_kept, hedit]
    exact List.length_append.symm
  · -- earlier entries stand to the left, so they stay where they are
    have hstay : state.1.replacements.map (shifted (expand Edit.canonicalText P ++ gap).length
        ((candidate.canonical.length : Int) - candidate.aliasText.length)) = state.1.replacements := by
      rw [h.audit, List.map_map]
      refine List.map_congr_left fun m hm => shifted_of_le ?_
      have hbound := (marks_bounds Edit.canonicalText m hm).2
      rw [List.length_append]
      omega
    have hmatched : (state.1.text.drop (expand Edit.canonicalText P ++ gap).length).take
        candidate.aliasText.length = slice := by
      rw [hwhole, List.drop_left, ← hnext.length_slice, List.take_left]
    show state.1.replacements.map _ ++ [_] = _
    rw [hstay, hmatched, h.audit, marks_append, marks_append, marks_kept, List.append_nil, List.map_append,
      Nat.zero_add, expand_append, expand_kept]
    rfl
  · intro e he
    rcases List.mem_append.mp he with hold | hnew
    · rcases List.mem_append.mp hold with hold | hkept
      · exact h.edits e hold
      · exact absurd hkept (not_mem_kept _ e)
    · cases List.mem_singleton.mp hnew
      exact hnext.length_slice
  · intro p hp
    rcases (hsame p).mp hp with hold | rfl
    · obtain ⟨hvisited, hend⟩ := h.taken_visited p hold
      have hle := hnext.le
      exact ⟨hvisited, by omega⟩
    · exact ⟨hnext.visited, le_rfl⟩
  · intro p hp hlt
    rw [hsame, hseen p (by omega)]
    rcases hnext.lt_or_eq hpos hp hlt with hbefore | rfl
    · rw [← h.taken_iff p hp hbefore]
      have hle := hnext.le
      exact or_iff_left (by omega)
    · exact ⟨fun _ => haccept, fun _ => Or.inr rfl⟩
  · intro hlatin
    have hbehind : Behind (Taken (P ++ kept gap ++ [.inr (editOf candidate slice)])) candidate.aliasText.length
        (q + candidate.aliasText.length) := ⟨q, (hsame q).mpr (Or.inr rfl), rfl⟩
    have hboth : LeftAsSeen t text candidate (P ++ kept gap ++ [.inr (editOf candidate slice)])
        (q + candidate.aliasText.length) ↔ EndsFree t candidate.canonical := by
      constructor
      · exact fun hleft => hleft.1 hbehind hlatin
      · exact fun hends => ⟨fun _ _ => hends, fun hnot => absurd hbehind hnot⟩
    rw [hboth, expand_append, expand_append, expand_kept, hedit]
    by_cases hcanonical : candidate.canonical = []
    · -- behind an empty text the next occurrence sees what this one saw
      rw [hcanonical, List.append_nil]
      exact ⟨fun _ => endsFree_nil, fun _ => (h.endsFree_iff hnext hlatin).mpr haccept.2⟩
    · rw [endsFree_append hcanonical]

/-- No earlier entry reaches to the next occurrence. -/
theorem ScanOf.overlaps_eq (h : ScanOf t text candidate state i P) (gap : QString) :
    overlaps state.1 candidate (expand Edit.canonicalText P ++ gap).length = false := by
  unfold overlaps
  rw [h.audit, List.any_eq_false]
  intro entry hentry
  obtain ⟨m, hm, rfl⟩ := List.mem_map.mp hentry
  have hbound := (marks_bounds Edit.canonicalText m hm).2
  have hstart : (placed m).start = m.1 := rfl
  have hlength : (placed m).length = m.2.canonicalText.length := rfl
  rw [List.length_append, hstart, hlength, Bool.and_eq_true, decide_eq_true_eq, decide_eq_true_eq]
  omega

/-- **The boundary rule** at the next occurrence, as the loop sees it. -/
theorem ScanOf.boundariesAllow_iff (h : ScanOf t text candidate state i P)
    (hnext : NextOf t text candidate i q gap slice) :
    boundariesAllow t state.1.text (expand Edit.canonicalText P ++ gap).length candidate.aliasText.length
        candidate.aliasText = true ↔ FreeRight t text candidate q ∧ LeftAsSeen t text candidate P q := by
  have hwhole : state.1.text = (expand Edit.canonicalText P ++ gap) ++
      (slice ++ text.drop (q + candidate.aliasText.length)) := by
    rw [h.text_eq, hnext.drop_eq, List.append_assoc]
  have hrule := BreezeDesk.boundariesAllow_iff (t := t) (expand Edit.canonicalText P ++ gap) slice
    (text.drop (q + candidate.aliasText.length)) candidate.aliasText
  rw [← hwhole, hnext.length_slice] at hrule
  rw [hrule]
  unfold FreeRight
  by_cases hlatin : LatinLike t candidate.aliasText
  · rw [← h.endsFree_iff hnext hlatin]
    exact ⟨fun hboth => ⟨fun _ => (hboth hlatin).2, (hboth hlatin).1⟩, fun hboth _ => ⟨hboth.2, hboth.1 hlatin⟩⟩
  · -- without Latin letters every boundary is free
    refine ⟨fun _ => ⟨fun hyes => absurd hyes hlatin, fun _ hyes => absurd hyes hlatin, ?_⟩,
      fun _ hyes => absurd hyes hlatin⟩
    exact fun _ hyes => absurd hyes hlatin

end Turn

/-- What the loop has done when it ends. -/
structure ScannedAs (t : CharTables) (text : QString) (candidate : Candidate) (result : GlossaryPostProcessResult)
    (P : Pieces) : Prop where
  source_eq : expand Edit.originalText P = text
  audit : result.replacements = (marks Edit.canonicalText 0 P).map placed
  edits : ∀ e, .inr e ∈ P → e.originalText.length = candidate.aliasText.length
  taken : TakenBy (Occurs t text candidate) candidate.aliasText.length (FreeLeft t text candidate)
    (FreeRight t text candidate) (FreeBehind t candidate) (Taken P)

theorem ScanOf.finished {state : GlossaryPostProcessResult × Nat} {i : Nat} {P : Pieces}
    (h : ScanOf t text candidate state i P) (hnone : ∀ r, i ≤ r → ¬ Occurs t text candidate r) :
    ScannedAs t text candidate state.1 (P ++ kept (text.drop i)) := by
  have hsame : Taken (P ++ kept (text.drop i)) = Taken P := funext fun p => propext taken_kept
  refine ⟨?_, ?_, ?_, ?_, ?_⟩
  · rw [expand_append, expand_kept, h.source_eq, List.take_append_drop]
  · rw [marks_append, marks_kept, List.append_nil]
    exact h.audit
  · intro e he
    rcases List.mem_append.mp he with hold | hkept
    · exact h.edits e hold
    · exact absurd hkept (not_mem_kept _ e)
  · intro p hp
    rw [hsame] at hp
    exact (h.taken_visited p hp).1
  · intro p hp
    rw [hsame]
    apply h.taken_iff p hp
    by_contra hge
    exact hnone p (Nat.not_lt.mp hge) hp.found

/-- **One turn of the loop** keeps the invariant, or ends with the whole text scanned. -/
theorem candidateTurn_scan (hpos : 0 < candidate.aliasText.length) :
    TurnKeeps (candidateTurn t candidate) (fun state => ∃ i P, ScanOf t text candidate state i P)
      fun result => ∃ P, ScannedAs t text candidate result P := by
  rintro ⟨result, start⟩ ⟨i, P, h⟩
  have hstart : start = (expand Edit.canonicalText P).length := h.start_eq
  have htext : result.text = expand Edit.canonicalText P ++ text.drop i := h.text_eq
  have hlength : result.text.length = start + (text.length - i) := by
    rw [htext, List.length_append, List.length_drop, hstart]
  have hmatches : ∀ d, matchesAt t result.text candidate.aliasText candidate.caseSensitive (start + d) = true ↔
      Occurs t text candidate (i + d) := by
    intro d
    rw [htext, hstart, matchesAt_append]
    exact Iff.rfl
  -- an occurrence of the rest lies inside the text
  have hbeyond : (∀ r, start ≤ r → r < result.text.length →
      ¬ matchesAt t result.text candidate.aliasText candidate.caseSensitive r = true) →
      ∀ r, i ≤ r → ¬ Occurs t text candidate r := by
    intro hnone r hr hoccurs
    have hinside := hoccurs.inside hpos
    apply hnone (start + (r - i)) (by omega) (by omega)
    rw [hmatches, Nat.add_sub_cancel' hr]
    exact hoccurs
  by_cases hleft : start < result.text.length
  · cases hindex : indexOf t result.text candidate.aliasText start candidate.caseSensitive with
    | none =>
      simp only [candidateTurn, if_pos hleft, hindex]
      exact ⟨_, h.finished (hbeyond (indexOf_eq_none hindex))⟩
    | some position =>
      obtain ⟨hle, hmatch, hfirst⟩ := indexOf_eq_some hindex
      obtain ⟨d, rfl⟩ : ∃ d, position = start + d := ⟨position - start, by omega⟩
      have hoccurs : Occurs t text candidate (i + d) := (hmatches d).mp hmatch
      obtain ⟨gap, slice, hnext⟩ := h.exists_next hpos (Nat.le_add_right i d) hoccurs fun r hr hlt hearlier => by
        apply hfirst (start + (r - i)) (by omega) (by omega)
        rw [hmatches, Nat.add_sub_cancel' hr]
        exact hearlier
      have hposition : start + d = (expand Edit.canonicalText P ++ gap).length := by
        rw [List.length_append, hnext.length_gap, hstart]
        omega
      have hfree : overlaps result candidate (start + d) = false := by
        rw [hposition]
        exact h.overlaps_eq gap
      have hrule := h.boundariesAllow_iff hnext
      simp only [candidateTurn, if_pos hleft, hindex, hfree, Bool.or_false]
      rw [hposition]
      cases hallow : boundariesAllow t result.text (expand Edit.canonicalText P ++ gap).length
          candidate.aliasText.length candidate.aliasText with
      | true =>
        have haccept := hrule.mp hallow
        exact ⟨_, _, h.accepted hnext hpos haccept⟩
      | false =>
        refine ⟨_, _, h.rejected hnext hpos fun hboth => ?_⟩
        have hallowed := hrule.mpr hboth
        rw [hallow] at hallowed
        cases hallowed
  · simp only [candidateTurn, if_neg hleft]
    exact ⟨_, h.finished (hbeyond fun r hr hlt => by omega)⟩

/-- **The whole loop.** -/
theorem applyCandidate_scan (t : CharTables) (text : QString) (candidate : Candidate)
    (hpos : 0 < candidate.aliasText.length) :
    ∃ P, ScannedAs t text candidate (applyCandidate t ⟨text, []⟩ candidate) P := by
  have hends : run (candidateTurn t candidate) (text.length + 1) (⟨text, []⟩, 0) =
      some (applyCandidate t ⟨text, []⟩ candidate) :=
    (applyCandidate_induct (I := fun _ => True) hpos (fun _ _ _ => trivial) trivial).1
  exact run_kept (candidateTurn_scan hpos) ⟨0, [], scanOf_start⟩ hends

/-! ## Replaced ranges -/

/-- The ranges of the text that were replaced, as the rendering of an audit finds them. -/
def replacedRanges (t : CharTables) (text : QString) (result : GlossaryPostProcessResult) : List (Int × Int) :=
  ((positionAudit t text result.replacements 0 0).getD []).map fun (start, replacement) =>
    (start, start + replacement.originalText.length)

/-- The candidate of a term with one alias. -/
def candidateOf (term : GlossaryTerm) (aliasText : QString) : Candidate :=
  ⟨term.id, aliasText, term.canonicalText, term.caseSensitive, term.priority⟩

/-- A term with one alias, which is neither empty nor the canonical text. -/
structure HasOneAlias (term : GlossaryTerm) (aliasText : QString) : Prop where
  enabled : term.enabled = true
  aliases : term.aliases = [aliasText]
  ne_nil : aliasText ≠ []
  ne_canonical : aliasText ≠ term.canonicalText

variable {term : GlossaryTerm} {aliasText : QString}

theorem applyExplicitAliases_one (h : HasOneAlias term aliasText) (text : QString) :
    applyExplicitAliases t text [term] =
      { applyCandidate t ⟨text, []⟩ (candidateOf term aliasText) with
        replacements := sortedByStart (applyCandidate t ⟨text, []⟩ (candidateOf term aliasText)).replacements } := by
  have hkeep : (!aliasText.isEmpty && aliasText != term.canonicalText) = true := by
    simp [h.ne_nil, h.ne_canonical]
  have hsorted : sortedCandidates [term] = [candidateOf term aliasText] := by
    unfold sortedCandidates candidates
    simp [h.enabled, h.aliases, hkeep, candidateOf]
  unfold applyExplicitAliases
  rw [hsorted]
  rfl

/-- The replaced ranges are the stretches of the pieces. -/
theorem ScannedAs.replacedRanges_eq {result : GlossaryPostProcessResult} {P : Pieces}
    (h : ScannedAs t text candidate result P) (hpos : 0 < candidate.aliasText.length) :
    replacedRanges t text { result with replacements := sortedByStart result.replacements } =
      (marks Edit.originalText 0 P).map fun m => ((m.1 : Int), (m.1 : Int) + candidate.aliasText.length) := by
  -- the audit is in order already, since the loop goes from left to right
  have hsorted : sortedByStart result.replacements = (marks Edit.canonicalText 0 P).map placed := by
    unfold sortedByStart
    rw [h.audit]
    apply List.Pairwise.insertionSort_eq
    rw [List.pairwise_map]
    refine (marks_sorted Edit.canonicalText).imp fun {a b} hab => ?_
    show (a.1 : Int) ≤ b.1
    omega
  have horiginal : ∀ e, .inr e ∈ P → e.originalText ≠ [] := by
    intro e he
    apply List.ne_nil_of_length_pos
    rw [h.edits e he]
    exact hpos
  have hpositions := positionAudit_marks (t := t) horiginal [] 0 0 (Int.le_refl 0)
  have hzero : ((0 : Nat) : Int) - ([] : QString).length = 0 := rfl
  rw [List.nil_append, h.source_eq, hzero] at hpositions
  unfold replacedRanges
  dsimp only
  rw [hsorted, hpositions, Option.getD_some, List.map_map]
  have hfirst : ((marks Edit.originalText 0 P).zip (marks Edit.canonicalText 0 P)).map Prod.fst =
      marks Edit.originalText 0 P := by
    apply List.map_fst_zip
    exact le_of_eq (length_marks _ _ _ _ P)
  have hlengths : ∀ pair ∈ (marks Edit.originalText 0 P).zip (marks Edit.canonicalText 0 P),
      pair.2.2.originalText.length = candidate.aliasText.length :=
    fun pair hpair => h.edits _ (mem_of_mem_marks (List.of_mem_zip hpair).2)
  conv_rhs => rw [← hfirst, List.map_map]
  refine List.map_congr_left fun pair hpair => ?_
  show ((pair.1.1 : Int), (pair.1.1 : Int) + pair.2.2.originalText.length) = _
  rw [hlengths pair hpair]
  rfl

/-- Every acceptable occurrence in the text lies in a replaced range or overlaps one. -/
def MissesNothing (t : CharTables) (text : QString) (term : GlossaryTerm) (aliasText : QString) : Prop :=
  ∀ q, Occurs t text (candidateOf term aliasText) q → boundariesAllow t text q aliasText.length aliasText = true →
    ∃ range ∈ replacedRanges t text (applyExplicitAliases t text [term]),
      range.1 < q + aliasText.length ∧ (q : Int) < range.2

theorem missesNothing_iff_covered (h : HasOneAlias term aliasText) {P : Pieces}
    (hscan : ScannedAs t text (candidateOf term aliasText)
      (applyCandidate t ⟨text, []⟩ (candidateOf term aliasText)) P) :
    MissesNothing t text term aliasText ↔
      Covered (Occurs t text (candidateOf term aliasText)) aliasText.length
        (FreeLeft t text (candidateOf term aliasText)) (FreeRight t text (candidateOf term aliasText)) (Taken P) := by
  have hpos : 0 < (candidateOf term aliasText).aliasText.length := List.length_pos_of_ne_nil h.ne_nil
  have hranges := hscan.replacedRanges_eq hpos
  rw [← applyExplicitAliases_one h] at hranges
  have hlength : (candidateOf term aliasText).aliasText.length = aliasText.length := rfl
  unfold MissesNothing Covered
  rw [hranges]
  constructor
  · intro hall q hq hleft hright
    obtain ⟨range, hrange, hstart, hend⟩ := hall q hq ((acceptable_iff (hq.inside hpos)).mpr ⟨hleft, hright⟩)
    obtain ⟨m, hm, rfl⟩ := List.mem_map.mp hrange
    refine ⟨m.1, ⟨m.2, hm⟩, ?_⟩
    unfold Overlap
    dsimp only at hstart hend
    omega
  · intro hall q hq hallow
    obtain ⟨hleft, hright⟩ := (acceptable_iff (hq.inside hpos)).mp hallow
    obtain ⟨p, ⟨e, he⟩, hoverlap⟩ := hall q hq hleft hright
    refine ⟨_, List.mem_map_of_mem he, ?_⟩
    unfold Overlap at hoverlap
    dsimp only
    omega

/-- **Missed occurrences.**  The aliases of a text are missed exactly as `NothingHidden` says; without Latin
    letters in the alias none is. -/
theorem aliases_missed_iff (t : CharTables) (text : QString) (term : GlossaryTerm) (aliasText : QString)
    (h : HasOneAlias term aliasText) :
    (MissesNothing t text term aliasText ↔
      NothingHidden (Occurs t text (candidateOf term aliasText)) aliasText.length
        (FreeLeft t text (candidateOf term aliasText)) (FreeRight t text (candidateOf term aliasText))
        (FreeBehind t (candidateOf term aliasText))) ∧
    (¬ LatinLike t aliasText → MissesNothing t text term aliasText) := by
  have hpos : 0 < aliasText.length := List.length_pos_of_ne_nil h.ne_nil
  obtain ⟨P, hscan⟩ := applyCandidate_scan t text (candidateOf term aliasText) hpos
  have hiff := (missesNothing_iff_covered h hscan).trans (missesNothing_iff hpos hscan.taken)
  refine ⟨hiff, fun hplain => hiff.mpr ?_⟩
  apply nothingHidden_of_free hpos
  · exact fun hlatin => absurd hlatin hplain
  · exact fun p hlatin => absurd hlatin hplain
  · exact fun p hlatin => absurd hlatin hplain

theorem aliases_missed_iff_qt :
    (MissesNothing asciiTables (qs "use qt now") { canonicalText := qs "Qt", aliases := [qs "qt"] } (qs "qt") ↔
      NothingHidden (Occurs asciiTables (qs "use qt now")
          (candidateOf { canonicalText := qs "Qt", aliases := [qs "qt"] } (qs "qt"))) (qs "qt").length
        (FreeLeft asciiTables (qs "use qt now")
          (candidateOf { canonicalText := qs "Qt", aliases := [qs "qt"] } (qs "qt")))
        (FreeRight asciiTables (qs "use qt now")
          (candidateOf { canonicalText := qs "Qt", aliases := [qs "qt"] } (qs "qt")))
        (FreeBehind asciiTables (candidateOf { canonicalText := qs "Qt", aliases := [qs "qt"] } (qs "qt")))) ∧
    (¬ LatinLike asciiTables (qs "qt") →
      MissesNothing asciiTables (qs "use qt now") { canonicalText := qs "Qt", aliases := [qs "qt"] } (qs "qt")) :=
  aliases_missed_iff asciiTables (qs "use qt now") { canonicalText := qs "Qt", aliases := [qs "qt"] } (qs "qt")
    ⟨rfl, rfl, by decide, by decide⟩

/-- **A hidden occurrence**: in `ba a a` the first `a a` is rejected, and the second overlaps it. -/
theorem aliases_missed_overlap :
    ¬ ∀ (t : CharTables) (text : QString) (term : GlossaryTerm) (aliasText : QString), HasOneAlias term aliasText →
      MissesNothing t text term aliasText := by
  intro h
  obtain ⟨range, hrange, -⟩ := h asciiTables (qs "ba a a") { canonicalText := qs "X", aliases := [qs "a a"] } (qs "a a")
    ⟨rfl, rfl, by decide, by decide⟩ 3 (by decide) (by decide)
  have hnone : replacedRanges asciiTables (qs "ba a a") (applyExplicitAliases asciiTables (qs "ba a a")
      [{ canonicalText := qs "X", aliases := [qs "a a"] }]) = [] := by decide
  rw [hnone] at hrange
  cases hrange

end BreezeDesk
