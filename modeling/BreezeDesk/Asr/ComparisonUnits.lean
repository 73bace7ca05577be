/-
  Overlap removal drops exactly the matched units, unless an underscore follows them.

  `OverlapDeduplicator` compares units and cuts raw text.  A unit ends where the scan leaves it, so the
  text behind the k-th unit scans to the units from k on (`comparisonUnits_drop`).  The cut goes on over
  spaces and punctuation, which belong to no unit, with one exception: the underscore is punctuation, and
  the scan counts it to the words.  Every underscore of a text is in a unit of it
  (`count_comparisonUnits`), so a cut that takes one changes the units that are left.

  `deduplicate_exact_iff`: what is left is the incoming text from behind the matched units on, exactly when
  no underscore stands among the spaces and punctuation behind them.
-/
import BreezeDesk.Asr.OverlapDeduplicator
import Mathlib.Order.Bounds.Basic

namespace BreezeDesk.Asr

variable {t : CharTables}

def underscore : QChar := 0x5F

/-- What Unicode says about the tables, as far as the scan needs it. -/
structure UnicodeLaws (t : CharTables) : Prop where
  punct_not_letter : ∀ c, t.isPunct c = true → t.isLetterOrNumber c = false
  space_not_letter : ∀ c, isSpace c = true → t.isLetterOrNumber c = false
  punct_not_cjk : ∀ c, t.isPunct c = true → isCjk c.toNat = false
  punct_not_surrogate : ∀ c, t.isPunct c = true → isHighSurrogate c = false ∧ isLowSurrogate c = false
  underscore_punct : t.isPunct underscore = true
  /-- Case folding neither makes nor removes underscores. -/
  fold_underscore : ∀ text, (t.toCaseFolded text).count underscore = text.count underscore

/-- The units as they are compared. -/
def comparisonUnits (t : CharTables) (text : QString) : List QString := (units t text).map (·.normalized)

/-! ## The scan without positions -/

def flushed (t : CharTables) (word : QString) : List QString :=
  if word.isEmpty then [] else [t.toCaseFolded word]

/-- `unitsFrom`, without the positions. -/
def normalizedFrom (t : CharTables) : List QString → QString → List QString
  | [], word => flushed t word
  | glyph :: rest, word =>
    if isCjk (codePoint glyph) then flushed t word ++ glyph :: normalizedFrom t rest []
    else if isWordStart t glyph then normalizedFrom t rest (word ++ glyph)
    else flushed t word ++ normalizedFrom t rest []

theorem map_flushWord (word : QString) (wordStart finish : Nat) :
    (flushWord t word wordStart finish).map (·.normalized) = flushed t word := by
  unfold flushWord flushed
  split <;> rfl

theorem map_unitsFrom (gs : List QString) : ∀ (index : Nat) (word : QString) (wordStart : Nat),
    (unitsFrom t gs index word wordStart).map (·.normalized) = normalizedFrom t gs word := by
  induction gs with
  | nil => exact fun index word wordStart => map_flushWord word wordStart index
  | cons glyph rest ih =>
    intro index word wordStart
    unfold unitsFrom normalizedFrom
    dsimp only
    split
    · rw [List.map_append, List.map_cons, map_flushWord, ih]
    split
    · exact ih ..
    · rw [List.map_append, map_flushWord, ih]

theorem comparisonUnits_eq (text : QString) : comparisonUnits t text = normalizedFrom t (glyphs text) [] :=
  map_unitsFrom ..

/-! ## Glyphs -/

theorem flatten_glyphs (text : QString) : (glyphs text).flatten = text := by
  induction text using glyphs.induct with
  | case1 => rfl
  | case2 c => rfl
  | case3 c d rest hpair ih =>
    rw [glyphs, if_pos hpair, List.flatten_cons, ih]
    rfl
  | case4 c d rest hpair ih =>
    rw [glyphs, if_neg hpair, List.flatten_cons, ih]
    rfl

/-- The scan of what is behind the first glyph. -/
theorem glyphs_tail {text glyph : QString} {rest : List QString} (h : glyphs text = glyph :: rest) :
    glyphs rest.flatten = rest := by
  unfold glyphs at h
  split at h
  · cases h
  · cases h
    rfl
  next c d behind =>
    split at h
    · cases h
      rw [flatten_glyphs]
    · cases h
      rw [flatten_glyphs]

theorem glyphs_suffix {before after : List QString} : ∀ {text : QString}, glyphs text = before ++ after →
    glyphs after.flatten = after := by
  induction before with
  | nil =>
    intro text h
    rw [List.nil_append] at h
    rw [← h, flatten_glyphs]
  | cons glyph before ih =>
    intro text h
    exact ih (glyphs_tail h)

/-- A glyph that is no part of a pair stands for itself. -/
theorem glyphs_single {c : QChar} (hhigh : isHighSurrogate c = false) (rest : QString) :
    glyphs (c :: rest) = [c] :: glyphs rest := by
  cases rest with
  | nil => rfl
  | cons d rest => rw [glyphs, hhigh, Bool.false_and, if_neg Bool.false_ne_true]

theorem glyphs_append {c : QChar} (hhigh : isHighSurrogate c = false) (hlow : isLowSurrogate c = false)
    (first second : QString) : glyphs (first ++ c :: second) = glyphs first ++ [c] :: glyphs second := by
  induction first using glyphs.induct with
  | case1 => exact glyphs_single hhigh second
  | case2 d =>
    have hpair : ¬ (isHighSurrogate d && isLowSurrogate c) = true := by
      rw [hlow, Bool.and_false]
      exact Bool.false_ne_true
    have hapart : glyphs (d :: c :: second) = [d] :: glyphs (c :: second) := by
      rw [glyphs, if_neg hpair]
    exact hapart.trans (congrArg ([d] :: ·) (glyphs_single hhigh second))
  | case3 a b rest hpair ih =>
    rw [List.cons_append, List.cons_append, glyphs, if_pos hpair, ih, glyphs, if_pos hpair]
    rfl
  | case4 a b rest hpair ih =>
    rw [List.cons_append, List.cons_append, glyphs, if_neg hpair, ← List.cons_append, ih, glyphs, if_neg hpair]
    rfl

/-! ## Where units end -/

/-- **The scan at the end of a unit** is a fresh one. -/
theorem unitsFrom_split {gs : List QString} : ∀ {index : Nat} {word : QString} {wordStart k : Nat}
    {unit : OverlapUnit}, (unitsFrom t gs index word wordStart)[k]? = some unit →
    ∃ before after, gs = before ++ after ∧ unit.finish = index + before.flatten.length ∧
      (normalizedFrom t gs word).drop (k + 1) = normalizedFrom t after [] := by
  -- a word that is flushed ends here, as the first unit
  have hflushed {gs : List QString} {tail : List OverlapUnit} {index wordStart k : Nat} {word : QString}
      {unit : OverlapUnit} (h : (flushWord t word wordStart index ++ tail)[k]? = some unit)
      (hdrop : normalizedFrom t gs word = flushed t word ++ normalizedFrom t gs []) :
      (unit.finish = index ∧ (normalizedFrom t gs word).drop (k + 1) = normalizedFrom t gs []) ∨
        ∃ j, tail[j]? = some unit ∧
          (normalizedFrom t gs word).drop (k + 1) = (normalizedFrom t gs []).drop (j + 1) := by
    rw [hdrop]
    unfold flushWord at h
    unfold flushed
    split at h
    next hempty =>
      rw [if_pos hempty]
      exact .inr ⟨k, h, rfl⟩
    next hempty =>
      rw [if_neg hempty]
      cases k with
      | zero =>
        cases h
        exact .inl ⟨rfl, rfl⟩
      | succ k => exact .inr ⟨k, h, rfl⟩
  induction gs with
  | nil =>
    intro index word wordStart k unit h
    have hnil : normalizedFrom t [] word = flushed t word ++ normalizedFrom t [] [] :=
      (List.append_nil _).symm
    rw [unitsFrom, ← List.append_nil (flushWord t word wordStart index)] at h
    rcases hflushed h hnil with ⟨hfinish, hdrop⟩ | ⟨j, hnone, -⟩
    · exact ⟨[], [], rfl, hfinish, hdrop⟩
    · cases hnone
  | cons glyph rest ih =>
    intro index word wordStart k unit h
    unfold unitsFrom at h
    dsimp only at h
    split at h
    next hcjk =>
      have hsplit : normalizedFrom t (glyph :: rest) word =
          flushed t word ++ normalizedFrom t (glyph :: rest) [] := by
        rw [normalizedFrom, if_pos hcjk, normalizedFrom, if_pos hcjk]
        rfl
      have hfresh : normalizedFrom t (glyph :: rest) [] = glyph :: normalizedFrom t rest [] := by
        rw [normalizedFrom, if_pos hcjk]
        rfl
      rcases hflushed h hsplit with ⟨hfinish, hdrop⟩ | ⟨j, htail, hdrop⟩
      · exact ⟨[], glyph :: rest, rfl, hfinish, hdrop⟩
      rw [hfresh] at hdrop
      cases j with
      | zero =>
        cases htail
        refine ⟨[glyph], rest, rfl, ?_, hdrop⟩
        rw [List.flatten_singleton]
      | succ j =>
        obtain ⟨before, after, rfl, hfinish, hafter⟩ := ih htail
        refine ⟨glyph :: before, after, rfl, ?_, hdrop.trans hafter⟩
        rw [hfinish, List.flatten_cons, List.length_append, Nat.add_assoc]
    next hcjk =>
      split at h
      next hword =>
        obtain ⟨before, after, rfl, hfinish, hafter⟩ := ih h
        refine ⟨glyph :: before, after, rfl, ?_, ?_⟩
        · rw [hfinish, List.flatten_cons, List.length_append, Nat.add_assoc]
        · rw [normalizedFrom, if_neg hcjk, if_pos hword]
          exact hafter
      next hword =>
        have hsplit : normalizedFrom t (glyph :: rest) word =
            flushed t word ++ normalizedFrom t (glyph :: rest) [] := by
          rw [normalizedFrom, if_neg hcjk, if_neg hword, normalizedFrom, if_neg hcjk, if_neg hword]
          rfl
        have hfresh : normalizedFrom t (glyph :: rest) [] = normalizedFrom t rest [] := by
          rw [normalizedFrom, if_neg hcjk, if_neg hword]
          rfl
        rcases hflushed h hsplit with ⟨hfinish, hdrop⟩ | ⟨j, htail, hdrop⟩
        · exact ⟨[], glyph :: rest, rfl, hfinish, hdrop⟩
        rw [hfresh] at hdrop
        obtain ⟨before, after, rfl, hfinish, hafter⟩ := ih htail
        refine ⟨glyph :: before, after, rfl, ?_, hdrop.trans hafter⟩
        rw [hfinish, List.flatten_cons, List.length_append, Nat.add_assoc]

/-- **A cut at the end of a unit** leaves the units behind it. -/
theorem comparisonUnits_drop {text : QString} {k : Nat} {unit : OverlapUnit}
    (h : (units t text)[k]? = some unit) :
    comparisonUnits t (text.drop unit.finish) = (comparisonUnits t text).drop (k + 1) := by
  obtain ⟨before, after, hglyphs, hfinish, hdrop⟩ := unitsFrom_split h
  have htext : text = before.flatten ++ after.flatten := by
    rw [← List.flatten_append, ← hglyphs, flatten_glyphs]
  have hcut : text.drop unit.finish = after.flatten := by
    rw [hfinish, Nat.zero_add, htext, List.drop_left]
  rw [hcut, comparisonUnits_eq, comparisonUnits_eq, hdrop, glyphs_suffix hglyphs]

/-! ## Separators -/

/-- A glyph that belongs to no unit. -/
def IsSeparator (t : CharTables) (c : QChar) : Prop :=
  isHighSurrogate c = false ∧ isLowSurrogate c = false ∧ isCjk c.toNat = false ∧ isWordStart t [c] = false

theorem normalizedFrom_append {c : QChar} (hsep : IsSeparator t c) (first second : List QString) :
    ∀ word, normalizedFrom t (first ++ [c] :: second) word =
      normalizedFrom t first word ++ normalizedFrom t second [] := by
  have hcjk : ¬ isCjk (codePoint [c]) = true := Bool.eq_false_iff.mp hsep.2.2.1
  induction first with
  | nil =>
    intro word
    have hflush : normalizedFrom t ([c] :: second) word = flushed t word ++ normalizedFrom t second [] := by
      rw [normalizedFrom, if_neg hcjk, if_neg (Bool.eq_false_iff.mp hsep.2.2.2)]
    exact hflush
  | cons glyph rest ih =>
    intro word
    rw [List.cons_append, normalizedFrom, normalizedFrom]
    split
    · rw [ih, List.append_assoc, List.cons_append]
    split
    · exact ih ..
    · rw [ih, List.append_assoc]

/-- **Units do not reach over a separator.** -/
theorem comparisonUnits_append {c : QChar} (hsep : IsSeparator t c) (first second : QString) :
    comparisonUnits t (first ++ c :: second) = comparisonUnits t first ++ comparisonUnits t second := by
  rw [comparisonUnits_eq, comparisonUnits_eq, comparisonUnits_eq, glyphs_append hsep.1 hsep.2.1,
    normalizedFrom_append hsep]

theorem comparisonUnits_nil : comparisonUnits t [] = [] := rfl

theorem comparisonUnits_cons {c : QChar} (hsep : IsSeparator t c) (rest : QString) :
    comparisonUnits t (c :: rest) = comparisonUnits t rest :=
  comparisonUnits_append hsep [] rest

theorem isSpace_small {c : QChar} (h : isSpace c = true) : c.toNat ≤ 0x3000 := by
  unfold isSpace at h
  dsimp only at h
  simp only [Bool.or_eq_true, Bool.and_eq_true, beq_iff_eq, decide_eq_true_eq] at h
  omega

theorem not_surrogate_of_small {c : QChar} (h : c.toNat < 0xD800) :
    isHighSurrogate c = false ∧ isLowSurrogate c = false := by
  constructor
  · rw [isHighSurrogate, Bool.and_eq_false_iff, decide_eq_false_iff_not, UInt16.le_iff_toNat_le]
    exact .inl (Nat.not_le.mpr h)
  · rw [isLowSurrogate, Bool.and_eq_false_iff, decide_eq_false_iff_not, UInt16.le_iff_toNat_le]
    exact .inl (Nat.not_le.mpr (h.trans (by decide)))

theorem isSeparator_of_space (laws : UnicodeLaws t) {c : QChar} (h : isSpace c = true) : IsSeparator t c := by
  have hsmall := isSpace_small h
  obtain ⟨hhigh, hlow⟩ := not_surrogate_of_small (c := c) (by omega)
  refine ⟨hhigh, hlow, ?_, ?_⟩
  · unfold isCjk
    simp only [Bool.or_eq_false_iff, Bool.and_eq_false_iff, decide_eq_false_iff_not]
    omega
  · have hunderscore : (c == 0x5F) = false := by
      rw [beq_eq_false_iff_ne]
      rintro rfl
      revert h
      decide
    show (t.isLetterOrNumber c || c == 0x5F) = false
    rw [laws.space_not_letter c h, hunderscore]
    rfl

theorem isSeparator_of_punct (laws : UnicodeLaws t) {c : QChar} (h : t.isPunct c = true)
    (hother : c ≠ underscore) : IsSeparator t c := by
  obtain ⟨hhigh, hlow⟩ := laws.punct_not_surrogate c h
  refine ⟨hhigh, hlow, laws.punct_not_cjk c h, ?_⟩
  show (t.isLetterOrNumber c || c == 0x5F) = false
  rw [laws.punct_not_letter c h, Bool.false_or, beq_eq_false_iff_ne]
  exact hother

/-- What the cut skips: spaces and punctuation. -/
def isSkipped (t : CharTables) (c : QChar) : Bool := isSpace c || t.isPunct c

theorem isSeparator_of_skipped (laws : UnicodeLaws t) {c : QChar} (h : isSkipped t c = true)
    (hother : c ≠ underscore) : IsSeparator t c := by
  rcases Bool.or_eq_true_iff.mp h with hspace | hpunct
  · exact isSeparator_of_space laws hspace
  · exact isSeparator_of_punct laws hpunct hother

/-- **A cut over separators** changes no unit. -/
theorem comparisonUnits_dropWhile (laws : UnicodeLaws t) (text : QString)
    (hclean : underscore ∉ text.takeWhile (isSkipped t)) :
    comparisonUnits t (text.dropWhile (isSkipped t)) = comparisonUnits t text := by
  induction text with
  | nil => rfl
  | cons c rest ih =>
    cases hskip : isSkipped t c with
    | false => rw [List.dropWhile_cons_of_neg (by rw [hskip]; exact Bool.false_ne_true)]
    | true =>
      rw [List.takeWhile_cons_of_pos hskip] at hclean
      obtain ⟨hfirst, hrest⟩ := List.ne_and_not_mem_of_not_mem_cons hclean
      rw [List.dropWhile_cons_of_pos hskip, ih hrest,
        comparisonUnits_cons (isSeparator_of_skipped laws hskip (Ne.symm hfirst))]

/-! ## Underscores -/

def underscores (list : List QString) : Nat := (list.map (·.count underscore)).sum

theorem underscores_append (first second : List QString) :
    underscores (first ++ second) = underscores first + underscores second := by
  unfold underscores
  rw [List.map_append, List.sum_append]

theorem underscores_flushed (laws : UnicodeLaws t) (word : QString) :
    underscores (flushed t word) = word.count underscore := by
  unfold flushed
  split
  next hempty =>
    rw [List.isEmpty_iff.mp hempty]
    rfl
  next => exact laws.fold_underscore word

/-- A glyph with an underscore is the underscore, which begins or continues a word. -/
theorem isWordStart_of_underscore {text glyph : QString} (hmem : glyph ∈ glyphs text)
    (hunderscore : underscore ∈ glyph) : isWordStart t glyph = true := by
  induction text using glyphs.induct with
  | case1 => cases hmem
  | case2 c =>
    cases List.mem_singleton.mp hmem
    cases List.mem_singleton.mp hunderscore
    exact Bool.or_true _
  | case3 c d rest hpair ih =>
    rw [glyphs, if_pos hpair] at hmem
    rcases List.mem_cons.mp hmem with rfl | hmem
    · rw [Bool.and_eq_true] at hpair
      rcases List.mem_cons.mp hunderscore with rfl | hlow
      · exact absurd hpair.1 (by decide)
      · cases List.mem_singleton.mp hlow
        exact absurd hpair.2 (by decide)
    · exact ih hmem
  | case4 c d rest hpair ih =>
    rw [glyphs, if_neg hpair] at hmem
    rcases List.mem_cons.mp hmem with rfl | hmem
    · cases List.mem_singleton.mp hunderscore
      exact Bool.or_true _
    · exact ih hmem

theorem underscores_normalizedFrom (laws : UnicodeLaws t) (gs : List QString)
    (hword : ∀ glyph ∈ gs, underscore ∈ glyph → isWordStart t glyph = true) :
    ∀ word, underscores (normalizedFrom t gs word) = word.count underscore + gs.flatten.count underscore := by
  induction gs with
  | nil => exact fun word => underscores_flushed laws word
  | cons glyph rest ih =>
    intro word
    have ih' := ih fun other hmem => hword other (List.mem_cons_of_mem _ hmem)
    rw [normalizedFrom, List.flatten_cons, List.count_append]
    split
    · have hcons : underscores (glyph :: normalizedFrom t rest []) =
          glyph.count underscore + underscores (normalizedFrom t rest []) := rfl
      rw [underscores_append, underscores_flushed laws, hcons, ih', List.count_nil, Nat.zero_add]
    split
    · rw [ih', List.count_append, Nat.add_assoc]
    next hnot =>
      have hnone : glyph.count underscore = 0 :=
        List.count_eq_zero.mpr fun hmem => hnot (hword glyph (List.mem_cons_self ..) hmem)
      rw [underscores_append, underscores_flushed laws, ih', hnone, List.count_nil, Nat.zero_add]

/-- **Every underscore** of a text is in one of its units. -/
theorem count_comparisonUnits (laws : UnicodeLaws t) (text : QString) :
    underscores (comparisonUnits t text) = text.count underscore := by
  rw [comparisonUnits_eq, underscores_normalizedFrom laws _ fun glyph hmem => isWordStart_of_underscore hmem,
    flatten_glyphs, List.count_nil, Nat.zero_add]

/-- The cut leaves the units alone exactly when it takes no underscore. -/
theorem comparisonUnits_dropWhile_iff (laws : UnicodeLaws t) (text : QString) :
    comparisonUnits t (text.dropWhile (isSkipped t)) = comparisonUnits t text ↔
      underscore ∉ text.takeWhile (isSkipped t) := by
  refine ⟨fun hsame hmem => ?_, comparisonUnits_dropWhile laws text⟩
  have hcount : text.count underscore =
      (text.takeWhile (isSkipped t)).count underscore + (text.dropWhile (isSkipped t)).count underscore := by
    rw [← List.count_append, List.takeWhile_append_dropWhile]
  have hkept : (text.dropWhile (isSkipped t)).count underscore = text.count underscore := by
    rw [← count_comparisonUnits laws, ← count_comparisonUnits laws, hsame]
  have htaken : 0 < (text.takeWhile (isSkipped t)).count underscore := List.count_pos_iff.mpr hmem
  omega

/-! ## The longest match -/

/-- The lengths of the suffixes of one list that the other one begins with. -/
def Overlaps (previous incoming : List QString) : Set Nat :=
  { n | ∃ shared, shared.length = n ∧ shared <:+ previous ∧ shared <+: incoming }

theorem overlaps_iff {previous incoming : List QString} {n : Nat} : n ∈ Overlaps previous incoming ↔
    n ≤ previous.length ∧ n ≤ incoming.length ∧ previous.drop (previous.length - n) = incoming.take n := by
  constructor
  · rintro ⟨shared, rfl, hsuffix, hprefix⟩
    exact ⟨hsuffix.length_le, hprefix.length_le,
      (List.suffix_iff_eq_drop.mp hsuffix).symm.trans (List.prefix_iff_eq_take.mp hprefix)⟩
  · rintro ⟨hprevious, hincoming, hsame⟩
    exact ⟨incoming.take n, List.length_take_of_le hincoming, hsame ▸ List.drop_suffix _ _, List.take_prefix _ _⟩

theorem overlaps_le {previous incoming : List QString} {n : Nat} (h : n ∈ Overlaps previous incoming) :
    n ≤ min previous.length incoming.length :=
  Nat.le_min.mpr ⟨(overlaps_iff.mp h).1, (overlaps_iff.mp h).2.1⟩

theorem longestMatch_spec (previous incoming : List OverlapUnit) : ∀ length,
    length ≤ min previous.length incoming.length →
    longestMatch previous incoming length ∈
      Overlaps (previous.map (·.normalized)) (incoming.map (·.normalized)) ∧
    ∀ n ∈ Overlaps (previous.map (·.normalized)) (incoming.map (·.normalized)), n ≤ length →
      n ≤ longestMatch previous incoming length := by
  intro length
  induction length with
  | zero =>
    intro hlength
    exact ⟨⟨[], rfl, List.nil_suffix, List.nil_prefix⟩, fun n _ hn => hn⟩
  | succ length ih =>
    intro hlength
    have hbounds := Nat.le_min.mp hlength
    have hoverlap : length + 1 ∈ Overlaps (previous.map (·.normalized)) (incoming.map (·.normalized)) ↔
        (previous.drop (previous.length - (length + 1))).map (·.normalized) =
          (incoming.take (length + 1)).map (·.normalized) := by
      rw [overlaps_iff, List.length_map, List.length_map, ← List.map_drop, ← List.map_take,
        and_iff_right hbounds.1, and_iff_right hbounds.2]
    unfold longestMatch
    split
    next hmatch => exact ⟨hoverlap.mpr hmatch, fun n _ hn => hn⟩
    next hmatch =>
      obtain ⟨hmem, hlongest⟩ := ih (Nat.le_of_succ_le hlength)
      refine ⟨hmem, fun n hn hle => ?_⟩
      rcases Nat.lt_or_eq_of_le hle with hlt | rfl
      · exact hlongest n hn (Nat.le_of_lt_succ hlt)
      · exact absurd (hoverlap.mp hn) hmatch

/-- The units both texts share at the cut. -/
def matchedUnits (t : CharTables) (previousText incomingText : QString) : Nat :=
  longestMatch (units t previousText) (units t incomingText)
    (min (units t previousText).length (units t incomingText).length)

theorem matchedUnits_isGreatest (previousText incomingText : QString) :
    IsGreatest (Overlaps (comparisonUnits t previousText) (comparisonUnits t incomingText))
      (matchedUnits t previousText incomingText) := by
  obtain ⟨hmem, hlongest⟩ := longestMatch_spec (units t previousText) (units t incomingText) _ (Nat.le_refl _)
  refine ⟨hmem, fun n hn => hlongest n hn ?_⟩
  have hle := overlaps_le hn
  unfold comparisonUnits at hle
  rwa [List.length_map, List.length_map] at hle

/-! ## The cut -/

theorem deduplicate_cases (previousText incomingText : QString) :
    (matchedUnits t previousText incomingText < 2 ∧
        (deduplicate t previousText incomingText).matchedUnits = 0 ∧
        (deduplicate t previousText incomingText).text = incomingText) ∨
      2 ≤ matchedUnits t previousText incomingText ∧
        (deduplicate t previousText incomingText).matchedUnits = matchedUnits t previousText incomingText ∧
        ∃ unit, (units t incomingText)[matchedUnits t previousText incomingText - 1]? = some unit ∧
          (deduplicate t previousText incomingText).text =
            (incomingText.drop unit.finish).dropWhile (isSkipped t) := by
  have hbound : matchedUnits t previousText incomingText ≤ (units t incomingText).length := by
    have hle := overlaps_le (matchedUnits_isGreatest (t := t) previousText incomingText).1
    unfold comparisonUnits at hle
    rw [List.length_map, List.length_map] at hle
    omega
  unfold deduplicate
  split
  next hskip =>
    -- no units on one of the sides
    have hnone : matchedUnits t previousText incomingText = 0 := by
      rw [Bool.not_true, Bool.false_or, Bool.or_eq_true, List.isEmpty_iff, List.isEmpty_iff] at hskip
      unfold matchedUnits
      rcases hskip with rfl | rfl
      · rfl
      · rw [show (units t []).length = 0 from rfl, Nat.min_zero]
        rfl
    exact .inl ⟨by omega, rfl, rfl⟩
  next =>
    show _ ∨ _
    dsimp only
    rw [show longestMatch (units t previousText) (units t incomingText)
      (min (units t previousText).length (units t incomingText).length) =
        matchedUnits t previousText incomingText from rfl]
    split
    next hfew => exact .inl ⟨hfew, rfl, rfl⟩
    next hmany =>
      obtain ⟨unit, hunit⟩ : ∃ unit, (units t incomingText)[matchedUnits t previousText incomingText - 1]? =
          some unit := ⟨_, List.getElem?_eq_getElem (by omega)⟩
      refine .inr ⟨by omega, rfl, unit, hunit, ?_⟩
      rw [hunit]
      rfl

/-- What overlap removal is for: the incoming text without the units that both texts share. -/
structure DropsMatched (t : CharTables) (previousText incomingText : QString) (result : DeduplicationResult) :
    Prop where
  suffix : result.text <:+ incomingText
  units : comparisonUnits t result.text = (comparisonUnits t incomingText).drop result.matchedUnits
  matched : ∀ n, IsGreatest (Overlaps (comparisonUnits t previousText) (comparisonUnits t incomingText)) n →
    result.matchedUnits = if 2 ≤ n then n else 0
  unchanged : result.matchedUnits = 0 → result.text = incomingText

theorem matchedUnits_le (previousText incomingText : QString) :
    (deduplicate t previousText incomingText).matchedUnits ≤ (comparisonUnits t incomingText).length := by
  have hle := overlaps_le (matchedUnits_isGreatest (t := t) previousText incomingText).1
  rcases deduplicate_cases (t := t) previousText incomingText with ⟨-, hmatched, -⟩ | ⟨-, hmatched, -⟩
  · omega
  · omega

/-- All but the units that are left is so for all texts. -/
theorem dropsMatched_iff_units (previousText incomingText : QString) :
    DropsMatched t previousText incomingText (deduplicate t previousText incomingText) ↔
      comparisonUnits t (deduplicate t previousText incomingText).text =
        (comparisonUnits t incomingText).drop (deduplicate t previousText incomingText).matchedUnits := by
  have hgreatest := matchedUnits_isGreatest (t := t) previousText incomingText
  refine ⟨DropsMatched.units, fun hunits => ?_⟩
  rcases deduplicate_cases (t := t) previousText incomingText with ⟨hfew, hmatched, htext⟩ |
    ⟨hmany, hmatched, unit, hunit, htext⟩
  · refine ⟨⟨[], htext⟩, hunits, fun n hn => ?_, fun _ => htext⟩
    rw [hn.unique hgreatest, hmatched, if_neg (by omega)]
  · refine ⟨?_, hunits, fun n hn => ?_, fun hzero => ?_⟩
    · rw [htext]
      exact (List.dropWhile_suffix _).trans (List.drop_suffix _ _)
    · rw [hn.unique hgreatest, hmatched, if_pos hmany]
    · omega

/-- Both texts share two units or more, and among the spaces and the punctuation behind them is an
    underscore. -/
def UnderscoreBehind (t : CharTables) (previousText incomingText : QString) : Prop :=
  ∃ n unit, IsGreatest (Overlaps (comparisonUnits t previousText) (comparisonUnits t incomingText)) n ∧ 2 ≤ n ∧
    (Asr.units t incomingText)[n - 1]? = some unit ∧
    underscore ∈ (incomingText.drop unit.finish).takeWhile (isSkipped t)

/-- **Overlap removal is exact**, for all texts but those with an underscore behind the matched units. -/
theorem deduplicate_exact_iff (laws : UnicodeLaws t) (previousText incomingText : QString) :
    DropsMatched t previousText incomingText (deduplicate t previousText incomingText) ↔
      ¬ UnderscoreBehind t previousText incomingText := by
  have hgreatest := matchedUnits_isGreatest (t := t) previousText incomingText
  rw [dropsMatched_iff_units]
  rcases deduplicate_cases (t := t) previousText incomingText with ⟨hfew, hmatched, htext⟩ |
    ⟨hmany, hmatched, unit, hunit, htext⟩
  · rw [htext, hmatched, List.drop_zero]
    refine iff_of_true rfl ?_
    rintro ⟨n, unit, hn, htwo, -⟩
    rw [hn.unique hgreatest] at htwo
    omega
  · have hcut : (comparisonUnits t incomingText).drop (matchedUnits t previousText incomingText) =
        comparisonUnits t (incomingText.drop unit.finish) := by
      rw [comparisonUnits_drop hunit, Nat.sub_add_cancel (by omega)]
    rw [htext, hmatched, hcut, comparisonUnits_dropWhile_iff laws]
    refine not_congr ⟨fun hmem => ⟨_, unit, hgreatest, hmany, hunit, hmem⟩, ?_⟩
    rintro ⟨n, other, hn, -, hother, hmem⟩
    rw [hn.unique hgreatest, hunit] at hother
    cases hother
    exact hmem

/-! ## ASCII -/

theorem asciiLower_underscore (c : QChar) : asciiLower c = underscore ↔ c = underscore := by
  unfold asciiLower
  split
  next hupper =>
    rw [UInt16.le_iff_toNat_le, UInt16.le_iff_toNat_le] at hupper
    have hlow : 0x41 ≤ c.toNat := hupper.1
    have hhigh : c.toNat ≤ 0x5A := hupper.2
    have hsum : (c + 0x20).toNat = (c.toNat + 0x20) % 2 ^ 16 := UInt16.toNat_add c 0x20
    have hvalue : underscore.toNat = 0x5F := rfl
    refine iff_of_false (fun hsame => ?_) fun hsame => ?_
    · rw [hsame, hvalue] at hsum
      omega
    · rw [hsame, hvalue] at hlow hhigh
      omega
  next => exact Iff.rfl

/-- A test that the ASCII punctuation passes holds of every punctuation unit. -/
theorem asciiPunct_all {p : QChar → Bool} (hall : (qs "!\"#%&'()*,-./:;?@[\\]_\x7b\x7d").all p = true)
    {c : QChar} (hpunct : asciiTables.isPunct c = true) : p c = true :=
  List.all_eq_true.mp hall c (of_decide_eq_true hpunct)

theorem asciiTables_laws : UnicodeLaws asciiTables where
  punct_not_letter c hpunct := by
    have hnot := asciiPunct_all (p := fun c => !asciiTables.isLetterOrNumber c) (by decide) hpunct
    exact Bool.not_eq_true' _ ▸ hnot
  space_not_letter c hspace := by
    rw [Bool.eq_false_iff]
    intro hletter
    unfold isSpace at hspace
    dsimp only [asciiTables] at hspace hletter
    simp only [Bool.or_eq_true, Bool.and_eq_true, beq_iff_eq, decide_eq_true_eq, UInt16.le_iff_toNat_le,
      UInt16.reduceToNat] at hspace hletter
    omega
  punct_not_cjk c hpunct := by
    have hnot := asciiPunct_all (p := fun c => !isCjk c.toNat) (by decide) hpunct
    exact Bool.not_eq_true' _ ▸ hnot
  punct_not_surrogate c hpunct := by
    have hnot := asciiPunct_all (p := fun c => !isHighSurrogate c && !isLowSurrogate c) (by decide) hpunct
    rw [Bool.and_eq_true, Bool.not_eq_true', Bool.not_eq_true'] at hnot
    exact hnot
  underscore_punct := by decide
  fold_underscore text := by
    show (text.map asciiLower).count underscore = _
    rw [List.count_eq_countP, List.count_eq_countP, List.countP_map]
    refine List.countP_congr fun c _ => ?_
    rw [Function.comp_apply, beq_iff_eq, beq_iff_eq]
    exact asciiLower_underscore c

/-- A repeated phrase goes, with the comma behind it. -/
theorem deduplicate_exact_phrase : DropsMatched asciiTables (qs "we begin. Good morning")
    (qs "good morning, all") (deduplicate asciiTables (qs "we begin. Good morning") (qs "good morning, all")) := by
  refine (deduplicate_exact_iff asciiTables_laws _ _).mpr ?_
  rintro ⟨n, unit, hn, -, hunit, hmem⟩
  have hgreatest := matchedUnits_isGreatest (t := asciiTables) (qs "we begin. Good morning")
    (qs "good morning, all")
  have htwo : matchedUnits asciiTables (qs "we begin. Good morning") (qs "good morning, all") = 2 := by decide
  rw [hn.unique hgreatest, htwo] at hunit
  have hlast : (units asciiTables (qs "good morning, all"))[1]? = some ⟨qs "morning", 5, 12, false⟩ := by decide
  rw [hlast] at hunit
  cases hunit
  revert hmem
  decide

/-- **An underscore is lost**: the token `_id` is left as `id`. -/
theorem deduplicate_underscore : ¬ DropsMatched asciiTables (qs "the row") (qs "the row _id is")
    (deduplicate asciiTables (qs "the row") (qs "the row _id is")) := by
  intro h
  have hunits := h.units
  revert hunits
  decide

end BreezeDesk.Asr
