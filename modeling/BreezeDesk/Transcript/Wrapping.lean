/-
  The lines of a subtitle.

  The wrapping loop shortens what remains in every turn, since it cuts behind the first character, which is
  visible.  Its lines are cut from the text, so they lose no visible character; but where no space stands in
  the second half of a line the cut is forced at the maximum, and there it can come between the halves of a
  surrogate pair.  Then the pair is encoded as two question marks.

  `wrapLines_spec` says, by strong induction on what remains, that the loop ends, how long its lines are, and
  that the visible characters are kept exactly if no turn cuts a pair: every cut of a pair adds a character.
-/
import BreezeDesk.App.BoundaryTexts
import BreezeDesk.Transcript.Exporter
import BreezeDesk.Transcript.Utf16

namespace BreezeDesk

open App (SplitsAtSpaces)
open Loop

/-! ## Decoded text -/

def isSpaceChar (c : Char) : Bool := c.toNat < 0x10000 && isSpace (UInt16.ofNat c.toNat)

/-- The character that a step of the scan stands for; a surrogate on its own is encoded as `?`. -/
def encodedChar (glyph : QString) : Char :=
  match glyph with
  | [c] => if Asr.isHighSurrogate c || Asr.isLowSurrogate c then '?' else unitChar c
  | _ => Char.ofNat (Asr.codePoint glyph)

def encodedChars (text : QString) : List Char := (Asr.glyphs text).map encodedChar

/-- The visible characters of a text as it is encoded. -/
def visibleChars (text : QString) : List Char := (encodedChars text).filter fun c => !isSpaceChar c

/-- The visible characters of encoded text, if it is valid UTF-8. -/
def decodedVisible (bytes : QByteArray) : Option (List Char) :=
  (String.fromUTF8? bytes.toByteArray).map fun text => text.toList.filter fun c => !isSpaceChar c

variable {first second text : QString} {c : QChar} {maximum : Nat}

theorem toNat_unitChar (h : c.toNat < 0xD800) : (unitChar c).toNat = c.toNat := by
  have hvalid : c.toNat.isValidChar := Or.inl h
  unfold unitChar Char.ofNat
  rw [dif_pos hvalid]
  rfl

theorem isSpaceChar_unitChar (h : isSpace c = true) : isSpaceChar (unitChar c) = true := by
  have hsmall := Asr.isSpace_small h
  unfold isSpaceChar
  rw [toNat_unitChar (by omega), Bool.and_eq_true, decide_eq_true_eq]
  refine ⟨by omega, ?_⟩
  rw [UInt16.ofNat_toNat]
  exact h

theorem visibleChars_splits : SplitsAtSpaces visibleChars where
  nil := rfl
  append := by
    intro c hspace first second
    obtain ⟨hhigh, hlow⟩ := not_surrogate_of_space hspace
    have hchar : encodedChar [c] = unitChar c := by
      show (if Asr.isHighSurrogate c || Asr.isLowSurrogate c then '?' else unitChar c) = unitChar c
      rw [hhigh, hlow]
      rfl
    unfold visibleChars encodedChars
    rw [Asr.glyphs_append hhigh hlow, List.map_append, List.map_cons, List.filter_append, hchar,
      List.filter_cons_of_neg (by rw [isSpaceChar_unitChar hspace]; exact Bool.false_ne_true)]

/-! ## Pairs -/

/-- A cut that leaves pairs alone leaves the scan alone. -/
theorem glyphs_append_of_uncut (h : CutsPair first second = false) :
    Asr.glyphs (first ++ second) = Asr.glyphs first ++ Asr.glyphs second := by
  induction first using Asr.glyphs.induct with
  | case1 => rfl
  | case2 c =>
    cases second with
    | nil => exact (List.append_nil _).symm
    | cons d rest =>
      replace h : (Asr.isHighSurrogate c && Asr.isLowSurrogate d) = false := h
      show Asr.glyphs (c :: d :: rest) = [c] :: Asr.glyphs (d :: rest)
      rw [Asr.glyphs, if_neg (by rw [h]; exact Bool.false_ne_true)]
  -- the pair is scanned at once; the cut lies behind it
  | case3 a b rest hpair ih =>
    have hrest : CutsPair rest second = false := by
      cases rest with
      | nil => rfl
      | cons d others =>
        unfold CutsPair at h ⊢
        rwa [List.getLast?_cons_cons, List.getLast?_cons_cons] at h
    rw [List.cons_append, List.cons_append, Asr.glyphs, if_pos hpair, Asr.glyphs, if_pos hpair, ih hrest,
      List.cons_append]
  | case4 a b rest hpair ih =>
    have hrest : CutsPair (b :: rest) second = false := by
      unfold CutsPair at h ⊢
      rwa [List.getLast?_cons_cons] at h
    rw [List.cons_append, List.cons_append, Asr.glyphs, if_neg hpair, Asr.glyphs, if_neg hpair, ← List.cons_append,
      ih hrest, List.cons_append]

theorem isHighSurrogate_iff : Asr.isHighSurrogate c = true ↔ 0xD800 ≤ c.toNat ∧ c.toNat ≤ 0xDBFF := by
  unfold Asr.isHighSurrogate
  rw [Bool.and_eq_true, decide_eq_true_eq, decide_eq_true_eq, UInt16.le_iff_toNat_le, UInt16.le_iff_toNat_le]
  exact Iff.rfl

theorem isLowSurrogate_iff : Asr.isLowSurrogate c = true ↔ 0xDC00 ≤ c.toNat ∧ c.toNat ≤ 0xDFFF := by
  unfold Asr.isLowSurrogate
  rw [Bool.and_eq_true, decide_eq_true_eq, decide_eq_true_eq, UInt16.le_iff_toNat_le, UInt16.le_iff_toNat_le]
  exact Iff.rfl

theorem not_both_surrogates (h : Asr.isHighSurrogate c = true) : Asr.isLowSurrogate c = false := by
  rw [isHighSurrogate_iff] at h
  rw [Bool.eq_false_iff, ne_eq, isLowSurrogate_iff]
  omega

theorem toNat_pair {high low : QChar} (hhigh : Asr.isHighSurrogate high = true)
    (hlow : Asr.isLowSurrogate low = true) :
    (encodedChar [high, low]).toNat = (high.toNat - 0xD800) * 0x400 + (low.toNat - 0xDC00) + 0x10000 := by
  rw [isHighSurrogate_iff] at hhigh
  rw [isLowSurrogate_iff] at hlow
  have hvalid : ((high.toNat - 0xD800) * 0x400 + (low.toNat - 0xDC00) + 0x10000).isValidChar := by
    refine Or.inr ⟨?_, ?_⟩
    · omega
    · omega
  show (Char.ofNat ((high.toNat - 0xD800) * 0x400 + (low.toNat - 0xDC00) + 0x10000)).toNat = _
  unfold Char.ofNat
  rw [dif_pos hvalid]
  rfl

/-- A pair stands for one visible character. -/
theorem visible_pair {high low : QChar} (hhigh : Asr.isHighSurrogate high = true)
    (hlow : Asr.isLowSurrogate low = true) : isSpaceChar (encodedChar [high, low]) = false := by
  unfold isSpaceChar
  rw [toNat_pair hhigh hlow, Bool.and_eq_false_iff, decide_eq_false_iff_not]
  exact Or.inl (by omega)

/-! ## UTF-8 -/

theorem isSurrogate_eq (c : QChar) :
    isHighSurrogate c = Asr.isHighSurrogate c ∧ isLowSurrogate c = Asr.isLowSurrogate c := by
  constructor
  · rw [Bool.eq_iff_iff, isHighSurrogate_iff]
    unfold isHighSurrogate
    rw [Bool.and_eq_true, decide_eq_true_eq, decide_eq_true_eq, UInt16.le_iff_toNat_le, UInt16.lt_iff_toNat_lt]
    show 0xD800 ≤ c.toNat ∧ c.toNat < 0xDC00 ↔ _
    omega
  · rw [Bool.eq_iff_iff, isLowSurrogate_iff]
    unfold isLowSurrogate
    rw [Bool.and_eq_true, decide_eq_true_eq, decide_eq_true_eq, UInt16.le_iff_toNat_le, UInt16.lt_iff_toNat_lt]
    show 0xDC00 ≤ c.toNat ∧ c.toNat < 0xE000 ↔ _
    omega

/-- A code unit that is no surrogate, as a character. -/
theorem toNat_unitChar_of_not (hhigh : Asr.isHighSurrogate c = false) (hlow : Asr.isLowSurrogate c = false) :
    (unitChar c).toNat = c.toNat := by
  rw [Bool.eq_false_iff, ne_eq, isHighSurrogate_iff] at hhigh
  rw [Bool.eq_false_iff, ne_eq, isLowSurrogate_iff] at hlow
  have hunit := c.toNat_lt
  have hvalid : c.toNat.isValidChar := by
    rcases Nat.lt_or_ge c.toNat 0xD800 with hsmall | hlarge
    · exact Or.inl hsmall
    · exact Or.inr ⟨by omega, by omega⟩
  unfold unitChar Char.ofNat
  rw [dif_pos hvalid]
  rfl

theorem utf8Unit_eq (c : QChar) : utf8Unit c = String.utf8EncodeChar (encodedChar [c]) := by
  have hencoded : encodedChar [c] = if Asr.isHighSurrogate c || Asr.isLowSurrogate c then '?' else unitChar c := rfl
  rw [hencoded]
  unfold utf8Unit
  rw [(isSurrogate_eq c).1, (isSurrogate_eq c).2]
  cases hsurrogate : Asr.isHighSurrogate c || Asr.isLowSurrogate c with
  | true =>
    -- a surrogate is behind the two shorter forms
    have hlarge : 0xD800 ≤ c.toNat := by
      rcases Bool.or_eq_true_iff.mp hsurrogate with hhigh | hlow
      · exact (isHighSurrogate_iff.mp hhigh).1
      · have hmin := (isLowSurrogate_iff.mp hlow).1
        omega
    dsimp only
    rw [if_neg (by omega), if_neg (by omega)]
    rfl
  | false =>
    obtain ⟨hhigh, hlow⟩ := Bool.or_eq_false_iff.mp hsurrogate
    have hunit := c.toNat_lt
    have hcode : (unitChar c).val.toNat = c.toNat := toNat_unitChar_of_not hhigh hlow
    unfold String.utf8EncodeChar
    dsimp only
    rw [if_neg Bool.false_ne_true, if_neg Bool.false_ne_true, hcode]
    by_cases hone : c.toNat < 0x80
    · rw [if_pos hone, if_pos (show c.toNat ≤ 0x7F by omega)]
    · rw [if_neg hone, if_neg (show ¬ c.toNat ≤ 0x7F by omega)]
      by_cases htwo : c.toNat < 0x800
      · rw [if_pos htwo, if_pos (show c.toNat ≤ 0x7FF by omega)]
        have hhead : 0xC0 + c.toNat / 64 = c.toNat / 64 % 32 + 0xC0 := by omega
        rw [hhead, Nat.add_comm 0x80]
      · rw [if_neg htwo, if_neg (show ¬ c.toNat ≤ 0x7FF by omega), if_pos (show c.toNat ≤ 0xFFFF by omega)]
        have hhead : 0xE0 + c.toNat / 4096 = c.toNat / 4096 % 16 + 0xE0 := by omega
        rw [hhead, Nat.add_comm 0x80, Nat.add_comm 0x80]

theorem utf8Pair_eq {high low : QChar} (hhigh : Asr.isHighSurrogate high = true)
    (hlow : Asr.isLowSurrogate low = true) :
    utf8Pair high low = String.utf8EncodeChar (encodedChar [high, low]) := by
  have hcode : (encodedChar [high, low]).val.toNat = 0x10000 + 1024 * (high.toNat - 0xD800) + (low.toNat - 0xDC00) := by
    have hpair := toNat_pair hhigh hlow
    show (encodedChar [high, low]).toNat = _
    omega
  have hmax := isHighSurrogate_iff.mp hhigh
  have lmax := isLowSurrogate_iff.mp hlow
  unfold utf8Pair String.utf8EncodeChar
  dsimp only
  rw [hcode]
  generalize hu : 0x10000 + 1024 * (high.toNat - 0xD800) + (low.toNat - 0xDC00) = u
  have hrange : 0x10000 ≤ u ∧ u < 0x110000 := by omega
  rw [if_neg (show ¬ u ≤ 0x7F by omega), if_neg (show ¬ u ≤ 0x7FF by omega), if_neg (show ¬ u ≤ 0xFFFF by omega)]
  have hhead : 0xF0 + u / 262144 = u / 262144 % 8 + 0xF0 := by omega
  rw [hhead, Nat.add_comm 0x80, Nat.add_comm 0x80, Nat.add_comm 0x80]

/-- **The bytes** are those of the characters. -/
theorem toUtf8_eq (text : QString) : toUtf8 text = (encodedChars text).flatMap String.utf8EncodeChar := by
  unfold encodedChars
  induction text using Asr.glyphs.induct with
  | case1 => rfl
  | case2 c =>
    rw [Asr.glyphs, List.map_singleton, List.flatMap_singleton]
    exact utf8Unit_eq c
  | case3 c d rest hpair ih =>
    have hsame : (isHighSurrogate c && isLowSurrogate d) = true := by
      rw [(isSurrogate_eq c).1, (isSurrogate_eq d).2]
      exact hpair
    obtain ⟨hhigh, hlow⟩ := Bool.and_eq_true_iff.mp hpair
    rw [Asr.glyphs, if_pos hpair, List.map_cons, List.flatMap_cons, toUtf8, if_pos hsame, ih, utf8Pair_eq hhigh hlow]
  | case4 c d rest hpair ih =>
    have hsame : ¬ (isHighSurrogate c && isLowSurrogate d) = true := by
      rw [(isSurrogate_eq c).1, (isSurrogate_eq d).2]
      exact hpair
    rw [Asr.glyphs, if_neg hpair, List.map_cons, List.flatMap_cons, toUtf8, if_neg hsame, ih, utf8Unit_eq c]

theorem decodedVisible_toUtf8 (text : QString) : decodedVisible (toUtf8 text) = some (visibleChars text) := by
  have hbytes : (toUtf8 text).toByteArray = (String.ofList (encodedChars text)).toByteArray := by
    rw [toUtf8_eq]
    rfl
  have hdecoded : String.fromUTF8? (toUtf8 text).toByteArray = some (String.ofList (encodedChars text)) := by
    rw [hbytes]
    exact dif_pos (String.ofList (encodedChars text)).isValidUTF8
  unfold decodedVisible
  rw [hdecoded, Option.map_some, String.toList_ofList]
  rfl

/-- **A cut between the halves of a pair** makes two characters of one. -/
theorem length_visibleChars_of_cut (h : CutsPair first second = true) :
    (visibleChars first).length + (visibleChars second).length = (visibleChars (first ++ second)).length + 1 := by
  obtain ⟨⟨high, hlast, hhigh⟩, low, hhead, hlow⟩ := cutsPair_iff.mp h
  obtain ⟨before, rfl⟩ := List.getLast?_eq_some_iff.mp hlast
  obtain ⟨after, rfl⟩ := List.head?_eq_some_iff.mp hhead
  have hbefore : ∀ rest, CutsPair before (high :: rest) = false := by
    intro rest
    show (before.getLast?.any Asr.isHighSurrogate && Asr.isLowSurrogate high) = false
    rw [not_both_surrogates hhigh, Bool.and_false]
  have hlowhigh : Asr.isHighSurrogate low = false := by
    cases hboth : Asr.isHighSurrogate low with
    | false => rfl
    | true =>
      rw [not_both_surrogates hboth] at hlow
      cases hlow
  have hwhole : Asr.glyphs (before ++ [high] ++ low :: after) =
      Asr.glyphs before ++ [high, low] :: Asr.glyphs after := by
    rw [List.append_assoc, List.singleton_append, glyphs_append_of_uncut (hbefore _), Asr.glyphs,
      if_pos (by rw [hhigh, hlow]; rfl)]
  have hleft : Asr.glyphs (before ++ [high]) = Asr.glyphs before ++ [[high]] := glyphs_append_of_uncut (hbefore [])
  have hright : Asr.glyphs (low :: after) = [low] :: Asr.glyphs after := Asr.glyphs_single hlowhigh after
  -- a half that stands alone is written as a question mark, which is visible
  have halone : ∀ c : QChar, (Asr.isHighSurrogate c || Asr.isLowSurrogate c) = true → encodedChar [c] = '?' :=
    fun c hc => if_pos hc
  unfold visibleChars encodedChars
  rw [hwhole, hleft, hright, List.map_append, List.map_append, List.map_cons, List.map_cons, List.map_cons,
    List.map_nil, halone high (by rw [hhigh]; rfl), halone low (by rw [hlow, Bool.or_true]), List.filter_append,
    List.filter_append, List.filter_cons_of_pos (by decide), List.filter_nil, List.filter_cons_of_pos (by decide),
    List.filter_cons_of_pos (by rw [visible_pair hhigh hlow]; rfl)]
  simp only [List.length_append, List.length_cons, List.length_nil]
  omega

theorem visibleChars_append_of_uncut (h : CutsPair first second = false) :
    visibleChars (first ++ second) = visibleChars first ++ visibleChars second := by
  unfold visibleChars encodedChars
  rw [glyphs_append_of_uncut h, List.map_append, List.filter_append]

/-! ## The loop -/

/-- What remains in the turns of the loop. -/
inductive Remains (maximum : Nat) : QString → QString → Prop where
  | here (text : QString) : Remains maximum text text
  | next {text remaining : QString} : maximum < text.length →
      Remains maximum (trimmed (text.drop (wrapAt maximum text))) remaining → Remains maximum text remaining

/-- No turn of the loop cuts between the halves of a pair. -/
def PairsKept (maximum : Nat) (text : QString) : Prop :=
  ∀ remaining, Remains maximum text remaining → maximum < remaining.length →
    CutsPair (remaining.take (wrapAt maximum remaining)) (remaining.drop (wrapAt maximum remaining)) = false

theorem pairsKept_of_short (h : text.length ≤ maximum) : PairsKept maximum text := by
  intro remaining hremains hlong
  cases hremains with
  | here => omega
  | next hmore _ => omega

theorem pairsKept_iff (h : maximum < text.length) : PairsKept maximum text ↔
    CutsPair (text.take (wrapAt maximum text)) (text.drop (wrapAt maximum text)) = false ∧
      PairsKept maximum (trimmed (text.drop (wrapAt maximum text))) := by
  constructor
  · exact fun hkept => ⟨hkept text (.here text) h, fun remaining hremains => hkept remaining (.next h hremains)⟩
  · rintro ⟨hcut, hrest⟩ remaining hremains hlong
    cases hremains with
    | here => exact hcut
    | next _ hremains => exact hrest remaining hremains hlong

theorem lastIndexOf_eq_some {start i : Nat} (h : lastIndexOf c text start = some i) :
    i ≤ start ∧ text[i]? = some c := by
  have hmem := List.mem_of_find?_eq_some h
  have hat := List.find?_some h
  rw [List.mem_reverse, List.mem_range] at hmem
  exact ⟨by omega, by simpa only [beq_iff_eq] using hat⟩

/-- **The cut** comes behind the first character, and at the maximum at the latest. -/
theorem wrapAt_bounds (hmaximum : 0 < maximum) (hhead : ∀ c ∈ text.head?, isSpace c = false) :
    0 < wrapAt maximum text ∧ wrapAt maximum text ≤ maximum := by
  unfold wrapAt
  split
  · exact ⟨hmaximum, le_rfl⟩
  next i hi =>
    obtain ⟨hle, hat⟩ := lastIndexOf_eq_some hi
    split
    · exact ⟨hmaximum, le_rfl⟩
    · refine ⟨?_, hle⟩
      by_contra hzero
      obtain rfl : i = 0 := by omega
      rw [← List.head?_eq_getElem?] at hat
      have hspace := hhead space hat
      revert hspace
      decide

theorem length_trimmed_le (text : QString) : (trimmed text).length ≤ text.length := by
  obtain ⟨before, after, htext, -⟩ := trimmed_between text
  have hlength := congrArg List.length htext
  rw [List.length_append, List.length_append] at hlength
  omega

/-- A line that begins with a visible character is not empty. -/
theorem trimmed_take_ne_nil {n : Nat} (hn : 0 < n) (hne : text ≠ []) (hhead : ∀ c ∈ text.head?, isSpace c = false) :
    trimmed (text.take n) ≠ [] := by
  obtain ⟨c, rest, rfl⟩ := List.exists_cons_of_ne_nil hne
  obtain ⟨m, rfl⟩ : ∃ m, n = m + 1 := ⟨n - 1, by omega⟩
  intro hblank
  have hspace := (trimmed_eq_nil_iff _).mp hblank c (List.mem_cons_self ..)
  rw [hhead c rfl] at hspace
  cases hspace

/-- What the loop makes of a text that begins with a visible character. -/
structure Wrapped (maximum : Nat) (text : QString) (out : List QString) : Prop where
  ends : ∀ lines fuel, text.length < fuel → run (wrapTurn maximum) fuel (lines, text) = some (lines ++ out)
  ne_nil : ∀ line ∈ out, line ≠ []
  short : ∀ line ∈ out, line.length ≤ maximum
  parts : ∀ line ∈ out, ∀ c ∈ line, c ∈ text
  /-- No visible character is lost; there may be more. -/
  enough : (visibleChars text).length ≤ (out.flatMap visibleChars).length
  kept_iff : out.flatMap visibleChars = visibleChars text ↔ PairsKept maximum text

/-- A text that fits is its own line. -/
theorem wrapped_of_short (h : text.length ≤ maximum) : ∃ out, Wrapped maximum text out := by
  have hturn : ∀ lines, wrapTurn maximum (lines, text) =
      .done (if text.isEmpty then lines else lines ++ [text]) := fun lines => if_neg (not_lt.mpr h)
  cases text with
  | nil =>
    refine ⟨[], fun lines fuel hfuel => ?_, ?_, ?_, ?_, Nat.le_refl _, fun _ => pairsKept_of_short h, fun _ => rfl⟩
    · obtain ⟨fuel, rfl⟩ : ∃ n, fuel = n + 1 := ⟨fuel - 1, by omega⟩
      rw [run_of_done (hturn lines), List.append_nil]
      rfl
    · exact fun line hline => (by cases hline)
    · exact fun line hline => (by cases hline)
    · exact fun line hline => (by cases hline)
  | cons c rest =>
    have hvisible : [c :: rest].flatMap visibleChars = visibleChars (c :: rest) := List.flatMap_singleton ..
    refine ⟨[c :: rest], fun lines fuel hfuel => ?_, ?_, ?_, ?_, hvisible ▸ Nat.le_refl _,
      fun _ => pairsKept_of_short h, fun _ => hvisible⟩
    · obtain ⟨fuel, rfl⟩ : ∃ n, fuel = n + 1 := ⟨fuel - 1, by omega⟩
      exact run_of_done (hturn lines) fuel
    · intro line hline
      rw [List.mem_singleton.mp hline]
      exact List.cons_ne_nil c rest
    · intro line hline
      rw [List.mem_singleton.mp hline]
      exact h
    · intro line hline d hd
      rwa [List.mem_singleton.mp hline] at hd

/-- One turn in front of the lines of the rest. -/
theorem wrapped_of_long {out : List QString} (hmaximum : 0 < maximum) (hlong : maximum < text.length)
    (hhead : ∀ c ∈ text.head?, isSpace c = false)
    (hrest : Wrapped maximum (trimmed (text.drop (wrapAt maximum text))) out) :
    Wrapped maximum text (trimmed (text.take (wrapAt maximum text)) :: out) := by
  obtain ⟨hpos, hle⟩ := wrapAt_bounds hmaximum hhead
  have hne : text ≠ [] := List.ne_nil_of_length_pos (by omega)
  generalize hcut : wrapAt maximum text = cut at *
  -- the rest is shorter, which pays for the fuel of the turn
  have hshorter : (trimmed (text.drop cut)).length < text.length := by
    have hdrop := length_trimmed_le (text.drop cut)
    rw [List.length_drop] at hdrop
    omega
  have hturn : ∀ lines, wrapTurn maximum (lines, text) =
      .again (lines ++ [trimmed (text.take cut)], trimmed (text.drop cut)) := by
    intro lines
    rw [← hcut]
    exact if_pos hlong
  have hmem : ∀ part : QString, ∀ c ∈ trimmed part, c ∈ part := by
    intro part c hc
    obtain ⟨before, after, hpart, -⟩ := trimmed_between part
    rw [hpart]
    exact List.mem_append_left _ (List.mem_append_right _ hc)
  have hvisible : (trimmed (text.take cut) :: out).flatMap visibleChars =
      visibleChars (text.take cut) ++ out.flatMap visibleChars := by
    rw [List.flatMap_cons, visibleChars_splits.trimmed]
  have hbehind : (visibleChars (text.drop cut)).length ≤ (out.flatMap visibleChars).length := by
    rw [← visibleChars_splits.trimmed]
    exact hrest.enough
  have hwhole : text.take cut ++ text.drop cut = text := List.take_append_drop cut text
  refine ⟨fun lines fuel hfuel => ?_, ?_, ?_, ?_, ?_, ?_⟩
  · obtain ⟨fuel, rfl⟩ : ∃ n, fuel = n + 1 := ⟨fuel - 1, by omega⟩
    rw [run_of_again (hturn lines), hrest.ends _ fuel (by omega), List.append_assoc, List.singleton_append]
  · exact List.forall_mem_cons.mpr ⟨trimmed_take_ne_nil hpos hne hhead, hrest.ne_nil⟩
  · refine List.forall_mem_cons.mpr ⟨?_, hrest.short⟩
    have htake := length_trimmed_le (text.take cut)
    rw [List.length_take] at htake
    omega
  · refine List.forall_mem_cons.mpr ⟨fun c hc => List.mem_of_mem_take (hmem _ c hc), fun line hline c hc => ?_⟩
    exact List.mem_of_mem_drop (hmem _ c (hrest.parts line hline c hc))
  · rw [hvisible, List.length_append]
    cases hpair : CutsPair (text.take cut) (text.drop cut) with
    | true =>
      have hmore := length_visibleChars_of_cut hpair
      rw [hwhole] at hmore
      omega
    | false =>
      have hsame := congrArg List.length (visibleChars_append_of_uncut hpair)
      rw [hwhole, List.length_append] at hsame
      omega
  · rw [hvisible, pairsKept_iff hlong, hcut]
    cases hpair : CutsPair (text.take cut) (text.drop cut) with
    | true =>
      -- one character too many already
      have hmore := length_visibleChars_of_cut hpair
      rw [hwhole] at hmore
      refine ⟨fun hsame => ?_, fun h => absurd h.1.symm Bool.false_ne_true⟩
      have hlength := congrArg List.length hsame
      rw [List.length_append] at hlength
      omega
    | false =>
      have hsame := visibleChars_append_of_uncut hpair
      rw [hwhole] at hsame
      rw [hsame, List.append_cancel_left_eq, ← visibleChars_splits.trimmed (text.drop cut), hrest.kept_iff]
      exact ⟨fun h => ⟨rfl, h⟩, fun h => h.2⟩

/-- **The loop**, by strong induction on the length of what remains. -/
theorem wrapped (hmaximum : 0 < maximum) : ∀ (n : Nat) (text : QString), text.length ≤ n →
    (∀ c ∈ text.head?, isSpace c = false) → ∃ out, Wrapped maximum text out := by
  intro n
  induction n with
  | zero => exact fun text hlength _ => wrapped_of_short (by omega)
  | succ n ih =>
    intro text hlength hhead
    by_cases hlong : maximum < text.length
    · obtain ⟨hpos, -⟩ := wrapAt_bounds hmaximum hhead
      have hdrop := length_trimmed_le (text.drop (wrapAt maximum text))
      rw [List.length_drop] at hdrop
      obtain ⟨out, hout⟩ := ih (trimmed (text.drop (wrapAt maximum text))) (by omega) (trimmed_ends _).1
      exact ⟨_, wrapped_of_long hmaximum hlong hhead hout⟩
    · exact wrapped_of_short (not_lt.mp hlong)

/-! ## Simplified texts -/

/-- The words of a text are not empty and have no white space. -/
theorem mem_words (text : QString) {part : QString} : ∀ {word : QString}, (∀ c ∈ word, isSpace c = false) →
    part ∈ words text word → part ≠ [] ∧ ∀ c ∈ part, isSpace c = false := by
  induction text with
  | nil =>
    intro word hword hpart
    rw [words] at hpart
    split at hpart
    · cases hpart
    next hne =>
      rw [List.mem_singleton.mp hpart]
      exact ⟨fun h => hne (List.isEmpty_iff.mpr h), hword⟩
  | cons c rest ih =>
    intro word hword hpart
    have hnone : ∀ c ∈ ([] : QString), isSpace c = false := fun c hc => (by cases hc)
    rw [words] at hpart
    split at hpart
    · split at hpart
      · exact ih hnone hpart
      next hne =>
        rcases List.mem_cons.mp hpart with rfl | hrest
        · exact ⟨fun h => hne (List.isEmpty_iff.mpr h), hword⟩
        · exact ih hnone hrest
    -- a visible character goes on with the word
    next hvisible =>
      refine ih (fun d hd => ?_) hpart
      rcases List.mem_append.mp hd with hold | hnew
      · exact hword d hold
      · rw [List.mem_singleton.mp hnew]
        exact Bool.eq_false_iff.mpr hvisible

theorem mem_intercalate {separator : QChar} {parts : List QString} (h : c ∈ [separator].intercalate parts) :
    c = separator ∨ ∃ part ∈ parts, c ∈ part := by
  induction parts with
  | nil => cases h
  | cons part rest ih =>
    cases rest with
    | nil =>
      rw [List.intercalate_singleton] at h
      exact Or.inr ⟨part, List.mem_cons_self .., h⟩
    | cons next others =>
      rw [List.intercalate_cons_cons] at h
      rcases List.mem_append.mp h with hfirst | hrest
      · rcases List.mem_append.mp hfirst with hpart | hseparator
        · exact Or.inr ⟨part, List.mem_cons_self .., hpart⟩
        · exact Or.inl (List.mem_singleton.mp hseparator)
      · rcases ih hrest with hseparator | ⟨other, hother, hc⟩
        · exact Or.inl hseparator
        · exact Or.inr ⟨other, List.mem_cons_of_mem _ hother, hc⟩

/-- The only white space of a simplified text is the space. -/
theorem mem_simplified (h : c ∈ simplified text) : c = space ∨ isSpace c = false := by
  rcases mem_intercalate h with hspace | ⟨part, hpart, hc⟩
  · exact Or.inl hspace
  · exact Or.inr ((mem_words text (fun c hc => (by cases hc)) hpart).2 c hc)

theorem head_simplified (text : QString) : ∀ c ∈ (simplified text).head?, isSpace c = false := by
  intro c hc
  unfold simplified joinSpace at hc
  cases hwords : words text [] with
  | nil =>
    rw [hwords] at hc
    cases hc
  | cons part rest =>
    obtain ⟨hne, hvisible⟩ := mem_words text (fun c hc => (by cases hc))
      (hwords ▸ List.mem_cons_self .. : part ∈ words text [])
    obtain ⟨d, others, rfl⟩ := List.exists_cons_of_ne_nil hne
    rw [hwords] at hc
    have hhead : ([space].intercalate ((d :: others) :: rest)).head? = some d := by
      cases rest with
      | nil => rw [List.intercalate_singleton, List.head?_cons]
      | cons next more => rw [List.intercalate_cons_cons]; rfl
    rw [hhead] at hc
    rw [← Option.some.inj hc]
    exact hvisible d (List.mem_cons_self ..)

theorem carriageReturn_not_mem_simplified (text : QString) : carriageReturn ∉ simplified text := by
  intro h
  rcases mem_simplified h with hspace | hvisible
  · revert hspace
    decide
  · revert hvisible
    decide

/-! ## Line endings -/

theorem normalizedLineEndings_of_none (h : carriageReturn ∉ text) : normalizedLineEndings text = text := by
  have hjoined : joinedLineEndings text = text := by
    induction text using joinedLineEndings.induct with
    | case1 => rfl
    | case2 c => rfl
    | case3 c d rest hpair =>
      refine absurd ?_ h
      rw [hpair.1]
      exact List.mem_cons_self ..
    | case4 c d rest hpair ih =>
      rw [joinedLineEndings, if_neg hpair, ih fun hmem => h (List.mem_cons_of_mem _ hmem)]
  unfold normalizedLineEndings
  rw [hjoined]
  refine (List.map_congr_left fun c hc => ?_).trans (List.map_id _)
  refine if_neg fun hreturn => h ?_
  rw [← hreturn]
  exact hc

/-- Texts are normalized one by one where no line ending comes between them. -/
theorem normalizedLineEndings_append (h : first.getLast? ≠ some carriageReturn ∨ second.head? ≠ some lineFeed) :
    normalizedLineEndings (first ++ second) = normalizedLineEndings first ++ normalizedLineEndings second := by
  have hjoined : joinedLineEndings (first ++ second) = joinedLineEndings first ++ joinedLineEndings second := by
    induction first using joinedLineEndings.induct with
    | case1 => rfl
    -- a line ending across the cut is what the hypothesis excludes
    | case2 c =>
      cases second with
      | nil => rfl
      | cons d rest =>
        have hpair : ¬ (c = carriageReturn ∧ d = lineFeed) := by
          rintro ⟨rfl, rfl⟩
          simp at h
        show joinedLineEndings (c :: d :: rest) = c :: joinedLineEndings (d :: rest)
        rw [joinedLineEndings, if_neg hpair]
    | case3 c d rest hpair ih =>
      have hrest : rest.getLast? ≠ some carriageReturn ∨ second.head? ≠ some lineFeed := by
        cases rest with
        | nil => exact Or.inl (by simp)
        | cons e others => simpa only [List.getLast?_cons_cons] using h
      rw [List.cons_append, List.cons_append, joinedLineEndings, if_pos hpair, joinedLineEndings, if_pos hpair,
        ih hrest, List.cons_append]
    | case4 c d rest hpair ih =>
      rw [List.getLast?_cons_cons] at h
      rw [List.cons_append, List.cons_append, joinedLineEndings, if_neg hpair, joinedLineEndings, if_neg hpair,
        ← List.cons_append, ih h, List.cons_append]
  unfold normalizedLineEndings
  rw [hjoined, List.map_append]

theorem length_normalizedLineEndings (text : QString) : (normalizedLineEndings text).length ≤ text.length := by
  unfold normalizedLineEndings
  rw [List.length_map]
  induction text using joinedLineEndings.induct with
  | case1 => exact Nat.le_refl _
  | case2 c => exact Nat.le_refl _
  | case3 c d rest hpair ih =>
    rw [joinedLineEndings, if_pos hpair]
    simp only [List.length_cons] at ih ⊢
    omega
  | case4 c d rest hpair ih =>
    rw [joinedLineEndings, if_neg hpair]
    simp only [List.length_cons] at ih ⊢
    omega

theorem carriageReturn_not_mem_normalized (text : QString) : carriageReturn ∉ normalizedLineEndings text := by
  unfold normalizedLineEndings
  intro h
  obtain ⟨c, -, hc⟩ := List.mem_map.mp h
  split at hc
  · revert hc
    decide
  next hne => exact hne hc

/-! ## The cue -/

/-- A cue as it is exported. -/
def exportedCue (display : QString) (maximum : Int) : QByteArray :=
  toUtf8 (normalizedLineEndings (subtitleText display maximum))

theorem wrapped_wrapLines (hmaximum : 0 < maximum) (display : QString) :
    Wrapped maximum (simplified display) (wrapLines maximum (simplified display)) := by
  obtain ⟨out, hout⟩ := wrapped hmaximum _ (simplified display) le_rfl (head_simplified display)
  have hlines : wrapLines maximum (simplified display) = out := by
    unfold wrapLines
    rw [hout.ends [] _ (Nat.lt_succ_self _)]
    rfl
  rw [hlines]
  exact hout

theorem carriageReturn_not_mem_lines {lines : List QString} (h : ∀ line ∈ lines, carriageReturn ∉ line) :
    carriageReturn ∉ joinLines lines := by
  intro hmem
  rcases mem_intercalate hmem with hfeed | ⟨line, hline, hc⟩
  · revert hfeed
    decide
  · exact h line hline hc

/-- The text of a cue has no carriage return and shows what its lines show. -/
theorem subtitleText_spec (display : QString) {limit : Int} (hlimit : 0 < limit) :
    carriageReturn ∉ subtitleText display limit ∧
      visibleChars (subtitleText display limit) =
        (wrapLines limit.toNat (simplified display)).flatMap visibleChars := by
  obtain ⟨maximum, rfl⟩ : ∃ n : Nat, limit = n := ⟨limit.toNat, by omega⟩
  have hwrapped := wrapped_wrapLines (by omega : 0 < maximum) display
  have hreturn := carriageReturn_not_mem_simplified display
  unfold subtitleText
  dsimp only
  split
  next hshort =>
    have hfits : (simplified display).length ≤ maximum := by omega
    exact ⟨hreturn, (hwrapped.kept_iff.mpr (pairsKept_of_short hfits)).symm⟩
  next =>
    refine ⟨carriageReturn_not_mem_lines fun line hline hmem => hreturn (hwrapped.parts line hline _ hmem), ?_⟩
    exact visibleChars_splits.intercalate (by decide) _

/-- **Wrapping.**  For every text and every positive maximum the loop ends, its lines are neither empty nor too
    long, and the exported cue has the visible characters of the text exactly if no turn of the loop cuts a
    surrogate pair. -/
theorem wrapping (display : QString) (maximum : Nat) (hmaximum : 0 < maximum) :
    (∃ lines, (∀ fuel, (simplified display).length < fuel →
        run (wrapTurn maximum) fuel ([], simplified display) = some lines) ∧
      ∀ line ∈ lines, line ≠ [] ∧ line.length ≤ maximum) ∧
    (decodedVisible (exportedCue display maximum) = some (visibleChars display) ↔
      PairsKept maximum (simplified display)) := by
  have hwrapped := wrapped_wrapLines hmaximum display
  refine ⟨⟨_, fun fuel hfuel => hwrapped.ends [] fuel hfuel, fun line hline => ⟨hwrapped.ne_nil line hline,
    hwrapped.short line hline⟩⟩, ?_⟩
  obtain ⟨hreturn, hvisible⟩ := subtitleText_spec display (Int.natCast_pos.mpr hmaximum)
  unfold exportedCue
  rw [normalizedLineEndings_of_none hreturn, decodedVisible_toUtf8, hvisible, Option.some.injEq,
    ← visibleChars_splits.simplified display]
  exact hwrapped.kept_iff

theorem wrapping_words :
    (∃ lines, (∀ fuel, (simplified (qs "good morning")).length < fuel →
        run (wrapTurn 5) fuel ([], simplified (qs "good morning")) = some lines) ∧
      ∀ line ∈ lines, line ≠ [] ∧ line.length ≤ 5) ∧
    (decodedVisible (exportedCue (qs "good morning") (5 : Nat)) = some (visibleChars (qs "good morning")) ↔
      PairsKept 5 (simplified (qs "good morning"))) :=
  wrapping (qs "good morning") 5 (by decide)

/-- **A pair cut in two**: an emoji behind a letter, in lines of two units. -/
theorem wrapping_emoji :
    ¬ ∀ (display : QString) (maximum : Nat), WellFormed display → 0 < maximum →
      decodedVisible (exportedCue display maximum) = some (visibleChars display) := by
  intro h
  have hformed : WellFormed [0x61, 0xD83D, 0xDE00] := by
    refine ⟨by decide, fun c hc => ?_, fun c hc => ?_⟩
    · rw [← Option.some.inj hc]
      decide
    · rw [← Option.some.inj hc]
      decide
  have hsame := h [0x61, 0xD83D, 0xDE00] 2 hformed (by decide)
  unfold exportedCue at hsame
  rw [decodedVisible_toUtf8] at hsame
  revert hsame
  decide

end BreezeDesk
