/-
  Reading UTF-8: `QString::fromUtf8`.

  The reader takes the bytes one sequence after the other; a byte that begins no sequence becomes a
  replacement character, and a byte order mark in front is skipped.

  Every surrogate without its other half has become a question mark when it was written (`wireText`), and
  that is all that is lost: the reader gives back `wireText` of the text (`unitsFrom_toUtf8`).
-/
import BreezeDesk.Transcript.Wrapping

namespace BreezeDesk

/-! ## The reader -/

/-- `QUtf8Functions::isContinuationByte`. -/
def isContinuation (b : UInt8) : Bool := 0x80 ≤ b && b < 0xC0

/-- The code point that so many continuation bytes complete. -/
def codePoint : Nat → Nat → QByteArray → Option Nat
  | 0, u, _ => some u
  | _ + 1, _, [] => none
  | n + 1, u, b :: rest => if isContinuation b then codePoint n (u * 64 + (b.toNat - 0x80)) rest else none

/-- What a leading byte stands for: the number of continuation bytes, its own bits, and the least code
    point of such a sequence. -/
def utf8Lead (b : UInt8) : Option (Nat × Nat × Nat) :=
  let v := b.toNat
  if v < 0x80 then some (0, v, 0)
  else if v < 0xC0 then none
  else if v < 0xE0 then some (1, v - 0xC0, 0x80)
  else if v < 0xF0 then some (2, v - 0xE0, 0x800)
  else if v < 0xF8 then some (3, v - 0xF0, 0x10000)
  else none

/-- The code units of a code point. -/
def utf16Units (u : Nat) : QString :=
  if u < 0x10000 then [UInt16.ofNat u]
  else [UInt16.ofNat (0xD800 + (u - 0x10000) / 1024), UInt16.ofNat (0xDC00 + (u - 0x10000) % 1024)]

/-- `QUtf8Functions::fromUtf8`: the code units of the sequence that begins here, and the number of its
    continuation bytes. -/
def utf8Sequence (b : UInt8) (rest : QByteArray) : Option (QString × Nat) := do
  let (needed, bits, least) ← utf8Lead b
  let u ← codePoint needed bits rest
  if u < least ∨ (0xD800 ≤ u ∧ u ≤ 0xDFFF) ∨ 0x10FFFF < u then none else some (utf16Units u, needed)

/-- The code units of bytes, of which the first ones belong to a sequence that has been read. -/
def unitsFrom : Nat → QByteArray → QString
  | _, [] => []
  | skip + 1, _ :: rest => unitsFrom skip rest
  | 0, b :: rest =>
    match utf8Sequence b rest with
    | some (units, needed) => units ++ unitsFrom needed rest
    | none => 0xFFFD :: unitsFrom 0 rest

def byteOrderMark : QByteArray := [0xEF, 0xBB, 0xBF]

/-- `QString::fromUtf8`. -/
def QString.fromUtf8 (bytes : QByteArray) : QString :=
  unitsFrom 0 (if bytes.take 3 == byteOrderMark then bytes.drop 3 else bytes)

/-! ## Reading back -/

variable {c : QChar} {rest : QByteArray}

theorem isContinuation_ofNat {n : Nat} (h : n < 64) :
    isContinuation (UInt8.ofNat (0x80 + n)) = true ∧ (UInt8.ofNat (0x80 + n)).toNat - 0x80 = n := by
  have hnat : (UInt8.ofNat (0x80 + n)).toNat = 0x80 + n := by
    rw [UInt8.toNat_ofNat']
    omega
  unfold isContinuation
  rw [Bool.and_eq_true, decide_eq_true_eq, decide_eq_true_eq, UInt8.le_iff_toNat_le, UInt8.lt_iff_toNat_lt, hnat]
  refine ⟨⟨?_, ?_⟩, ?_⟩
  · show 0x80 ≤ 0x80 + n
    omega
  · show 0x80 + n < 0xC0
    omega
  · omega

theorem codePoint_cons {needed u n : Nat} (h : n < 64) :
    codePoint (needed + 1) u (UInt8.ofNat (0x80 + n) :: rest) = codePoint needed (u * 64 + n) rest := by
  obtain ⟨hcontinuation, hvalue⟩ := isContinuation_ofNat h
  rw [codePoint, if_pos hcontinuation, hvalue]

theorem unitsFrom_skip (front : QByteArray) : unitsFrom front.length (front ++ rest) = unitsFrom 0 rest := by
  induction front with
  | nil => rfl
  | cons b front ih => exact ih

/-- A sequence is read as a whole. -/
theorem unitsFrom_sequence {b : UInt8} {u : Nat} (tail : QByteArray) (bits least : Nat)
    (hlead : utf8Lead b = some (tail.length, bits, least)) (hpoint : codePoint tail.length bits (tail ++ rest) = some u)
    (hvalid : least ≤ u ∧ (u < 0xD800 ∨ 0xDFFF < u) ∧ u ≤ 0x10FFFF) :
    unitsFrom 0 (b :: tail ++ rest) = utf16Units u ++ unitsFrom 0 rest := by
  have hsequence : utf8Sequence b (tail ++ rest) = some (utf16Units u, tail.length) := by
    unfold utf8Sequence
    rw [hlead, Option.bind_eq_bind, Option.bind_some]
    dsimp only
    rw [hpoint, Option.bind_eq_bind, Option.bind_some, if_neg (by omega)]
  rw [List.cons_append, unitsFrom, hsequence]
  show utf16Units u ++ unitsFrom tail.length (tail ++ rest) = _
  rw [unitsFrom_skip]

theorem utf8Lead_ofNat {v : Nat} (h : v < 256) : utf8Lead (UInt8.ofNat v) =
    if v < 0x80 then some (0, v, 0) else if v < 0xC0 then none else if v < 0xE0 then some (1, v - 0xC0, 0x80)
    else if v < 0xF0 then some (2, v - 0xE0, 0x800) else if v < 0xF8 then some (3, v - 0xF0, 0x10000) else none := by
  have hnat : (UInt8.ofNat v).toNat = v := by
    rw [UInt8.toNat_ofNat']
    omega
  unfold utf8Lead
  rw [hnat]

/-- One code unit is read back, or the question mark in its place; one case for each length. -/
theorem unitsFrom_utf8Unit (c : QChar) : unitsFrom 0 (utf8Unit c ++ rest) = wireUnit c :: unitsFrom 0 rest := by
  have hunit := c.toNat_lt
  cases hsurrogate : isHighSurrogate c || isLowSurrogate c with
  | true =>
    have hmark : wireUnit c = 0x3F := if_pos hsurrogate
    rw [← utf8Unit_wireUnit, hmark]
    rfl
  | false =>
    rw [wireUnit_eq_self hsurrogate]
    have hplain : ¬ (0xD800 ≤ c.toNat ∧ c.toNat ≤ 0xDFFF) := by
      rw [(isSurrogate_eq c).1, (isSurrogate_eq c).2, Bool.or_eq_false_iff, ← Bool.not_eq_true, ← Bool.not_eq_true,
        isHighSurrogate_iff, isLowSurrogate_iff] at hsurrogate
      omega
    have hread : utf16Units c.toNat = [c] := by
      unfold utf16Units
      rw [if_pos (by omega), UInt16.ofNat_toNat]
    rw [← List.singleton_append, ← hread]
    unfold utf8Unit
    dsimp only
    by_cases hone : c.toNat < 0x80
    · rw [if_pos hone]
      refine unitsFrom_sequence [] c.toNat 0 ?_ rfl ⟨Nat.zero_le _, by omega, by omega⟩
      rw [utf8Lead_ofNat (by omega), if_pos hone]
      rfl
    · rw [if_neg hone]
      by_cases htwo : c.toNat < 0x800
      · rw [if_pos htwo]
        refine unitsFrom_sequence _ (c.toNat / 64) 0x80 ?_ ?_ ⟨by omega, by omega, by omega⟩
        · rw [utf8Lead_ofNat (by omega), if_neg (by omega), if_neg (by omega), if_pos (by omega), Nat.add_sub_cancel_left]
          rfl
        · show codePoint 1 _ _ = _
          rw [List.singleton_append, codePoint_cons (by omega), codePoint]
          exact congrArg some (by omega)
      · rw [if_neg htwo, hsurrogate, if_neg Bool.false_ne_true]
        refine unitsFrom_sequence _ (c.toNat / 4096) 0x800 ?_ ?_ ⟨by omega, by omega, by omega⟩
        · rw [utf8Lead_ofNat (by omega), if_neg (by omega), if_neg (by omega), if_neg (by omega), if_pos (by omega),
            Nat.add_sub_cancel_left]
          rfl
        · show codePoint 2 _ (_ :: _ :: _) = _
          rw [codePoint_cons (by omega), codePoint_cons (by omega), codePoint]
          exact congrArg some (by omega)

theorem unitsFrom_utf8Pair {high low : QChar} (hhigh : isHighSurrogate high = true) (hlow : isLowSurrogate low = true) :
    unitsFrom 0 (utf8Pair high low ++ rest) = high :: low :: unitsFrom 0 rest := by
  rw [(isSurrogate_eq high).1, isHighSurrogate_iff] at hhigh
  rw [(isSurrogate_eq low).2, isLowSurrogate_iff] at hlow
  unfold utf8Pair
  dsimp only
  generalize hu : 0x10000 + 1024 * (high.toNat - 0xD800) + (low.toNat - 0xDC00) = u
  have hread : utf16Units u = [high, low] := by
    unfold utf16Units
    rw [if_neg (by omega), show 0xD800 + (u - 0x10000) / 1024 = high.toNat by omega,
      show 0xDC00 + (u - 0x10000) % 1024 = low.toNat by omega, UInt16.ofNat_toNat, UInt16.ofNat_toNat]
  have hcons : high :: low :: unitsFrom 0 rest = utf16Units u ++ unitsFrom 0 rest := by
    rw [hread]
    rfl
  rw [hcons]
  refine unitsFrom_sequence _ (u / 262144) 0x10000 ?_ ?_ ⟨by omega, by omega, by omega⟩
  · rw [utf8Lead_ofNat (by omega), if_neg (by omega), if_neg (by omega), if_neg (by omega), if_neg (by omega),
      if_pos (by omega), Nat.add_sub_cancel_left]
    rfl
  · show codePoint 3 _ (_ :: _ :: _ :: _) = _
    rw [codePoint_cons (by omega), codePoint_cons (by omega), codePoint_cons (by omega), codePoint]
    exact congrArg some (by omega)

/-- **Reading back** what has been written. -/
theorem unitsFrom_toUtf8 (text : QString) : unitsFrom 0 (toUtf8 text) = wireText text := by
  fun_induction wireText text with
  | case1 => rfl
  | case2 c =>
    have hread := @unitsFrom_utf8Unit [] c
    rw [List.append_nil] at hread
    exact hread
  | case3 c d rest hpair ih =>
    obtain ⟨hhigh, hlow⟩ := Bool.and_eq_true_iff.mp hpair
    rw [toUtf8, if_pos hpair, unitsFrom_utf8Pair hhigh hlow, ih]
  | case4 c d rest hpair ih => rw [toUtf8, if_neg hpair, unitsFrom_utf8Unit, ih]

/-! ## What is lost -/

variable {text first second : QString}

/-- **Nothing is lost** exactly of a text whose surrogates are paired. -/
theorem wireText_eq_self_iff : wireText text = text ↔ PairedSurrogates text = true := by
  refine ⟨fun h => ?_, wireText_of_paired⟩
  have hunit : ∀ c, wireUnit c = c → (isHighSurrogate c || isLowSurrogate c) = false := by
    intro c hc
    cases hsurrogate : isHighSurrogate c || isLowSurrogate c with
    | false => rfl
    | true =>
      have hmark : wireUnit c = 0x3F := if_pos hsurrogate
      rw [← hc, hmark] at hsurrogate
      revert hsurrogate
      decide
  fun_induction wireText text with
  | case1 => rfl
  | case2 c =>
    rw [PairedSurrogates, hunit c (List.cons.inj h).1]
    rfl
  | case3 c d rest hpair ih =>
    rw [PairedSurrogates, if_pos hpair]
    exact ih (List.cons.inj (List.cons.inj h).2).2
  | case4 c d rest hpair ih =>
    obtain ⟨hc, hrest⟩ := List.cons.inj h
    rw [PairedSurrogates, if_neg hpair, hunit c hc, ih hrest]
    rfl

/-- Texts lose their surrogates one by one where the second begins with none. -/
theorem wireText_append (hsecond : ∀ c ∈ second.head?, isLowSurrogate c = false) :
    wireText (first ++ second) = wireText first ++ wireText second := by
  fun_induction wireText first with
  | case1 => rfl
  | case2 c =>
    cases second with
    | nil => rw [List.append_nil, wireText, wireText, List.append_nil]
    | cons d rest =>
      have hpair : ¬ (isHighSurrogate c && isLowSurrogate d) = true := by
        rw [hsecond d rfl, Bool.and_false]
        exact Bool.false_ne_true
      rw [List.singleton_append, wireText, if_neg hpair, List.singleton_append]
  | case3 c d rest hpair ih =>
    rw [List.cons_append, List.cons_append, wireText, if_pos hpair, ih, List.cons_append, List.cons_append]
  | case4 c d rest hpair ih =>
    rw [List.cons_append, List.cons_append, wireText, if_neg hpair, ← List.cons_append, ih, List.cons_append]

theorem wireText_cons (hhigh : isHighSurrogate c = false) (hlow : isLowSurrogate c = false) (text : QString) :
    wireText (c :: text) = c :: wireText text := by
  have hunit : wireUnit c = c := wireUnit_eq_self (by rw [hhigh, hlow]; rfl)
  cases text with
  | nil => exact congrArg (fun unit => [unit]) hunit
  | cons d rest =>
    rw [wireText, if_neg (by rw [hhigh, Bool.false_and]; exact Bool.false_ne_true), hunit]

/-- The question mark is all that comes in. -/
theorem mem_wireText (h : c ∈ wireText text) : c ∈ text ∨ c = 0x3F := by
  have hunit : ∀ d, wireUnit d = d ∨ wireUnit d = 0x3F := by
    intro d
    unfold wireUnit
    split
    · exact Or.inr rfl
    · exact Or.inl rfl
  fun_induction wireText text with
  | case1 => cases h
  | case2 d =>
    rw [List.mem_singleton] at h ⊢
    exact (hunit d).imp (h.trans ·) (h.trans ·)
  | case3 d e rest hpair ih =>
    rcases List.mem_cons.mp h with rfl | h
    · exact Or.inl (List.mem_cons_self ..)
    rcases List.mem_cons.mp h with rfl | h
    · exact Or.inl (List.mem_cons_of_mem _ (List.mem_cons_self ..))
    · exact (ih h).imp_left fun hmem => List.mem_cons_of_mem _ (List.mem_cons_of_mem _ hmem)
  | case4 d e rest hpair ih =>
    rcases List.mem_cons.mp h with rfl | h
    · refine (hunit d).imp_left fun hsame => ?_
      rw [hsame]
      exact List.mem_cons_self ..
    · exact (ih h).imp_left (List.mem_cons_of_mem _)

end BreezeDesk
