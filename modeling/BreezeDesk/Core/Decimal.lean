/-
  Decimal numbers in texts: `QString::number`, and `QString::arg` with a width and the fill character `0`.

  A number is written with its decimal digits and filled up with zeros to the left; reading the digits gives
  the number back, however wide it is written (`toNumber_zeroPadded`).
-/
import BreezeDesk.Core.Text
import Mathlib.Tactic.Common

namespace BreezeDesk

/-- `QString::number`. -/
def decimal (n : Nat) : QString := qs (toString n)

/-- `QString::arg(n, width, 10, QLatin1Char('0'))`. -/
def zeroPadded (width n : Nat) : QString := List.leftpad width 0x30 (decimal n)

/-- The character of a code unit. -/
def unitChar (c : QChar) : Char := Char.ofNat c.toNat

def isDigit (c : QChar) : Bool := 0x30 ≤ c && c ≤ 0x39

/-- The number that a text of digits stands for. -/
def toNumber (text : QString) : Option Nat :=
  if !text.isEmpty && text.all isDigit then some (Nat.ofDigitChars 10 (text.map unitChar) 0) else none

/-! ## Numbers with a sign -/

def minusSign : QChar := 0x2D

def plusSign : QChar := 0x2B

/-- `int`. -/
def IsInt (value : Int) : Prop := -2147483648 ≤ value ∧ value ≤ 2147483647

instance (value : Int) : Decidable (IsInt value) := inferInstanceAs (Decidable (_ ∧ _))

/-- The number that digits with a sign before them stand for. -/
def toSigned (text : QString) : Option Int :=
  match trimmed text with
  | [] => none
  | c :: digits =>
    if c = minusSign then (toNumber digits).map fun n => -(n : Int)
    else if c = plusSign then (toNumber digits).map Int.ofNat
    else (toNumber (c :: digits)).map Int.ofNat

/-- `QString::toInt`. -/
def QString.toInt (text : QString) : Option Int :=
  (toSigned text).filter fun value => IsInt value

/-- `QString::toLongLong`: zero where the text is no such number. -/
def QString.toLongLong (text : QString) : Int64 :=
  match toSigned text with
  | some value =>
    if Int64.minValue.toInt ≤ value ∧ value ≤ Int64.maxValue.toInt then Int64.ofInt value else 0
  | none => 0

variable {n width : Nat}

theorem isDigit_iff {c : QChar} : isDigit c = true ↔ 0x30 ≤ c.toNat ∧ c.toNat ≤ 0x39 := by
  unfold isDigit
  rw [Bool.and_eq_true, decide_eq_true_eq, decide_eq_true_eq, UInt16.le_iff_toNat_le, UInt16.le_iff_toNat_le]
  exact Iff.rfl

theorem decimal_eq (n : Nat) : decimal n = (Nat.toDigits 10 n).map fun c => UInt16.ofNat c.toNat := by
  unfold decimal qs
  rw [Nat.toString_eq_ofList_toDigits, String.toList_ofList]

theorem decimal_ne_nil (n : Nat) : decimal n ≠ [] := by
  rw [decimal_eq]
  exact fun h => Nat.toDigits_ne_nil (List.map_eq_nil_iff.mp h)

/-- A digit as a code unit, and back. -/
theorem toNat_of_isDigit {c : Char} (h : c.isDigit = true) :
    (UInt16.ofNat c.toNat).toNat = c.toNat ∧ 0x30 ≤ c.toNat ∧ c.toNat ≤ 0x39 := by
  have hrange : 0x30 ≤ c.toNat ∧ c.toNat ≤ 0x39 := by
    unfold Char.isDigit at h
    rw [Bool.and_eq_true, decide_eq_true_eq, decide_eq_true_eq] at h
    exact ⟨UInt32.le_iff_toNat_le.mp h.1, UInt32.le_iff_toNat_le.mp h.2⟩
  refine ⟨?_, hrange⟩
  rw [UInt16.toNat_ofNat']
  omega

theorem isDigit_of_mem_decimal {c : QChar} (h : c ∈ decimal n) : isDigit c = true := by
  rw [decimal_eq] at h
  obtain ⟨d, hd, rfl⟩ := List.mem_map.mp h
  obtain ⟨hsame, hrange⟩ := toNat_of_isDigit (Nat.isDigit_of_mem_toDigits (by decide) (by decide) hd)
  rw [isDigit_iff, hsame]
  exact hrange

theorem unitChars_decimal (n : Nat) : (decimal n).map unitChar = Nat.toDigits 10 n := by
  rw [decimal_eq, List.map_map]
  refine (List.map_congr_left fun c hc => ?_).trans (List.map_id _)
  obtain ⟨hsame, -⟩ := toNat_of_isDigit (Nat.isDigit_of_mem_toDigits (by decide) (by decide) hc)
  show Char.ofNat (UInt16.ofNat c.toNat).toNat = c
  rw [hsame]
  exact Char.ofNat_toNat c

theorem zeroPadded_eq (width n : Nat) :
    zeroPadded width n = List.replicate (width - (decimal n).length) 0x30 ++ decimal n := rfl

theorem isDigit_of_mem_zeroPadded {c : QChar} (h : c ∈ zeroPadded width n) : isDigit c = true := by
  rw [zeroPadded_eq] at h
  rcases List.mem_append.mp h with hzero | hdigit
  · rw [List.eq_of_mem_replicate hzero]
    decide
  · exact isDigit_of_mem_decimal hdigit

theorem zeroPadded_ne_nil (width n : Nat) : zeroPadded width n ≠ [] := by
  rw [zeroPadded_eq]
  exact List.append_ne_nil_of_right_ne_nil _ (decimal_ne_nil n)

/-- A number that is small enough is exactly as wide as asked for. -/
theorem length_zeroPadded (hwidth : 0 < width) (h : n < 10 ^ width) : (zeroPadded width n).length = width := by
  have hshort : (decimal n).length ≤ width := by
    rw [decimal_eq, List.length_map]
    exact (Nat.length_toDigits_le_iff (by decide) hwidth).mpr h
  rw [zeroPadded_eq, List.length_append, List.length_replicate]
  omega

/-- **Reading back.** -/
theorem toNumber_zeroPadded (width n : Nat) : toNumber (zeroPadded width n) = some n := by
  have hdigits : (!(zeroPadded width n).isEmpty && (zeroPadded width n).all isDigit) = true := by
    rw [Bool.and_eq_true, Bool.not_eq_true', List.isEmpty_eq_false_iff, List.all_eq_true]
    exact ⟨zeroPadded_ne_nil width n, fun c hc => isDigit_of_mem_zeroPadded hc⟩
  unfold toNumber
  rw [if_pos hdigits, zeroPadded_eq, List.map_append, List.map_replicate, unitChars_decimal, Nat.ofDigitChars_append]
  show some (Nat.ofDigitChars 10 _ (Nat.ofDigitChars 10 (List.replicate _ '0') 0)) = some n
  rw [Nat.ofDigitChars_replicate_zero, Nat.mul_zero, Nat.ofDigitChars_ten_toDigits]

theorem toNumber_decimal (n : Nat) : toNumber (decimal n) = some n := by
  have hnone := toNumber_zeroPadded 0 n
  rwa [zeroPadded_eq, Nat.zero_sub, List.replicate_zero, List.nil_append] at hnone

theorem isSpace_of_isDigit {c : QChar} (h : isDigit c = true) : isSpace c = false := by
  obtain ⟨hlow, hhigh⟩ := isDigit_iff.mp h
  unfold isSpace
  simp only [Bool.or_eq_false_iff, Bool.and_eq_false_iff, beq_eq_false_iff_ne, decide_eq_false_iff_not]
  omega

/-- A number without a sign is read back. -/
theorem toInt_decimal {n : Nat} (h : IsInt n) : (decimal n).toInt = some (n : Int) := by
  have hnumber := toNumber_decimal n
  unfold QString.toInt toSigned
  rw [trimmed_of_visible fun c hc => isSpace_of_isDigit (isDigit_of_mem_decimal hc)]
  cases hdigits : decimal n with
  | nil => exact absurd hdigits (decimal_ne_nil n)
  | cons c digits =>
    have hdigit : isDigit c = true := isDigit_of_mem_decimal (n := n) (hdigits ▸ List.mem_cons_self ..)
    have hminus : c ≠ minusSign := fun hc => absurd (hc ▸ hdigit) (by decide)
    have hplus : c ≠ plusSign := fun hc => absurd (hc ▸ hdigit) (by decide)
    rw [hdigits] at hnumber
    simp only [if_neg hminus, if_neg hplus, hnumber, Option.map_some]
    exact Option.filter_some_pos (decide_eq_true h)

end BreezeDesk
