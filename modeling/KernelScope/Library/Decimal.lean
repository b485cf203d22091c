import Mathlib.Data.Int.Notation
import Mathlib.Algebra.Ring.Nat
import Mathlib.Logic.Function.Basic
import Mathlib.Tactic.Common

/-!
# Printed numbers

Texts are lists of bytes.  Natural numbers are printed in decimal.  Nonnegative
floating-point numbers of the binary64 format are fractions of two natural
numbers here; they are rounded to nearest with ties to even, and printed with a
fixed number of places.
-/

namespace KernelScope.Decimal

/-- The bytes of a string. -/
def ascii (text : String) : List UInt8 :=
  text.toByteArray.data.toList

theorem ascii_injective : Function.Injective ascii := by
  intro left right heq
  have hbytes : left.toByteArray = right.toByteArray :=
    ByteArray.ext (Array.toList_inj.mp heq)
  exact String.toByteArray_inj.mp hbytes

theorem ascii_append (left right : String) :
    ascii (left ++ right) = ascii left ++ ascii right := by
  simp [ascii]

theorem ascii_ofList (chars : List Char) :
    ascii (String.ofList chars) = chars.flatMap String.utf8EncodeChar := by
  simp [ascii, String.toByteArray_ofList, List.utf8Encode]

/-- The digits and the decimal point. -/
def IsNumeric (c : UInt8) : Prop :=
  48 ≤ c ∧ c ≤ 57 ∨ c = 46

instance decidableIsNumeric (c : UInt8) : Decidable (IsNumeric c) :=
  inferInstanceAs (Decidable (_ ∨ _))

/-! ## Natural numbers -/

def decimal (n : ℕ) : List UInt8 :=
  ascii n.repr

theorem decimal_injective : Function.Injective decimal := by
  intro left right heq
  have hdigits : Nat.toDigits 10 left = Nat.toDigits 10 right := by
    rw [← Nat.toList_repr, ← Nat.toList_repr, ascii_injective heq]
  rw [← @Nat.ofDigitChars_ten_toDigits left, hdigits, Nat.ofDigitChars_ten_toDigits]

theorem isNumeric_utf8EncodeChar {c : Char} (hdigit : c.isDigit = true) :
    ∀ byte ∈ String.utf8EncodeChar c, IsNumeric byte := by
  simp only [Char.isDigit, Bool.and_eq_true, decide_eq_true_eq, ge_iff_le] at hdigit
  obtain ⟨hlow, hhigh⟩ := hdigit
  rw [UInt32.le_iff_toNat_le] at hlow hhigh
  have hbound : c.val.toNat ≤ 57 := hhigh
  intro byte hbyte
  rw [String.utf8EncodeChar, if_pos (by omega), List.mem_singleton] at hbyte
  subst hbyte
  left
  rw [UInt8.le_iff_toNat_le, UInt8.le_iff_toNat_le,
    UInt8.toNat_ofNat_of_lt' (Nat.lt_of_le_of_lt hbound (by decide))]
  exact ⟨hlow, hhigh⟩

theorem isNumeric_decimal {n : ℕ} : ∀ c ∈ decimal n, IsNumeric c := by
  intro c hc
  rw [decimal, Nat.repr, ascii_ofList] at hc
  obtain ⟨digit, hdigit, hc⟩ := List.mem_flatMap.mp hc
  exact isNumeric_utf8EncodeChar
    (Nat.isDigit_of_mem_toDigits (by decide) (by decide) hdigit) c hc

/-! ## Floating-point numbers -/

/-- The integer nearest to `num / den`, the even one of two. -/
def roundHalfEven (num den : ℕ) : ℕ :=
  let quotient := num / den
  let rest := num % den
  if 2 * rest < den then quotient
  else if den < 2 * rest then quotient + 1
  else quotient + quotient % 2

/-- `num / den * 2 ^ bits` -/
def scale (num den : ℕ) (bits : ℤ) : ℕ × ℕ :=
  (num * 2 ^ bits.toNat, den * 2 ^ (-bits).toNat)

/-- How far `num / den` is scaled up for a significand of 53 bits. -/
def significandShift (num den : ℕ) : ℤ :=
  -- scaled by this much, the fraction lies between 2 ^ 51 and 2 ^ 53
  let bits : ℤ := 52 + den.log2 - num.log2
  let (num, den) := scale num den bits
  if num / den < 2 ^ 52 then bits + 1 else bits

/-- The binary64 number nearest to a fraction in the range of the normal
numbers, and zero for zero. -/
def nearest (num den : ℕ) : ℕ × ℕ :=
  let bits := significandShift num den
  let (num, den) := scale num den bits
  scale (roundHalfEven num den) 1 (-bits)

/-- A fraction printed with `places` digits after the point. -/
def fixed (places num den : ℕ) : List UInt8 :=
  let digits := roundHalfEven (num * 10 ^ places) den
  decimal (digits / 10 ^ places) ++ ascii "." ++
    (decimal (digits % 10 ^ places)).leftpad places 48

theorem isNumeric_fixed {places num den : ℕ} :
    ∀ c ∈ fixed places num den, IsNumeric c := by
  intro c hc
  rw [fixed, List.mem_append, List.mem_append] at hc
  rcases hc with (hc | hc) | hc
  · exact isNumeric_decimal c hc
  · have hpoint : ascii "." = [46] := by decide
    rw [hpoint, List.mem_singleton] at hc
    exact .inr hc
  · rw [List.leftpad, List.mem_append] at hc
    rcases hc with hc | hc
    · rw [List.eq_of_mem_replicate hc]
      decide
    · exact isNumeric_decimal c hc

end KernelScope.Decimal
