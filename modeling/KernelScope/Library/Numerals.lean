import KernelScope.Library.Decimal
import Mathlib.Tactic.IntervalCases

/-!
# Numerals

Printed numbers in any base up to sixteen, and what their digits are worth.
Upper and lower case are read alike; the printer writes lower case.
-/

namespace KernelScope.Numerals

open KernelScope.Decimal

/-- What a byte is worth as a digit. -/
def digitValue (c : UInt8) : Option ℕ :=
  if 48 ≤ c ∧ c ≤ 57 then some (c.toNat - 48)
  else if 97 ≤ c ∧ c ≤ 102 then some (c.toNat - 87)
  else if 65 ≤ c ∧ c ≤ 70 then some (c.toNat - 55)
  else none

/-- The byte is a digit of the base. -/
def isDigit (base : ℕ) (c : UInt8) : Bool :=
  (digitValue c).any (· < base)

/-- The number that a row of digits stands for. -/
def valueOf (base : ℕ) (digits : List UInt8) : ℕ :=
  digits.foldl (fun value c => base * value + (digitValue c).getD 0) 0

/-- Read a whole text as a number. -/
def readNumeral (base : ℕ) (text : List UInt8) : Option ℕ :=
  if text ≠ [] ∧ text.all (isDigit base) then some (valueOf base text) else none

theorem readNumeral_eq_some_iff {base n : ℕ} {text : List UInt8} :
    readNumeral base text = some n ↔
      (text ≠ [] ∧ text.all (isDigit base) = true) ∧ valueOf base text = n := by
  rw [readNumeral, Option.ite_none_right_eq_some, Option.some_inj]

/-- A number as it is printed, without leading zeros. -/
def numeral (base n : ℕ) : List UInt8 :=
  ascii (String.ofList (Nat.toDigits base n))

theorem decimal_eq_numeral (n : ℕ) : decimal n = numeral 10 n := by
  rw [decimal, Nat.repr_eq_ofList_toDigits, numeral]

/-- The byte of one digit. -/
def digitByte (d : ℕ) : UInt8 :=
  if d < 10 then UInt8.ofNat (48 + d) else UInt8.ofNat (87 + d)

theorem utf8EncodeChar_digitChar {d : ℕ} (hd : d < 16) :
    String.utf8EncodeChar (Nat.digitChar d) = [digitByte d] := by
  interval_cases d <;> decide

theorem digitValue_digitByte {d : ℕ} (hd : d < 16) :
    digitValue (digitByte d) = some d := by
  interval_cases d <;> decide

theorem isDigit_digitByte {base d : ℕ} (hbase : base ≤ 16) (hd : d < base) :
    isDigit base (digitByte d) = true := by
  simp [isDigit, digitValue_digitByte (hd.trans_le hbase), hd]

theorem valueOf_append (base : ℕ) (front : List UInt8) (c : UInt8) :
    valueOf base (front ++ [c]) = base * valueOf base front + (digitValue c).getD 0 := by
  rw [valueOf, List.foldl_append]
  rfl

/-- Leading zeros count nothing. -/
theorem valueOf_leftpad (base width : ℕ) (digits : List UInt8) :
    valueOf base (digits.leftpad width 48) = valueOf base digits := by
  have hzero : (digitValue 48).getD 0 = 0 := by decide
  rw [List.leftpad, valueOf, List.foldl_append, valueOf]
  congr 1
  generalize width - digits.length = count
  induction count with
  | zero => rfl
  | succ count ih => rw [List.replicate_succ, List.foldl_cons, hzero, Nat.mul_zero, ih]

theorem readNumeral_leftpad {base n : ℕ} (hbase : 0 < base) (width : ℕ)
    {digits : List UInt8} (hread : readNumeral base digits = some n) :
    readNumeral base (digits.leftpad width 48) = some n := by
  obtain ⟨⟨hne, hdigits⟩, hvalue⟩ := readNumeral_eq_some_iff.mp hread
  have hzero : isDigit base 48 = true := decide_eq_true hbase
  refine readNumeral_eq_some_iff.mpr ⟨⟨?_, ?_⟩, ?_⟩
  · rw [List.leftpad]
    exact List.append_ne_nil_of_right_ne_nil _ hne
  · rw [List.leftpad, List.all_append, List.all_replicate, hdigits, hzero]
    simp
  · rw [valueOf_leftpad, hvalue]

section Printing

variable {base : ℕ} (hlow : 1 < base) (hhigh : base ≤ 16)

include hlow hhigh

/-- The last digit is the rest of the division by the base. -/
theorem numeral_eq (n : ℕ) :
    numeral base n =
      if n < base then [digitByte n] else numeral base (n / base) ++ [digitByte (n % base)] := by
  rw [numeral, ascii_ofList, Nat.toDigits_eq_if hlow]
  split
  next hlt => simp [utf8EncodeChar_digitChar (hlt.trans_le hhigh)]
  next =>
    have hmod : n % base < 16 := (Nat.mod_lt _ (Nat.zero_lt_of_lt hlow)).trans_le hhigh
    rw [List.flatMap_append, numeral, ascii_ofList]
    simp [utf8EncodeChar_digitChar hmod]

theorem numeral_ne_nil (n : ℕ) : numeral base n ≠ [] := by
  rw [numeral_eq hlow hhigh]
  split <;> simp

theorem all_isDigit_numeral (n : ℕ) : (numeral base n).all (isDigit base) = true := by
  have hpos : 0 < base := Nat.zero_lt_of_lt hlow
  induction n using Nat.strong_induction_on with
  | _ n ih =>
      rw [numeral_eq hlow hhigh]
      split
      next hlt => simp [isDigit_digitByte hhigh hlt]
      next hge =>
        have hquotient : n / base < n := Nat.div_lt_self (by omega) hlow
        rw [List.all_append, ih _ hquotient]
        simp [isDigit_digitByte hhigh (Nat.mod_lt n hpos)]

theorem notMem_numeral {c : UInt8} (hc : isDigit base c = false) (n : ℕ) :
    c ∉ numeral base n := by
  intro hmem
  have hdigit := List.all_eq_true.mp (all_isDigit_numeral hlow hhigh n) c hmem
  exact absurd hdigit (ne_true_of_eq_false hc)

theorem valueOf_numeral (n : ℕ) : valueOf base (numeral base n) = n := by
  have hpos : 0 < base := Nat.zero_lt_of_lt hlow
  induction n using Nat.strong_induction_on with
  | _ n ih =>
      rw [numeral_eq hlow hhigh]
      split
      next hlt =>
        rw [valueOf]
        simp [digitValue_digitByte (hlt.trans_le hhigh)]
      next hge =>
        have hquotient : n / base < n := Nat.div_lt_self (by omega) hlow
        have hmod : n % base < 16 := (Nat.mod_lt n hpos).trans_le hhigh
        rw [valueOf_append, ih _ hquotient, digitValue_digitByte hmod, Option.getD_some]
        exact Nat.div_add_mod n base

/-- A printed number is read back. -/
theorem readNumeral_numeral (n : ℕ) : readNumeral base (numeral base n) = some n := by
  rw [readNumeral_eq_some_iff]
  exact ⟨⟨numeral_ne_nil hlow hhigh n, all_isDigit_numeral hlow hhigh n⟩,
    valueOf_numeral hlow hhigh n⟩

end Printing

theorem readNumeral_decimal (n : ℕ) : readNumeral 10 (decimal n) = some n := by
  rw [decimal_eq_numeral]
  exact readNumeral_numeral (by decide) (by decide) n

end KernelScope.Numerals
