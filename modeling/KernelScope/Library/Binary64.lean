import KernelScope.Library.Decimal
import Mathlib.Algebra.Order.Floor.Semifield
import Mathlib.Data.Rat.Floor
import Mathlib.Algebra.Order.Field.Power
import Mathlib.Tactic.FieldSimp
import Mathlib.Tactic.Linarith
import Mathlib.Tactic.Positivity

/-!
# Arithmetic on binary64 numbers

The operations of the binary64 format on nonnegative numbers compute the exact
result and round it to the nearest number of the format.  Numbers are the
fractions of `Decimal.nearest`.  Integers below `2 ^ 53` and their products are
represented exactly as long as they stay below that bound, and truncating a
quotient of such integers gives the quotient of integer division.
-/

namespace KernelScope.Binary64

open Decimal (scale roundHalfEven significandShift nearest)

/-- The number that a fraction stands for. -/
def value (fraction : ℕ × ℕ) : ℚ :=
  fraction.1 / fraction.2

/-- The conversion of an unsigned integer. -/
def ofNat (n : ℕ) : ℕ × ℕ :=
  nearest n 1

def mul (left right : ℕ × ℕ) : ℕ × ℕ :=
  nearest (left.1 * right.1) (left.2 * right.2)

def div (left right : ℕ × ℕ) : ℕ × ℕ :=
  nearest (left.1 * right.2) (left.2 * right.1)

/-- The conversion to an integer, which drops the fractional part. -/
def trunc (fraction : ℕ × ℕ) : ℕ :=
  fraction.1 / fraction.2

theorem trunc_eq_floor (fraction : ℕ × ℕ) :
    trunc fraction = ⌊value fraction⌋₊ :=
  (Nat.floor_div_eq_div _ _).symm

/-! ## Scaling -/

theorem value_scale (num den : ℕ) (bits : ℤ) :
    value (scale num den bits) = num / den * 2 ^ bits := by
  have hbits : (2 : ℚ) ^ bits = 2 ^ bits.toNat / 2 ^ (-bits).toNat := by
    rw [← zpow_natCast, ← zpow_natCast, ← zpow_sub₀ two_ne_zero]
    congr 1
    omega
  rw [hbits, div_mul_div_comm]
  simp [value, scale]

theorem scale_den_pos (num : ℕ) {den : ℕ} (bits : ℤ) (hden : 0 < den) :
    0 < (scale num den bits).2 :=
  Nat.mul_pos hden (Nat.two_pow_pos _)

/-- The part of a number beyond its leading power of two. -/
theorem one_le_div_log2 {n : ℕ} (hn : 0 < n) :
    1 ≤ (n : ℚ) / 2 ^ n.log2 ∧ (n : ℚ) / 2 ^ n.log2 < 2 := by
  have hlow : (2 : ℚ) ^ n.log2 ≤ n := by
    exact_mod_cast Nat.log2_self_le hn.ne'
  have hhigh : (n : ℚ) < 2 * 2 ^ n.log2 := by
    rw [← pow_succ']
    exact_mod_cast Nat.lt_log2_self
  exact ⟨(one_le_div (by positivity)).mpr hlow,
    (div_lt_iff₀ (by positivity)).mpr hhigh⟩

/-- Scaled by the difference of the leading powers of two, a fraction lies
within a factor of two of `2 ^ 52`. -/
theorem value_scale_log2 {num den : ℕ} (hnum : 0 < num) (hden : 0 < den) :
    2 ^ 51 < value (scale num den (52 + den.log2 - num.log2)) ∧
      value (scale num den (52 + den.log2 - num.log2)) < 2 ^ 53 := by
  have hscaled : value (scale num den (52 + den.log2 - num.log2)) =
      2 ^ 52 * ((num / 2 ^ num.log2) / (den / 2 ^ den.log2)) := by
    have hpos : (0 : ℚ) < den := by exact_mod_cast hden
    rw [value_scale, zpow_sub₀ two_ne_zero, zpow_add₀ two_ne_zero,
      zpow_natCast, zpow_natCast]
    field_simp
  obtain ⟨hnumLow, hnumHigh⟩ := one_le_div_log2 hnum
  obtain ⟨hdenLow, hdenHigh⟩ := one_le_div_log2 hden
  have hdenPos := zero_lt_one.trans_le hdenLow
  rw [hscaled, mul_div_assoc', lt_div_iff₀ hdenPos, div_lt_iff₀ hdenPos]
  constructor <;> linarith

/-- The significand of a nonzero number has 53 bits. -/
theorem value_scale_significandShift {num den : ℕ} (hnum : 0 < num)
    (hden : 0 < den) :
    2 ^ 52 ≤ num / den * (2 : ℚ) ^ significandShift num den ∧
      num / den * (2 : ℚ) ^ significandShift num den < 2 ^ 53 := by
  obtain ⟨hlow, hhigh⟩ := value_scale_log2 hnum hden
  rw [value_scale] at hlow hhigh
  -- the definition compares the integer part of the scaled fraction
  have htest : (scale num den (52 + den.log2 - num.log2)).1 /
        (scale num den (52 + den.log2 - num.log2)).2 < 2 ^ 52 ↔
      num / den * (2 : ℚ) ^ (52 + den.log2 - num.log2 : ℤ) < 2 ^ 52 := by
    rw [← value_scale, ← Nat.floor_div_eq_div (K := ℚ), Nat.floor_lt (by positivity)]
    norm_num [value]
  simp only [significandShift]
  split
  next hsmall =>
    rw [zpow_add_one₀ two_ne_zero]
    have hsmall := htest.mp hsmall
    constructor <;> linarith
  next hlarge =>
    exact ⟨not_lt.mp (mt htest.mpr hlarge), hhigh⟩

/-! ## Rounding -/

/-- Rounding to an integer moves a fraction by half at most. -/
theorem roundHalfEven_bounds (num : ℕ) {den : ℕ} (hden : 0 < den) :
    2 * num ≤ 2 * (roundHalfEven num den * den) + den ∧
      2 * (roundHalfEven num den * den) ≤ 2 * num + den := by
  have hnum := Nat.div_add_mod' num den
  have hrest := Nat.mod_lt num hden
  simp only [roundHalfEven]
  split
  · omega
  · split
    · rw [Nat.add_mul]
      omega
    · rcases Nat.mod_two_eq_zero_or_one (num / den) with heven | hodd
      · rw [heven, Nat.add_zero]
        omega
      · rw [hodd, Nat.add_mul]
        omega

theorem abs_roundHalfEven_sub_le (num : ℕ) {den : ℕ} (hden : 0 < den) :
    |(roundHalfEven num den : ℚ) - num / den| ≤ 1 / 2 := by
  have hpos : (0 : ℚ) < den := by exact_mod_cast hden
  obtain ⟨hlow, hhigh⟩ := roundHalfEven_bounds num hden
  have hlow : (2 * num : ℚ) ≤ 2 * (roundHalfEven num den * den) + den := by
    exact_mod_cast hlow
  have hhigh : (2 * (roundHalfEven num den * den) : ℚ) ≤ 2 * num + den := by
    exact_mod_cast hhigh
  have hfraction : (num : ℚ) = num / den * den := (div_mul_cancel₀ _ hpos.ne').symm
  rw [abs_le]
  constructor <;> nlinarith

theorem roundHalfEven_mul (m : ℕ) {den : ℕ} (hden : 0 < den) :
    roundHalfEven (m * den) den = m := by
  simp [roundHalfEven, Nat.mul_div_cancel _ hden, hden]

theorem value_nearest (num den : ℕ) :
    value (nearest num den) =
      roundHalfEven (scale num den (significandShift num den)).1
          (scale num den (significandShift num den)).2 *
        (2 : ℚ) ^ (-significandShift num den) := by
  simp only [nearest]
  rw [value_scale, Nat.cast_one, div_one]

theorem nearest_den_pos (num den : ℕ) : 0 < (nearest num den).2 :=
  scale_den_pos _ _ Nat.one_pos

/-- The nearest number is off by half a unit in the last place at most. -/
theorem abs_value_nearest_sub_le (num : ℕ) {den : ℕ} (hden : 0 < den) :
    |value (nearest num den) - num / den| ≤
      (2 : ℚ) ^ (-significandShift num den) / 2 := by
  have hround := abs_roundHalfEven_sub_le
    (scale num den (significandShift num den)).1
    (scale_den_pos num (significandShift num den) hden)
  rw [← value, value_scale] at hround
  have hunit : (0 : ℚ) < 2 ^ (-significandShift num den) := by positivity
  rw [value_nearest]
  calc
    _ = |(roundHalfEven (scale num den (significandShift num den)).1
            (scale num den (significandShift num den)).2 -
          num / den * (2 : ℚ) ^ significandShift num den) *
        (2 : ℚ) ^ (-significandShift num den)| := by
      rw [sub_mul, mul_assoc, ← zpow_add₀ two_ne_zero, add_neg_cancel,
        zpow_zero, mul_one]
    _ ≤ 1 / 2 * (2 : ℚ) ^ (-significandShift num den) := by
      rw [abs_mul, abs_of_pos hunit]
      gcongr
    _ = _ := by ring

/-! ## Integers -/

/-- The smaller the number, the further its significand is shifted. -/
theorem lt_of_mul_lt {num den : ℕ} {bound : ℚ} (hnum : 0 < num) (hden : 0 < den)
    (hbound : num / den * bound < (2 : ℚ) ^ 53) :
    bound < 2 * (2 : ℚ) ^ significandShift num den := by
  obtain ⟨hlow, -⟩ := value_scale_significandShift hnum hden
  have hpos : (0 : ℚ) < num / den := by positivity
  have hlt : (num : ℚ) / den * bound <
      num / den * (2 * (2 : ℚ) ^ significandShift num den) := by
    linarith
  exact lt_of_mul_lt_mul_left hlt hpos.le

/-- Integers below `2 ^ 53` are numbers of the format. -/
theorem value_nearest_mul (m : ℕ) {den : ℕ} (hm : m < 2 ^ 53) (hden : 0 < den) :
    value (nearest (m * den) den) = m := by
  have hshift : 0 ≤ significandShift (m * den) den := by
    rcases Nat.eq_zero_or_pos m with hzero | hpos
    · subst hzero
      simp only [significandShift, Nat.zero_mul]
      split <;> simp <;> omega
    · have hunit : (1 : ℚ) < 2 * (2 : ℚ) ^ significandShift (m * den) den := by
        apply lt_of_mul_lt (Nat.mul_pos hpos hden) hden
        rw [Nat.cast_mul, mul_div_cancel_right₀ _ (by exact_mod_cast hden.ne')]
        exact_mod_cast (Nat.mul_one m).symm ▸ hm
      rw [← zpow_one_add₀ two_ne_zero, one_lt_zpow_iff_right₀ one_lt_two] at hunit
      omega
  have hround : roundHalfEven
      (scale (m * den) den (significandShift (m * den) den)).1
      (scale (m * den) den (significandShift (m * den) den)).2 =
        m * 2 ^ (significandShift (m * den) den).toNat := by
    have hneg : (-significandShift (m * den) den).toNat = 0 := by omega
    rw [scale, hneg, Nat.pow_zero, Nat.mul_one, Nat.mul_right_comm]
    exact roundHalfEven_mul _ hden
  rw [value_nearest, hround, Nat.cast_mul, Nat.cast_pow, Nat.cast_ofNat,
    ← zpow_natCast, Int.toNat_of_nonneg hshift, mul_assoc,
    ← zpow_add₀ two_ne_zero, add_neg_cancel, zpow_zero, mul_one]

/-- The distance from a fraction that is not an integer to the next integer is at
least one over its denominator. -/
theorem floor_eq_of_abs_sub_lt {num den : ℕ} (hden : 0 < den) (hdvd : ¬den ∣ num)
    {x : ℚ} (hx : 0 ≤ x) (hclose : |x - num / den| < 1 / den) :
    ⌊x⌋₊ = num / den := by
  have hpos : (0 : ℚ) < den := by exact_mod_cast hden
  have hrest := Nat.pos_of_ne_zero (mt Nat.dvd_of_mod_eq_zero hdvd)
  have hsplit := Nat.div_add_mod' num den
  have hmod := Nat.mod_lt num hden
  have hbelow : ((num / den : ℕ) : ℚ) ≤ num / den - 1 / den := by
    rw [← sub_div, le_div_iff₀ hpos, le_sub_iff_add_le]
    exact_mod_cast (by omega : num / den * den + 1 ≤ num)
  have habove : (num : ℚ) / den + 1 / den ≤ (num / den : ℕ) + 1 := by
    rw [← add_div, div_le_iff₀ hpos, add_mul, one_mul]
    exact_mod_cast (by omega : num + 1 ≤ num / den * den + den)
  obtain ⟨hlow, hhigh⟩ := abs_lt.mp hclose
  rw [Nat.floor_eq_iff hx]
  constructor <;> linarith

/-- Half a unit in the last place of a quotient of integers below `2 ^ 53` is less
than one over the denominator. -/
theorem abs_value_nearest_sub_lt {a b : ℕ} {den : ℚ} (ha : 0 < a) (hb : 0 < b)
    (hden : 0 < den) (hbound : a / b * den < (2 : ℚ) ^ 53) :
    |value (nearest a b) - a / b| < 1 / den := by
  have hunit : den < 2 * (2 : ℚ) ^ significandShift a b := lt_of_mul_lt ha hb hbound
  apply (abs_value_nearest_sub_le a hb).trans_lt
  rw [zpow_neg, lt_div_iff₀ hden, ← one_div, div_div, div_mul_eq_mul_div, one_mul,
    div_lt_one (by positivity), mul_comm]
  exact hunit

/-- Truncating the rounded quotient of integers below `2 ^ 53` is integer
division. -/
theorem trunc_nearest {a b num den : ℕ} (hb : 0 < b) (hden : 0 < den)
    (heq : a * den = num * b) (hnum : num < 2 ^ 53) :
    trunc (nearest a b) = num / den := by
  have hb' : (0 : ℚ) < b := by exact_mod_cast hb
  have hden' : (0 : ℚ) < den := by exact_mod_cast hden
  rw [trunc_eq_floor]
  by_cases hdvd : den ∣ num
  · obtain ⟨m, rfl⟩ := hdvd
    have ha : a = m * b := by
      apply Nat.eq_of_mul_eq_mul_right hden
      rw [heq]
      ring
    have hm : m < 2 ^ 53 := (Nat.le_mul_of_pos_left m hden).trans_lt hnum
    rw [ha, value_nearest_mul m hm hb, Nat.floor_natCast, Nat.mul_div_cancel_left m hden]
  · have hquotient : (a : ℚ) / b = num / den := by
      rw [div_eq_div_iff hb'.ne' hden'.ne']
      exact_mod_cast heq
    have ha : 0 < a := by
      have hpos : 0 < num := Nat.pos_of_ne_zero fun h => hdvd (h ▸ dvd_zero den)
      apply Nat.pos_of_mul_pos_right (b := den)
      rw [heq]
      exact Nat.mul_pos hpos hb
    have hvalue : 0 ≤ value (nearest a b) := by
      unfold value
      positivity
    apply floor_eq_of_abs_sub_lt hden hdvd hvalue
    rw [← hquotient]
    apply abs_value_nearest_sub_lt ha hb hden'
    rw [hquotient, div_mul_cancel₀ _ hden'.ne']
    exact_mod_cast hnum

/-! ## Operations -/

/-- The fraction stands for the integer `m`. -/
def Represents (fraction : ℕ × ℕ) (m : ℕ) : Prop :=
  0 < fraction.2 ∧ fraction.1 = m * fraction.2

theorem represents_nearest (m : ℕ) {den : ℕ} (hm : m < 2 ^ 53) (hden : 0 < den) :
    Represents (nearest (m * den) den) m := by
  have hpos := nearest_den_pos (m * den) den
  have hvalue := value_nearest_mul m hm hden
  rw [value, div_eq_iff (by exact_mod_cast hpos.ne')] at hvalue
  exact ⟨hpos, by exact_mod_cast hvalue⟩

theorem represents_ofNat {n : ℕ} (hn : n < 2 ^ 53) : Represents (ofNat n) n := by
  rw [ofNat]
  nth_rewrite 1 [← Nat.mul_one n]
  exact represents_nearest n hn Nat.one_pos

theorem Represents.mul {left right : ℕ × ℕ} {m n : ℕ} (hleft : Represents left m)
    (hright : Represents right n) (hbound : m * n < 2 ^ 53) :
    Represents (mul left right) (m * n) := by
  rw [Binary64.mul, hleft.2, hright.2, Nat.mul_mul_mul_comm]
  exact represents_nearest _ hbound (Nat.mul_pos hleft.1 hright.1)

theorem Represents.trunc_div {left right : ℕ × ℕ} {m n : ℕ}
    (hleft : Represents left m) (hright : Represents right n) (hn : 0 < n)
    (hbound : m < 2 ^ 53) : trunc (div left right) = m / n := by
  apply trunc_nearest _ hn _ hbound
  · rw [hright.2]
    exact Nat.mul_pos hleft.1 (Nat.mul_pos hn hright.1)
  · rw [hleft.2, hright.2]
    ring

end KernelScope.Binary64
