import KernelScope.Library.Binary64
import KernelScope.Library.Scanf

/-!
# Fixed-point numerals

A number of the binary64 format is printed with a fixed number of places and read
back by a reader that knows nothing of the format.  Rounding is monotone, both to
an integer and to the format, so printing keeps the order of numbers.  For a
quotient of integers below `2 ^ 53` the two roundings together are no worse than
one.
-/

namespace KernelScope.FixedPoint

open KernelScope.Binary64
open KernelScope.Decimal
open KernelScope.Numerals
open KernelScope.Scanf (Stops takeWhile_numeral stops_cons)

/-! ## Monotone rounding -/

/-- Half way between two integers, the even one is taken. -/
theorem roundHalfEven_even {num den : ℕ} (hden : 0 < den)
    (htie : |(roundHalfEven num den : ℚ) - num / den| = 1 / 2) :
    roundHalfEven num den % 2 = 0 := by
  have hpos : (0 : ℚ) < den := by exact_mod_cast hden
  have htie : 2 * num = 2 * (roundHalfEven num den * den) + den ∨
      2 * (roundHalfEven num den * den) = 2 * num + den := by
    have hfraction : (num : ℚ) = num / den * den := (div_mul_cancel₀ _ hpos.ne').symm
    rcases eq_or_eq_neg_of_abs_eq htie with habove | hbelow
    · right
      have hequal : (2 * (roundHalfEven num den * den) : ℚ) = 2 * num + den := by
        rw [sub_eq_iff_eq_add.mp habove, add_mul, ← hfraction]
        ring
      exact_mod_cast hequal
    · left
      have hequal : (2 * num : ℚ) = 2 * (roundHalfEven num den * den) + den := by
        rw [sub_eq_iff_eq_add.mp hbelow, add_mul, ← hfraction]
        ring
      exact_mod_cast hequal
  have hnum := Nat.div_add_mod' num den
  have hrest := Nat.mod_lt num hden
  revert htie
  simp only [roundHalfEven]
  split
  · omega
  · split
    · rw [Nat.add_mul]
      omega
    · omega

theorem roundHalfEven_mono {num den num' den' : ℕ} (hden : 0 < den) (hden' : 0 < den')
    (hle : (num : ℚ) / den ≤ num' / den') :
    roundHalfEven num den ≤ roundHalfEven num' den' := by
  by_contra hlt
  rw [not_le] at hlt
  have hstep : (roundHalfEven num' den' : ℚ) + 1 ≤ roundHalfEven num den := by
    exact_mod_cast hlt
  have hhigh := (abs_le.mp (abs_roundHalfEven_sub_le num hden)).2
  have hlow := (abs_le.mp (abs_roundHalfEven_sub_le num' hden')).1
  -- only one fraction is left, half way between the two integers
  have heven : roundHalfEven num den % 2 = 0 := by
    apply roundHalfEven_even hden
    rw [abs_of_nonneg] <;> linarith
  have heven' : roundHalfEven num' den' % 2 = 0 := by
    apply roundHalfEven_even hden'
    rw [abs_of_nonpos] <;> linarith
  have hone : (roundHalfEven num den : ℚ) = roundHalfEven num' den' + 1 := by linarith
  have hone : roundHalfEven num den = roundHalfEven num' den' + 1 := by exact_mod_cast hone
  omega

/-- The significand of a number, before it is normalised again. -/
def significand (num den : ℕ) : ℕ :=
  roundHalfEven (scale num den (significandShift num den)).1
    (scale num den (significandShift num den)).2

theorem significand_bounds {num den : ℕ} (hnum : 0 < num) (hden : 0 < den) :
    2 ^ 52 ≤ significand num den ∧ significand num den ≤ 2 ^ 53 := by
  obtain ⟨hlow, hhigh⟩ := value_scale_significandShift hnum hden
  have hpos := scale_den_pos num (significandShift num den) hden
  rw [← value_scale, value] at hlow hhigh
  constructor
  · calc 2 ^ 52 = roundHalfEven (2 ^ 52 * 1) 1 := (roundHalfEven_mul _ Nat.one_pos).symm
      _ ≤ significand num den := by
        apply roundHalfEven_mono Nat.one_pos hpos
        rw [Nat.mul_one, Nat.cast_one, div_one, Nat.cast_pow, Nat.cast_ofNat]
        exact hlow
  · calc significand num den ≤ roundHalfEven (2 ^ 53 * 1) 1 := by
          apply roundHalfEven_mono hpos Nat.one_pos
          rw [Nat.mul_one, Nat.cast_one, div_one, Nat.cast_pow, Nat.cast_ofNat]
          exact hhigh.le
      _ = 2 ^ 53 := roundHalfEven_mul _ Nat.one_pos

section Order

variable {num den num' den' : ℕ} (hden : 0 < den) (hden' : 0 < den')
  (hle : (num : ℚ) / den ≤ num' / den')

include hden hden' hle

/-- The greater number is not scaled further. -/
theorem significandShift_anti (hnum : 0 < num) (hnum' : 0 < num') :
    significandShift num' den' ≤ significandShift num den := by
  obtain ⟨-, hhigh'⟩ := value_scale_significandShift hnum' hden'
  have hlt : (2 : ℚ) ^ significandShift num' den' <
      2 * (2 : ℚ) ^ significandShift num den := by
    apply lt_of_mul_lt hnum hden
    apply lt_of_le_of_lt _ hhigh'
    gcongr
  rw [← zpow_one_add₀ two_ne_zero, zpow_lt_zpow_iff_right₀ one_lt_two] at hlt
  omega

/-- Rounding to the format is monotone. -/
theorem value_nearest_mono : value (nearest num den) ≤ value (nearest num' den') := by
  rcases Nat.eq_zero_or_pos num with hzero | hnum
  · have hvalue : value (nearest num den) = 0 := by
      have hexact := value_nearest_mul 0 (by decide) hden
      rw [Nat.zero_mul] at hexact
      rw [hzero, hexact, Nat.cast_zero]
    rw [hvalue, value]
    positivity
  · have hnum' : 0 < num' := by
      have hfraction : (0 : ℚ) < num' / den' := lt_of_lt_of_le (by positivity) hle
      rw [div_pos_iff_of_pos_right (by exact_mod_cast hden')] at hfraction
      exact_mod_cast hfraction
    have hshift := significandShift_anti hden hden' hle hnum hnum'
    rw [value_nearest, value_nearest, ← significand, ← significand]
    rcases hshift.eq_or_lt with hequal | hless
    · rw [hequal]
      gcongr
      apply roundHalfEven_mono (scale_den_pos _ _ hden) (scale_den_pos _ _ hden')
      rw [← value, ← value, value_scale, value_scale, hequal]
      gcongr
    · have hlow : (2 ^ 52 : ℚ) ≤ significand num' den' := by
        exact_mod_cast (significand_bounds hnum' hden').1
      have hhigh : (significand num den : ℚ) ≤ 2 ^ 53 := by
        exact_mod_cast (significand_bounds hnum hden).2
      calc (significand num den : ℚ) * 2 ^ (-significandShift num den)
          ≤ 2 ^ 53 * 2 ^ (-significandShift num den) := by gcongr
        _ = 2 ^ 52 * 2 ^ (1 - significandShift num den) := by
          rw [sub_eq_add_neg, zpow_one_add₀ two_ne_zero]
          ring
        _ ≤ 2 ^ 52 * 2 ^ (-significandShift num' den') := by
          gcongr
          · exact one_le_two
          · omega
        _ ≤ significand num' den' * 2 ^ (-significandShift num' den') := by gcongr

end Order

/-! ## Places -/

/-- What a fraction is rounded to when it is printed, in units of the last place. -/
def inPlaces (places : ℕ) (fraction : ℕ × ℕ) : ℕ :=
  roundHalfEven (fraction.1 * 10 ^ places) fraction.2

theorem inPlaces_mono (places : ℕ) {left right : ℕ × ℕ} (hleft : 0 < left.2)
    (hright : 0 < right.2) (hle : value left ≤ value right) :
    inPlaces places left ≤ inPlaces places right := by
  apply roundHalfEven_mono hleft hright
  rw [Nat.cast_mul, Nat.cast_mul, mul_div_right_comm, mul_div_right_comm, ← value, ← value]
  gcongr

theorem abs_inPlaces_sub_le (places : ℕ) {fraction : ℕ × ℕ} (hden : 0 < fraction.2) :
    |(inPlaces places fraction : ℚ) - value fraction * 10 ^ places| ≤ 1 / 2 := by
  have hround := abs_roundHalfEven_sub_le (fraction.1 * 10 ^ places) hden
  rw [Nat.cast_mul, mul_div_right_comm, ← value] at hround
  exact_mod_cast hround

section Quotient

variable {a b n places : ℕ} (hb : 0 < b)

include hb

/-- Rounding `n / unit` to the format moves the last place by less than one over
its denominator. -/
theorem abs_value_nearest_mul_sub_lt {unit share : ℕ} (hshare : 0 < share)
    (hunit : unit = share * 10 ^ places) (heq : a * unit = n * b) {bound : ℕ}
    (hbound : 0 < bound) (hn : n * bound < 2 ^ 53) :
    |value (nearest a b) * 10 ^ places - n / share| < 1 / (share * bound) := by
  have hb' : (0 : ℚ) < b := by exact_mod_cast hb
  have hshare' : (0 : ℚ) < share := by exact_mod_cast hshare
  have hbound' : (0 : ℚ) < bound := by exact_mod_cast hbound
  have hquotient : (a : ℚ) / b * 10 ^ places = n / share := by
    have hcast : (a : ℚ) * (share * 10 ^ places) = n * b := by
      exact_mod_cast hunit ▸ heq
    rw [div_mul_eq_mul_div, div_eq_div_iff hb'.ne' hshare'.ne', ← hcast]
    ring
  rcases Nat.eq_zero_or_pos a with hzero | ha
  · have hvalue := value_nearest_mul 0 (by decide) hb
    rw [Nat.zero_mul, Nat.cast_zero] at hvalue
    rw [← hquotient, hzero, hvalue]
    rw [Nat.cast_zero, zero_div, zero_mul, sub_zero, abs_zero]
    positivity
  · rw [← hquotient, ← sub_mul, abs_mul, abs_of_pos (by positivity : (0 : ℚ) < 10 ^ places),
      ← lt_div_iff₀ (by positivity), div_div]
    apply abs_value_nearest_sub_lt ha hb (by positivity)
    calc (a : ℚ) / b * (share * bound * 10 ^ places)
        = a / b * 10 ^ places * share * bound := by ring
      _ = n * bound := by rw [hquotient, div_mul_cancel₀ _ hshare'.ne']
      _ < 2 ^ 53 := by exact_mod_cast hn

/-- If the last place is an even number of units, the printed number is off by half
of it at most. -/
theorem abs_inPlaces_mul_sub_le {half unit : ℕ} (hhalf : 0 < half)
    (hunit : unit = 2 * half * 10 ^ places) (heq : a * unit = n * b) (hn : n < 2 ^ 53) :
    |(inPlaces places (nearest a b) : ℚ) * (2 * half) - n| ≤ half := by
  have hhalf' : (0 : ℚ) < half := by exact_mod_cast hhalf
  have hformat := abs_value_nearest_mul_sub_lt hb (Nat.mul_pos two_pos hhalf) hunit heq
    Nat.one_pos (by rwa [Nat.mul_one])
  have hround := abs_inPlaces_sub_le places (nearest_den_pos a b)
  push_cast at hformat
  have hclose : |(inPlaces places (nearest a b) : ℚ) - n / (2 * half)| <
      1 / 2 + 1 / (2 * half * 1) :=
    (abs_sub_le _ _ _).trans_lt (add_lt_add_of_le_of_lt hround hformat)
  -- both sides are integers, so that less than one more is no more
  have hless : |(inPlaces places (nearest a b) : ℚ) * (2 * half) - n| < half + 1 := by
    calc |(inPlaces places (nearest a b) : ℚ) * (2 * half) - n|
        = |(inPlaces places (nearest a b) : ℚ) - n / (2 * half)| * (2 * half) := by
          rw [← abs_of_pos (by positivity : (0 : ℚ) < 2 * half), ← abs_mul, sub_mul,
            abs_of_pos (by positivity : (0 : ℚ) < 2 * half), div_mul_cancel₀ _ (by positivity)]
      _ < (1 / 2 + 1 / (2 * half * 1)) * (2 * half) := by gcongr
      _ = half + 1 := by field_simp
  have hint : |(inPlaces places (nearest a b) : ℤ) * (2 * half) - n| < half + 1 := by
    exact_mod_cast hless
  exact_mod_cast Int.lt_add_one_iff.mp hint

/-- If the last place is one unit, the printed number is exact. -/
theorem inPlaces_nearest_eq (heq : a * 10 ^ places = n * b) (hn : n < 2 ^ 52) :
    inPlaces places (nearest a b) = n := by
  have hformat := abs_value_nearest_mul_sub_lt hb Nat.one_pos (Nat.one_mul _).symm heq
    two_pos (by omega)
  have hround := abs_inPlaces_sub_le places (nearest_den_pos a b)
  have hclose : |(inPlaces places (nearest a b) : ℚ) - n| < 1 := by
    calc |(inPlaces places (nearest a b) : ℚ) - n|
        ≤ |(inPlaces places (nearest a b) : ℚ) - value (nearest a b) * 10 ^ places| +
          |value (nearest a b) * 10 ^ places - n| := abs_sub_le _ _ _
      _ < 1 := by
        norm_num at hformat
        linarith
  have hint : |(inPlaces places (nearest a b) : ℤ) - n| < 1 := by exact_mod_cast hclose
  have hzero := Int.abs_lt_one_iff.mp hint
  omega

end Quotient

/-! ## Reading -/

/-- A number with or without a fraction, and what follows it. -/
def readDecimal (text : List UInt8) : Option (ℚ × List UInt8) :=
  let whole := text.takeWhile (isDigit 10)
  match text.dropWhile (isDigit 10) with
  | 46 :: rest => do
      let fraction := rest.takeWhile (isDigit 10)
      let units ← readNumeral 10 whole
      let parts ← readNumeral 10 fraction
      some (units + parts / 10 ^ fraction.length, rest.dropWhile (isDigit 10))
  | rest => do
      let units ← readNumeral 10 whole
      some (units, rest)

theorem length_decimal_le {n width : ℕ} (hn : n < 10 ^ width) (hwidth : 0 < width) :
    (decimal n).length ≤ width := by
  rw [decimal_eq_numeral]
  induction width generalizing n with
  | zero => exact absurd hwidth (Nat.lt_irrefl 0)
  | succ width ih =>
      rw [numeral_eq (by decide) (by decide)]
      split
      next => simp
      next hlarge =>
        have hquotient : n / 10 < 10 ^ width := by
          rw [Nat.div_lt_iff_lt_mul (by decide), ← Nat.pow_succ]
          exact hn
        have hpos : 0 < width := by
          rcases Nat.eq_zero_or_pos width with hzero | hpos
          · rw [hzero] at hn
            omega
          · exact hpos
        rw [List.length_append, List.length_singleton]
        exact Nat.succ_le_succ (ih hquotient hpos)

theorem readDecimal_decimal (n : ℕ) {rest : List UInt8} (hstops : Stops 10 rest)
    (hpoint : rest.head? ≠ some 46) : readDecimal (decimal n ++ rest) = some ((n : ℚ), rest) := by
  obtain ⟨htake, hdrop⟩ := takeWhile_numeral (readNumeral_decimal n) hstops
  simp only [readDecimal, htake, hdrop, readNumeral_decimal]
  split
  next => exact absurd rfl hpoint
  next => rfl

/-- A printed number is read as the multiple of the last place it was rounded to. -/
theorem readDecimal_fixed {places : ℕ} (hplaces : 0 < places) (fraction : ℕ × ℕ)
    {rest : List UInt8} (hstops : Stops 10 rest) :
    readDecimal (fixed places fraction.1 fraction.2 ++ rest) =
      some ((inPlaces places fraction : ℚ) / 10 ^ places, rest) := by
  have hpoint : ascii "." = [46] := by decide
  have hparts : inPlaces places fraction % 10 ^ places < 10 ^ places :=
    Nat.mod_lt _ (by positivity)
  have hread := readNumeral_leftpad (by decide) places
    (readNumeral_decimal (inPlaces places fraction % 10 ^ places))
  obtain ⟨htake, hdrop⟩ := takeWhile_numeral
    (readNumeral_decimal (inPlaces places fraction / 10 ^ places))
    (stops_cons (c := 46) (by decide) (by decide) (by decide)
      ((decimal (inPlaces places fraction % 10 ^ places)).leftpad places 48 ++ rest))
  obtain ⟨htake', hdrop'⟩ := takeWhile_numeral hread hstops
  have hlength : ((decimal (inPlaces places fraction % 10 ^ places)).leftpad places 48).length =
      places := by
    rw [List.length_leftpad, Nat.max_eq_left (length_decimal_le hparts hplaces)]
  have htext : fixed places fraction.1 fraction.2 ++ rest =
      decimal (inPlaces places fraction / 10 ^ places) ++
        46 :: ((decimal (inPlaces places fraction % 10 ^ places)).leftpad places 48 ++ rest) := by
    rw [fixed, hpoint, List.append_assoc, List.append_assoc]
    rfl
  have hvalue : ((inPlaces places fraction / 10 ^ places : ℕ) : ℚ) +
      ((inPlaces places fraction % 10 ^ places : ℕ) : ℚ) / 10 ^ places =
        inPlaces places fraction / 10 ^ places := by
    rw [eq_div_iff (by positivity), add_mul, div_mul_cancel₀ _ (by positivity)]
    exact_mod_cast Nat.div_add_mod' (inPlaces places fraction) (10 ^ places)
  rw [htext]
  simp only [readDecimal, htake, hdrop, htake', hdrop', readNumeral_decimal, hread, hlength,
    Option.bind_eq_bind, Option.bind_some, hvalue]

end KernelScope.FixedPoint
