import KernelScope.Library.Columns
import KernelScope.Library.FixedPoint

/-!
# Printed times

`util/time.cpp` prints a duration in the unit of its size, as a quotient of
doubles with one to three places.  A reader who knows the units gets the durations
back in their order, and to half of the last place as long as the conversion to a
double is exact.
-/

namespace KernelScope.TimeFormat

open KernelScope.Binary64
open KernelScope.Columns
open KernelScope.Decimal
open KernelScope.FixedPoint
open KernelScope.Scanf (stops_cons)

/-- `static_cast<double>(ns) / unit` -/
def inUnit (ns : UInt64) (unit : ℕ) : ℕ × ℕ :=
  let (num, den) := nearest ns.toNat 1
  nearest num (den * unit)

/-- The format `{:.1f}` and its like. -/
def printFixed (places : ℕ) (fraction : ℕ × ℕ) : List UInt8 :=
  fixed places fraction.1 fraction.2

def formatDurationNs (ns : UInt64) : List UInt8 :=
  if ns < 1000 then decimal ns.toNat ++ ascii "ns"
  else if ns < 1000000 then printFixed 1 (inUnit ns 1000) ++ ascii "µs"
  else if ns < 1000000000 then printFixed 2 (inUnit ns 1000000) ++ ascii "ms"
  else printFixed 3 (inUnit ns 1000000000) ++ ascii "s"

def formatTimestampNs (ns : UInt64) : List UInt8 :=
  let sec := ns / 1000000000
  let subsecMs := ns % 1000000000 / 1000000
  decimal sec.toNat ++ ascii "." ++ (decimal subsecMs.toNat).leftpad 3 48

theorem isWord_formatDurationNs (ns : UInt64) : IsWord (formatDurationNs ns) := by
  rw [formatDurationNs]
  split
  · exact (isWord_decimal _).append (by decide) (by decide)
  · split
    · exact (isWord_fixed _ _ _).append (by decide) (by decide)
    · split <;> exact (isWord_fixed _ _ _).append (by decide) (by decide)

/-! ## Reading -/

/-- The nanoseconds of a unit. -/
def unitNs (suffix : List UInt8) : Option ℕ :=
  if suffix = ascii "ns" then some 1
  else if suffix = ascii "µs" then some 1000
  else if suffix = ascii "ms" then some 1000000
  else if suffix = ascii "s" then some 1000000000
  else none

/-- A duration in nanoseconds: a number and a unit. -/
def readDuration (text : List UInt8) : Option ℚ := do
  let (number, suffix) ← readDecimal text
  let unit ← unitNs suffix
  some (number * unit)

/-- The nanoseconds that a printed duration says. -/
def shownNs (ns : UInt64) : ℕ :=
  if ns < 1000 then ns.toNat
  else if ns < 1000000 then inPlaces 1 (inUnit ns 1000) * 100
  else if ns < 1000000000 then inPlaces 2 (inUnit ns 1000000) * 10000
  else inPlaces 3 (inUnit ns 1000000000) * 1000000

theorem readDuration_printFixed {places unit share : ℕ} (hplaces : 0 < places)
    (hunit : unit = share * 10 ^ places) (fraction : ℕ × ℕ) {suffix : List UInt8}
    (hstops : Scanf.Stops 10 suffix) (hsuffix : unitNs suffix = some unit) :
    readDuration (printFixed places fraction ++ suffix) =
      some ((inPlaces places fraction * share : ℕ) : ℚ) := by
  have hscaled : (inPlaces places fraction : ℚ) / 10 ^ places * unit =
      (inPlaces places fraction * share : ℕ) := by
    rw [hunit]
    push_cast
    field_simp
  rw [readDuration, printFixed, readDecimal_fixed hplaces fraction hstops]
  simp only [Option.bind_eq_bind, Option.bind_some, hsuffix, hscaled]

theorem readDuration_formatDurationNs (ns : UInt64) :
    readDuration (formatDurationNs ns) = some (shownNs ns : ℚ) := by
  rw [formatDurationNs, shownNs]
  split
  · have hread : readDecimal (decimal ns.toNat ++ ascii "ns") =
        some ((ns.toNat : ℚ), ascii "ns") :=
      readDecimal_decimal ns.toNat (stops_cons (by decide) (by decide) (by decide) _)
        (by decide)
    simp [readDuration, hread, unitNs]
  · split
    · exact readDuration_printFixed Nat.one_pos rfl _
        (stops_cons (by decide) (by decide) (by decide) _) (by decide)
    · split
      · exact readDuration_printFixed two_pos rfl _
          (stops_cons (by decide) (by decide) (by decide) _) (by decide)
      · exact readDuration_printFixed three_pos rfl _
          (stops_cons (by decide) (by decide) (by decide) _) (by decide)

/-- The subsecond digits are cut, not rounded. -/
theorem readDecimal_formatTimestampNs (ns : UInt64) {rest : List UInt8}
    (hstops : Scanf.Stops 10 rest) :
    readDecimal (formatTimestampNs ns ++ rest) =
      some (((ns.toNat / 1000000 : ℕ) : ℚ) / 1000, rest) := by
  have hexact : roundHalfEven (ns.toNat / 1000000 * 10 ^ 3) 1000 = ns.toNat / 1000000 :=
    roundHalfEven_mul (ns.toNat / 1000000) (by decide)
  have htext : formatTimestampNs ns = fixed 3 (ns.toNat / 1000000) 1000 := by
    have hsec : ns.toNat / 1000000000 = ns.toNat / 1000000 / 10 ^ 3 := by omega
    have hmilli : ns.toNat % 1000000000 / 1000000 = ns.toNat / 1000000 % 10 ^ 3 := by omega
    rw [formatTimestampNs, fixed, hexact]
    simp only [UInt64.toNat_div, UInt64.toNat_mod, UInt64.reduceToNat, hsec, hmilli]
  have hread := readDecimal_fixed three_pos (ns.toNat / 1000000, 1000) hstops
  rw [inPlaces, hexact] at hread
  rw [htext, hread]
  norm_num

/-! ## Order -/

section Order

variable {ns ns' : UInt64}

theorem inUnit_eq (ns : UInt64) (unit : ℕ) :
    inUnit ns unit =
      nearest (nearest ns.toNat 1).1 ((nearest ns.toNat 1).2 * unit) :=
  rfl

theorem inUnit_den_pos (ns : UInt64) (unit : ℕ) : 0 < (inUnit ns unit).2 :=
  nearest_den_pos _ _

theorem value_inUnit_mono {unit : ℕ} (hunit : 0 < unit) (hle : ns.toNat ≤ ns'.toNat) :
    value (inUnit ns unit) ≤ value (inUnit ns' unit) := by
  have hdouble : value (nearest ns.toNat 1) ≤ value (nearest ns'.toNat 1) := by
    apply value_nearest_mono Nat.one_pos Nat.one_pos
    gcongr
  rw [inUnit_eq, inUnit_eq]
  apply value_nearest_mono (Nat.mul_pos (nearest_den_pos _ _) hunit)
    (Nat.mul_pos (nearest_den_pos _ _) hunit)
  push_cast
  rw [← div_div, ← div_div, ← value, ← value]
  gcongr

theorem inPlaces_inUnit_mono (places : ℕ) {unit : ℕ} (hunit : 0 < unit)
    (hle : ns.toNat ≤ ns'.toNat) :
    inPlaces places (inUnit ns unit) ≤ inPlaces places (inUnit ns' unit) :=
  inPlaces_mono places (inUnit_den_pos ns unit) (inUnit_den_pos ns' unit)
    (value_inUnit_mono hunit hle)

/-- What `inUnit` divides is the duration itself, as long as a double can hold it. -/
theorem nearest_mul_unit (hns : ns.toNat < 2 ^ 53) (unit : ℕ) :
    (nearest ns.toNat 1).1 * unit = ns.toNat * ((nearest ns.toNat 1).2 * unit) := by
  have hexact := represents_ofNat hns
  rw [ofNat] at hexact
  rw [hexact.2, Nat.mul_assoc]

/-- Whole units are printed as such. -/
theorem inPlaces_inUnit_mul (places : ℕ) {count unit : ℕ} (hunit : 0 < unit)
    (hns : ns.toNat = count * unit) (hsmall : ns.toNat < 2 ^ 53) :
    inPlaces places (inUnit ns unit) = count * 10 ^ places := by
  have hden : 0 < (nearest ns.toNat 1).2 * unit := Nat.mul_pos (nearest_den_pos _ _) hunit
  have hnum : (nearest ns.toNat 1).1 = count * ((nearest ns.toNat 1).2 * unit) := by
    apply Nat.eq_of_mul_eq_mul_right hunit
    rw [nearest_mul_unit hsmall, hns]
    ring
  have hcount : count < 2 ^ 53 := by
    rw [hns] at hsmall
    exact (Nat.le_mul_of_pos_right count hunit).trans_lt hsmall
  have hquotient := represents_nearest count hcount hden
  have hvalue : (inUnit ns unit).1 = count * (inUnit ns unit).2 := by
    rw [inUnit_eq, hnum]
    exact hquotient.2
  rw [inPlaces, hvalue, Nat.mul_right_comm]
  exact roundHalfEven_mul _ (inUnit_den_pos ns unit)

section Whole

variable {places unit share count : ℕ} (hunit : unit = share * 10 ^ places)
  (hpos : 0 < unit) (hsmall : count * unit < 2 ^ 53)

include hunit hpos hsmall

/-- A duration between whole units is not printed beyond them. -/
theorem inPlaces_inUnit_le (hle : ns.toNat ≤ count * unit) :
    inPlaces places (inUnit ns unit) * share ≤ count * unit := by
  have hnat : (UInt64.ofNat (count * unit)).toNat = count * unit :=
    UInt64.toNat_ofNat_of_lt' (hsmall.trans (by decide))
  calc inPlaces places (inUnit ns unit) * share
      ≤ inPlaces places (inUnit (UInt64.ofNat (count * unit)) unit) * share := by
        apply Nat.mul_le_mul_right
        apply inPlaces_inUnit_mono places hpos
        rw [hnat]
        exact hle
    _ = count * unit := by
      rw [inPlaces_inUnit_mul places hpos hnat (hnat.trans_lt hsmall), hunit]
      ring

theorem le_inPlaces_inUnit (hle : count * unit ≤ ns.toNat) :
    count * unit ≤ inPlaces places (inUnit ns unit) * share := by
  have hnat : (UInt64.ofNat (count * unit)).toNat = count * unit :=
    UInt64.toNat_ofNat_of_lt' (hsmall.trans (by decide))
  calc count * unit
      = inPlaces places (inUnit (UInt64.ofNat (count * unit)) unit) * share := by
        rw [inPlaces_inUnit_mul places hpos hnat (hnat.trans_lt hsmall), hunit]
        ring
    _ ≤ inPlaces places (inUnit ns unit) * share := by
      apply Nat.mul_le_mul_right
      apply inPlaces_inUnit_mono places hpos
      rw [hnat]
      exact hle

end Whole

/-- The four ways to print a duration, and what they keep it between. -/
inductive Shown (ns : UInt64) : ℕ → Prop where
  | nanoseconds (hhigh : ns.toNat < 1000) : Shown ns ns.toNat
  | microseconds (hlow : 1000 ≤ ns.toNat) (hhigh : ns.toNat < 1000000) :
      Shown ns (inPlaces 1 (inUnit ns 1000) * 100)
  | milliseconds (hlow : 1000000 ≤ ns.toNat) (hhigh : ns.toNat < 1000000000) :
      Shown ns (inPlaces 2 (inUnit ns 1000000) * 10000)
  | seconds (hlow : 1000000000 ≤ ns.toNat) :
      Shown ns (inPlaces 3 (inUnit ns 1000000000) * 1000000)

theorem shown_shownNs (ns : UInt64) : Shown ns (shownNs ns) := by
  rw [shownNs]
  simp only [UInt64.lt_iff_toNat_lt, UInt64.reduceToNat]
  split
  next hnano => exact .nanoseconds hnano
  next hnano =>
    split
    next hmicro => exact .microseconds (not_lt.mp hnano) hmicro
    next hmicro =>
      split
      next hmilli => exact .milliseconds (not_lt.mp hmicro) hmilli
      next hmilli => exact .seconds (not_lt.mp hmilli)

/-- A printed duration stays on its side of the limits between the units. -/
theorem Shown.bounds {shown : ℕ} (hshown : Shown ns shown) :
    (1000 ≤ ns.toNat → 1000 ≤ shown) ∧ (ns.toNat < 1000 → shown < 1000) ∧
      (1000000 ≤ ns.toNat → 1000000 ≤ shown) ∧ (ns.toNat < 1000000 → shown ≤ 1000000) ∧
      (1000000000 ≤ ns.toNat → 1000000000 ≤ shown) ∧
      (ns.toNat < 1000000000 → shown ≤ 1000000000) := by
  cases hshown with
  | nanoseconds hhigh => omega
  | microseconds hlow hhigh =>
      have hfrom : 1 * 1000 ≤ inPlaces 1 (inUnit ns 1000) * 100 :=
        le_inPlaces_inUnit rfl (by decide) (by decide) hlow
      have hto : inPlaces 1 (inUnit ns 1000) * 100 ≤ 1000 * 1000 :=
        inPlaces_inUnit_le rfl (by decide) (by decide) hhigh.le
      omega
  | milliseconds hlow hhigh =>
      have hfrom : 1 * 1000000 ≤ inPlaces 2 (inUnit ns 1000000) * 10000 :=
        le_inPlaces_inUnit rfl (by decide) (by decide) hlow
      have hto : inPlaces 2 (inUnit ns 1000000) * 10000 ≤ 1000 * 1000000 :=
        inPlaces_inUnit_le rfl (by decide) (by decide) hhigh.le
      omega
  | seconds hlow =>
      have hfrom : 1 * 1000000000 ≤ inPlaces 3 (inUnit ns 1000000000) * 1000000 :=
        le_inPlaces_inUnit rfl (by decide) (by decide) hlow
      omega

theorem Shown.mono {shown shown' : ℕ} (hshown : Shown ns shown) (hshown' : Shown ns' shown')
    (hle : ns.toNat ≤ ns'.toNat) : shown ≤ shown' := by
  have hbounds := hshown.bounds
  have hbounds' := hshown'.bounds
  -- with different units there is a limit between the two durations
  cases hshown with
  | nanoseconds =>
      cases hshown' with
      | nanoseconds => exact hle
      | _ => omega
  | microseconds =>
      cases hshown' with
      | microseconds =>
          exact Nat.mul_le_mul_right _ (inPlaces_inUnit_mono 1 (by decide) hle)
      | _ => omega
  | milliseconds =>
      cases hshown' with
      | milliseconds =>
          exact Nat.mul_le_mul_right _ (inPlaces_inUnit_mono 2 (by decide) hle)
      | _ => omega
  | seconds =>
      cases hshown' with
      | seconds =>
          exact Nat.mul_le_mul_right _ (inPlaces_inUnit_mono 3 (by decide) hle)
      | _ => omega

theorem shownNs_mono (hle : ns ≤ ns') : shownNs ns ≤ shownNs ns' :=
  (shown_shownNs ns).mono (shown_shownNs ns') (UInt64.le_iff_toNat_le.mp hle)

end Order

/-! ## Accuracy -/

/-- Half of the last printed place, in nanoseconds. -/
def halfPlace (ns : UInt64) : ℕ :=
  if ns < 1000 then 0
  else if ns < 1000000 then 50
  else if ns < 1000000000 then 5000
  else 500000

theorem abs_inPlaces_inUnit_sub_le {ns : UInt64} (hns : ns.toNat < 2 ^ 53)
    {places half share unit : ℕ} (hhalf : 0 < half) (hshare : share = 2 * half)
    (hunit : unit = share * 10 ^ places) :
    |((inPlaces places (inUnit ns unit) * share : ℕ) : ℚ) - ns.toNat| ≤ half := by
  rw [hshare] at hunit
  have hpos : 0 < unit := by
    rw [hunit]
    positivity
  rw [hshare]
  push_cast
  rw [inUnit_eq]
  exact abs_inPlaces_mul_sub_le (Nat.mul_pos (nearest_den_pos _ _) hpos) hhalf hunit
    (nearest_mul_unit hns unit) hns

theorem abs_shownNs_sub_le {ns : UInt64} (hns : ns.toNat < 2 ^ 53) :
    |(shownNs ns : ℚ) - ns.toNat| ≤ halfPlace ns := by
  rw [shownNs, halfPlace]
  split
  · simp
  · split
    · exact abs_inPlaces_inUnit_sub_le hns (by decide) (by decide) (by decide)
    · split
      · exact abs_inPlaces_inUnit_sub_le hns (by decide) (by decide) (by decide)
      · exact abs_inPlaces_inUnit_sub_le hns (by decide) (by decide) (by decide)

/-- Every printed duration can be read, the longer of two durations never reads as
the shorter one, and below `2 ^ 53` nanoseconds what is read is the duration to
half of the last place. -/
theorem printed_durations_ordered_and_close :
    ∃ shown : UInt64 → ℚ,
      (∀ ns, readDuration (formatDurationNs ns) = some (shown ns)) ∧
      (∀ ns ns', ns ≤ ns' → shown ns ≤ shown ns') ∧
      ∀ ns, ns.toNat < 2 ^ 53 → |shown ns - ns.toNat| ≤ halfPlace ns := by
  exact ⟨fun ns => shownNs ns, readDuration_formatDurationNs,
    fun ns ns' hle => Nat.cast_le.mpr (shownNs_mono hle), fun ns hns => abs_shownNs_sub_le hns⟩

end KernelScope.TimeFormat
