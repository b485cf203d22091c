import KernelScope.Core.Histograms
import KernelScope.Library.Binary64
import KernelScope.Library.Extremes
import KernelScope.Library.Sorting
import KernelScope.Library.StepRun

/-!
# Percentile estimates

`Histogram::percentile` scans the buckets until the running count reaches the
rank of the percentile and answers with the middle of that bucket.  The rank is
computed in double precision and truncated.
-/

namespace KernelScope.Percentiles

open KernelScope.Extremes
open KernelScope.Histograms
open KernelScope.Sorting

/-! ## The scan -/

/-- The truncated rank of the percentile `p` among `count` values.  The
conversion back to an integer is defined for quotients below `2 ^ 64`. -/
def threshold (p : ℕ × ℕ) (count : UInt64) : UInt64 :=
  UInt64.ofNat (Binary64.trunc (Binary64.div
    (Binary64.mul (Binary64.ofNat count.toNat) p) (Binary64.ofNat 100)))

/-- The middle of a bucket; the last bucket has no upper end. -/
def midpoint (i : ℕ) : UInt64 :=
  let lo : UInt64 := 1 <<< UInt64.ofNat i
  let hi := if i + 1 < 64 then 1 <<< UInt64.ofNat (i + 1) else lo
  lo + (hi - lo) / 2

/-- The loop over the buckets: the index at which the running count reaches the
threshold. -/
def scan (threshold : UInt64) : UInt64 → ℕ → List UInt64 → Option ℕ
  | _, _, [] => none
  | cumulative, i, bucket :: rest =>
      let cumulative := cumulative + bucket
      if cumulative ≥ threshold then some i
      else scan threshold cumulative (i + 1) rest

def crossing (p : ℕ × ℕ) (hist : Histogram) : Option ℕ :=
  scan (threshold p hist.count) 0 0 hist.buckets.toList

/-- `Histogram::percentile` -/
def percentile (p : ℕ × ℕ) (hist : Histogram) : UInt64 :=
  if hist.count = 0 then 0
  else
    match crossing p hist with
    | some i => midpoint i
    | none => hist.max

/-- The running count after the bucket `i`. -/
def runningCount (buckets : List UInt64) (i : ℕ) : UInt64 :=
  (buckets.take (i + 1)).sum

/-- The answer of a scan: the first index at which the running count reaches the
threshold, if there is one. -/
def Crosses (threshold : UInt64) (buckets : List UInt64) : Option ℕ → Prop
  | some i => i < buckets.length ∧ threshold ≤ runningCount buckets i ∧
      ∀ j < i, runningCount buckets j < threshold
  | none => ∀ j < buckets.length, runningCount buckets j < threshold

theorem length_buckets (hist : Histogram) : hist.buckets.toList.length = 64 :=
  Vector.length_toList

theorem bucketIndex_lt_length (value : UInt64) (hist : Histogram) :
    bucketIndex value < hist.buckets.toList.length := by
  rw [length_buckets]
  exact bucketIndex_lt value

theorem runningCount_append {done : List UInt64} (rest : List UInt64) {i : ℕ}
    (hi : i < done.length) :
    runningCount (done ++ rest) i = runningCount done i := by
  rw [runningCount, List.take_append_of_le_length hi, runningCount]

theorem runningCount_length (done : List UInt64) (bucket : UInt64)
    (rest : List UInt64) :
    runningCount (done ++ bucket :: rest) done.length = done.sum + bucket := by
  simp [runningCount, List.take_append, List.take_of_length_le]

/-- The loop invariant: `done` has been counted without reaching the
threshold. -/
theorem crosses_scan {threshold : UInt64} (done rest : List UInt64)
    (hdone : ∀ j < done.length, runningCount done j < threshold) :
    Crosses threshold (done ++ rest)
      (scan threshold done.sum done.length rest) := by
  induction rest generalizing done with
  | nil => simpa [scan, Crosses] using hdone
  | cons bucket rest ih =>
      have hcount := runningCount_length done bucket rest
      have hbefore : ∀ j < done.length,
          runningCount (done ++ bucket :: rest) j < threshold := by
        intro j hj
        rw [runningCount_append _ hj]
        exact hdone j hj
      simp only [scan]
      by_cases hreached : done.sum + bucket ≥ threshold
      · rw [if_pos hreached]
        exact ⟨by simp, hcount ▸ hreached, hbefore⟩
      · rw [if_neg hreached]
        have hnext := ih (done ++ [bucket]) (by
          intro j hj
          rw [← runningCount_append rest hj, ← List.append_cons]
          rcases Nat.lt_succ_iff_lt_or_eq.mp (by simpa using hj) with hj | rfl
          · exact hbefore j hj
          · rw [hcount]
            exact UInt64.not_le.mp hreached)
        rw [← List.append_cons] at hnext
        simpa using hnext

theorem Crosses.unique {threshold : UInt64} {buckets : List UInt64}
    {left right : Option ℕ} (hleft : Crosses threshold buckets left)
    (hright : Crosses threshold buckets right) : left = right := by
  cases left with
  | none =>
      cases right with
      | none => rfl
      | some j => exact absurd hright.2.1 (UInt64.not_le.mpr (hleft j hright.1))
  | some i =>
      cases right with
      | none => exact absurd hleft.2.1 (UInt64.not_le.mpr (hright i hleft.1))
      | some j =>
          rcases Nat.lt_trichotomy i j with hlt | heq | hgt
          · exact absurd hleft.2.1 (UInt64.not_le.mpr (hright.2.2 i hlt))
          · rw [heq]
          · exact absurd hright.2.1 (UInt64.not_le.mpr (hleft.2.2 j hgt))

theorem crossing_eq_iff {p : ℕ × ℕ} {hist : Histogram} {answer : Option ℕ} :
    crossing p hist = answer ↔
      Crosses (threshold p hist.count) hist.buckets.toList answer := by
  have hscan : Crosses (threshold p hist.count) hist.buckets.toList
      (crossing p hist) :=
    crosses_scan [] hist.buckets.toList (fun _ hj => absurd hj (Nat.not_lt_zero _))
  constructor
  · rintro rfl
    exact hscan
  · exact hscan.unique

/-! ## The recorded values -/

/-- The histogram of a list of values. -/
def recorded (values : List UInt64) : Histogram :=
  values.foldl (fun hist value => hist.record value) Histogram.empty

theorem recorded_append_singleton (values : List UInt64) (value : UInt64) :
    recorded (values ++ [value]) = (recorded values).record value := by
  rw [recorded, List.foldl_append]
  rfl

theorem sum_take_set_add_one {counts : List UInt64} {index n : ℕ}
    (hindex : index < counts.length) :
    ((counts.set index (counts[index] + 1)).take n).sum =
      (counts.take n).sum + if index < n then 1 else 0 := by
  induction counts generalizing index n with
  | nil => cases hindex
  | cons head tail ih =>
      cases n with
      | zero => simp
      | succ n =>
          cases index with
          | zero => simp [add_right_comm]
          | succ index =>
              have htail := ih (n := n) (Nat.lt_of_succ_lt_succ hindex)
              simp [htail, add_assoc]

theorem runningCount_record (value : UInt64) (hist : Histogram) (i : ℕ) :
    runningCount (hist.record value).buckets.toList i =
      runningCount hist.buckets.toList i +
        if bucketIndex value ≤ i then 1 else 0 := by
  have hset := sum_take_set_add_one (n := i + 1) (bucketIndex_lt_length value hist)
  simpa [runningCount, Histogram.record, Vector.toList_set, Nat.lt_succ_iff] using hset

/-- The running count is the number of values in the buckets so far. -/
theorem runningCount_recorded (values : List UInt64) (i : ℕ) :
    runningCount (recorded values).buckets.toList i =
      UInt64.ofNat (values.countP (bucketIndex · ≤ i)) := by
  induction values using List.reverseRecOn with
  | nil => simp [recorded, runningCount, Histogram.empty]
  | append_singleton values value ih =>
      rw [recorded_append_singleton, runningCount_record, ih, List.countP_append,
        UInt64.ofNat_add, List.countP_singleton]
      by_cases hvalue : bucketIndex value ≤ i <;> simp [hvalue]

theorem count_recorded (values : List UInt64) :
    (recorded values).count = UInt64.ofNat values.length := by
  induction values using List.reverseRecOn with
  | nil => rfl
  | append_singleton values value ih =>
      rw [recorded_append_singleton, List.length_append, UInt64.ofNat_add, ← ih]
      rfl

/-- All values are counted once the last bucket is reached. -/
theorem runningCount_last (values : List UInt64) {i : ℕ}
    (hi : ∀ value ∈ values, bucketIndex value ≤ i) :
    runningCount (recorded values).buckets.toList i = (recorded values).count := by
  rw [runningCount_recorded, count_recorded, List.countP_eq_length.mpr]
  simpa using hi

theorem isGreatest_max_recorded {values : List UInt64} (hvalues : values ≠ []) :
    IsGreatest {value | value ∈ values} (recorded values).max := by
  have hextreme : Extreme (· ≤ ·) {a | ∃ value ∈ values, id value = a}
      (recorded values).max :=
    extreme_foldl Histogram.max (fun _ => UInt64.zero_le)
      (fun value hist => updates_max hist.max value) hvalues
  simpa [extreme_le_iff] using hextreme

theorem isLeast_min_recorded {values : List UInt64} (hvalues : values ≠ []) :
    IsLeast {value | value ∈ values} (recorded values).min := by
  have hextreme : Extreme (· ≥ ·) {a | ∃ value ∈ values, id value = a}
      (recorded values).min :=
    extreme_foldl Histogram.min le_empty_min
      (fun value hist => updates_min hist.min value) hvalues
  simpa [extreme_ge_iff] using hextreme

/-! ## Buckets -/

theorem bucketIndex_eq_log (value : UInt64) :
    bucketIndex value = Nat.log 2 value.toNat := by
  rcases eq_or_ne value 0 with rfl | hne
  · simp [bucketIndex]
  · have hpos : value.toNat ≠ 0 := fun h => hne (UInt64.toNat_inj.mp h)
    have hlog : Nat.log 2 value.toNat < 64 :=
      Nat.log_lt_of_lt_pow hpos value.toNat_lt
    rw [bucketIndex, if_neg hne, bitWidth, if_neg hne, Nat.add_sub_cancel]
    exact Nat.min_eq_left (Nat.le_of_lt_succ hlog)

theorem bucketIndex_mono {left right : UInt64} (hle : left ≤ right) :
    bucketIndex left ≤ bucketIndex right := by
  rw [bucketIndex_eq_log, bucketIndex_eq_log]
  exact Nat.log_mono_right (UInt64.le_iff_toNat_le.mp hle)

theorem bucketIndex_eq_zero_iff {value : UInt64} :
    bucketIndex value = 0 ↔ value ≤ 1 := by
  have hone : (1 : UInt64).toNat = 1 := rfl
  rw [bucketIndex_eq_log, Nat.log_eq_zero_iff, UInt64.le_iff_toNat_le, hone]
  omega

/-- The middle of a bucket lies in the bucket. -/
theorem midpoint_bounds {i : ℕ} (hi : i < 64) :
    2 ^ i ≤ (midpoint i).toNat ∧ (midpoint i).toNat < 2 ^ (i + 1) := by
  have hall : ∀ i : Fin 64,
      2 ^ i.val ≤ (midpoint i).toNat ∧ (midpoint i).toNat < 2 ^ (i.val + 1) := by
    decide +kernel
  exact hall ⟨i, hi⟩

theorem bucketIndex_midpoint {i : ℕ} (hi : i < 64) : bucketIndex (midpoint i) = i := by
  obtain ⟨hlow, hhigh⟩ := midpoint_bounds hi
  rw [bucketIndex_eq_log]
  exact Nat.log_eq_of_pow_le_of_lt_pow hlow hhigh

theorem midpoint_mono {i j : ℕ} (hij : i ≤ j) (hj : j < 64) :
    midpoint i ≤ midpoint j := by
  rcases Nat.eq_or_lt_of_le hij with rfl | hlt
  · exact UInt64.le_refl _
  · rw [UInt64.le_iff_toNat_le]
    calc
      (midpoint i).toNat ≤ 2 ^ (i + 1) := (midpoint_bounds (by omega)).2.le
      _ ≤ 2 ^ j := Nat.pow_le_pow_right (by decide) hlt
      _ ≤ (midpoint j).toNat := (midpoint_bounds hj).1

/-- The middle of a bucket below the one of `value`. -/
theorem midpoint_le_of_lt {i : ℕ} {value : UInt64} (hi : i < bucketIndex value) :
    midpoint i ≤ value := by
  have hlt := bucketIndex_lt value
  rw [UInt64.le_iff_toNat_le]
  rw [bucketIndex_eq_log] at hi hlt
  have hne : value.toNat ≠ 0 := by
    intro hzero
    simp [hzero] at hi
  calc
    (midpoint i).toNat ≤ 2 ^ (i + 1) := (midpoint_bounds (hi.trans hlt)).2.le
    _ ≤ 2 ^ Nat.log 2 value.toNat := Nat.pow_le_pow_right (by decide) hi
    _ ≤ value.toNat := Nat.pow_log_le_self 2 hne

/-! ## Ranks -/

theorem toNat_threshold {p : ℕ} {count : UInt64} (hp : p ≤ 100)
    (hcount : count.toNat * 100 < 2 ^ 53) :
    (threshold (Binary64.ofNat p) count).toNat = count.toNat * p / 100 := by
  have hproduct : count.toNat * p < 2 ^ 53 :=
    (Nat.mul_le_mul_left count.toNat hp).trans_lt hcount
  have htrunc := (((Binary64.represents_ofNat (by omega)).mul
    (Binary64.represents_ofNat (by omega)) hproduct).trunc_div
      (Binary64.represents_ofNat (by decide)) (by decide : 0 < 100) hproduct)
  rw [threshold, htrunc, UInt64.toNat_ofNat_of_lt']
  exact (Nat.div_le_self _ _).trans_lt (hproduct.trans (by decide))

theorem rank_le {p : ℕ} (n : ℕ) (hp : p ≤ 100) : n * p / 100 ≤ n := by
  apply Nat.div_le_of_le_mul
  rw [Nat.mul_comm 100]
  exact Nat.mul_le_mul_left n hp

theorem threshold_le_count {p : ℕ} {count : UInt64} (hp : p ≤ 100)
    (hcount : count.toNat * 100 < 2 ^ 53) :
    threshold (Binary64.ofNat p) count ≤ count := by
  rw [UInt64.le_iff_toNat_le, toNat_threshold hp hcount]
  exact rank_le count.toNat hp

theorem threshold_mono {p q : ℕ} {count : UInt64} (hpq : p ≤ q) (hq : q ≤ 100)
    (hcount : count.toNat * 100 < 2 ^ 53) :
    threshold (Binary64.ofNat p) count ≤ threshold (Binary64.ofNat q) count := by
  rw [UInt64.le_iff_toNat_le, toNat_threshold (hpq.trans hq) hcount,
    toNat_threshold hq hcount]
  exact Nat.div_le_div_right (Nat.mul_le_mul_left _ hpq)

/-- The values in ascending order. -/
def ascending (values : List UInt64) : List UInt64 :=
  values.mergeSort fun a b => decide (a ≤ b)

/-- The `k`-th smallest value, counted from one. -/
def kthSmallest (k : ℕ) (values : List UInt64) : Option UInt64 :=
  (ascending values)[k - 1]?

theorem ascending_perm (values : List UInt64) : (ascending values).Perm values :=
  List.mergeSort_perm _ _

theorem pairwise_ascending (values : List UInt64) :
    (ascending values).Pairwise (· ≤ ·) := by
  have hsorted : (ascending values).Pairwise fun a b => decide (a ≤ b) = true := by
    apply List.pairwise_mergeSort
    · intro a b c hab hbc
      exact decide_eq_true
        (UInt64.le_trans (of_decide_eq_true hab) (of_decide_eq_true hbc))
    · intro a b
      simpa using UInt64.le_total a b
  exact hsorted.imp of_decide_eq_true

theorem exists_kthSmallest {k : ℕ} {values : List UInt64} (hk : 1 ≤ k)
    (hlength : k ≤ values.length) : ∃ v, kthSmallest k values = some v := by
  have hindex : k - 1 < (ascending values).length := by
    rw [(ascending_perm values).length_eq]
    omega
  exact ⟨_, List.getElem?_eq_getElem hindex⟩

theorem mem_of_kthSmallest {k : ℕ} {values : List UInt64} {v : UInt64}
    (hv : kthSmallest k values = some v) : v ∈ values :=
  (ascending_perm values).mem_iff.mp (List.mem_of_getElem? hv)

/-- The `k`-th smallest value lies in one of the first buckets exactly when
these hold at least `k` values. -/
theorem bucketIndex_kthSmallest_le_iff {k : ℕ} {values : List UInt64} {v : UInt64}
    (hk : 1 ≤ k) (hv : kthSmallest k values = some v) (i : ℕ) :
    bucketIndex v ≤ i ↔ k ≤ values.countP (bucketIndex · ≤ i) := by
  obtain ⟨hindex, rfl⟩ := List.getElem?_eq_some_iff.mp hv
  have hfirst : (ascending values).Pairwise fun a b =>
      decide (bucketIndex b ≤ i) = true → decide (bucketIndex a ≤ i) = true := by
    refine (pairwise_ascending values).imp fun {a b} hab hb => ?_
    exact decide_eq_true ((bucketIndex_mono hab).trans (of_decide_eq_true hb))
  have hrank := satisfies_iff_lt_countP hfirst hindex
  rw [decide_eq_true_iff, (ascending_perm values).countP_eq] at hrank
  rw [hrank]
  omega

theorem percentile_of_crossing {p : ℕ × ℕ} {hist : Histogram} {i : ℕ}
    (hcount : hist.count ≠ 0) (hcrossing : crossing p hist = some i) :
    percentile p hist = midpoint i := by
  rw [percentile, if_neg hcount, hcrossing]

section FewValues

variable {values : List UInt64} (hlength : values.length * 100 < 2 ^ 53)

include hlength

theorem length_lt_size : values.length < 2 ^ 64 := by
  omega

theorem toNat_count_recorded : (recorded values).count.toNat = values.length := by
  rw [count_recorded, UInt64.toNat_ofNat_of_lt' (length_lt_size hlength)]

theorem count_recorded_ne_zero (hvalues : values ≠ []) :
    (recorded values).count ≠ 0 := by
  intro hzero
  have hcount := toNat_count_recorded hlength
  rw [hzero] at hcount
  exact hvalues (List.eq_nil_of_length_eq_zero hcount.symm)

theorem toNat_threshold_recorded {p : ℕ} (hp : p ≤ 100) :
    (threshold (Binary64.ofNat p) (recorded values).count).toNat =
      values.length * p / 100 := by
  have hcount := toNat_count_recorded hlength
  rw [toNat_threshold hp (hcount.symm ▸ hlength), hcount]

/-- With few enough values the scan stops in the bucket of the value whose rank
it looks for. -/
theorem crossing_eq_bucketIndex {p : ℕ} {v : UInt64} (hp : p ≤ 100)
    (hrank : 1 ≤ values.length * p / 100)
    (hv : kthSmallest (values.length * p / 100) values = some v) :
    crossing (Binary64.ofNat p) (recorded values) = some (bucketIndex v) := by
  -- both sides are natural numbers below the word size
  have hreached : ∀ i, threshold (Binary64.ofNat p) (recorded values).count ≤
      runningCount (recorded values).buckets.toList i ↔ bucketIndex v ≤ i := by
    intro i
    have hle : values.countP (bucketIndex · ≤ i) ≤ values.length :=
      List.countP_le_length
    rw [bucketIndex_kthSmallest_le_iff hrank hv, runningCount_recorded,
      UInt64.le_iff_toNat_le, toNat_threshold_recorded hlength hp,
      UInt64.toNat_ofNat_of_lt' (hle.trans_lt (length_lt_size hlength))]
  rw [crossing_eq_iff]
  refine ⟨?_, ?_, ?_⟩
  · exact bucketIndex_lt_length v _
  · exact (hreached _).mpr (Nat.le_refl _)
  · intro j hj
    exact UInt64.not_le.mp (mt (hreached j).mp (Nat.not_le.mpr hj))

/-- A rank of zero is reached in the first bucket, whether or not it holds a
value. -/
theorem crossing_eq_zero {p : ℕ} (hp : p ≤ 100)
    (hrank : values.length * p / 100 = 0) :
    crossing (Binary64.ofNat p) (recorded values) = some 0 := by
  rw [crossing_eq_iff]
  refine ⟨(length_buckets _).symm ▸ (by decide), ?_, fun j hj => absurd hj (Nat.not_lt_zero j)⟩
  rw [UInt64.le_iff_toNat_le, toNat_threshold_recorded hlength hp, hrank]
  exact Nat.zero_le _

/-- The value whose rank a percentile looks for, in any bucket it can stop at. -/
theorem exists_crossing {p : ℕ} (hp : p ≤ 100) (hrank : 1 ≤ values.length * p / 100) :
    ∃ v, kthSmallest (values.length * p / 100) values = some v ∧
      crossing (Binary64.ofNat p) (recorded values) = some (bucketIndex v) := by
  obtain ⟨v, hv⟩ := exists_kthSmallest hrank (rank_le values.length hp)
  exact ⟨v, hv, crossing_eq_bucketIndex hlength hp hrank hv⟩

end FewValues

/-! ## The estimate -/

/-- The middle of a log2 bucket. -/
def bucketMidpoint (i : ℕ) : ℕ :=
  if i = 0 then 1 else if i ≤ 62 then 2 ^ i + 2 ^ (i - 1) else 2 ^ 63

theorem toNat_midpoint {i : ℕ} (hi : i < 64) :
    (midpoint i).toNat = bucketMidpoint i := by
  have hall : ∀ i : Fin 64, (midpoint i).toNat = bucketMidpoint i := by
    decide +kernel
  exact hall ⟨i, hi⟩

/-- The estimate is within a factor of two of a nonzero value in its bucket. -/
theorem estimate_bounds {v : UInt64} (hv : 1 ≤ v) :
    v.toNat < 2 * (midpoint (bucketIndex v)).toNat ∧
      (midpoint (bucketIndex v)).toNat < 2 * v.toNat := by
  obtain ⟨hlow, hhigh⟩ := midpoint_bounds (bucketIndex_lt v)
  have hne : v.toNat ≠ 0 := Nat.ne_of_gt (UInt64.le_iff_toNat_le.mp hv)
  have hpow := Nat.pow_log_le_self 2 hne
  have hlt := Nat.lt_pow_succ_log_self one_lt_two v.toNat
  rw [← bucketIndex_eq_log] at hpow hlt
  rw [pow_succ] at hlt hhigh
  omega

/-- A percentile whose rank is at least one is the middle of the bucket that
contains the value of that rank. -/
theorem percentile_estimates_kthSmallest (values : List UInt64) (p : ℕ)
    (hlength : values.length * 100 < 2 ^ 53) (hp : 1 ≤ p ∧ p ≤ 100)
    (hrank : 1 ≤ values.length * p / 100) :
    (threshold (Binary64.ofNat p) (recorded values).count).toNat =
        values.length * p / 100 ∧
      ∃ v, kthSmallest (values.length * p / 100) values = some v ∧
        crossing (Binary64.ofNat p) (recorded values) = some (bucketIndex v) ∧
        (percentile (Binary64.ofNat p) (recorded values)).toNat =
          bucketMidpoint (bucketIndex v) ∧
        (1 ≤ v →
          v.toNat < 2 * (percentile (Binary64.ofNat p) (recorded values)).toNat ∧
          (percentile (Binary64.ofNat p) (recorded values)).toNat < 2 * v.toNat) := by
  have hvalues : values ≠ [] := by
    rintro rfl
    simp at hrank
  obtain ⟨v, hv, hcrossing⟩ := exists_crossing hlength hp.2 hrank
  have hpercentile :=
    percentile_of_crossing (count_recorded_ne_zero hlength hvalues) hcrossing
  refine ⟨toNat_threshold_recorded hlength hp.2, v, hv, hcrossing, ?_, ?_⟩
  · rw [hpercentile, toNat_midpoint (bucketIndex_lt v)]
  · rw [hpercentile]
    exact estimate_bounds

theorem percentile_estimates_smallest_of_three :
    ∃ v, kthSmallest 1 [700, 3, 90] = some v ∧
      (percentile (Binary64.ofNat 50) (recorded [700, 3, 90])).toNat =
        bucketMidpoint (bucketIndex v) := by
  obtain ⟨-, v, hv, -, hpercentile, -⟩ := percentile_estimates_kthSmallest
    [700, 3, 90] 50 (by decide) (by decide) (by decide)
  exact ⟨v, hv, hpercentile⟩

/-! ## Empty buckets -/

/-- A percentile comes from a bucket that holds a value exactly when its rank is
at least one or the first bucket holds a value. -/
theorem percentile_bucket_occupied_iff (values : List UInt64) (p : ℕ)
    (hvalues : values ≠ []) (hlength : values.length * 100 < 2 ^ 53)
    (hp : 1 ≤ p ∧ p ≤ 100) :
    ((∃ v ∈ values, bucketIndex v =
        bucketIndex (percentile (Binary64.ofNat p) (recorded values))) ∧
      bucketIndex (recorded values).min ≤
        bucketIndex (percentile (Binary64.ofNat p) (recorded values))) ↔
      100 ≤ values.length * p ∨ ∃ v ∈ values, v ≤ 1 := by
  have hcount := count_recorded_ne_zero hlength hvalues
  have hmin : ∀ v ∈ values, bucketIndex (recorded values).min ≤ bucketIndex v :=
    fun v hv => bucketIndex_mono ((isLeast_min_recorded hvalues).2 hv)
  rcases Nat.eq_zero_or_pos (values.length * p / 100) with hzero | hrank
  · have hsmall : ¬100 ≤ values.length * p := by omega
    rw [percentile_of_crossing hcount (crossing_eq_zero hlength hp.2 hzero),
      bucketIndex_midpoint (by decide)]
    simp only [bucketIndex_eq_zero_iff, hsmall, false_or, and_iff_left_iff_imp]
    rintro ⟨v, hv, hle⟩
    exact bucketIndex_eq_zero_iff.mpr hle ▸ hmin v hv
  · have hlarge : 100 ≤ values.length * p := by omega
    obtain ⟨v, hv, hcrossing⟩ := exists_crossing hlength hp.2 hrank
    have hmem := mem_of_kthSmallest hv
    rw [percentile_of_crossing hcount hcrossing,
      bucketIndex_midpoint (bucketIndex_lt v)]
    exact iff_of_true ⟨⟨v, hmem, rfl⟩, hmin v hmem⟩ (.inl hlarge)

/-- The median of a single value is taken from the first bucket. -/
theorem percentile_of_empty_bucket :
    percentile (Binary64.ofNat 50) (recorded [1000000]) = 1 ∧
      bucketIndex (recorded [1000000]).min = 19 ∧
      ¬∃ v ∈ [1000000], bucketIndex v =
        bucketIndex (percentile (Binary64.ofNat 50) (recorded [1000000])) := by
  decide +kernel

theorem percentile_bucket_occupied_two_values :
    ∃ v ∈ [600, 5000], bucketIndex v =
      bucketIndex (percentile (Binary64.ofNat 50) (recorded [600, 5000])) :=
  ((percentile_bucket_occupied_iff [600, 5000] 50 (by decide) (by decide)
    (by decide)).mpr (.inl (by decide))).1

/-! ## The maximum -/

/-- Once the bucket of the largest value is counted, so are all values. -/
theorem runningCount_of_greatest {values : List UInt64} {m : UInt64}
    (hm : IsGreatest {value | value ∈ values} m) {i : ℕ} (hi : bucketIndex m ≤ i) :
    runningCount (recorded values).buckets.toList i = (recorded values).count :=
  runningCount_last values fun _ hvalue => (bucketIndex_mono (hm.2 hvalue)).trans hi

/-- The scan never stops beyond the bucket of the largest value. -/
theorem crossing_le_of_greatest {p : ℕ × ℕ} {values : List UInt64} {m : UInt64}
    (hm : IsGreatest {value | value ∈ values} m) {i : ℕ}
    (hcrossing : crossing p (recorded values) = some i) : i ≤ bucketIndex m := by
  obtain ⟨-, hreached, hbefore⟩ := crossing_eq_iff.mp hcrossing
  by_contra hgt
  have hlt := Nat.not_le.mp hgt
  have hall := runningCount_of_greatest hm (Nat.le_refl (bucketIndex m))
  rw [runningCount_of_greatest hm hlt.le, ← hall] at hreached
  exact UInt64.not_le.mpr (hbefore _ hlt) (hall ▸ hreached)

/-- Where the scan stops relative to the bucket of the largest value. -/
theorem crossing_eq_bucketIndex_iff {p : ℕ × ℕ} {values : List UInt64} {m : UInt64}
    (hm : IsGreatest {value | value ∈ values} m) :
    crossing p (recorded values) = some (bucketIndex m) ↔
      threshold p (recorded values).count ≤ (recorded values).count ∧
        ∀ i < bucketIndex m, UInt64.ofNat (values.countP (bucketIndex · ≤ i)) <
          threshold p (recorded values).count := by
  rw [crossing_eq_iff, Crosses, runningCount_of_greatest hm (Nat.le_refl _),
    and_iff_right (bucketIndex_lt_length m _)]
  simp only [runningCount_recorded]

theorem max_recorded_eq {values : List UInt64} {m : UInt64}
    (hm : IsGreatest {value | value ∈ values} m) : (recorded values).max = m := by
  have hmax := isGreatest_max_recorded (List.ne_nil_of_mem hm.1)
  exact UInt64.le_antisymm (hm.2 hmax.1) (hmax.2 hm.1)

/-- A percentile exceeds the maximum exactly when the maximum lies below the
middle of its bucket and the scan stops in this bucket. -/
theorem percentile_le_greatest_iff {p : ℕ × ℕ} {values : List UInt64} {m : UInt64}
    (hm : IsGreatest {value | value ∈ values} m) :
    percentile p (recorded values) ≤ (recorded values).max ↔
      midpoint (bucketIndex m) ≤ m ∨ (recorded values).count = 0 ∨
        ¬crossing p (recorded values) = some (bucketIndex m) := by
  rw [percentile, max_recorded_eq hm]
  by_cases hzero : (recorded values).count = 0
  · rw [if_pos hzero]
    exact iff_of_true UInt64.zero_le (.inr (.inl hzero))
  · rw [if_neg hzero]
    cases hcrossing : crossing p (recorded values) with
    | none => simp
    | some i =>
        by_cases heq : i = bucketIndex m
        · simp [heq, hzero]
        · have hlt := (crossing_le_of_greatest hm hcrossing).lt_of_ne heq
          exact iff_of_true (midpoint_le_of_lt hlt) (.inr (.inr (by simpa using heq)))

/-- The rank of a percentile is reached below the bucket of `m`, or never. -/
def MissesBucket (values : List UInt64) (p : ℕ) (m : UInt64) : Prop :=
  let count := UInt64.ofNat values.length
  let rank := threshold (Binary64.ofNat p) count
  count = 0 ∨ count < rank ∨
    ∃ i < bucketIndex m, rank ≤ UInt64.ofNat (values.countP (bucketIndex · ≤ i))

/-- A percentile stays within the maximum exactly when the maximum reaches the
middle of its bucket or the scan does not stop there. -/
theorem percentile_le_max_iff (values : List UInt64) (m : UInt64)
    (hm : IsGreatest {value | value ∈ values} m) (p : ℕ) :
    percentile (Binary64.ofNat p) (recorded values) ≤ (recorded values).max ↔
      midpoint (bucketIndex m) ≤ m ∨ MissesBucket values p m := by
  rw [percentile_le_greatest_iff hm, crossing_eq_bucketIndex_iff hm,
    count_recorded, MissesBucket]
  simp only [not_and_or, not_forall, UInt64.not_le, UInt64.not_lt, exists_prop]

/-- A single value in the lower half of its bucket. -/
theorem percentile_exceeds_max :
    percentile (Binary64.ofNat 100) (recorded [1024]) = 1536 ∧
      (recorded [1024]).max = 1024 := by
  decide +kernel

theorem percentile_le_max_single_value :
    percentile (Binary64.ofNat 99) (recorded [2000]) ≤ (recorded [2000]).max :=
  (percentile_le_max_iff [2000] 2000 (by simp [IsGreatest, upperBounds]) 99).mpr
    (.inl (by decide +kernel))

/-! ## Monotonicity -/

/-- `Histogram::reset` -/
def reset (hist : Histogram) : Histogram :=
  { hist with
    buckets := Vector.replicate kBucketCount 0
    sum := 0
    min := UInt64.ofNat (2 ^ 64 - 1)
    max := 0
    count := 0 }

inductive Op where
  | record (value : UInt64)
  | reset
  deriving DecidableEq

def exec (hist : Histogram) : Op → Histogram
  | .record value => hist.record value
  | .reset => reset hist

/-- A histogram holds the values recorded since the last reset. -/
theorem exists_recorded (ops : List Op) :
    ∃ values, StepRun.run exec Histogram.empty ops = recorded values := by
  apply StepRun.run_invariant (fun hist => ∃ values, hist = recorded values)
    (fun hist op hinv _ => ?_) ⟨[], rfl⟩ (StepRun.along_true _ ops)
  obtain ⟨values, rfl⟩ := hinv
  cases op with
  | record value => exact ⟨values ++ [value], (recorded_append_singleton _ _).symm⟩
  | reset => exact ⟨[], rfl⟩

/-- The buckets add up to the count, so every rank is reached. -/
theorem exists_crossing_of_le {p : ℕ × ℕ} {values : List UInt64}
    (hle : threshold p (recorded values).count ≤ (recorded values).count) :
    ∃ i < 64, crossing p (recorded values) = some i := by
  cases hcrossing : crossing p (recorded values) with
  | none =>
      have hbelow := crossing_eq_iff.mp hcrossing 63 (length_buckets _ ▸ by decide)
      rw [runningCount_last values
        fun value _ => Nat.le_of_lt_succ (bucketIndex_lt value)] at hbelow
      exact absurd hle (UInt64.not_le.mpr hbelow)
  | some i => exact ⟨i, length_buckets _ ▸ (crossing_eq_iff.mp hcrossing).1, rfl⟩

/-- A higher threshold is reached later. -/
theorem crossing_mono {p q : ℕ × ℕ} {hist : Histogram} {i j : ℕ}
    (hle : threshold p hist.count ≤ threshold q hist.count)
    (hi : crossing p hist = some i) (hj : crossing q hist = some j) : i ≤ j := by
  by_contra hgt
  have hbefore := (crossing_eq_iff.mp hi).2.2 j (Nat.not_le.mp hgt)
  have hreached := (crossing_eq_iff.mp hj).2.1
  exact UInt64.not_le.mpr hbefore (UInt64.le_trans hle hreached)

/-- In every state that recording and resetting lead to, percentiles grow with
`p`. -/
theorem percentile_mono (ops : List Op) (p q : ℕ)
    (hcount : (StepRun.run exec Histogram.empty ops).count.toNat * 100 < 2 ^ 53)
    (hpq : p ≤ q) (hq : q ≤ 100) :
    percentile (Binary64.ofNat p) (StepRun.run exec Histogram.empty ops) ≤
      percentile (Binary64.ofNat q) (StepRun.run exec Histogram.empty ops) := by
  obtain ⟨values, hvalues⟩ := exists_recorded ops
  rw [hvalues] at hcount ⊢
  by_cases hzero : (recorded values).count = 0
  · rw [percentile, if_pos hzero]
    exact UInt64.zero_le
  · obtain ⟨i, -, hi⟩ := exists_crossing_of_le (threshold_le_count (hpq.trans hq) hcount)
    obtain ⟨j, hj, hj'⟩ := exists_crossing_of_le (threshold_le_count hq hcount)
    rw [percentile_of_crossing hzero hi, percentile_of_crossing hzero hj']
    exact midpoint_mono (crossing_mono (threshold_mono hpq hq hcount) hi hj') hj

theorem percentile_mono_after_reset :
    percentile (Binary64.ofNat 50)
        (StepRun.run exec Histogram.empty [.record 9, .reset, .record 5, .record 800]) ≤
      percentile (Binary64.ofNat 99)
        (StepRun.run exec Histogram.empty [.record 9, .reset, .record 5, .record 800]) :=
  percentile_mono [.record 9, .reset, .record 5, .record 800] 50 99
    (by decide +kernel) (by decide) (by decide)

end KernelScope.Percentiles
