import KernelScope.Core.Percentiles
import Mathlib.Algebra.BigOperators.Fin

/-!
# What a histogram holds

After any sequence of `record` and `reset` calls, every field of a histogram is
determined by the values recorded since the last reset: a bucket counts the
values with one leading power of two, and the buckets share out the count.
-/

namespace KernelScope.HistogramContents

open KernelScope.Histograms
open KernelScope.Percentiles

/-- The values recorded since the last reset, after those in `values`. -/
def sinceReset : List UInt64 → List Op → List UInt64
  | values, [] => values
  | values, .record value :: ops => sinceReset (values ++ [value]) ops
  | _, .reset :: ops => sinceReset [] ops

/-- Only the values since the last reset are remembered. -/
theorem run_recorded (values : List UInt64) (ops : List Op) :
    StepRun.run exec (recorded values) ops = recorded (sinceReset values ops) := by
  induction ops generalizing values with
  | nil => rfl
  | cons op ops ih =>
      cases op with
      | record value =>
          rw [StepRun.run_cons, sinceReset, ← ih, recorded_append_singleton]
          rfl
      | reset =>
          rw [StepRun.run_cons, sinceReset, ← ih]
          rfl

/-- The fields of a histogram of `values`. -/
structure Represents (values : List UInt64) (hist : Histogram) : Prop where
  bucket : ∀ index : Fin kBucketCount, (hist.bucket index).toNat =
    values.countP fun value => Nat.log 2 (max value.toNat 1) = index
  total : ∑ index, (hist.bucket index).toNat = hist.count.toNat
  count : hist.count.toNat = values.length
  sum : hist.sum.toNat = (values.map UInt64.toNat).sum % 2 ^ 64
  max_nil : values = [] → hist.max = 0
  max : values ≠ [] → IsGreatest {value | value ∈ values} hist.max
  min_nil : values = [] → hist.min.toNat = 2 ^ 64 - 1
  min : values ≠ [] → IsLeast {value | value ∈ values} hist.min

/-! ## The index of a bucket -/

/-- The logarithm of a word is below the number of buckets. -/
theorem bitWidth_le (value : UInt64) : bitWidth value - 1 ≤ kBucketCount - 1 := by
  unfold bitWidth
  split
  · exact Nat.zero_le _
  next hne =>
    have hpos : value.toNat ≠ 0 := fun h => hne (UInt64.toNat_inj.mp h)
    exact Nat.le_of_lt_succ (Nat.log_lt_of_lt_pow hpos value.toNat_lt)

theorem bucketIndex_eq_log_max (value : UInt64) :
    bucketIndex value = Nat.log 2 (max value.toNat 1) := by
  rw [bucketIndex_eq_log]
  rcases Nat.eq_zero_or_pos value.toNat with hzero | hpos
  · rw [hzero]
    rfl
  · rw [max_eq_left hpos]

/-! ## The counters -/

theorem bucket_recorded (values : List UInt64) (index : Fin kBucketCount) :
    (recorded values).bucket index =
      UInt64.ofNat (values.countP fun value => bucketIndex value = index) := by
  induction values using List.reverseRecOn with
  | nil => exact bucket_empty index
  | append_singleton values value ih =>
      rw [recorded_append_singleton, bucket_record, ih, List.countP_append,
        UInt64.ofNat_add, List.countP_singleton]
      by_cases hvalue : bucketIndex value = index <;> simp [hvalue]

theorem sum_recorded (values : List UInt64) :
    (recorded values).sum.toNat = (values.map UInt64.toNat).sum % 2 ^ 64 := by
  induction values using List.reverseRecOn with
  | nil => rfl
  | append_singleton values value ih =>
      have hrecord : ((recorded values).record value).sum =
          (recorded values).sum + value := rfl
      rw [recorded_append_singleton, hrecord, UInt64.toNat_add, ih, Nat.mod_add_mod,
        List.map_append, List.sum_append]
      rfl

/-- Every value is counted in exactly one bucket. -/
theorem sum_countP_bucketIndex (values : List UInt64) :
    ∑ index : Fin kBucketCount, values.countP (fun value => bucketIndex value = index) =
      values.length := by
  induction values with
  | nil => simp
  | cons value values ih =>
      have hone : ∑ index : Fin kBucketCount,
          (if bucketIndex value = index then 1 else 0) = 1 := by
        have hindex : ∀ index : Fin kBucketCount, bucketIndex value = index ↔
            (⟨bucketIndex value, bucketIndex_lt value⟩ : Fin kBucketCount) = index := by
          intro index
          rw [Fin.ext_iff]
        simp only [hindex, Finset.sum_ite_eq, Finset.mem_univ, if_true]
      simp only [List.countP_cons, Finset.sum_add_distrib, ih, decide_eq_true_eq, hone,
        List.length_cons]

theorem represents_recorded {values : List UInt64} (hlength : values.length < 2 ^ 64) :
    Represents values (recorded values) := by
  have hbucket : ∀ index : Fin kBucketCount, ((recorded values).bucket index).toNat =
      values.countP fun value => bucketIndex value = index := by
    intro index
    rw [bucket_recorded, UInt64.toNat_ofNat_of_lt'
      (List.countP_le_length.trans_lt hlength)]
  have hcount : (recorded values).count.toNat = values.length := by
    rw [count_recorded, UInt64.toNat_ofNat_of_lt' hlength]
  refine ⟨?_, ?_, hcount, sum_recorded values, ?_, isGreatest_max_recorded, ?_,
    isLeast_min_recorded⟩
  · simpa only [bucketIndex_eq_log_max] using hbucket
  · simp only [hbucket, sum_countP_bucketIndex, hcount]
  · rintro rfl
    rfl
  · rintro rfl
    rfl

/-- The representation invariant: in every state that `record` and `reset` lead
to, the histogram is that of the values since the last reset, and no index is
ever clamped. -/
theorem histogram_invariant (ops : List Op)
    (hrecords : (sinceReset [] ops).length < 2 ^ 64) :
    Represents (sinceReset [] ops) (StepRun.run exec Histogram.empty ops) ∧
      ∀ value, Nat.min (bitWidth value - 1) (kBucketCount - 1) = bitWidth value - 1 := by
  have hrun : StepRun.run exec Histogram.empty ops = recorded (sinceReset [] ops) :=
    run_recorded [] ops
  rw [hrun]
  exact ⟨represents_recorded hrecords, fun value => Nat.min_eq_left (bitWidth_le value)⟩

theorem histogram_invariant_after_reset :
    Represents [0, 1024, UInt64.ofNat (2 ^ 64 - 1)]
      (StepRun.run exec Histogram.empty
        [.record 9, .reset, .record 0, .record 1024, .record (UInt64.ofNat (2 ^ 64 - 1))]) :=
  (histogram_invariant
    [.record 9, .reset, .record 0, .record 1024, .record (UInt64.ofNat (2 ^ 64 - 1))]
    (by decide)).1

end KernelScope.HistogramContents
