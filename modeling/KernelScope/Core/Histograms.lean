import KernelScope.Library.KeyedFold
import Mathlib.Data.Nat.Log
import Mathlib.Data.UInt

/-!
# Latency histograms

The log2 histogram of `core/histograms.cpp`.  All counters are 64-bit and wrap;
the minimum of an empty histogram is the largest 64-bit value.
-/

namespace KernelScope.Histograms

/-- `kBucketCount` -/
def kBucketCount : ℕ := 64

structure Histogram where
  buckets : Vector UInt64 kBucketCount
  sum : UInt64
  min : UInt64
  max : UInt64
  count : UInt64
  deriving DecidableEq

/-- The constructor: `buckets_.fill(0)` and the member initialisers. -/
def Histogram.empty : Histogram where
  buckets := Vector.replicate kBucketCount 0
  sum := 0
  min := UInt64.ofNat (2 ^ 64 - 1)
  max := 0
  count := 0

/-- `std::bit_width` -/
def bitWidth (value : UInt64) : ℕ :=
  if value = 0 then 0 else Nat.log 2 value.toNat + 1

/-- The bucket a value is counted in. -/
def bucketIndex (value : UInt64) : ℕ :=
  if value = 0 then 0 else Nat.min (bitWidth value - 1) (kBucketCount - 1)

theorem bucketIndex_lt (value : UInt64) : bucketIndex value < kBucketCount := by
  unfold bucketIndex
  split
  · decide
  · exact Nat.lt_of_le_of_lt (Nat.min_le_right _ _) (by decide)

def Histogram.record (value : UInt64) (hist : Histogram) : Histogram :=
  have hindex := bucketIndex_lt value
  { buckets := hist.buckets.set (bucketIndex value)
      (hist.buckets[bucketIndex value] + 1) hindex
    sum := hist.sum + value
    count := hist.count + 1
    min := if value < hist.min then value else hist.min
    max := if value > hist.max then value else hist.max }

/-- The number counted in one bucket. -/
def Histogram.bucket (index : Fin kBucketCount) (hist : Histogram) : UInt64 :=
  hist.buckets[index]

@[simp]
theorem bucket_empty (index : Fin kBucketCount) :
    Histogram.empty.bucket index = 0 := by
  simp [Histogram.bucket, Histogram.empty]

/-- The minimum starts at the largest 64-bit value. -/
theorem le_empty_min (value : UInt64) : value ≤ Histogram.empty.min := by
  apply UInt64.le_iff_toNat_le.mpr
  exact Nat.le_of_lt_succ value.toNat_lt

/-- Recording a value adds one to its own bucket only. -/
theorem bucket_record (index : Fin kBucketCount) (value : UInt64)
    (hist : Histogram) :
    (hist.record value).bucket index =
      hist.bucket index + if bucketIndex value = index then 1 else 0 := by
  simp only [Histogram.bucket, Histogram.record, Fin.getElem_fin,
    Vector.getElem_set]
  split
  next heq => simp [heq]
  next => simp

/-- Histograms are determined by their counters. -/
theorem Histogram.ext_bucket {left right : Histogram}
    (hbucket : ∀ index, left.bucket index = right.bucket index)
    (hsum : left.sum = right.sum) (hmin : left.min = right.min)
    (hmax : left.max = right.max) (hcount : left.count = right.count) :
    left = right := by
  have hbuckets : left.buckets = right.buckets := by
    apply Vector.ext
    intro index hindex
    exact hbucket ⟨index, hindex⟩
  cases left
  cases right
  simp_all

/-- The order in which two values are recorded does not matter. -/
theorem record_comm (first second : UInt64) (hist : Histogram) :
    (hist.record first).record second = (hist.record second).record first := by
  apply Histogram.ext_bucket
  · intro index
    rw [bucket_record, bucket_record, bucket_record, bucket_record]
    exact add_right_comm _ _ _
  · exact add_right_comm hist.sum first second
  · simp only [Histogram.record]
    grind
  · simp only [Histogram.record]
    grind
  · rfl

end KernelScope.Histograms
