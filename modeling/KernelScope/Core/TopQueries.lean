import KernelScope.Cli.LiveLoop
import KernelScope.Library.Sorting

/-!
# Top entries

`top_processes`, `top_threads`, `top_syscalls` and `top_stacks` copy a map into
a vector, sort it by a decreasing key and cut it off after `n` entries.  The
maps are visited in any order, and entries with equal keys may come in any
order.
-/

namespace KernelScope.TopQueries

open KernelScope.Aggregation
open KernelScope.Events
open KernelScope.KeyedFold
open KernelScope.LiveLoop (SortBy)
open KernelScope.Sorting

/-! ## The queries -/

/-- What the four queries have in common. -/
def topEntries {K V : Type} (std : StdSort) (cmp : V → V → Bool) (n : ℕ)
    (entries : List (Σ _ : K, V)) : List V :=
  let v := std.sort cmp (entries.map Sigma.snd)
  if v.length > n then v.take n else v

/-- The comparator of `top_processes` and `top_threads`. -/
def taskCmp (sortBy : SortBy) (a b : TaskStats) : Bool :=
  match sortBy with
  | .totalLatency =>
      a.totalSyscallNs + a.totalOffcpuNs > b.totalSyscallNs + b.totalOffcpuNs
  | .offcpuTime => a.totalOffcpuNs > b.totalOffcpuNs
  | .maxLatency => a.maxLatencyNs > b.maxLatencyNs
  | .eventCount => a.slowEventCount > b.slowEventCount

section Queries

variable {agg : Aggregator} (std : StdSort) (n : ℕ)

def topProcesses (sortBy : SortBy) (procs : Enumeration agg.procs) :
    List ProcessStats :=
  topEntries std (fun a b => taskCmp sortBy a.toTaskStats b.toTaskStats) n
    procs.entries

def topThreads (sortBy : SortBy) (threads : Enumeration agg.threads) :
    List ThreadStats :=
  topEntries std (fun a b => taskCmp sortBy a.toTaskStats b.toTaskStats) n
    threads.entries

def topSyscalls (syscalls : Enumeration agg.syscalls) : List SyscallStats :=
  topEntries std (fun a b => a.totalNs > b.totalNs) n syscalls.entries

def topStacks (entries : Enumeration agg.stackStats) : List StackStats :=
  topEntries std (fun a b => a.totalNs > b.totalNs) n entries.entries

end Queries

/-! ## Correctness -/

/-- The `n` entries of `map` with the largest keys, in decreasing order. -/
structure IsTopOf {K V : Type} [DecidableEq K] (map : KeyedMap K V) (keyOf : V → K)
    (sortKey : V → ℕ) (n : ℕ) (top : List V) : Prop where
  length : top.length = min n map.keys.card
  distinct : (top.map keyOf).Nodup
  entries : ∀ value ∈ top, map.lookup (keyOf value) = some value
  sorted : top.Pairwise fun a b => sortKey b ≤ sortKey a
  rest : ∀ key value, map.lookup key = some value → value ∉ top →
    ∀ other ∈ top, sortKey value ≤ sortKey other

section Generic

variable {K V : Type} {map : KeyedMap K V} {keyOf : V → K}

theorem topEntries_eq_take (std : StdSort) (cmp : V → V → Bool) (n : ℕ)
    (entries : List (Σ _ : K, V)) :
    topEntries std cmp n entries =
      (std.sort cmp (entries.map Sigma.snd)).take n := by
  simp only [topEntries]
  split
  next => rfl
  next hshort => exact (List.take_of_length_le (Nat.not_lt.mp hshort)).symm

variable [DecidableEq K] (order : Enumeration map)
  (hkey : ∀ key value, map.lookup key = some value → keyOf value = key)

include hkey

theorem lookup_of_mem_values {value : V}
    (hvalue : value ∈ order.entries.map Sigma.snd) :
    map.lookup (keyOf value) = some value := by
  obtain ⟨⟨key, value⟩, hentry, rfl⟩ := List.mem_map.mp hvalue
  have hlookup := order.mem_entries.mp hentry
  rw [hkey key value hlookup]
  exact hlookup

theorem nodup_keys_values : ((order.entries.map Sigma.snd).map keyOf).Nodup := by
  rw [List.map_map]
  apply order.nodup_map
  rintro ⟨key, value⟩ hone ⟨other, value'⟩ hother heq
  have hone := hkey key value (order.mem_entries.mp hone)
  have hother := hkey other value' (order.mem_entries.mp hother)
  exact hone.symm.trans (heq.trans hother)

/-- Sorting and cutting off is correct for every map whose entries carry their
keys and every comparator that compares a key. -/
theorem isTopOf_topEntries (std : StdSort) {cmp : V → V → Bool} {sortKey : V → ℕ}
    (hcmp : ∀ a b, cmp a b = true ↔ sortKey b < sortKey a) (n : ℕ) :
    IsTopOf map keyOf sortKey n (topEntries std cmp n order.entries) := by
  have htop := std.isTop_take sortKey hcmp (order.entries.map Sigma.snd) n
  rw [← topEntries_eq_take] at htop
  obtain ⟨out, hperm, hrest⟩ := htop.rest
  constructor
  · rw [htop.length, List.length_map, order.length_entries]
  · have hnodup := (hperm.map keyOf).nodup_iff.mpr (nodup_keys_values order hkey)
    rw [List.map_append] at hnodup
    exact hnodup.of_append_left
  · intro value hvalue
    exact lookup_of_mem_values order hkey
      (hperm.mem_iff.mp (List.mem_append_left out hvalue))
  · exact htop.sorted
  · intro key value hlookup hnot other hother
    have hmem : value ∈ order.entries.map Sigma.snd :=
      List.mem_map.mpr ⟨⟨key, value⟩, order.mem_entries.mpr hlookup, rfl⟩
    rcases List.mem_append.mp (hperm.mem_iff.mpr hmem) with hin | hout
    · exact absurd hin hnot
    · exact hrest value hout other hother

end Generic

/-! ### The sort keys -/

/-- What `top_processes` and `top_threads` sort by. -/
def taskKey (sortBy : SortBy) (stats : TaskStats) : ℕ :=
  match sortBy with
  | .totalLatency => (stats.totalSyscallNs + stats.totalOffcpuNs).toNat
  | .offcpuTime => stats.totalOffcpuNs.toNat
  | .maxLatency => stats.maxLatencyNs.toNat
  | .eventCount => stats.slowEventCount.toNat

theorem taskCmp_iff (sortBy : SortBy) (a b : TaskStats) :
    taskCmp sortBy a b = true ↔ taskKey sortBy b < taskKey sortBy a := by
  cases sortBy <;> simp [taskCmp, taskKey, UInt64.lt_iff_toNat_lt, UInt32.lt_iff_toNat_lt]

theorem totalCmp_iff (a b : UInt64) : decide (a > b) = true ↔ b.toNat < a.toNat := by
  rw [decide_eq_true_iff, gt_iff_lt, UInt64.lt_iff_toNat_lt]

/-- The comparators are strict weak orders, and after any sequence of calls each
query returns the entries with the largest keys. -/
theorem top_queries_correct (ops : List Op) (std : StdSort) (n : ℕ) :
    let agg := StepRun.run exec Aggregator.fresh ops
    (∀ sortBy, StrictWeakOrder (taskCmp sortBy)) ∧
    (∀ sortBy (procs : Enumeration agg.procs),
      IsTopOf agg.procs ProcessStats.pid
        (fun p => taskKey sortBy p.toTaskStats) n (topProcesses std n sortBy procs)) ∧
    (∀ sortBy (threads : Enumeration agg.threads),
      IsTopOf agg.threads (fun t => threadKey t.pid t.tid)
        (fun t => taskKey sortBy t.toTaskStats) n (topThreads std n sortBy threads)) ∧
    (∀ syscalls : Enumeration agg.syscalls,
      IsTopOf agg.syscalls SyscallStats.syscallId (fun s => s.totalNs.toNat) n
        (topSyscalls std n syscalls)) ∧
    ∀ entries : Enumeration agg.stackStats,
      IsTopOf agg.stackStats StackStats.stackId (fun s => s.totalNs.toNat) n
        (topStacks std n entries) := by
  intro agg
  have hagg : agg = feed (ledger [] ops) := run_exec [] ops
  clear_value agg
  subst hagg
  refine ⟨fun sortBy => ?_, fun sortBy procs => ?_, fun sortBy threads => ?_,
    fun syscalls => ?_, fun entries => ?_⟩
  · exact strictWeakOrder_of_key
      (fun stats => OrderDual.toDual (taskKey sortBy stats)) (taskCmp_iff sortBy)
  · exact isTopOf_topEntries procs (fun _ _ => pid_eq_key) std
      (fun a b => taskCmp_iff sortBy a.toTaskStats b.toTaskStats) n
  · exact isTopOf_topEntries threads (fun _ _ => threadKey_eq_key) std
      (fun a b => taskCmp_iff sortBy a.toTaskStats b.toTaskStats) n
  · exact isTopOf_topEntries syscalls (fun _ _ => syscallId_eq_key) std
      (fun a b => totalCmp_iff a.totalNs b.totalNs) n
  · exact isTopOf_topEntries entries (fun _ _ => stackId_eq_key) std
      (fun a b => totalCmp_iff a.totalNs b.totalNs) n

end KernelScope.TopQueries
