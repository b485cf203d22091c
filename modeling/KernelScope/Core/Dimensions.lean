import KernelScope.Core.ThreadPartition

/-!
# Agreement of the process and system call dimensions

The process map groups the timed events by pid, the system call map groups a
part of them by system call.  Summed over all of its entries, each map counts
its part of the stream once, whatever the grouping.
-/

namespace KernelScope.Dimensions

open KernelScope.Aggregation
open KernelScope.Events
open KernelScope.Histograms
open KernelScope.KeyedFold
open KernelScope.ThreadPartition

/-! ## Counters -/

section Counting

variable {K V E : Type*} [DecidableEq K]

theorem weigh_one (items : List E) :
    weigh (fun _ => (1 : UInt64)) items = UInt64.ofNat items.length :=
  weigh_const rfl (fun count => UInt64.ofNat_add count 1) items

/-- Weights are summed modulo `2 ^ 64`. -/
theorem weigh_eq_ofNat (weight : E → UInt64) (items : List E) :
    weigh weight items = UInt64.ofNat (items.map fun item => (weight item).toNat).sum := by
  induction items with
  | nil => rfl
  | cons item items ih =>
      rw [weigh_cons, ih, List.map_cons, List.sum_cons, UInt64.ofNat_add, UInt64.ofNat_toNat]

/-- Counters that each item of a group increments add up to the number of
items, as natural numbers while no counter can wrap. -/
theorem sumOver_counter_exact (counter : V → UInt64) {fresh : V}
    {change : E → V → V} (hfresh : counter fresh = 0)
    (hchange : ∀ item value, counter (change item value) = counter value + 1)
    (keyOf : E → K) {items : List E} (hsmall : items.length < 2 ^ 64) :
    sumOver (fun value => (counter value).toNat)
        (collect fresh keyOf change items ∅)
        (collect fresh keyOf change items ∅).keys = items.length := by
  have hfield : ∀ key, fieldAt (fun value => (counter value).toNat)
      (collect fresh keyOf change items ∅) key =
        weigh (fun _ => 1) (group keyOf key items) := by
    intro key
    have hgroup : (group keyOf key items).length < 2 ^ 64 :=
      Nat.lt_of_le_of_lt (List.length_filter_le _ _) hsmall
    have hcounter : fieldAt counter (collect fresh keyOf change items ∅) key =
        UInt64.ofNat (group keyOf key items).length := by
      rw [fieldAt_collect counter hfresh hchange, weigh_one]
    calc
      fieldAt (fun value => (counter value).toNat)
          (collect fresh keyOf change items ∅) key =
          (fieldAt counter (collect fresh keyOf change items ∅) key).toNat := by
        simp only [fieldAt]
        cases (collect fresh keyOf change items ∅).lookup key <;> rfl
      _ = (group keyOf key items).length := by
        rw [hcounter, UInt64.toNat_ofNat_of_lt' hgroup]
      _ = weigh (fun _ => 1) (group keyOf key items) := by simp [weigh]
  calc
    sumOver (fun value => (counter value).toNat)
        (collect fresh keyOf change items ∅)
        (collect fresh keyOf change items ∅).keys =
        weigh (fun _ => 1) (items.filter fun item =>
          keyOf item ∈ (collect fresh keyOf change items ∅).keys) := by
      rw [← sum_weigh_group]
      exact Finset.sum_congr rfl fun key _ => hfield key
    _ = items.length := by
      rw [List.filter_eq_self.mpr]
      · simp [weigh]
      · intro item hitem
        simpa [Finmap.mem_keys, mem_collect_empty] using ⟨item, hitem, rfl⟩

end Counting

/-! ## Processes and system calls -/

section Syscalls

variable {events : List Event}

/-- A timed event is a system call event or an off-CPU slice. -/
theorem length_timed (events : List Event) :
    (events.filter isTimed).length =
      (events.filter isSyscall).length +
        (events.filter fun ev => ev.type = .offcpuSlice).length := by
  induction events with
  | nil => rfl
  | cons ev events ih =>
      cases htype : ev.type <;> simp [isTimed, isSyscall, htype] <;> omega

theorem sumOver_procs {M : Type*} [AddCommMonoid M] (field : TaskStats → M)
    {weight : Event → M} (hfresh : field TaskStats.fresh = 0)
    (hadd : ∀ ev stats, field (stats.add ev) = field stats + weight ev)
    (events : List Event) :
    sumOver (fun p : ProcessStats => field p.toTaskStats) (feed events).procs
        (feed events).procs.keys = weigh weight (events.filter isTimed) := by
  rw [feed_procs]
  exact sumOver_collect_keys (fun p : ProcessStats => field p.toTaskStats)
    hfresh (fun ev p => hadd ev p.toTaskStats) _ _

theorem sumOver_syscalls {M : Type*} [AddCommMonoid M]
    (field : SyscallStats → M) {weight : Event → M}
    (hfresh : field SyscallStats.fresh = 0)
    (hadd : ∀ ev s, field (SyscallStats.add ev s) = field s + weight ev)
    (events : List Event) :
    sumOver field (feed events).syscalls (feed events).syscalls.keys =
      weigh weight (events.filter isSyscall) := by
  rw [feed_syscalls]
  exact sumOver_collect_keys field hfresh hadd _ _

/-- Off-CPU slices add nothing to the system call time. -/
theorem weigh_syscallWeight (events : List Event) :
    weigh syscallWeight (events.filter isTimed) =
      weigh Event.durationNs (events.filter isSyscall) := by
  induction events with
  | nil => rfl
  | cons ev events ih =>
      cases htype : ev.type <;>
        simp [isTimed, isSyscall, syscallWeight, htype, ih]

/-- The events that count as off-CPU time. -/
def isOffcpu (ev : Event) : Bool :=
  ev.type = .offcpuSlice

theorem weigh_offcpuWeight (events : List Event) :
    weigh offcpuWeight (events.filter isTimed) =
      weigh Event.durationNs (events.filter isOffcpu) := by
  induction events with
  | nil => rfl
  | cons ev events ih =>
      cases htype : ev.type <;>
        simp [isTimed, isSyscall, isOffcpu, offcpuWeight, htype, ih]

theorem mem_affectedPids_foldl {items : List Event} {s : SyscallStats}
    {pid : UInt32} :
    pid ∈ (items.foldl (fun s ev => SyscallStats.add ev s) s).affectedPids ↔
      pid ∈ s.affectedPids ∨ ∃ ev ∈ items, ev.pid = pid := by
  induction items generalizing s with
  | nil => simp
  | cons ev items ih =>
      rw [List.foldl_cons, ih]
      simp only [SyscallStats.add, Finset.mem_insert, List.mem_cons]
      grind

/-- The pids recorded for a system call, none when it has no entry. -/
def affectedPids (agg : Aggregator) (id : UInt64) : Finset UInt32 :=
  ((agg.syscalls.lookup id).map SyscallStats.affectedPids).getD ∅

theorem mem_affectedPids {id : UInt64} {pid : UInt32} :
    pid ∈ affectedPids (feed events) id ↔
      ∃ ev ∈ events, isSyscall ev ∧ ev.syscallId = id ∧ ev.pid = pid := by
  rw [affectedPids, feed_syscalls, lookup_collect_empty]
  split
  next hgroup =>
    simp only [Option.map_none, Option.getD_none, Finset.notMem_empty,
      false_iff]
    rintro ⟨ev, hev, hsyscall, hid, -⟩
    have hmem : ev ∈ group Event.syscallId id (events.filter isSyscall) :=
      mem_group.mpr ⟨List.mem_filter.mpr ⟨hev, hsyscall⟩, hid⟩
    simp [hgroup] at hmem
  next =>
    rw [Option.map_some, Option.getD_some, mem_affectedPids_foldl]
    simp [SyscallStats.fresh, and_assoc]

/-- The sums over the process map and over the system call map, with the global
counter: in 64-bit arithmetic, and exactly while no counter can wrap. -/
structure DimensionsAgree (events : List Event) (agg : Aggregator) : Prop where
  syscallTime :
    sumOver (fun p : ProcessStats => p.totalSyscallNs) agg.procs
        agg.procs.keys =
      sumOver SyscallStats.totalNs agg.syscalls agg.syscalls.keys
  counts :
    sumOver (fun p : ProcessStats => p.latencyHist.count) agg.procs
        agg.procs.keys =
      sumOver SyscallStats.count agg.syscalls agg.syscalls.keys +
        UInt64.ofNat
          (events.filter fun ev => ev.type = .offcpuSlice).length
  total :
    agg.total =
      sumOver (fun p : ProcessStats => p.latencyHist.count) agg.procs
          agg.procs.keys +
        UInt64.ofNat (events.filter fun ev => !isTimed ev).length
  countsExact : events.length < 2 ^ 64 →
    sumOver (fun p : ProcessStats => p.latencyHist.count.toNat) agg.procs
        agg.procs.keys =
      sumOver (fun s : SyscallStats => s.count.toNat) agg.syscalls
          agg.syscalls.keys +
        (events.filter fun ev => ev.type = .offcpuSlice).length
  totalExact : events.length < 2 ^ 64 →
    agg.total.toNat =
      sumOver (fun p : ProcessStats => p.latencyHist.count.toNat) agg.procs
          agg.procs.keys +
        (events.filter fun ev => !isTimed ev).length
  affected : ∀ id pid, pid ∈ affectedPids agg id ↔
    ∃ ev ∈ events, isSyscall ev ∧ ev.syscallId = id ∧ ev.pid = pid
  affectedKnown : ∀ id pid, pid ∈ affectedPids agg id → pid ∈ agg.procs

theorem length_events (events : List Event) :
    events.length = (events.filter isTimed).length +
      (events.filter fun ev => !isTimed ev).length :=
  List.length_eq_length_filter_add isTimed

theorem sumOver_procs_count_exact (hsmall : events.length < 2 ^ 64) :
    sumOver (fun p : ProcessStats => p.latencyHist.count.toNat)
        (feed events).procs (feed events).procs.keys =
      (events.filter isTimed).length := by
  rw [feed_procs]
  apply sumOver_counter_exact (fun p : ProcessStats => p.latencyHist.count)
  · rfl
  · exact fun _ _ => rfl
  · exact Nat.lt_of_le_of_lt (List.length_filter_le _ _) hsmall

theorem dimensionsAgree (events : List Event) :
    DimensionsAgree events (feed events) where
  syscallTime := by
    calc
      _ = weigh syscallWeight (events.filter isTimed) :=
        sumOver_procs TaskStats.totalSyscallNs rfl add_totalSyscallNs events
      _ = weigh Event.durationNs (events.filter isSyscall) :=
        weigh_syscallWeight events
      _ = _ := (sumOver_syscalls SyscallStats.totalNs rfl
        (fun _ _ => rfl) events).symm
  counts := by
    rw [sumOver_procs (fun stats => stats.latencyHist.count) rfl
        (fun _ _ => rfl) events,
      sumOver_syscalls SyscallStats.count rfl (fun _ _ => rfl) events,
      weigh_one, weigh_one, length_timed, UInt64.ofNat_add]
  total := by
    rw [sumOver_procs (fun stats => stats.latencyHist.count) rfl
        (fun _ _ => rfl) events,
      weigh_one, feed_total, ← UInt64.ofNat_add, ← length_events]
  countsExact hsmall := by
    rw [sumOver_procs_count_exact hsmall, length_timed, feed_syscalls,
      sumOver_counter_exact SyscallStats.count rfl (fun _ _ => rfl)]
    exact Nat.lt_of_le_of_lt (List.length_filter_le _ _) hsmall
  totalExact hsmall := by
    rw [sumOver_procs_count_exact hsmall, feed_total,
      UInt64.toNat_ofNat_of_lt' hsmall]
    exact length_events events
  affected _ _ := mem_affectedPids
  affectedKnown id pid hpid := by
    obtain ⟨ev, hev, hsyscall, -, rfl⟩ := mem_affectedPids.mp hpid
    apply mem_procs.mpr
    exact ⟨ev, by simp [hev, isTimed, hsyscall], rfl⟩

/-- After any sequence of calls the process, system call and global counters
describe the same events: those processed since the last reset. -/
theorem process_and_syscall_dimensions_agree (ops : List Op) :
    DimensionsAgree (ledger [] ops)
      (StepRun.run exec Aggregator.fresh ops) := by
  have hfeed : StepRun.run exec Aggregator.fresh ops = feed (ledger [] ops) :=
    run_exec [] ops
  rw [hfeed]
  exact dimensionsAgree _

end Syscalls

end KernelScope.Dimensions
