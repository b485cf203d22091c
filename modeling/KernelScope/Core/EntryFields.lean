import KernelScope.Core.Dimensions
import KernelScope.Library.Extremes

/-!
# What an entry says about its events

The tables, exporters and screens show the fields of single entries.  Each field is
the number, the sum or the maximum of the events that were added to the entry.
-/

namespace KernelScope.EntryFields

open KernelScope.Aggregation
open KernelScope.Dimensions
open KernelScope.Events
open KernelScope.Extremes
open KernelScope.KeyedFold
open KernelScope.ThreadPartition

def totalNs (events : List Event) : ℕ :=
  (events.map fun ev => ev.durationNs.toNat).sum

def longestNs (events : List Event) : ℕ :=
  (events.map fun ev => ev.durationNs.toNat).foldl max 0

/-! ## Processes -/

theorem maxLatencyNs_foldl (events : List Event) (stats : ProcessStats) :
    (events.foldl (fun ps ev => ProcessStats.add ev ps) stats).maxLatencyNs.toNat =
      (events.map fun ev => ev.durationNs.toNat).foldl max stats.maxLatencyNs.toNat := by
  induction events generalizing stats with
  | nil => rfl
  | cons ev events ih =>
      have hmax : (ProcessStats.add ev stats).maxLatencyNs.toNat =
          max stats.maxLatencyNs.toNat ev.durationNs.toNat := by
        simp only [ProcessStats.add, TaskStats.add, gt_iff_lt, UInt64.lt_iff_toNat_lt]
        split <;> omega
      rw [List.foldl_cons, ih, hmax, List.map_cons, List.foldl_cons]

/-- The fields of a process entry, in terms of the events of the process. -/
structure ProcessFields (own : List Event) (ps : ProcessStats) : Prop where
  slowEventCount : ps.slowEventCount.toNat = (own.filter isTimed).length % 2 ^ 32
  totalSyscallNs : ps.totalSyscallNs = UInt64.ofNat (totalNs (own.filter isSyscall))
  totalOffcpuNs : ps.totalOffcpuNs = UInt64.ofNat (totalNs (own.filter isOffcpu))
  maxLatencyNs : ps.maxLatencyNs.toNat = longestNs (own.filter isTimed)

theorem processFields_of_lookup {events : List Event} {pid : UInt32} {ps : ProcessStats}
    (hlookup : (feed events).procs.lookup pid = some ps) :
    ProcessFields (group Event.pid pid events) ps := by
  rw [feed_procs] at hlookup
  constructor
  case slowEventCount =>
    rw [counter_of_lookup_collect (fun ps : ProcessStats => ps.slowEventCount) rfl
      (fun count => UInt32.ofNat_add count 1) rfl (fun _ _ => rfl) hlookup, group_filter,
      UInt32.toNat_ofNat']
  case totalSyscallNs =>
    rw [field_of_lookup_collect (fun ps : ProcessStats => ps.totalSyscallNs) syscallWeight rfl
      (fun ev ps => add_totalSyscallNs ev ps.toTaskStats) hlookup, group_filter,
      weigh_syscallWeight, weigh_eq_ofNat]
    rfl
  case totalOffcpuNs =>
    rw [field_of_lookup_collect (fun ps : ProcessStats => ps.totalOffcpuNs) offcpuWeight rfl
      (fun ev ps => add_totalOffcpuNs ev ps.toTaskStats) hlookup, group_filter,
      weigh_offcpuWeight, weigh_eq_ofNat]
    rfl
  case maxLatencyNs =>
    obtain ⟨-, rfl⟩ := lookup_collect_eq_some.mp hlookup
    rw [maxLatencyNs_foldl, group_filter]
    rfl

/-! ## System calls -/

/-- The fields of a system call entry, in terms of its calls. -/
structure SyscallFields (calls : List Event) (sc : SyscallStats) : Prop where
  count : sc.count = UInt64.ofNat calls.length
  totalNs : sc.totalNs = UInt64.ofNat (totalNs calls)
  maxNs : IsGreatest {ns | ∃ ev ∈ calls, ev.durationNs.toNat = ns} sc.maxNs.toNat
  affectedPids : ∀ pid, pid ∈ sc.affectedPids ↔ ∃ ev ∈ calls, ev.pid = pid

theorem syscallFields_of_collect {events : List Event} {id : UInt64} {sc : SyscallStats}
    (hlookup : (collect SyscallStats.fresh Event.syscallId SyscallStats.add events ∅).lookup id =
      some sc) : SyscallFields (group Event.syscallId id events) sc := by
  obtain ⟨hnonempty, hvalue⟩ := lookup_collect_eq_some.mp hlookup
  constructor
  case count =>
    exact counter_of_lookup_collect SyscallStats.count rfl
      (fun count => UInt64.ofNat_add count 1) rfl (fun _ _ => rfl) hlookup
  case totalNs =>
    rw [field_of_lookup_collect SyscallStats.totalNs Event.durationNs rfl (fun _ _ => rfl)
      hlookup, weigh_eq_ofNat]
    rfl
  case maxNs =>
    have hgreatest : Extreme (· ≤ ·)
        {ns | ∃ ev ∈ group Event.syscallId id events, ev.durationNs = ns} sc.maxNs := by
      rw [← hvalue]
      exact extreme_foldl SyscallStats.maxNs (fun _ => UInt64.zero_le)
        (fun ev stats => updates_max stats.maxNs ev.durationNs) hnonempty
    obtain ⟨⟨longest, hlongest, hmax⟩, hbound⟩ := hgreatest
    refine ⟨⟨longest, hlongest, congrArg UInt64.toNat hmax⟩, ?_⟩
    rintro _ ⟨ev, hev, rfl⟩
    exact UInt64.le_iff_toNat_le.mp (hbound ev.durationNs ⟨ev, hev, rfl⟩)
  case affectedPids =>
    intro pid
    rw [← hvalue, mem_affectedPids_foldl]
    simp [SyscallStats.fresh]

theorem syscallFields_of_lookup {events : List Event} {id : UInt64} {sc : SyscallStats}
    (hlookup : (feed events).syscalls.lookup id = some sc) :
    SyscallFields ((group Event.syscallId id events).filter isSyscall) sc := by
  rw [feed_syscalls] at hlookup
  rw [← group_filter]
  exact syscallFields_of_collect hlookup

end KernelScope.EntryFields
