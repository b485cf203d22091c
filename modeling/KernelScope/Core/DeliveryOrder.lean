import KernelScope.Core.ThreadPartition

/-!
# Order of delivery

The ring buffer may deliver the events of several CPUs in different orders.
Within a group, two updates commute on every field except those that keep the
first or the last event seen: the names, and the pid, type and kernel flag of a
stack.
-/

namespace KernelScope.DeliveryOrder

open KernelScope.Aggregation
open KernelScope.Events
open KernelScope.Histograms
open KernelScope.KeyedFold
open KernelScope.ThreadPartition

/-- What is left of the shared statistics when the name is forgotten. -/
def TaskStats.anonymous (stats : TaskStats) : TaskStats :=
  { stats with comm := [] }

def ProcessStats.anonymous (p : ProcessStats) : ProcessStats :=
  { p with toTaskStats := TaskStats.anonymous p.toTaskStats }

def ThreadStats.anonymous (t : ThreadStats) : ThreadStats :=
  { t with toTaskStats := TaskStats.anonymous t.toTaskStats }

/-- The fields of a stack entry that count. -/
def StackStats.counters (st : StackStats) : Int64 × UInt64 × UInt64 :=
  (st.stackId, st.totalNs, st.count)

theorem max_swap (best first second : UInt64) :
    (if second > if first > best then first else best then second
      else if first > best then first else best) =
    if first > if second > best then second else best then first
      else if second > best then second else best := by
  grind

/-- Apart from the name, two events can be added in either order. -/
theorem anonymous_add_comm (one other : Event) (stats : TaskStats) :
    TaskStats.anonymous ((stats.add other).add one) =
      TaskStats.anonymous ((stats.add one).add other) := by
  simp only [TaskStats.anonymous, TaskStats.mk.injEq, true_and]
  refine ⟨?_, ?_, ?_, rfl, ?_⟩
  · rw [add_totalSyscallNs, add_totalSyscallNs, add_totalSyscallNs,
      add_totalSyscallNs]
    exact add_right_comm _ _ _
  · rw [add_totalOffcpuNs, add_totalOffcpuNs, add_totalOffcpuNs,
      add_totalOffcpuNs]
    exact add_right_comm _ _ _
  · exact max_swap stats.maxLatencyNs other.durationNs one.durationNs
  · exact record_comm other.durationNs one.durationNs stats.latencyHist

theorem anonymous_add_congr (ev : Event) {first second : TaskStats}
    (hsame : TaskStats.anonymous first = TaskStats.anonymous second) :
    TaskStats.anonymous (first.add ev) = TaskStats.anonymous (second.add ev) := by
  simp only [TaskStats.anonymous, TaskStats.mk.injEq, true_and] at hsame
  obtain ⟨hsyscall, hoffcpu, hmax, hcount, hhist⟩ := hsame
  simp only [TaskStats.anonymous, TaskStats.add, hsyscall, hoffcpu, hmax,
    hcount, hhist]

theorem SyscallStats.add_comm {one other : Event} (s : SyscallStats)
    (hid : one.syscallId = other.syscallId) :
    (s.add other).add one = (s.add one).add other := by
  simp only [SyscallStats.add, SyscallStats.mk.injEq]
  refine ⟨hid, trivial, add_right_comm _ _ _, ?_, ?_, Finset.insert_comm _ _ _⟩
  · exact max_swap s.maxNs other.durationNs one.durationNs
  · exact record_comm other.durationNs one.durationNs s.latencyHist

/-- The statistics of two aggregators agree up to names and up to the stack
fields that keep the first or the last event. -/
structure SameStatistics (left right : Aggregator) : Prop where
  procs : ∀ pid, (left.procs.lookup pid).map ProcessStats.anonymous =
    (right.procs.lookup pid).map ProcessStats.anonymous
  threads : ∀ key, (left.threads.lookup key).map ThreadStats.anonymous =
    (right.threads.lookup key).map ThreadStats.anonymous
  syscalls : left.syscalls = right.syscalls
  stackStats : ∀ id, (left.stackStats.lookup id).map StackStats.counters =
    (right.stackStats.lookup id).map StackStats.counters
  total : left.total = right.total

/-- Delivering the same events in another order gives the same statistics. -/
theorem aggregation_order_independent {left right : List Event}
    (hperm : left.Perm right) : SameStatistics (feed left) (feed right) where
  procs pid := by
    rw [feed_procs, feed_procs]
    apply lookup_collect_perm _ _ (hperm.filter isTimed)
    · intro ev first second hsame
      simp only [ProcessStats.anonymous, ProcessStats.mk.injEq] at hsame
      simp only [ProcessStats.anonymous, ProcessStats.add,
        anonymous_add_congr ev hsame.1]
    · intro one other p hpid
      simp only [ProcessStats.anonymous, ProcessStats.add, ProcessStats.mk.injEq]
      exact ⟨anonymous_add_comm one other p.toTaskStats, hpid⟩
  threads key := by
    rw [feed_threads, feed_threads]
    apply lookup_collect_perm _ _ (hperm.filter isTimed)
    · intro ev first second hsame
      simp only [ThreadStats.anonymous, ThreadStats.mk.injEq] at hsame
      simp only [ThreadStats.anonymous, ThreadStats.add,
        anonymous_add_congr ev hsame.1]
    · intro one other t hkey
      simp only [ThreadStats.anonymous, ThreadStats.add, ThreadStats.mk.injEq]
      exact ⟨anonymous_add_comm one other t.toTaskStats,
        threadKey_inj.mp hkey⟩
  syscalls := by
    rw [feed_syscalls, feed_syscalls]
    apply collect_perm _ (hperm.filter isSyscall)
    exact fun one other s hid => SyscallStats.add_comm s hid
  stackStats id := by
    rw [feed_stackStats, feed_stackStats]
    apply lookup_collect_perm _ _ ((hperm.filter isTimed).flatMap_right stackHits)
    · intro hit first second hsame
      simp only [StackStats.counters, Prod.mk.injEq] at hsame
      simp only [StackStats.counters, StackStats.add, hsame]
    · intro one other st hid
      simp only [StackStats.counters, StackStats.add, Prod.mk.injEq]
      exact ⟨hid, add_right_comm _ _ _, trivial⟩
  total := by
    rw [feed_total, feed_total, hperm.length_eq]

/-- A slow read and an off-CPU slice of one thread, delivered either way. -/
theorem order_independent_pair :
    let slow : Event := ⟨100, 7, 8, Vector.replicate 16 97, 0, .syscallSlow,
      .unknown, 5000, 0, 3, 4, 3⟩
    let slice : Event := ⟨200, 7, 8, Vector.replicate 16 98, 1, .offcpuSlice,
      .offCpu, 7000, 0, -1, -1, 0⟩
    SameStatistics (feed [slow, slice]) (feed [slice, slow]) := by
  intro slow slice
  exact aggregation_order_independent (List.Perm.swap slice slow [])

end KernelScope.DeliveryOrder
