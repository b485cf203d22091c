import KernelScope.Core.Aggregation
import KernelScope.Library.Extremes

/-!
# Threads partition their process

The event stream is grouped by process and, under a packed 64-bit key, by
thread.  The thread keys of a process split its group, so every additive field
of a process entry is the sum over its threads and every running extreme is the
extreme over its threads.
-/

namespace KernelScope.ThreadPartition

open KernelScope.Aggregation
open KernelScope.Events
open KernelScope.Extremes
open KernelScope.Histograms
open KernelScope.KeyedFold

/-! ## Thread keys -/

/-- The high 32 bits of a thread key. -/
def highWord (key : UInt64) : UInt32 := (key >>> 32).toUInt32

/-- The low 32 bits of a thread key. -/
def lowWord (key : UInt64) : UInt32 := key.toUInt32

theorem toNat_threadKey (pid tid : UInt32) :
    (threadKey pid tid).toNat = pid.toNat * 2 ^ 32 + tid.toNat := by
  have hpid := pid.toNat_lt
  have htid := tid.toNat_lt
  have hshift : (pid.toUInt64 <<< 32).toNat = pid.toNat <<< 32 := by
    simp [UInt64.toNat_shiftLeft, Nat.shiftLeft_eq]
    omega
  rw [threadKey, UInt64.toNat_or, hshift, UInt32.toNat_toUInt64,
    ← Nat.shiftLeft_add_eq_or_of_lt htid, Nat.shiftLeft_eq]

@[simp]
theorem highWord_threadKey (pid tid : UInt32) :
    highWord (threadKey pid tid) = pid := by
  have hpid := pid.toNat_lt
  have htid := tid.toNat_lt
  apply UInt32.toNat_inj.mp
  simp [highWord, toNat_threadKey, Nat.shiftRight_eq_div_pow]
  omega

@[simp]
theorem lowWord_threadKey (pid tid : UInt32) :
    lowWord (threadKey pid tid) = tid := by
  have htid := tid.toNat_lt
  apply UInt32.toNat_inj.mp
  simp [lowWord, toNat_threadKey]

theorem threadKey_inj {pid tid pid' tid' : UInt32} :
    threadKey pid tid = threadKey pid' tid' ↔ pid = pid' ∧ tid = tid' := by
  constructor
  · intro hkey
    have hpid := congrArg highWord hkey
    have htid := congrArg lowWord hkey
    rw [highWord_threadKey, highWord_threadKey] at hpid
    rw [lowWord_threadKey, lowWord_threadKey] at htid
    exact ⟨hpid, htid⟩
  · rintro ⟨rfl, rfl⟩
    rfl

/-! ## Threads and their process -/

/-- The keys of the threads of process `pid`. -/
def threadKeys (agg : Aggregator) (pid : UInt32) : Finset UInt64 :=
  agg.threads.keys.filter fun key => highWord key = pid

section Threads

variable {events : List Event}

theorem mem_threads {key : UInt64} :
    key ∈ (feed events).threads ↔
      ∃ ev ∈ events.filter isTimed, threadKeyOf ev = key := by
  rw [feed_threads]
  exact mem_collect_empty

theorem mem_procs {pid : UInt32} :
    pid ∈ (feed events).procs ↔ ∃ ev ∈ events.filter isTimed, ev.pid = pid := by
  rw [feed_procs]
  exact mem_collect_empty

/-- An entry's key says whose thread it is. -/
theorem thread_ids {key : UInt64} {t : ThreadStats}
    (hlookup : (feed events).threads.lookup key = some t) :
    t.pid = highWord key ∧ t.tid = lowWord key := by
  rw [feed_threads] at hlookup
  obtain ⟨last, before, rfl, rfl⟩ := exists_change_of_lookup_collect hlookup
  simp [ThreadStats.add, threadKeyOf]

theorem mem_threadKeys {ev : Event} (hev : ev ∈ events.filter isTimed)
    (pid : UInt32) :
    threadKeyOf ev ∈ threadKeys (feed events) pid ↔ ev.pid = pid := by
  have hmem : threadKeyOf ev ∈ (feed events).threads :=
    mem_threads.mpr ⟨ev, hev, rfl⟩
  rw [threadKeys, Finset.mem_filter, Finmap.mem_keys, threadKeyOf,
    highWord_threadKey]
  exact and_iff_right hmem

/-- An additive field of a process entry is the sum over its threads. -/
theorem field_proc_eq_sumOver {M : Type*} [AddCommMonoid M]
    (field : TaskStats → M) {weight : Event → M}
    (hfresh : field TaskStats.fresh = 0)
    (hadd : ∀ ev stats, field (stats.add ev) = field stats + weight ev)
    {pid : UInt32} {proc : ProcessStats}
    (hproc : (feed events).procs.lookup pid = some proc) :
    field proc.toTaskStats =
      sumOver (fun t : ThreadStats => field t.toTaskStats)
        (feed events).threads (threadKeys (feed events) pid) := by
  have hprocs : fieldAt (fun p : ProcessStats => field p.toTaskStats)
      (feed events).procs pid = field proc.toTaskStats := by
    simp [fieldAt, hproc]
  calc
    field proc.toTaskStats =
        weigh weight (group Event.pid pid (events.filter isTimed)) := by
      rw [← hprocs, feed_procs]
      exact fieldAt_collect (fun p : ProcessStats => field p.toTaskStats) hfresh
        (fun ev p => hadd ev p.toTaskStats) _ _ _
    _ = weigh weight ((events.filter isTimed).filter fun ev =>
          threadKeyOf ev ∈ threadKeys (feed events) pid) := by
      congr 1
      apply List.filter_congr
      intro ev hev
      simp only [mem_threadKeys hev]
    _ = sumOver (fun t : ThreadStats => field t.toTaskStats)
          (feed events).threads (threadKeys (feed events) pid) := by
      symm
      rw [feed_threads]
      exact sumOver_collect (fun t : ThreadStats => field t.toTaskStats) hfresh
        (fun ev t => hadd ev t.toTaskStats) _ _ _

/-- The durations added to the entries of one key. -/
def durations {K : Type*} [DecidableEq K] (keyOf : Event → K) (key : K)
    (events : List Event) : Set UInt64 :=
  {value | ∃ ev ∈ group keyOf key (events.filter isTimed),
    ev.durationNs = value}

/-- A running extreme of a process entry is the extreme over its threads. -/
theorem field_proc_extreme {rel : UInt64 → UInt64 → Prop}
    [IsPartialOrder UInt64 rel] (field : TaskStats → UInt64)
    (hfresh : ∀ value, rel (field TaskStats.fresh) value)
    (hadd : ∀ ev stats, Updates rel (field stats) ev.durationNs
      (field (TaskStats.add ev stats)))
    {pid : UInt32} {proc : ProcessStats}
    (hproc : (feed events).procs.lookup pid = some proc) :
    Extreme rel
      {value | ∃ key t, (feed events).threads.lookup key = some t ∧
        highWord key = pid ∧ field t.toTaskStats = value}
      (field proc.toTaskStats) := by
  have hwhole : Extreme rel (durations Event.pid pid events)
      (field proc.toTaskStats) := by
    rw [feed_procs, lookup_collect_eq_some] at hproc
    rw [← hproc.2]
    exact extreme_foldl (fun p : ProcessStats => field p.toTaskStats) hfresh
      (fun ev p => hadd ev p.toTaskStats) hproc.1
  have hparts : ∀ entry ∈ {entry : UInt64 × ThreadStats |
      (feed events).threads.lookup entry.1 = some entry.2 ∧
        highWord entry.1 = pid},
      Extreme rel (durations threadKeyOf entry.1 events)
        (field entry.2.toTaskStats) := by
    rintro ⟨key, t⟩ ⟨hlookup, -⟩
    rw [feed_threads, lookup_collect_eq_some] at hlookup
    rw [← hlookup.2]
    exact extreme_foldl (fun t : ThreadStats => field t.toTaskStats) hfresh
      (fun ev t => hadd ev t.toTaskStats) hlookup.1
  have hextreme := hwhole.of_parts hparts ?_
  · convert hextreme using 1
    ext value
    constructor
    · rintro ⟨key, t, hlookup, hhigh, hvalue⟩
      exact ⟨(key, t), ⟨hlookup, hhigh⟩, hvalue⟩
    · rintro ⟨⟨key, t⟩, ⟨hlookup, hhigh⟩, hvalue⟩
      exact ⟨key, t, hlookup, hhigh, hvalue⟩
  · intro value
    constructor
    · rintro ⟨ev, hev, rfl⟩
      obtain ⟨htimed, rfl⟩ := mem_group.mp hev
      have hmem : threadKeyOf ev ∈ (feed events).threads :=
        mem_threads.mpr ⟨ev, htimed, rfl⟩
      obtain ⟨t, ht⟩ := Finmap.mem_iff.mp hmem
      exact ⟨(threadKeyOf ev, t), ⟨ht, highWord_threadKey _ _⟩, ev,
        mem_group.mpr ⟨htimed, rfl⟩, rfl⟩
    · rintro ⟨⟨key, t⟩, ⟨-, hhigh⟩, ev, hev, rfl⟩
      obtain ⟨htimed, rfl⟩ := mem_group.mp hev
      rw [threadKeyOf, highWord_threadKey] at hhigh
      exact ⟨ev, mem_group.mpr ⟨htimed, hhigh⟩, rfl⟩

/-! ### The shared statistics -/

/-- A process entry is made up of the entries of the process's threads. -/
structure SumOfThreads (agg : Aggregator) (pid : UInt32)
    (proc : ProcessStats) : Prop where
  totalSyscallNs : proc.totalSyscallNs =
    sumOver (fun t : ThreadStats => t.totalSyscallNs) agg.threads
      (threadKeys agg pid)
  totalOffcpuNs : proc.totalOffcpuNs =
    sumOver (fun t : ThreadStats => t.totalOffcpuNs) agg.threads
      (threadKeys agg pid)
  slowEventCount : proc.slowEventCount =
    sumOver (fun t : ThreadStats => t.slowEventCount) agg.threads
      (threadKeys agg pid)
  bucket : ∀ index, proc.latencyHist.bucket index =
    sumOver (fun t : ThreadStats => t.latencyHist.bucket index) agg.threads
      (threadKeys agg pid)
  count : proc.latencyHist.count =
    sumOver (fun t : ThreadStats => t.latencyHist.count) agg.threads
      (threadKeys agg pid)
  sum : proc.latencyHist.sum =
    sumOver (fun t : ThreadStats => t.latencyHist.sum) agg.threads
      (threadKeys agg pid)
  maxLatencyNs : IsGreatest
    {value | ∃ key t, agg.threads.lookup key = some t ∧ highWord key = pid ∧
      t.maxLatencyNs = value} proc.maxLatencyNs
  histMax : IsGreatest
    {value | ∃ key t, agg.threads.lookup key = some t ∧ highWord key = pid ∧
      t.latencyHist.max = value} proc.latencyHist.max
  histMin : IsLeast
    {value | ∃ key t, agg.threads.lookup key = some t ∧ highWord key = pid ∧
      t.latencyHist.min = value} proc.latencyHist.min

/-- The weight an event adds to the system call time. -/
def syscallWeight (ev : Event) : UInt64 :=
  if ev.type = .offcpuSlice then 0 else ev.durationNs

/-- The weight an event adds to the off-CPU time. -/
def offcpuWeight (ev : Event) : UInt64 :=
  if ev.type = .offcpuSlice then ev.durationNs else 0

theorem add_totalSyscallNs (ev : Event) (stats : TaskStats) :
    (stats.add ev).totalSyscallNs =
      stats.totalSyscallNs + syscallWeight ev := by
  simp only [TaskStats.add, syscallWeight]
  split <;> simp

theorem add_totalOffcpuNs (ev : Event) (stats : TaskStats) :
    (stats.add ev).totalOffcpuNs = stats.totalOffcpuNs + offcpuWeight ev := by
  simp only [TaskStats.add, offcpuWeight]
  split <;> simp

theorem sumOfThreads {pid : UInt32} {proc : ProcessStats}
    (hproc : (feed events).procs.lookup pid = some proc) :
    SumOfThreads (feed events) pid proc where
  totalSyscallNs :=
    field_proc_eq_sumOver TaskStats.totalSyscallNs rfl add_totalSyscallNs hproc
  totalOffcpuNs :=
    field_proc_eq_sumOver TaskStats.totalOffcpuNs rfl add_totalOffcpuNs hproc
  slowEventCount :=
    field_proc_eq_sumOver TaskStats.slowEventCount rfl (fun _ _ => rfl) hproc
  bucket index :=
    field_proc_eq_sumOver (fun stats => stats.latencyHist.bucket index)
      (bucket_empty index)
      (fun ev stats => bucket_record index ev.durationNs stats.latencyHist)
      hproc
  count :=
    field_proc_eq_sumOver (fun stats => stats.latencyHist.count) rfl
      (fun _ _ => rfl) hproc
  sum :=
    field_proc_eq_sumOver (fun stats => stats.latencyHist.sum) rfl
      (fun _ _ => rfl) hproc
  maxLatencyNs := extreme_le_iff.mp <|
    field_proc_extreme TaskStats.maxLatencyNs (fun _ => UInt64.zero_le)
      (fun ev stats => updates_max stats.maxLatencyNs ev.durationNs) hproc
  histMax := extreme_le_iff.mp <|
    field_proc_extreme (fun stats => stats.latencyHist.max)
      (fun _ => UInt64.zero_le)
      (fun ev stats => updates_max stats.latencyHist.max ev.durationNs) hproc
  histMin := extreme_ge_iff.mp <|
    field_proc_extreme (fun stats => stats.latencyHist.min) le_empty_min
      (fun ev stats => updates_min stats.latencyHist.min ev.durationNs) hproc

/-- After any sequence of calls the threads partition their process: a process
entry exists exactly when one of its threads has an entry, every thread entry
carries the ids packed in its key, and the process entry is the sum, or the
extreme, of the entries of its threads. -/
theorem threads_partition_process (ops : List Op) :
    let agg := StepRun.run exec Aggregator.fresh ops
    (∀ pid, pid ∈ agg.procs ↔ ∃ key ∈ agg.threads, highWord key = pid) ∧
    (∀ key t, agg.threads.lookup key = some t →
      t.pid = highWord key ∧ t.tid = lowWord key) ∧
    ∀ pid proc, agg.procs.lookup pid = some proc →
      SumOfThreads agg pid proc := by
  have hfeed : StepRun.run exec Aggregator.fresh ops = feed (ledger [] ops) :=
    run_exec [] ops
  rw [hfeed]
  refine ⟨?_, fun key t => thread_ids, fun pid proc => sumOfThreads⟩
  intro pid
  rw [mem_procs]
  constructor
  · rintro ⟨ev, hev, rfl⟩
    exact ⟨threadKeyOf ev, mem_threads.mpr ⟨ev, hev, rfl⟩,
      highWord_threadKey _ _⟩
  · rintro ⟨key, hkey, rfl⟩
    obtain ⟨ev, hev, rfl⟩ := mem_threads.mp hkey
    exact ⟨ev, hev, (highWord_threadKey _ _).symm⟩

end Threads

end KernelScope.ThreadPartition
