import KernelScope.Core.Dimensions

/-!
# Entries and their histograms

Every entry of the aggregator keeps a count, a sum and a maximum of its
durations beside the histogram that has them too.  The two agree, except that
`slow_event_count` has 32 bits and the histogram counts in 64.
-/

namespace KernelScope.Summaries

open KernelScope.Aggregation
open KernelScope.Dimensions
open KernelScope.Events
open KernelScope.Histograms
open KernelScope.KeyedFold
open KernelScope.ThreadPartition

/-- The part of an entry's agreement that does not depend on the width of the
counter. -/
structure TimesAgree (stats : TaskStats) : Prop where
  sum : stats.totalSyscallNs + stats.totalOffcpuNs = stats.latencyHist.sum
  max : stats.maxLatencyNs = stats.latencyHist.max

/-- The fields of a process or thread entry agree with its histogram; the count
is compared as C++ compares it, after conversion to 64 bits. -/
structure TaskAgrees (stats : TaskStats) : Prop extends TimesAgree stats where
  count : stats.slowEventCount.toUInt64 = stats.latencyHist.count

/-- The fields of a system call entry agree with its histogram. -/
structure SyscallAgrees (stats : SyscallStats) : Prop where
  count : stats.count = stats.latencyHist.count
  sum : stats.totalNs = stats.latencyHist.sum
  max : stats.maxNs = stats.latencyHist.max

structure SummariesAgree (agg : Aggregator) : Prop where
  syscalls : ∀ id s, agg.syscalls.lookup id = some s → SyscallAgrees s
  procs : ∀ pid p, agg.procs.lookup pid = some p → TaskAgrees p.toTaskStats
  threads : ∀ key t, agg.threads.lookup key = some t → TaskAgrees t.toTaskStats

/-! ## One entry -/

theorem syscallAgrees_fresh : SyscallAgrees SyscallStats.fresh :=
  ⟨rfl, rfl, rfl⟩

theorem syscallAgrees_add (ev : Event) (s : SyscallStats)
    (hagrees : SyscallAgrees s) : SyscallAgrees (SyscallStats.add ev s) where
  count := congrArg (· + 1) hagrees.count
  sum := congrArg (· + ev.durationNs) hagrees.sum
  max := by simp only [SyscallStats.add, Histogram.record, hagrees.max]

theorem timesAgree_fresh : TimesAgree TaskStats.fresh :=
  ⟨rfl, rfl⟩

theorem timesAgree_add (ev : Event) (stats : TaskStats)
    (hagree : TimesAgree stats) : TimesAgree (stats.add ev) where
  sum := by
    have hrecord : (stats.add ev).latencyHist.sum =
        stats.totalSyscallNs + stats.totalOffcpuNs + ev.durationNs :=
      congrArg (· + ev.durationNs) hagree.sum.symm
    rw [hrecord]
    simp only [TaskStats.add]
    split
    · exact (add_assoc _ _ _).symm
    · exact add_right_comm _ _ _
  max := by simp only [TaskStats.add, Histogram.record, hagree.max]

/-! ## Counters of two widths -/

/-- The low 32 bits of a number are its low 64 bits when those are small. -/
theorem narrow_eq_wide_iff (count : ℕ) :
    (UInt32.ofNat count).toUInt64 = UInt64.ofNat count ↔
      count % 2 ^ 64 < 2 ^ 32 := by
  rw [← UInt64.toNat_inj, UInt32.toNat_toUInt64, UInt32.toNat_ofNat',
    UInt64.toNat_ofNat']
  omega

section Entries

variable {K V : Type*} [DecidableEq K] {fresh : V} {keyOf : Event → K}
variable {change : Event → V → V} (stats : V → TaskStats)

/-- The two counters of an entry that is updated by `TaskStats.add`. -/
theorem counts_of_lookup (hfresh : stats fresh = TaskStats.fresh)
    (hchange : ∀ ev value, stats (change ev value) = (stats value).add ev)
    {events : List Event} {key : K} {value : V}
    (hlookup : (collect fresh keyOf change events ∅).lookup key = some value) :
    (stats value).slowEventCount =
        UInt32.ofNat (group keyOf key events).length ∧
      (stats value).latencyHist.count =
        UInt64.ofNat (group keyOf key events).length := by
  constructor
  · exact counter_of_lookup_collect (fun value => (stats value).slowEventCount) rfl
      (fun count => UInt32.ofNat_add count 1) (by rw [hfresh]; rfl)
      (fun ev value => by rw [hchange]; rfl) hlookup
  · exact counter_of_lookup_collect (fun value => (stats value).latencyHist.count)
      rfl (fun count => UInt64.ofNat_add count 1) (by rw [hfresh]; rfl)
      (fun ev value => by rw [hchange]; rfl) hlookup

/-- Such an entry agrees with its histogram when the number of its events is
small. -/
theorem taskAgrees_iff (hfresh : stats fresh = TaskStats.fresh)
    (hchange : ∀ ev value, stats (change ev value) = (stats value).add ev)
    {events : List Event} {key : K} {value : V}
    (hlookup : (collect fresh keyOf change events ∅).lookup key = some value) :
    TimesAgree (stats value) ∧
      (TaskAgrees (stats value) ↔
        (group keyOf key events).length % 2 ^ 64 < 2 ^ 32) := by
  have htimes : TimesAgree (stats value) := by
    refine of_lookup_collect (fun value => TimesAgree (stats value))
      (hfresh ▸ timesAgree_fresh) ?_ hlookup
    intro ev value hagree
    rw [hchange]
    exact timesAgree_add ev (stats value) hagree
  obtain ⟨hslow, hcount⟩ := counts_of_lookup stats hfresh hchange hlookup
  refine ⟨htimes, ?_⟩
  rw [← narrow_eq_wide_iff, ← hslow, ← hcount]
  exact ⟨fun hagrees => hagrees.count, fun hcounts => ⟨htimes, hcounts⟩⟩

end Entries

/-! ## All entries -/

section Maps

variable (events : List Event)

theorem syscallAgrees_of_lookup {id : UInt64} {s : SyscallStats}
    (hlookup : (feed events).syscalls.lookup id = some s) : SyscallAgrees s := by
  rw [feed_syscalls] at hlookup
  exact of_lookup_collect SyscallAgrees syscallAgrees_fresh syscallAgrees_add
    hlookup

theorem procAgrees_iff {pid : UInt32} {p : ProcessStats}
    (hlookup : (feed events).procs.lookup pid = some p) :
    TimesAgree p.toTaskStats ∧
      (TaskAgrees p.toTaskStats ↔
        (group Event.pid pid (events.filter isTimed)).length % 2 ^ 64 < 2 ^ 32) := by
  rw [feed_procs] at hlookup
  exact taskAgrees_iff ProcessStats.toTaskStats rfl (fun _ _ => rfl)
    hlookup

theorem threadAgrees_iff {key : UInt64} {t : ThreadStats}
    (hlookup : (feed events).threads.lookup key = some t) :
    TimesAgree t.toTaskStats ∧
      (TaskAgrees t.toTaskStats ↔
        (group threadKeyOf key (events.filter isTimed)).length % 2 ^ 64 <
          2 ^ 32) := by
  rw [feed_threads] at hlookup
  exact taskAgrees_iff ThreadStats.toTaskStats rfl (fun _ _ => rfl)
    hlookup

theorem group_threadKeyOf (pid tid : UInt32) :
    group threadKeyOf (threadKey pid tid) events =
      events.filter fun ev => ev.pid = pid ∧ ev.tid = tid := by
  simp only [group, threadKeyOf, threadKey_inj]

variable {events}

theorem exists_proc {pid : UInt32}
    (hgroup : group Event.pid pid (events.filter isTimed) ≠ []) :
    ∃ p, (feed events).procs.lookup pid = some p := by
  rw [feed_procs]
  exact ⟨_, lookup_collect_eq_some.mpr ⟨hgroup, rfl⟩⟩

theorem exists_thread {key : UInt64}
    (hgroup : group threadKeyOf key (events.filter isTimed) ≠ []) :
    ∃ t, (feed events).threads.lookup key = some t := by
  rw [feed_threads]
  exact ⟨_, lookup_collect_eq_some.mpr ⟨hgroup, rfl⟩⟩

/-- The entry of a thread is keyed by the thread's ids. -/
theorem exists_ids_of_thread {key : UInt64} {t : ThreadStats}
    (hlookup : (feed events).threads.lookup key = some t) :
    ∃ pid tid, key = threadKey pid tid := by
  rw [feed_threads] at hlookup
  obtain ⟨hgroup, -⟩ := lookup_collect_eq_some.mp hlookup
  obtain ⟨ev, hev⟩ := List.exists_mem_of_ne_nil _ hgroup
  exact ⟨ev.pid, ev.tid, (mem_group.mp hev).2.symm⟩

end Maps

theorem length_mod_lt_of_nil {E : Type*} {items : List E} (hnil : items = []) :
    items.length % 2 ^ 64 < 2 ^ 32 := by
  rw [hnil, List.length_nil]
  decide

/-- After every sequence of calls the system call entries agree with their
histograms, and the process and thread entries do up to their counts.  These
agree when no process and no thread has had 2^32 timed events since the last
reset, counted modulo 2^64. -/
theorem summaries_agree_iff (ops : List Op) :
    let agg := StepRun.run exec Aggregator.fresh ops
    let timed := (ledger [] ops).filter isTimed
    (∀ id s, agg.syscalls.lookup id = some s → SyscallAgrees s) ∧
    (∀ pid p, agg.procs.lookup pid = some p → TimesAgree p.toTaskStats) ∧
    (∀ key t, agg.threads.lookup key = some t → TimesAgree t.toTaskStats) ∧
    (SummariesAgree agg ↔
      (∀ pid, (timed.filter fun ev => ev.pid = pid).length % 2 ^ 64 < 2 ^ 32) ∧
      ∀ pid tid,
        (timed.filter fun ev => ev.pid = pid ∧ ev.tid = tid).length % 2 ^ 64 <
          2 ^ 32) := by
  intro agg timed
  have hagg : agg = feed (ledger [] ops) := run_exec [] ops
  rw [hagg]
  refine ⟨fun id s => syscallAgrees_of_lookup _,
    fun pid p hlookup => (procAgrees_iff _ hlookup).1,
    fun key t hlookup => (threadAgrees_iff _ hlookup).1, ?_⟩
  constructor
  · intro hagree
    constructor
    · intro pid
      by_cases hgroup : group Event.pid pid timed = []
      · exact length_mod_lt_of_nil hgroup
      · obtain ⟨p, hlookup⟩ := exists_proc hgroup
        exact (procAgrees_iff _ hlookup).2.mp (hagree.procs pid p hlookup)
    · intro pid tid
      rw [← group_threadKeyOf]
      by_cases hgroup : group threadKeyOf (threadKey pid tid) timed = []
      · exact length_mod_lt_of_nil hgroup
      · obtain ⟨t, hlookup⟩ := exists_thread hgroup
        exact (threadAgrees_iff _ hlookup).2.mp (hagree.threads _ t hlookup)
  · rintro ⟨hprocs, hthreads⟩
    refine ⟨fun id s => syscallAgrees_of_lookup _, ?_, ?_⟩
    · intro pid p hlookup
      exact (procAgrees_iff _ hlookup).2.mpr (hprocs pid)
    · intro key t hlookup
      obtain ⟨pid, tid, rfl⟩ := exists_ids_of_thread hlookup
      refine (threadAgrees_iff _ hlookup).2.mpr ?_
      rw [group_threadKeyOf]
      exact hthreads pid tid

/-! ## A counter that wraps -/

theorem ledger_replicate (count : ℕ) (ev : Event) (events : List Event) :
    ledger events (List.replicate count (.process ev)) =
      events ++ List.replicate count ev := by
  induction count generalizing events with
  | zero => simp [ledger]
  | succ count ih =>
      rw [List.replicate_succ, ledger, ih, List.append_assoc, List.replicate_succ]
      rfl

/-- The counters of a process after some number of equal events. -/
theorem proc_of_replicate {count : ℕ} (hpos : 0 < count) {ev : Event}
    (htimed : isTimed ev = true) :
    ∃ p, (StepRun.run exec Aggregator.fresh
          (List.replicate count (.process ev))).procs.lookup ev.pid = some p ∧
      p.slowEventCount = UInt32.ofNat count ∧
      p.latencyHist.count = UInt64.ofNat count := by
  have hrun :
      StepRun.run exec Aggregator.fresh (List.replicate count (.process ev)) =
        feed (List.replicate count ev) := by
    rw [← List.nil_append (List.replicate count ev), ← ledger_replicate]
    exact run_exec [] _
  have hgroup :
      group Event.pid ev.pid ((List.replicate count ev).filter isTimed) =
        List.replicate count ev := by
    rw [List.filter_eq_self.mpr, group, List.filter_eq_self.mpr]
    · intro other hother
      rw [List.eq_of_mem_replicate hother]
      exact decide_eq_true rfl
    · intro other hother
      rwa [List.eq_of_mem_replicate hother]
  have hne : group Event.pid ev.pid ((List.replicate count ev).filter isTimed) ≠ [] := by
    rw [hgroup]
    exact fun hnil => hpos.ne' (List.replicate_eq_nil_iff _ |>.mp hnil)
  obtain ⟨p, hlookup⟩ := exists_proc hne
  rw [hrun]
  refine ⟨p, hlookup, ?_⟩
  rw [feed_procs] at hlookup
  have hcounts := counts_of_lookup ProcessStats.toTaskStats rfl (fun _ _ => rfl)
    hlookup
  rwa [hgroup, List.length_replicate] at hcounts

/-- With too many events the entry does not agree with its histogram. -/
theorem not_summariesAgree_replicate {count : ℕ} (hpos : 0 < count)
    (hmany : ¬count % 2 ^ 64 < 2 ^ 32) {ev : Event} (htimed : isTimed ev = true) :
    ¬SummariesAgree (StepRun.run exec Aggregator.fresh
      (List.replicate count (.process ev))) := by
  intro hagree
  obtain ⟨p, hlookup, hslow, hcount⟩ := proc_of_replicate hpos htimed
  have hagrees := (hagree.procs _ p hlookup).count
  rw [hslow, hcount, narrow_eq_wide_iff] at hagrees
  exact hmany hagrees

/-- After 2^32 system calls of one process its count is zero again. -/
theorem slowEventCount_wraps :
    (∃ p, (StepRun.run exec Aggregator.fresh
          (List.replicate (2 ^ 32) (.process (sampleRead 7)))).procs.lookup
            (sampleRead 7).pid = some p ∧
      p.slowEventCount = 0 ∧ p.latencyHist.count = 4294967296) ∧
      ¬SummariesAgree (StepRun.run exec Aggregator.fresh
        (List.replicate (2 ^ 32) (.process (sampleRead 7)))) := by
  have hpos : 0 < 2 ^ 32 := by decide
  have htimed : isTimed (sampleRead 7) = true := by decide
  -- The list of calls is never computed.
  generalize hcount : 2 ^ 32 = count at hpos
  have hmany : ¬count % 2 ^ 64 < 2 ^ 32 := by
    rw [← hcount]
    decide
  obtain ⟨p, hlookup, hslow, hwide⟩ := proc_of_replicate hpos htimed
  refine ⟨⟨p, hlookup, ?_, ?_⟩, not_summariesAgree_replicate hpos hmany htimed⟩
  · rw [hslow, ← hcount]
    decide
  · rw [hwide, ← hcount]
    decide

end KernelScope.Summaries
