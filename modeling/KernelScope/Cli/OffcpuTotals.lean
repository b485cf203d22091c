import KernelScope.Bpf.OffcpuSlices
import KernelScope.Cli.EndToEnd
import Mathlib.Algebra.Order.BigOperators.Group.List

/-!
# Off-CPU time, from the schedule to the table

A live command adds the slices of a thread to the entry of the process that has the
thread's tid as its pid.  The off-CPU time of that entry is the time of the reported
intervals, and these are disjoint and within the run: the counter does not wrap, and
it never shows more than the thread was away.
-/

namespace KernelScope.OffcpuTotals

open KernelScope.Aggregation
open KernelScope.Dimensions
open KernelScope.EndToEnd
open KernelScope.EventDecoder
open KernelScope.Events
open KernelScope.Filters
open KernelScope.Handlers
open KernelScope.KeyedFold
open KernelScope.OffcpuSlices
open KernelScope.Schedule
open KernelScope.StepRun
open KernelScope.ThreadPartition
open KernelScope.WireFormat

/-! ## Slices and events -/

/-- A slice has one id for its process and its thread. -/
theorem pid_eq_tid_of_record {ro : Rodata} {call : Call} {m : Maps} {e : WireEvent}
    (hrecord : call.record ro m = some e) (htype : e.type = EvType.offcpuSlice.code) :
    e.pid = e.tid := by
  have hcall : call.evType = .offcpuSlice :=
    EvType.code_injective (record_type hrecord ▸ htype)
  cases call with
  | schedSwitch input =>
      obtain ⟨state, slot, -, -, -, -, rfl⟩ := record_schedSwitch.mp hrecord
      rfl
  | _ => cases hcall

theorem isOffcpu_fromWire (e : WireEvent) :
    isOffcpu (fromWire e) = decide (e.type = EvType.offcpuSlice.code) := by
  have hcode : EventType.ofCode e.type = .offcpuSlice ↔ e.type = EvType.offcpuSlice.code := by
    constructor
    · intro htype
      rw [← EventType.code_ofCode e.type, htype]
      rfl
    · intro htype
      rw [htype]
      rfl
  exact decide_eq_decide.mpr hcode

/-- The off-CPU time of a process is that of the slices with its pid as their tid. -/
theorem totalOffcpuNs_consumed {records : List WireEvent}
    (hids : ∀ e ∈ records, e.type = EvType.offcpuSlice.code → e.pid = e.tid) (pid : UInt32) :
    fieldAt (fun ps : ProcessStats => ps.totalOffcpuNs) (consumed records).procs pid =
      UInt64.ofNat ((records.filter fun e =>
        e.type = EvType.offcpuSlice.code ∧ e.tid = pid).map
          fun e => e.durationNs.toNat).sum := by
  have hslices : (group Event.pid pid (records.map fromWire)).filter isOffcpu =
      (records.filter fun e =>
        e.type = EvType.offcpuSlice.code ∧ e.tid = pid).map fromWire := by
    rw [group_map, List.filter_map, group, List.filter_filter]
    congr 1
    apply List.filter_congr
    intro e he
    have hpid : (Event.pid ∘ fromWire) e = e.pid := rfl
    rw [Function.comp_apply, isOffcpu_fromWire, hpid]
    by_cases htype : e.type = EvType.offcpuSlice.code
    · simp [htype, hids e he htype]
    · simp [htype]
  rw [consumed_eq, feed_procs, fieldAt_collect (fun ps : ProcessStats => ps.totalOffcpuNs) rfl
    (fun ev ps => add_totalOffcpuNs ev ps.toTaskStats), group_filter, weigh_offcpuWeight,
    hslices, weigh_eq_ofNat, List.map_map]
  rfl

/-! ## Disjoint intervals -/

/-- The time that a list of off-CPU intervals takes. -/
def awayNs (intervals : List OffcpuSlices.Interval) : ℕ :=
  (intervals.map OffcpuSlices.Interval.length).sum

theorem awayNs_le {intervals : List OffcpuSlices.Interval} {low high : ℕ}
    (hordered : intervals.Pairwise fun earlier later => earlier.stop ≤ later.start)
    (hproper : ∀ interval ∈ intervals, interval.start ≤ interval.stop)
    (hlow : ∀ interval ∈ intervals, low ≤ interval.start.toNat)
    (hhigh : ∀ interval ∈ intervals, interval.stop.toNat ≤ high) :
    awayNs intervals ≤ high - low := by
  induction intervals generalizing low with
  | nil => exact Nat.zero_le _
  | cons interval intervals ih =>
      rw [List.pairwise_cons] at hordered
      rw [List.forall_mem_cons] at hproper hlow hhigh
      have hrest := ih hordered.2 hproper.2
        (fun later hlater => UInt64.le_iff_toNat_le.mp (hordered.1 later hlater)) hhigh.2
      have hle := UInt64.le_iff_toNat_le.mp hproper.1
      rw [awayNs, List.map_cons, List.sum_cons, OffcpuSlices.Interval.length, ← awayNs]
      omega

theorem sum_durations {ro : Rodata} {slices : List WireEvent}
    {reported : List OffcpuSlices.Interval}
    (hreports : List.Forall₂ (Reports ro) slices reported) :
    (slices.map fun e => e.durationNs.toNat).sum = awayNs reported := by
  induction hreports with
  | nil => rfl
  | cons hfirst _ ih =>
      rw [List.map_cons, List.sum_cons, ih, hfirst.duration, awayNs, awayNs, List.map_cons,
        List.sum_cons]

theorem forall_reported {ro : Rodata} {slices : List WireEvent}
    {reported : List OffcpuSlices.Interval}
    (hreports : List.Forall₂ (Reports ro) slices reported) :
    ∀ interval ∈ reported, interval.start ≤ interval.stop ∧
      ro.minOffcpuNs.toNat ≤ interval.length := by
  induction hreports with
  | nil => simp
  | cons hfirst _ ih =>
      rw [List.forall_mem_cons]
      refine ⟨⟨hfirst.noWrap, ?_⟩, ih⟩
      rw [← hfirst.duration]
      exact UInt64.le_iff_toNat_le.mp hfirst.threshold

/-! ## Every schedule -/

section Schedules

variable {Task Cpu : Type*} [DecidableEq Task] [DecidableEq Cpu] {ro : Rodata}
  {threads : Threads Task} {task : Task} {s : Observed Task Cpu}

/-- What was observed since the clock showed `start`. -/
structure Since (start : UInt64) (s : Observed Task Cpu) : Prop where
  clock : start ≤ s.machine.clock
  lastOut : ∀ out, s.lastOut = some out → start ≤ out
  intervals : ∀ interval ∈ s.intervals, start ≤ interval.start
  records : ∀ e ∈ s.machine.maps.events, e.type = EvType.offcpuSlice.code → e.pid = e.tid

theorem Since.step {start : UInt64} (hsince : Since start s) {step : Step Task Cpu}
    (hallowed : Allowed ro threads s.machine step) :
    Since start (observe ro threads task s step) where
  clock := UInt64.le_trans hsince.clock (clock_le_exec hallowed)
  lastOut out hout := by
    change s.nextOut task step = some out at hout
    cases step with
    | switch cpu next input =>
        rw [Observed.nextOut] at hout
        split at hout
        · obtain rfl := Option.some.inj hout
          exact UInt64.le_trans hsince.clock hallowed.outClock
        · exact hsince.lastOut out hout
    | _ => exact hsince.lastOut out hout
  intervals interval hinterval := by
    change interval ∈ s.intervals ++ s.completed task step at hinterval
    rcases List.mem_append.mp hinterval with hold | hnew
    · exact hsince.intervals interval hold
    · cases step with
      | switch cpu next input =>
          rw [Observed.completed] at hnew
          split at hnew
          · rw [Option.mem_toList, Option.map_eq_some_iff] at hnew
            obtain ⟨out, hout, rfl⟩ := hnew
            exact hsince.lastOut out hout
          · cases hnew
      | _ => cases hnew
  records e he := by
    change e ∈ (step.call.handle ro s.machine.maps).events at he
    rw [events_handle, List.mem_append, Option.mem_toList] at he
    rcases he with hold | hnew
    · exact hsince.records e hold
    · exact pid_eq_tid_of_record hnew

/-- In every schedule, the off-CPU time that a live command shows under the id of a
thread is the time of some of its off-CPU intervals, each at least as long as the
threshold, if no other task has the id.  It is at most the time that the thread was
off-CPU, and at most the time that the run took. -/
theorem offcpu_total_real (ro : Rodata) (threads : Threads Task) (task : Task)
    (machine : Machine Task Cpu) (steps : List (Step Task Cpu))
    (hmaps : machine.maps = Maps.empty) (hinjective : Function.Injective machine.current)
    (hunique : ∀ cpu, threads.tid (machine.current cpu) = threads.tid task →
      machine.current cpu = task)
    (hspares : ∀ step ∈ steps, Spares threads task step)
    (hrun : Along (observe ro threads task) (fun s => Allowed ro threads s.machine)
      (Observed.initial machine) steps) :
    let s := run (observe ro threads task) (Observed.initial machine) steps
    let shown := fieldAt (fun ps : ProcessStats => ps.totalOffcpuNs)
      (consumed s.machine.maps.events).procs (threads.tid task)
    ∃ reported : List OffcpuSlices.Interval, reported.Sublist s.intervals ∧
      (∀ interval ∈ reported, ro.minOffcpuNs.toNat ≤ interval.length) ∧
      shown.toNat = awayNs reported ∧
      shown.toNat ≤ awayNs s.intervals ∧
      shown.toNat ≤ s.machine.clock.toNat - machine.clock.toNat := by
  intro s shown
  have hboth := hrun.and (along_of_forall_mem hspares (Observed.initial machine))
  have hinv : Invariant ro threads task s := run_invariant (Invariant ro threads task)
    (fun _ _ hinv hstep => hinv.step hstep.1 hstep.2)
    (invariant_initial hmaps hinjective hunique) hboth
  have hstart : Since machine.clock (Observed.initial machine) := by
    refine ⟨UInt64.le_refl _, ?_, ?_, ?_⟩ <;> simp [Observed.initial, hmaps, Maps.empty]
  have hsince : Since machine.clock s := run_invariant (Since machine.clock)
    (fun _ _ hsince hallowed => hsince.step hallowed) hstart hrun
  obtain ⟨reported, hsub, hreports⟩ := hinv.reported
  have hproper := forall_reported hreports
  have htime : awayNs reported ≤
      s.machine.clock.toNat - machine.clock.toNat := by
    apply awayNs_le (hinv.history.ordered.sublist hsub)
    · exact fun interval hmem => (hproper interval hmem).1
    · exact fun interval hmem =>
        UInt64.le_iff_toNat_le.mp (hsince.intervals interval (hsub.subset hmem))
    · exact fun interval hmem =>
        UInt64.le_iff_toNat_le.mp (hinv.history.past interval (hsub.subset hmem))
  have hshown : shown.toNat = awayNs reported := by
    have hlt : awayNs reported < 2 ^ 64 :=
      htime.trans_lt ((Nat.sub_le _ _).trans_lt s.machine.clock.toNat_lt)
    have htotal := totalOffcpuNs_consumed hsince.records (threads.tid task)
    change shown = _ at htotal
    have hslices := sum_durations hreports
    rw [Observed.slices] at hslices
    rw [htotal, hslices, UInt64.toNat_ofNat_of_lt' hlt]
  refine ⟨reported, hsub, fun interval hmem => (hproper interval hmem).2, hshown, ?_, ?_⟩
  · rw [hshown]
    exact (hsub.map OffcpuSlices.Interval.length).sum_le_sum fun _ _ => Nat.zero_le _
  · rw [hshown]
    exact htime

end Schedules

/-- A worker that is off the only CPU for two milliseconds is not shown to have
been away for longer. -/
theorem offcpu_total_real_worker :
    let threads : Threads Bool := ⟨fun _ => 7, fun task => cond task 7 0⟩
    let machine : Machine Bool Unit := ⟨Maps.empty, fun _ => true, 0⟩
    let comm := Vector.replicate 16 0
    let steps : List (Step Bool Unit) :=
      [.switch () false ⟨7, 0, 1, comm, 0, 100, 110, true, none⟩,
        .switch () true ⟨0, 7, 0, comm, 0, 2000100, 2000110, true, some WireEvent.zero⟩]
    let s := run (observe Rodata.default threads true) (Observed.initial machine) steps
    awayNs s.intervals = 2000010 ∧
      (fieldAt (fun ps : ProcessStats => ps.totalOffcpuNs)
        (consumed s.machine.maps.events).procs 7).toNat ≤ 2000010 := by
  intro threads machine comm steps s
  have hrun : Along (observe Rodata.default threads true)
      (fun s => Allowed Rodata.default threads s.machine) (Observed.initial machine) steps := by
    refine ⟨⟨?_, ?_, ?_, ?_, ?_, ?_, ?_⟩, ⟨?_, ?_, ?_, ?_, ?_, ?_, ?_⟩, trivial⟩ <;> decide
  have hsum : awayNs s.intervals = 2000010 := by decide +kernel
  have hspares : ∀ step ∈ steps, Spares threads true step := by
    simp only [steps, List.forall_mem_cons, Spares]
    exact ⟨by decide, by decide, by simp⟩
  obtain ⟨reported, -, -, -, htotal, -⟩ := offcpu_total_real Rodata.default threads true machine
    steps rfl (fun _ _ _ => rfl) (fun _ _ => rfl) hspares hrun
  exact ⟨hsum, htotal.trans hsum.le⟩

end KernelScope.OffcpuTotals
