import KernelScope.Bpf.Schedule
import Mathlib.Data.Fintype.Basic
import Mathlib.Data.List.Forall2

/-!
# Off-CPU slices of one thread

A run of the machine is observed from one thread: when it last left a CPU and
the off-CPU intervals it has completed.  These are read off the schedule alone;
the invariant ties the thread's `sched_states` entry to them, and the slices in
the ring buffer turn out to be reports of some of the intervals, in order.
-/

namespace KernelScope.OffcpuSlices

open KernelScope.Filters
open KernelScope.Handlers
open KernelScope.Schedule
open KernelScope.StepRun
open KernelScope.WireFormat

/-- A completed off-CPU interval. -/
structure Interval where
  start : UInt64
  stop : UInt64

def Interval.length (interval : Interval) : ℕ :=
  interval.stop.toNat - interval.start.toNat

/-- The sum of the lengths, in the arithmetic of the `u64` counter. -/
def totalLength (intervals : List Interval) : UInt64 :=
  UInt64.ofNat (intervals.map Interval.length).sum

theorem totalLength_append_singleton (intervals : List Interval)
    (interval : Interval) (hle : interval.start ≤ interval.stop) :
    totalLength (intervals ++ [interval]) =
      totalLength intervals + (interval.stop - interval.start) := by
  have hlength : UInt64.ofNat interval.length =
      interval.stop - interval.start := by
    rw [Interval.length, ← UInt64.toNat_sub_of_le _ _ hle, UInt64.ofNat_toNat]
  simp [totalLength, UInt64.ofNat_add, hlength]

/-- The slice `e` reports exactly `interval`. -/
structure Reports (ro : Rodata) (e : WireEvent) (interval : Interval) :
    Prop where
  timestamp : e.timestampNs = interval.stop
  noWrap : interval.start ≤ interval.stop
  duration : e.durationNs.toNat = interval.length
  threshold : ro.minOffcpuNs ≤ e.durationNs

/-- The slices report some of the intervals, in the same order and each at
most once. -/
def ReportsSome (ro : Rodata) (slices : List WireEvent)
    (intervals : List Interval) : Prop :=
  ∃ reported, reported.Sublist intervals ∧
    List.Forall₂ (Reports ro) slices reported

theorem reportsSome_nil (ro : Rodata) (intervals : List Interval) :
    ReportsSome ro [] intervals :=
  ⟨[], List.nil_sublist _, .nil⟩

theorem ReportsSome.append {ro : Rodata} {slices slices' : List WireEvent}
    {intervals intervals' : List Interval}
    (hleft : ReportsSome ro slices intervals)
    (hright : ReportsSome ro slices' intervals') :
    ReportsSome ro (slices ++ slices') (intervals ++ intervals') := by
  obtain ⟨left, hsubleft, hleft⟩ := hleft
  obtain ⟨right, hsubright, hright⟩ := hright
  exact ⟨left ++ right, hsubleft.append hsubright,
    List.rel_append hleft hright⟩

/-- Reports of consecutive intervals do not overlap. -/
theorem ReportsSome.disjoint {ro : Rodata} {slices : List WireEvent}
    {intervals : List Interval} (hreports : ReportsSome ro slices intervals)
    (hordered : intervals.Pairwise fun earlier later =>
      earlier.stop ≤ later.start) :
    slices.Pairwise fun earlier later =>
      earlier.timestampNs.toNat + later.durationNs.toNat ≤
        later.timestampNs.toNat := by
  obtain ⟨reported, hsub, hreports⟩ := hreports
  have hordered := hordered.sublist hsub
  clear hsub
  induction hreports with
  | nil => exact .nil
  | @cons e interval slices reported hfirst hrest ih =>
      rw [List.pairwise_cons] at hordered ⊢
      refine ⟨fun later hlater => ?_, ih hordered.2⟩
      obtain ⟨other, hother, hlater⟩ : ∃ other ∈ reported,
          Reports ro later other := by
        obtain ⟨index, hindex, rfl⟩ := List.getElem_of_mem hlater
        have hlength := hrest.length_eq
        exact ⟨reported[index], List.getElem_mem _, hrest.get hindex _⟩
      have hle := UInt64.le_iff_toNat_le.mp (hordered.1 other hother)
      have hproper := UInt64.le_iff_toNat_le.mp hlater.noWrap
      rw [hfirst.timestamp, hlater.timestamp, hlater.duration, Interval.length]
      omega

/-! ## Observing one thread -/

structure Observed (Task Cpu : Type*) where
  machine : Machine Task Cpu
  /-- the thread's most recent switch-out -/
  lastOut : Option UInt64
  /-- its completed off-CPU intervals -/
  intervals : List Interval
  /-- those completed since its entry was created -/
  sinceEntry : List Interval

section Observation

variable {Task Cpu : Type*}

def Observed.initial (machine : Machine Task Cpu) : Observed Task Cpu where
  machine := machine
  lastOut := none
  intervals := []
  sinceEntry := []

def Observed.OnCpu (task : Task) (s : Observed Task Cpu) : Prop :=
  ∃ cpu, s.machine.current cpu = task

/-- The slices submitted for the thread. -/
def Observed.slices (threads : Threads Task) (task : Task)
    (s : Observed Task Cpu) : List WireEvent :=
  s.machine.maps.events.filter fun e =>
    e.type = EvType.offcpuSlice.code ∧ e.tid = threads.tid task

/-- The `sched_states` entry of the thread. -/
def Observed.entry (threads : Threads Task) (task : Task)
    (s : Observed Task Cpu) : Option SchedState :=
  s.machine.maps.schedStates.lookup (schedKey (threads.tid task))

variable [DecidableEq Task]

/-- The interval that ends when the step puts the thread on a CPU. -/
def Observed.completed (task : Task) (s : Observed Task Cpu) :
    Step Task Cpu → List Interval
  | .switch _ next input =>
      if next = task then
        (s.lastOut.map fun out => ⟨out, input.inNs⟩).toList
      else []
  | _ => []

def Observed.nextOut (task : Task) (s : Observed Task Cpu) :
    Step Task Cpu → Option UInt64
  | .switch cpu _ input =>
      if s.machine.current cpu = task then some input.outNs else s.lastOut
  | _ => s.lastOut

/-- A step of the machine, with the thread's history extended.  While the
thread has no entry, nothing has been completed since its creation. -/
def observe [DecidableEq Cpu] (ro : Rodata) (threads : Threads Task)
    (task : Task) (s : Observed Task Cpu) (step : Step Task Cpu) :
    Observed Task Cpu where
  machine := exec ro s.machine step
  lastOut := s.nextOut task step
  intervals := s.intervals ++ s.completed task step
  sinceEntry :=
    if (s.entry threads task).isSome then
      s.sinceEntry ++ s.completed task step
    else []

/-- The step brings no other thread with the tid of `task` onto a CPU. -/
def Spares (threads : Threads Task) (task : Task) : Step Task Cpu → Prop
  | .switch _ next _ => threads.tid next = threads.tid task → next = task
  | _ => True

end Observation

/-! ## The invariant -/

section Invariant

variable {Task Cpu : Type*}

/-- The thread's entry agrees with the schedule. -/
structure EntryAgrees (ro : Rodata) (threads : Threads Task) (task : Task)
    (s : Observed Task Cpu) (state : SchedState) : Prop where
  filtered : filterPid ro (threads.tid task) = true
  running : s.OnCpu task → state.switchOutNs = 0
  waiting : ¬s.OnCpu task →
    0 < state.switchOutNs ∧ s.lastOut = some state.switchOutNs
  accumulated : state.accumulatedOffcpuNs = totalLength s.sinceEntry

/-- The history is in order and in the past. -/
structure HistoryOrdered (task : Task) (s : Observed Task Cpu) : Prop where
  ordered : s.intervals.Pairwise fun earlier later =>
    earlier.stop ≤ later.start
  past : ∀ interval ∈ s.intervals, interval.stop ≤ s.machine.clock
  lastOutPast : ∀ out, s.lastOut = some out → out ≤ s.machine.clock
  lastOutAfter : ¬s.OnCpu task → ∀ out, s.lastOut = some out →
    ∀ interval ∈ s.intervals, interval.stop ≤ out

structure Invariant (ro : Rodata) (threads : Threads Task) (task : Task)
    (s : Observed Task Cpu) : Prop where
  injective : Function.Injective s.machine.current
  unique : ∀ cpu, threads.tid (s.machine.current cpu) = threads.tid task →
    s.machine.current cpu = task
  entry : ∀ state, s.entry threads task = some state →
    EntryAgrees ro threads task s state
  history : HistoryOrdered task s
  reported : ReportsSome ro (s.slices threads task) s.intervals

variable [DecidableEq Task] [DecidableEq Cpu] {ro : Rodata}
  {threads : Threads Task} {task : Task} {s : Observed Task Cpu}

/-- Only a switch to a thread with the tid of `task` adds to its slices. -/
theorem slices_observe (step : Step Task Cpu) :
    (observe ro threads task s step).slices threads task =
      s.slices threads task ++
        (step.call.record ro s.machine.maps).toList.filter fun e =>
          e.type = EvType.offcpuSlice.code ∧ e.tid = threads.tid task := by
  simp only [Observed.slices, observe, exec, events_handle, List.filter_append]

/-- Slices are filed under the tid of the incoming thread. -/
theorem slices_observe_of_ne {cpu : Cpu} {next : Task}
    {input : SchedSwitchInput} (hne : input.nextPid ≠ threads.tid task) :
    (observe ro threads task s (.switch cpu next input)).slices threads task =
      s.slices threads task := by
  have hnone : ∀ e, (Call.schedSwitch input).record ro s.machine.maps = some e →
      e.tid ≠ threads.tid task := by
    intro e hrecord
    obtain ⟨state, slot, -, -, -, -, rfl⟩ := record_schedSwitch.mp hrecord
    exact hne
  rw [slices_observe, List.filter_eq_nil_iff.mpr, List.append_nil]
  intro e hmem
  simp [hnone e (Option.mem_toList.mp hmem)]

omit [DecidableEq Task] in
/-- Who runs on which CPU stays sound through a switch. -/
theorem Invariant.unique_switch {cpu : Cpu} {next : Task}
    (hinv : Invariant ro threads task s)
    (hspares : threads.tid next = threads.tid task → next = task)
    (other : Cpu)
    (hother : threads.tid (Function.update s.machine.current cpu next other) =
      threads.tid task) :
    Function.update s.machine.current cpu next other = task := by
  by_cases heq : other = cpu
  · subst heq
    rw [Function.update_self] at hother ⊢
    exact hspares hother
  · rw [Function.update_of_ne heq] at hother ⊢
    exact hinv.unique other hother

/-- Steps that neither move the thread nor touch its entry, except perhaps to
delete it. -/
theorem Invariant.frame {step : Step Task Cpu}
    (hinv : Invariant ro threads task s)
    (hclock : s.machine.clock ≤ step.clock)
    (hinjective : Function.Injective (step.current s.machine.current))
    (hunique : ∀ cpu,
      threads.tid (step.current s.machine.current cpu) = threads.tid task →
        step.current s.machine.current cpu = task)
    (hon : (observe ro threads task s step).OnCpu task ↔ s.OnCpu task)
    (hlast : s.nextOut task step = s.lastOut)
    (hcompleted : s.completed task step = [])
    (hentry : ∀ state,
      (observe ro threads task s step).entry threads task = some state →
        s.entry threads task = some state)
    (hslices : (observe ro threads task s step).slices threads task =
      s.slices threads task) :
    Invariant ro threads task (observe ro threads task s step) := by
  have hlast : (observe ro threads task s step).lastOut = s.lastOut := hlast
  have hintervals : (observe ro threads task s step).intervals =
      s.intervals := by
    simp [observe, hcompleted]
  refine ⟨hinjective, hunique, ?_, ⟨?_, ?_, ?_, ?_⟩, ?_⟩
  · intro state hstate
    have hold := hentry state hstate
    have hagrees := hinv.entry state hold
    refine ⟨hagrees.filtered, ?_, ?_, ?_⟩
    · rw [hon]
      exact hagrees.running
    · rw [hon, hlast]
      exact hagrees.waiting
    · simpa [observe, hold, hcompleted] using hagrees.accumulated
  · rw [hintervals]
    exact hinv.history.ordered
  · rw [hintervals]
    intro interval hmem
    exact UInt64.le_trans (hinv.history.past interval hmem) hclock
  · rw [hlast]
    intro out hsome
    exact UInt64.le_trans (hinv.history.lastOutPast out hsome) hclock
  · rw [hlast, hintervals, hon]
    exact hinv.history.lastOutAfter
  · rw [hslices, hintervals]
    exact hinv.reported

/-- Handlers other than `tp_sched_switch` add no slice. -/
theorem slices_observe_of_evType {step : Step Task Cpu}
    (htype : step.call.evType ≠ .offcpuSlice) :
    (observe ro threads task s step).slices threads task =
      s.slices threads task := by
  have hcode : step.call.evType.code ≠ EvType.offcpuSlice.code :=
    EvType.code_injective.ne htype
  rw [slices_observe, List.filter_eq_nil_iff.mpr, List.append_nil]
  intro e hmem
  simp [record_type (Option.mem_toList.mp hmem), hcode]

omit [DecidableEq Task] [DecidableEq Cpu] in
theorem nextPid_ne {cpu : Cpu} {next : Task} {input : SchedSwitchInput}
    (hallowed : SwitchAllowed threads s.machine cpu next input)
    (hspares : threads.tid next = threads.tid task → next = task)
    (hnext : next ≠ task) : input.nextPid ≠ threads.tid task := by
  rw [hallowed.nextPid]
  exact fun heq => hnext (hspares heq)

/-- A switch between two other threads. -/
theorem Invariant.bystander {cpu : Cpu} {next : Task}
    {input : SchedSwitchInput} (hinv : Invariant ro threads task s)
    (hallowed : SwitchAllowed threads s.machine cpu next input)
    (hspares : threads.tid next = threads.tid task → next = task)
    (hprev : s.machine.current cpu ≠ task) (hnext : next ≠ task) :
    Invariant ro threads task
      (observe ro threads task s (.switch cpu next input)) := by
  have hprevPid : input.prevPid ≠ threads.tid task := by
    rw [hallowed.prevPid]
    exact fun heq => hprev (hinv.unique cpu heq)
  have hnextPid := nextPid_ne hallowed hspares hnext
  have hon : (observe ro threads task s (.switch cpu next input)).OnCpu task ↔
      s.OnCpu task := by
    constructor
    · rintro ⟨other, hother⟩
      by_cases heq : other = cpu
      · subst heq
        exact absurd (by simpa [observe, exec, Step.current] using hother) hnext
      · exact ⟨other, by simpa [observe, exec, Step.current, heq] using hother⟩
    · rintro ⟨other, hother⟩
      have heq : other ≠ cpu := fun h => hprev (h ▸ hother)
      exact ⟨other, by simpa [observe, exec, Step.current, heq] using hother⟩
  have hentry : (observe ro threads task s (.switch cpu next input)).entry
      threads task = s.entry threads task :=
    lookup_tpSchedSwitch_of_ne ro input s.machine.maps
      (fun heq => hprevPid (schedKey_injective heq).symm)
      (fun heq => hnextPid (schedKey_injective heq).symm)
  refine hinv.frame (UInt64.le_trans hallowed.outClock hallowed.inClock)
    (injective_switch hinv.injective hallowed.idle)
    (hinv.unique_switch hspares) hon ?_ ?_ ?_ (slices_observe_of_ne hnextPid)
  · simp [Observed.nextOut, hprev]
  · simp [Observed.completed, hnext]
  · intro state hstate
    rwa [hentry] at hstate

/-- The entry of a thread after the switch that takes it off its CPU: a new
one starts from zero, an old one keeps its counter. -/
theorem Invariant.entry_outgoing {cpu : Cpu} {next : Task}
    {input : SchedSwitchInput} (hinv : Invariant ro threads task s)
    (hallowed : SwitchAllowed threads s.machine cpu next input)
    (hnext : input.nextPid ≠ threads.tid task)
    (hprev : s.machine.current cpu = task) {state : SchedState}
    (hstate : (observe ro threads task s (.switch cpu next input)).entry
      threads task = some state) :
    filterPid ro (threads.tid task) = true ∧
      state = outgoingState input (s.entry threads task) := by
  have hprevPid : input.prevPid = threads.tid task := by
    rw [hallowed.prevPid, hprev]
  have hne : input.prevPid ≠ input.nextPid := fun heq =>
    hnext (heq ▸ hprevPid)
  have hlookup := lookup_tpSchedSwitch_prev ro input s.machine.maps hne
  rw [hprevPid] at hlookup
  rw [Observed.entry, observe] at hstate
  have hentry := hlookup.symm.trans hstate
  split at hentry
  next hstored =>
    exact ⟨hstored.1, (Option.some.inj hentry).symm⟩
  next hstored =>
    -- an old entry means that the filter passes and the update cannot fail
    have hfiltered := (hinv.entry state hentry).filtered
    have hmem : schedKey input.prevPid ∈ s.machine.maps.schedStates := by
      rw [hprevPid]
      exact Finmap.mem_iff.mpr ⟨state, hentry⟩
    exact absurd ⟨hfiltered, hallowed.update hmem⟩ hstored

/-- The switch that takes the thread off its CPU. -/
theorem Invariant.outgoing {cpu : Cpu} {next : Task}
    {input : SchedSwitchInput} (hinv : Invariant ro threads task s)
    (hallowed : SwitchAllowed threads s.machine cpu next input)
    (hspares : threads.tid next = threads.tid task → next = task)
    (hprev : s.machine.current cpu = task) :
    Invariant ro threads task
      (observe ro threads task s (.switch cpu next input)) := by
  have hnext : next ≠ task := fun heq =>
    hallowed.idle cpu (hprev.trans heq.symm)
  have hnextPid := nextPid_ne hallowed hspares hnext
  have hoff : ¬(observe ro threads task s
      (.switch cpu next input)).OnCpu task := by
    rintro ⟨other, hother⟩
    exact outgoing_off hinv.injective hallowed.idle other
      (hother.trans hprev.symm)
  have hcompleted : s.completed task (.switch cpu next input) = [] := by
    simp [Observed.completed, hnext]
  have hintervals : (observe ro threads task s
      (.switch cpu next input)).intervals = s.intervals := by
    simp [observe, hcompleted]
  have hlast : (observe ro threads task s (.switch cpu next input)).lastOut =
      some input.outNs := by
    simp [observe, Observed.nextOut, hprev]
  have hpast : ∀ interval ∈ s.intervals, interval.stop ≤ input.outNs :=
    fun interval hmem => UInt64.le_trans (hinv.history.past interval hmem)
      hallowed.outClock
  refine ⟨injective_switch hinv.injective hallowed.idle,
    hinv.unique_switch hspares, ?_, ⟨?_, ?_, ?_, ?_⟩, ?_⟩
  · intro state hstate
    obtain ⟨hfiltered, rfl⟩ :=
      hinv.entry_outgoing hallowed hnextPid hprev hstate
    refine ⟨hfiltered, fun hon => absurd hon hoff,
      fun _ => ⟨hallowed.positive, hlast⟩, ?_⟩
    cases hold : s.entry threads task with
    | none => simp [observe, hold, outgoingState, SchedState.zero, totalLength]
    | some old =>
        simpa [observe, hold, hcompleted, outgoingState] using
          (hinv.entry old hold).accumulated
  · rw [hintervals]
    exact hinv.history.ordered
  · rw [hintervals]
    intro interval hmem
    exact UInt64.le_trans (hpast interval hmem) hallowed.inClock
  · rw [hlast]
    rintro out ⟨⟩
    exact hallowed.inClock
  · rw [hlast, hintervals]
    rintro - out ⟨⟩
    exact hpast
  · rw [slices_observe_of_ne hnextPid, hintervals]
    exact hinv.reported

omit [DecidableEq Task] [DecidableEq Cpu] in
theorem Invariant.prevPid_ne {cpu : Cpu} {input : SchedSwitchInput}
    (hinv : Invariant ro threads task s)
    (hallowed : SwitchAllowed threads s.machine cpu task input) :
    input.prevPid ≠ input.nextPid := by
  rw [hallowed.prevPid, hallowed.nextPid]
  exact fun heq => hallowed.idle cpu (hinv.unique cpu heq)

omit [DecidableEq Task] [DecidableEq Cpu] in
/-- The open interval found by the switch that brings the thread back is the
one that began at its most recent switch-out. -/
theorem Invariant.reports_open {cpu : Cpu} {input : SchedSwitchInput}
    (hinv : Invariant ro threads task s)
    (hallowed : SwitchAllowed threads s.machine cpu task input)
    (hne : input.prevPid ≠ input.nextPid) {e : WireEvent}
    (hrecord : (Call.schedSwitch input).record ro s.machine.maps = some e) :
    ∃ out, s.lastOut = some out ∧ Reports ro e ⟨out, input.inNs⟩ := by
  obtain ⟨state, slot, -, hstate, hopen, -, rfl⟩ :=
    record_schedSwitch.mp hrecord
  rw [lookup_switchOut_of_ne ro input _
    (fun heq => hne (schedKey_injective heq).symm), hallowed.nextPid]
    at hstate
  have hoff : ¬s.OnCpu task := fun ⟨other, hother⟩ => hallowed.idle other hother
  have hlast := ((hinv.entry state hstate).waiting hoff).2
  have hle : state.switchOutNs ≤ input.inNs :=
    UInt64.le_trans (hinv.history.lastOutPast _ hlast)
      (UInt64.le_trans hallowed.outClock hallowed.inClock)
  exact ⟨state.switchOutNs, hlast, rfl, hle,
    UInt64.toNat_sub_of_le _ _ hle, hopen.2⟩

omit [DecidableEq Cpu] in
theorem completed_incoming (cpu : Cpu) (input : SchedSwitchInput) :
    s.completed task (.switch cpu task input) =
      (s.lastOut.map fun out => (⟨out, input.inNs⟩ : Interval)).toList := by
  simp [Observed.completed]

omit [DecidableEq Task] [DecidableEq Cpu] in
theorem mem_completed {input : SchedSwitchInput} {interval : Interval}
    (hmem : interval ∈
      (s.lastOut.map fun out => (⟨out, input.inNs⟩ : Interval)).toList) :
    ∃ out, s.lastOut = some out ∧ interval = ⟨out, input.inNs⟩ := by
  obtain ⟨out, hout, rfl⟩ :=
    Option.map_eq_some_iff.mp (Option.mem_toList.mp hmem)
  exact ⟨out, hout, rfl⟩

/-- The entry of a thread that comes back agrees with the schedule: its
interval is closed and added to the counter. -/
theorem Invariant.entry_incoming {cpu : Cpu} {input : SchedSwitchInput}
    (hinv : Invariant ro threads task s)
    (hallowed : SwitchAllowed threads s.machine cpu task input)
    (hne : input.prevPid ≠ input.nextPid) {state : SchedState}
    (hstate : (observe ro threads task s (.switch cpu task input)).entry
      threads task = some state) :
    EntryAgrees ro threads task
      (observe ro threads task s (.switch cpu task input)) state := by
  have hoff : ¬s.OnCpu task := fun ⟨other, hother⟩ => hallowed.idle other hother
  have hon : (observe ro threads task s (.switch cpu task input)).OnCpu task :=
    ⟨cpu, Function.update_self ..⟩
  have hentry : (observe ro threads task s (.switch cpu task input)).entry
      threads task = incomingState ro input (s.entry threads task) := by
    have hlookup := lookup_tpSchedSwitch_next ro input s.machine.maps hne
    rw [hallowed.nextPid] at hlookup
    exact hlookup
  rw [hentry, incomingState, Option.map_eq_some_iff] at hstate
  obtain ⟨old, hold, rfl⟩ := hstate
  have hagrees := hinv.entry old hold
  obtain ⟨hpositive, hout⟩ := hagrees.waiting hoff
  rw [if_pos ⟨hallowed.nextPid ▸ hagrees.filtered, hpositive⟩]
  refine ⟨hagrees.filtered, fun _ => rfl, fun h => absurd hon h, ?_⟩
  have hle : old.switchOutNs ≤ input.inNs :=
    UInt64.le_trans (hinv.history.lastOutPast _ hout)
      (UInt64.le_trans hallowed.outClock hallowed.inClock)
  have htotal := totalLength_append_singleton s.sinceEntry
    ⟨old.switchOutNs, input.inNs⟩ hle
  simp [observe, hold, completed_incoming, hout, htotal, closeInterval,
    hagrees.accumulated]

/-- The slice submitted for a thread that comes back reports its interval. -/
theorem Invariant.reported_incoming {cpu : Cpu} {input : SchedSwitchInput}
    (hinv : Invariant ro threads task s)
    (hallowed : SwitchAllowed threads s.machine cpu task input)
    (hne : input.prevPid ≠ input.nextPid) :
    ReportsSome ro
      ((observe ro threads task s (.switch cpu task input)).slices threads task)
      (s.intervals ++
        (s.lastOut.map fun out => (⟨out, input.inNs⟩ : Interval)).toList) := by
  rw [slices_observe]
  apply hinv.reported.append
  cases hrecord : (Call.schedSwitch input).record ro s.machine.maps with
  | none => simpa [Step.call, hrecord] using reportsSome_nil ro _
  | some e =>
      obtain ⟨out, hout, hreports⟩ := hinv.reports_open hallowed hne hrecord
      have hrecord : (Step.switch cpu task input).call.record ro
          s.machine.maps = some e := hrecord
      rw [hout, hrecord, Option.toList_some, List.filter_cons,
        List.filter_nil]
      split
      · exact ⟨_, List.Sublist.refl _, .cons hreports .nil⟩
      · exact reportsSome_nil ro _

/-- The switch that puts the thread on a CPU. -/
theorem Invariant.incoming {cpu : Cpu} {input : SchedSwitchInput}
    (hinv : Invariant ro threads task s)
    (hallowed : SwitchAllowed threads s.machine cpu task input) :
    Invariant ro threads task
      (observe ro threads task s (.switch cpu task input)) := by
  have hne := hinv.prevPid_ne hallowed
  have hclock : s.machine.clock ≤ input.inNs :=
    UInt64.le_trans hallowed.outClock hallowed.inClock
  have hoff : ¬s.OnCpu task := fun ⟨other, hother⟩ => hallowed.idle other hother
  have hlast : (observe ro threads task s (.switch cpu task input)).lastOut =
      s.lastOut := by
    simp [observe, Observed.nextOut, hallowed.idle cpu]
  have hintervals : (observe ro threads task s
      (.switch cpu task input)).intervals =
        s.intervals ++
          (s.lastOut.map fun out => (⟨out, input.inNs⟩ : Interval)).toList := by
    simp [observe, completed_incoming]
  refine ⟨injective_switch hinv.injective hallowed.idle,
    hinv.unique_switch fun _ => rfl,
    fun state => hinv.entry_incoming hallowed hne, ⟨?_, ?_, ?_, ?_⟩, ?_⟩
  · rw [hintervals, List.pairwise_append]
    refine ⟨hinv.history.ordered, ?_, ?_⟩
    · cases s.lastOut <;> simp
    · intro earlier hearlier later hlater
      obtain ⟨out, hout, rfl⟩ := mem_completed hlater
      exact hinv.history.lastOutAfter hoff out hout earlier hearlier
  · rw [hintervals]
    intro interval hmem
    rcases List.mem_append.mp hmem with hmem | hmem
    · exact UInt64.le_trans (hinv.history.past interval hmem) hclock
    · obtain ⟨out, -, rfl⟩ := mem_completed hmem
      exact UInt64.le_refl _
  · rw [hlast]
    intro out hout
    exact UInt64.le_trans (hinv.history.lastOutPast out hout) hclock
  · exact fun h => absurd ⟨cpu, Function.update_self ..⟩ h
  · rw [hintervals]
    exact hinv.reported_incoming hallowed hne

theorem Invariant.step {step : Step Task Cpu}
    (hinv : Invariant ro threads task s)
    (hallowed : Allowed ro threads s.machine step)
    (hspares : Spares threads task step) :
    Invariant ro threads task (observe ro threads task s step) := by
  have hclock := clock_le_exec hallowed
  cases step with
  | sysEnter cpu context input =>
      refine hinv.frame hclock hinv.injective hinv.unique Iff.rfl rfl rfl ?_
        (slices_observe_of_evType (by simp [Step.call, Call.evType]))
      intro state hstate
      simpa [Observed.entry, observe, exec, Step.call, Call.handle] using hstate
  | sysExit cpu context input =>
      refine hinv.frame hclock hinv.injective hinv.unique Iff.rfl rfl rfl ?_
        (slices_observe_of_evType (by simp [Step.call, Call.evType]))
      intro state hstate
      simpa [Observed.entry, observe, exec, Step.call, Call.handle] using hstate
  | switch cpu next input =>
      by_cases hprev : s.machine.current cpu = task
      · exact hinv.outgoing hallowed hspares hprev
      · by_cases hnext : next = task
        · subst hnext
          exact hinv.incoming hallowed
        · exact hinv.bystander hallowed hspares hprev hnext
  | processExec cpu context input =>
      refine hinv.frame hclock hinv.injective hinv.unique Iff.rfl rfl rfl ?_
        (slices_observe_of_evType (by simp [Step.call, Call.evType]))
      intro state hstate
      simpa [Observed.entry, observe, exec, Step.call, Call.handle] using hstate
  | processExit cpu context input =>
      refine hinv.frame hclock hinv.injective hinv.unique Iff.rfl rfl rfl ?_
        (slices_observe_of_evType (by simp [Step.call, Call.evType]))
      intro state hstate
      simp only [Observed.entry, observe, exec, Step.call, Call.handle,
        tpSchedProcessExit_schedStates] at hstate
      exact KeyedFold.lookup_of_lookup_erase hstate

/-! ## Every schedule -/

omit [DecidableEq Task] [DecidableEq Cpu] in
theorem invariant_initial {machine : Machine Task Cpu}
    (hmaps : machine.maps = Maps.empty)
    (hinjective : Function.Injective machine.current)
    (hunique : ∀ cpu, threads.tid (machine.current cpu) = threads.tid task →
      machine.current cpu = task) :
    Invariant ro threads task (Observed.initial machine) where
  injective := hinjective
  unique := hunique
  entry := by simp [Observed.entry, Observed.initial, hmaps, Maps.empty]
  history := by constructor <;> simp [Observed.initial]
  reported := by
    simpa [Observed.slices, Observed.initial, hmaps, Maps.empty] using
      reportsSome_nil ro []

omit [DecidableEq Task] [DecidableEq Cpu] in
/-- A slice submitted for the thread comes from the switch that brings it back,
and reports the interval since its most recent switch-out. -/
theorem Invariant.reports {step : Step Task Cpu}
    (hinv : Invariant ro threads task s)
    (hallowed : Allowed ro threads s.machine step)
    (hspares : Spares threads task step) {e : WireEvent}
    (hrecord : step.call.record ro s.machine.maps = some e)
    (htype : e.type = EvType.offcpuSlice.code)
    (htid : e.tid = threads.tid task) :
    ∃ cpu input out, step = .switch cpu task input ∧
      s.lastOut = some out ∧ Reports ro e ⟨out, input.inNs⟩ := by
  have htype : step.call.evType = .offcpuSlice :=
    EvType.code_injective (record_type hrecord ▸ htype)
  cases step with
  | switch cpu next input =>
      have hpid : e.tid = input.nextPid := by
        obtain ⟨state, slot, -, -, -, -, rfl⟩ := record_schedSwitch.mp hrecord
        rfl
      have hallowed : SwitchAllowed threads s.machine cpu next input := hallowed
      obtain rfl : next = task :=
        hspares (hallowed.nextPid ▸ hpid ▸ htid)
      obtain ⟨out, hout, hreports⟩ :=
        hinv.reports_open hallowed (hinv.prevPid_ne hallowed) hrecord
      exact ⟨cpu, input, out, rfl, hout, hreports⟩
  | sysEnter cpu context input => cases htype
  | sysExit cpu context input => cases htype
  | processExec cpu context input => cases htype
  | processExit cpu context input => cases htype

/-- What the ring buffer and `sched_states` say about the thread. -/
structure SlicesExact (ro : Rodata) (threads : Threads Task) (task : Task)
    (s : Observed Task Cpu) : Prop where
  /-- the slices report completed intervals, each at most once -/
  reported : ReportsSome ro (s.slices threads task) s.intervals
  /-- the reported intervals overlap at most in their endpoints -/
  disjoint : (s.slices threads task).Pairwise fun earlier later =>
    earlier.timestampNs.toNat + later.durationNs.toNat ≤
      later.timestampNs.toNat
  flag : ∀ state, s.entry threads task = some state →
    (state.switchOutNs ≠ 0 ↔ ¬s.OnCpu task)
  accumulated : ∀ state, s.entry threads task = some state →
    state.accumulatedOffcpuNs = totalLength s.sinceEntry

omit [DecidableEq Task] [DecidableEq Cpu] in
theorem Invariant.slicesExact (hinv : Invariant ro threads task s) :
    SlicesExact ro threads task s where
  reported := hinv.reported
  disjoint := hinv.reported.disjoint hinv.history.ordered
  flag := by
    intro state hstate
    have hagrees := hinv.entry state hstate
    constructor
    · exact fun hopen hon => hopen (hagrees.running hon)
    · intro hoff hzero
      have hpositive := (hagrees.waiting hoff).1
      rw [hzero] at hpositive
      exact absurd hpositive (by decide)
  accumulated := fun state hstate => (hinv.entry state hstate).accumulated

/-- Off-CPU slices are exact on every schedule: for a thread whose tid is not
reused, each slice is submitted when the thread comes back and carries the time
since its most recent switch-out, no interval is reported twice, reported
intervals are disjoint, and the thread's `sched_states` entry shows whether it
is off-CPU and how long it has been off-CPU since the entry was created. -/
theorem offcpu_slices_exact (ro : Rodata) (threads : Threads Task)
    (task : Task) (machine : Machine Task Cpu) (steps : List (Step Task Cpu))
    (hmaps : machine.maps = Maps.empty)
    (hinjective : Function.Injective machine.current)
    (hunique : ∀ cpu, threads.tid (machine.current cpu) = threads.tid task →
      machine.current cpu = task)
    (hspares : ∀ step ∈ steps, Spares threads task step)
    (hrun : Along (observe ro threads task)
      (fun s => Allowed ro threads s.machine) (Observed.initial machine)
      steps) :
    Always (observe ro threads task) (SlicesExact ro threads task)
      (Observed.initial machine) steps ∧
    Along (observe ro threads task)
      (fun s step => ∀ e, step.call.record ro s.machine.maps = some e →
        e.type = EvType.offcpuSlice.code → e.tid = threads.tid task →
          ∃ cpu input out, step = .switch cpu task input ∧
            s.lastOut = some out ∧ Reports ro e ⟨out, input.inNs⟩)
      (Observed.initial machine) steps := by
  have hstart : Invariant ro threads task (Observed.initial machine) :=
    invariant_initial hmaps hinjective hunique
  have hrun := hrun.and (along_of_forall_mem hspares _)
  have hstep : ∀ (s : Observed Task Cpu) step,
      Invariant ro threads task s →
        Allowed ro threads s.machine step ∧ Spares threads task step →
          Invariant ro threads task (observe ro threads task s step) :=
    fun s step hinv hboth => hinv.step hboth.1 hboth.2
  constructor
  · exact (always_of_invariant (Invariant ro threads task) hstep hstart
      hrun).imp fun s hinv => hinv.slicesExact
  · exact along_of_invariant (Invariant ro threads task) hstep
      (fun s step hinv hboth e hrecord htype htid =>
        hinv.reports hboth.1 hboth.2 hrecord htype htid) hstart hrun

/-- A worker is off the only CPU for two milliseconds and is reported. -/
theorem offcpu_slices_exact_worker :
    let ro := Rodata.default
    let threads : Threads Bool := ⟨fun _ => 7, fun task => cond task 7 0⟩
    let machine : Machine Bool Unit := ⟨Maps.empty, fun _ => true, 0⟩
    let comm := Vector.replicate 16 0
    let leave : SchedSwitchInput :=
      ⟨7, 0, 1, comm, 0, 100, 110, true, none⟩
    let back : SchedSwitchInput :=
      ⟨0, 7, 0, comm, 0, 2000100, 2000110, true, some WireEvent.zero⟩
    let s := observe ro threads true (Observed.initial machine)
      (.switch () false leave)
    ∃ e, (Call.schedSwitch back).record ro s.machine.maps = some e ∧
      Reports ro e ⟨100, 2000110⟩ := by
  intro ro threads machine comm leave back s
  have hrun : Along (observe ro threads true)
      (fun s => Allowed ro threads s.machine) (Observed.initial machine)
      [.switch () false leave, .switch () true back] := by
    refine ⟨⟨?_, ?_, ?_, ?_, ?_, ?_, ?_⟩, ⟨?_, ?_, ?_, ?_, ?_, ?_, ?_⟩,
      trivial⟩ <;> decide
  have hexact := (offcpu_slices_exact ro threads true machine _ rfl
    (fun _ _ _ => rfl) (fun _ _ => rfl) (by simp [Spares, threads]) hrun).2
  obtain ⟨-, hback, -⟩ := hexact
  have hsome : ((Call.schedSwitch back).record ro s.machine.maps).isSome := by
    decide
  obtain ⟨e, hrecord⟩ := Option.isSome_iff_exists.mp hsome
  obtain ⟨state, slot, -, -, -, -, htid⟩ := record_schedSwitch.mp hrecord
  obtain ⟨cpu, input, out, hstep, hout, hreports⟩ :=
    hback e hrecord (record_type hrecord) (htid ▸ rfl)
  cases hstep
  cases hout
  exact ⟨e, hrecord, hreports⟩

end Invariant

end KernelScope.OffcpuSlices
