import KernelScope.Bpf.Schedule
import KernelScope.Core.EventDecoder
import KernelScope.Core.ThreadPartition
import Mathlib.Data.Fintype.Basic

/-!
# The identity events carry

Programs that run in a task's context stamp its thread-group id and thread id;
`tp_sched_switch` stamps the incoming thread's tid into both fields.  The run is
traced with the thread each record was submitted for, so that the ids a record
carries can be compared with the ids of its thread, and the aggregator's entries
with the times of the threads they stand for.
-/

namespace KernelScope.ThreadIdentity

open KernelScope.Aggregation
open KernelScope.EventDecoder
open KernelScope.Events
open KernelScope.Filters
open KernelScope.Handlers
open KernelScope.KeyedFold
open KernelScope.Schedule
open KernelScope.StepRun
open KernelScope.ThreadPartition
open KernelScope.WireFormat

/-- A machine with two traces: the submitted records with the threads they were
submitted for, and each thread's most recent switch-out if it was stored. -/
structure Traced (Task Cpu : Type*) where
  machine : Machine Task Cpu
  owned : List (Task × WireEvent)
  stored : Task → Option UInt64

section Tracing

variable {Task Cpu : Type*}

def Traced.initial (machine : Machine Task Cpu) : Traced Task Cpu where
  machine := machine
  owned := []
  stored := fun _ => none

/-- The thread on whose behalf the step's program runs. -/
def Traced.owner (s : Traced Task Cpu) : Step Task Cpu → Task
  | .sysEnter cpu _ _ => s.machine.current cpu
  | .sysExit cpu _ _ => s.machine.current cpu
  | .switch _ next _ => next
  | .processExec cpu _ _ => s.machine.current cpu
  | .processExit cpu _ _ => s.machine.current cpu

def Traced.nextStored [DecidableEq Task] (ro : Rodata) (s : Traced Task Cpu) :
    Step Task Cpu → Task → Option UInt64
  | .switch cpu _ input =>
      Function.update s.stored (s.machine.current cpu)
        (if filterPid ro input.prevPid ∧ input.updateOk then some input.outNs
          else none)
  | _ => s.stored

def trace [DecidableEq Task] [DecidableEq Cpu] (ro : Rodata)
    (s : Traced Task Cpu) (step : Step Task Cpu) : Traced Task Cpu where
  machine := Schedule.exec ro s.machine step
  owned := s.owned ++
    ((step.call.record ro s.machine.maps).map fun e => (s.owner step, e)).toList
  stored := s.nextStored ro step

/-- A switch is between threads with different tids. -/
def Separate (threads : Threads Task) (machine : Machine Task Cpu) :
    Step Task Cpu → Prop
  | .switch cpu next _ => threads.tid (machine.current cpu) ≠ threads.tid next
  | _ => True

instance (threads : Threads Task) (machine : Machine Task Cpu) :
    ∀ step, Decidable (Separate threads machine step)
  | .switch _ _ _ => inferInstanceAs (Decidable (_ ≠ _))
  | .sysEnter _ _ _ => inferInstanceAs (Decidable True)
  | .sysExit _ _ _ => inferInstanceAs (Decidable True)
  | .processExec _ _ _ => inferInstanceAs (Decidable True)
  | .processExit _ _ _ => inferInstanceAs (Decidable True)

/-- The records as the collector decodes them, with their threads. -/
def Traced.delivered (s : Traced Task Cpu) : List (Task × Event) :=
  s.owned.filterMap fun owned =>
    (decodeEvent (wireLayout.encode owned.2)).map fun ev => (owned.1, ev)

/-- The time an event adds to the system call and to the off-CPU total. -/
def times (ev : Event) : UInt64 × UInt64 :=
  (syscallWeight ev, offcpuWeight ev)

/-- The two totals of an entry. -/
def totals (stats : TaskStats) : UInt64 × UInt64 :=
  (stats.totalSyscallNs, stats.totalOffcpuNs)

/-- One identity per thread: every record carries the ids of its thread, and
the aggregator's entries hold exactly the times of the threads they name. -/
structure OneIdentity (threads : Threads Task) (s : Traced Task Cpu) :
    Prop where
  ids : ∀ owned ∈ s.owned, owned.2.pid = threads.tgid owned.1 ∧
    owned.2.tid = threads.tid owned.1
  procs : ∀ pid,
    fieldAt (fun p : ProcessStats => totals p.toTaskStats)
        (feed (s.delivered.map Prod.snd)).procs pid =
      weigh (fun owned => times owned.2) (s.delivered.filter fun owned =>
        isTimed owned.2 ∧ threads.tgid owned.1 = pid)
  threads : ∀ pid tid,
    fieldAt (fun t : ThreadStats => totals t.toTaskStats)
        (feed (s.delivered.map Prod.snd)).threads (threadKey pid tid) =
      weigh (fun owned => times owned.2) (s.delivered.filter fun owned =>
        isTimed owned.2 ∧ threads.tgid owned.1 = pid ∧
          threads.tid owned.1 = tid)

/-- The incoming thread is due a slice: its entry shows an open interval that
is long enough, and a slot can be reserved. -/
def SliceDue (ro : Rodata) (maps : Maps) (input : SchedSwitchInput) : Prop :=
  filterPid ro input.nextPid = true ∧ input.slot.isSome ∧
    ∃ state, maps.schedStates.lookup (schedKey input.nextPid) = some state ∧
      0 < state.switchOutNs ∧
      ro.minOffcpuNs ≤ input.inNs - state.switchOutNs

/-- A switch that is due a slice brings in a thread-group leader. -/
def LeaderSlice (ro : Rodata) (threads : Threads Task)
    (s : Traced Task Cpu) : Step Task Cpu → Prop
  | .switch _ next input =>
      SliceDue ro s.machine.maps input → threads.tid next = threads.tgid next
  | _ => True

end Tracing

/-! ## Entries follow the ids -/

section Identity

variable {Task Cpu : Type*} {ro : Rodata} {threads : Threads Task}
  {s : Traced Task Cpu}

theorem delivered_eq (s : Traced Task Cpu) :
    s.delivered = s.owned.map fun owned => (owned.1, fromWire owned.2) := by
  simp [Traced.delivered]

theorem totals_add (ev : Event) (stats : TaskStats) :
    totals (stats.add ev) = totals stats + times ev := by
  simp [totals, times, add_totalSyscallNs, add_totalOffcpuNs]

/-- Grouping the delivered events by what they carry is grouping them by their
threads, once both agree. -/
theorem weigh_group_delivered {K : Type*} [DecidableEq K] (keyOf : Event → K)
    (key : K) (keep : Task × Event → Bool)
    (hkeep : ∀ owned ∈ s.delivered, keep owned =
      decide (isTimed owned.2 = true ∧ keyOf owned.2 = key)) :
    weigh times (group keyOf key ((s.delivered.map Prod.snd).filter isTimed)) =
      weigh (fun owned => times owned.2) (s.delivered.filter keep) := by
  rw [List.filter_congr hkeep, group, List.filter_filter, weigh, weigh,
    List.filter_map, List.map_map]
  congr 2
  apply List.filter_congr
  intro owned _
  simp [Bool.and_comm]

/-- Once the records carry their threads' ids, the aggregator's entries hold
the threads' times. -/
theorem oneIdentity_of_ids
    (hids : ∀ owned ∈ s.owned, owned.2.pid = threads.tgid owned.1 ∧
      owned.2.tid = threads.tid owned.1) : OneIdentity threads s := by
  have hdelivered : ∀ owned ∈ s.delivered,
      owned.2.pid = threads.tgid owned.1 ∧
        owned.2.tid = threads.tid owned.1 := by
    intro owned howned
    rw [delivered_eq, List.mem_map] at howned
    obtain ⟨original, horiginal, rfl⟩ := howned
    exact hids original horiginal
  refine ⟨hids, ?_, ?_⟩
  · intro pid
    rw [feed_procs, fieldAt_collect
      (fun p : ProcessStats => totals p.toTaskStats) rfl
      (fun ev p => totals_add ev p.toTaskStats)]
    apply weigh_group_delivered
    intro owned howned
    rw [(hdelivered owned howned).1]
  · intro pid tid
    rw [feed_threads, fieldAt_collect
      (fun t : ThreadStats => totals t.toTaskStats) rfl
      (fun ev t => totals_add ev t.toTaskStats)]
    apply weigh_group_delivered
    intro owned howned
    obtain ⟨hpid, htid⟩ := hdelivered owned howned
    simp only [threadKeyOf, hpid, htid, threadKey_inj]

/-! ## What each step submits -/

/-- A switch submits a slice exactly when one is due. -/
theorem record_isSome_iff {maps : Maps} {input : SchedSwitchInput}
    (hne : input.prevPid ≠ input.nextPid) :
    ((Call.schedSwitch input).record ro maps).isSome ↔
      SliceDue ro maps input := by
  have hkey : schedKey input.nextPid ≠ schedKey input.prevPid :=
    fun heq => hne (schedKey_injective heq).symm
  simp only [Option.isSome_iff_exists, record_schedSwitch, SliceDue,
    lookup_switchOut_of_ne ro input maps hkey]
  constructor
  · rintro ⟨e, state, slot, hfilter, hstate, ⟨hopen, hlong⟩, hslot, -⟩
    exact ⟨hfilter, ⟨slot, hslot⟩, state, hstate, hopen, hlong⟩
  · rintro ⟨hfilter, ⟨slot, hslot⟩, state, hstate, hopen, hlong⟩
    exact ⟨_, state, slot, hfilter, hstate, ⟨hopen, hlong⟩, hslot, rfl⟩

/-- A slice carries the incoming thread's tid in both id fields. -/
theorem record_switch_ids {maps : Maps} {input : SchedSwitchInput}
    {e : WireEvent}
    (hrecord : (Call.schedSwitch input).record ro maps = some e) :
    e.pid = input.nextPid ∧ e.tid = input.nextPid := by
  obtain ⟨state, slot, -, -, -, -, rfl⟩ := record_schedSwitch.mp hrecord
  exact ⟨rfl, rfl⟩

/-- In the context of its task a program stamps the task's own ids. -/
theorem record_ids_of_runsAs {call : Call} {task : Task}
    {context : TaskContext} {maps : Maps} {e : WireEvent}
    (hruns : RunsAs ro threads task context)
    (hcontext : call.context = some context)
    (hrecord : call.record ro maps = some e) :
    e.pid = threads.tgid task ∧ e.tid = threads.tid task := by
  have hids := record_ids hcontext hrecord
  rw [hruns.getNsPidTgid, Prod.mk.injEq] at hids
  exact hids

theorem prevPid_ne_nextPid {machine : Machine Task Cpu} {cpu : Cpu}
    {next : Task} {input : SchedSwitchInput}
    (hallowed : SwitchAllowed threads machine cpu next input)
    (hseparate : Separate threads machine (.switch cpu next input)) :
    input.prevPid ≠ input.nextPid := by
  rw [hallowed.prevPid, hallowed.nextPid]
  exact hseparate

/-- A record carries its thread's ids, unless it is a slice of a thread that
does not lead its group. -/
theorem record_owner_ids {step : Step Task Cpu} {e : WireEvent}
    (hallowed : Allowed ro threads s.machine step)
    (hseparate : Separate threads s.machine step)
    (hleader : LeaderSlice ro threads s step)
    (hrecord : step.call.record ro s.machine.maps = some e) :
    e.pid = threads.tgid (s.owner step) ∧
      e.tid = threads.tid (s.owner step) := by
  cases step with
  | sysEnter cpu context input =>
      exact record_ids_of_runsAs hallowed.1 rfl hrecord
  | sysExit cpu context input =>
      exact record_ids_of_runsAs hallowed.1 rfl hrecord
  | switch cpu next input =>
      have hallowed : SwitchAllowed threads s.machine cpu next input := hallowed
      have hne := prevPid_ne_nextPid hallowed hseparate
      have hdue : SliceDue ro s.machine.maps input := by
        apply (record_isSome_iff hne).mp
        exact Option.isSome_of_mem hrecord
      obtain ⟨hpid, htid⟩ := record_switch_ids hrecord
      rw [hallowed.nextPid] at hpid htid
      exact ⟨hpid.trans (hleader hdue), htid⟩
  | processExec cpu context input =>
      exact record_ids_of_runsAs hallowed.1 rfl hrecord
  | processExit cpu context input =>
      exact record_ids_of_runsAs hallowed.1 rfl hrecord

end Identity

/-! ## Stored switch-outs -/

section Stored

variable {Task Cpu : Type*}

/-- No other thread has this thread's tid. -/
def Unshared (threads : Threads Task) (task : Task) : Prop :=
  ∀ other, threads.tid other = threads.tid task → other = task

/-- The thread waits behind a stored switch-out at time `out`. -/
structure Waits (ro : Rodata) (threads : Threads Task)
    (machine : Machine Task Cpu) (task : Task) (out : UInt64) : Prop where
  filtered : filterPid ro (threads.tid task) = true
  positive : 0 < out
  past : out ≤ machine.clock
  entry : ∃ state,
    machine.maps.schedStates.lookup (schedKey (threads.tid task)) =
      some state ∧ state.switchOutNs = out

/-- Off-CPU threads with a stored switch-out have it in their entry. -/
structure StoredInvariant (ro : Rodata) (threads : Threads Task)
    (s : Traced Task Cpu) : Prop where
  injective : Function.Injective s.machine.current
  waits : ∀ task, Unshared threads task →
    (∀ cpu, s.machine.current cpu ≠ task) →
      ∀ out, s.stored task = some out → Waits ro threads s.machine task out

/-- A long enough interval behind a stored switch-out is reported when the
thread comes back and a slot is reserved. -/
def StoredReported (ro : Rodata) (threads : Threads Task)
    (s : Traced Task Cpu) : Step Task Cpu → Prop
  | .switch _ next input =>
      Unshared threads next → ∀ out, s.stored next = some out →
        ro.minOffcpuNs.toNat ≤ input.inNs.toNat - out.toNat →
          input.slot.isSome →
            ((Call.schedSwitch input).record ro s.machine.maps).isSome
  | _ => True

variable [DecidableEq Task] [DecidableEq Cpu] {ro : Rodata}
  {threads : Threads Task} {s : Traced Task Cpu}

omit [DecidableEq Task] [DecidableEq Cpu] in
theorem StoredInvariant.reported {step : Step Task Cpu}
    (hinv : StoredInvariant ro threads s)
    (hallowed : Allowed ro threads s.machine step)
    (hseparate : Separate threads s.machine step) :
    StoredReported ro threads s step := by
  cases step with
  | switch cpu next input =>
      intro hunshared out hout hlong hslot
      have hallowed : SwitchAllowed threads s.machine cpu next input := hallowed
      have hne := prevPid_ne_nextPid hallowed hseparate
      obtain ⟨hfilter, hpositive, hpast, state, hstate, rfl⟩ :=
        hinv.waits next hunshared hallowed.idle out hout
      have hle : state.switchOutNs ≤ input.inNs :=
        UInt64.le_trans hpast
          (UInt64.le_trans hallowed.outClock hallowed.inClock)
      apply (record_isSome_iff hne).mpr
      refine ⟨?_, hslot, state, ?_, hpositive, ?_⟩
      · rw [hallowed.nextPid]
        exact hfilter
      · rw [hallowed.nextPid]
        exact hstate
      · rw [UInt64.le_iff_toNat_le, UInt64.toNat_sub_of_le _ _ hle]
        exact hlong
  | _ => trivial

/-- Steps that switch no thread and leave the entries of the waiting threads
alone. -/
theorem StoredInvariant.frame {step : Step Task Cpu}
    (hinv : StoredInvariant ro threads s)
    (hclock : s.machine.clock ≤ step.clock)
    (hcurrent : step.current s.machine.current = s.machine.current)
    (hstored : s.nextStored ro step = s.stored)
    (hentry : ∀ task, Unshared threads task →
      (∀ cpu, s.machine.current cpu ≠ task) →
        (step.call.handle ro s.machine.maps).schedStates.lookup
            (schedKey (threads.tid task)) =
          s.machine.maps.schedStates.lookup (schedKey (threads.tid task))) :
    StoredInvariant ro threads (trace ro s step) := by
  refine ⟨?_, ?_⟩
  · simpa [trace, Schedule.exec, hcurrent] using hinv.injective
  · intro task hunshared hoff out hout
    have hoff : ∀ cpu, s.machine.current cpu ≠ task := by
      simpa [trace, Schedule.exec, hcurrent] using hoff
    have hout : s.stored task = some out := by
      simpa [trace, hstored] using hout
    obtain ⟨hfilter, hpositive, hpast, hstate⟩ :=
      hinv.waits task hunshared hoff out hout
    refine ⟨hfilter, hpositive, UInt64.le_trans hpast hclock, ?_⟩
    rw [← hentry task hunshared hoff] at hstate
    exact hstate

theorem StoredInvariant.switch {cpu : Cpu} {next : Task}
    {input : SchedSwitchInput} (hinv : StoredInvariant ro threads s)
    (hallowed : SwitchAllowed threads s.machine cpu next input) :
    StoredInvariant ro threads (trace ro s (.switch cpu next input)) := by
  refine ⟨injective_switch hinv.injective hallowed.idle, ?_⟩
  intro task hunshared hoff out hout
  have hnext : next ≠ task := by
    intro heq
    exact hoff cpu (by simp [trace, Schedule.exec, Step.current, heq])
  have hnextKey :
      schedKey (threads.tid task) ≠ schedKey input.nextPid := by
    rw [hallowed.nextPid]
    exact fun heq => hnext (hunshared next (schedKey_injective heq).symm)
  by_cases hprev : s.machine.current cpu = task
  · subst hprev
    have hout : (if filterPid ro input.prevPid ∧ input.updateOk then
        some input.outNs else none) = some out := by
      simpa [trace, Traced.nextStored] using hout
    split at hout
    next hcond =>
      cases hout
      refine ⟨?_, hallowed.positive, hallowed.inClock, ?_⟩
      · rw [← hallowed.prevPid]
        exact hcond.1
      · refine ⟨outgoingState input (s.machine.maps.schedStates.lookup
          (schedKey input.prevPid)), ?_, rfl⟩
        rw [← hallowed.prevPid] at hnextKey ⊢
        have hlookup := lookup_tpSchedSwitch_prev ro input s.machine.maps
          (fun heq => hnextKey (congrArg schedKey heq))
        rw [if_pos hcond] at hlookup
        exact hlookup
    next => cases hout
  · have hprevKey :
        schedKey (threads.tid task) ≠ schedKey input.prevPid := by
      rw [hallowed.prevPid]
      exact fun heq => hprev (hunshared _ (schedKey_injective heq).symm)
    have hout : s.stored task = some out := by
      simpa [trace, Traced.nextStored, Ne.symm hprev] using hout
    have hoff : ∀ other, s.machine.current other ≠ task := by
      intro other hother
      have hne : other ≠ cpu := fun heq => hprev (heq ▸ hother)
      apply hoff other
      simp [trace, Schedule.exec, Step.current, hne, hother]
    obtain ⟨hfilter, hpositive, hpast, hstate⟩ :=
      hinv.waits task hunshared hoff out hout
    refine ⟨hfilter, hpositive, ?_, ?_⟩
    · exact UInt64.le_trans hpast
        (UInt64.le_trans hallowed.outClock hallowed.inClock)
    · rw [← lookup_tpSchedSwitch_of_ne ro input s.machine.maps hprevKey
        hnextKey] at hstate
      exact hstate

theorem StoredInvariant.step {step : Step Task Cpu}
    (hinv : StoredInvariant ro threads s)
    (hallowed : Allowed ro threads s.machine step) :
    StoredInvariant ro threads (trace ro s step) := by
  have hclock := clock_le_exec hallowed
  cases step with
  | sysEnter cpu context input =>
      apply hinv.frame hclock rfl rfl
      intro task _ _
      simp [Step.call, Call.handle]
  | sysExit cpu context input =>
      apply hinv.frame hclock rfl rfl
      intro task _ _
      simp [Step.call, Call.handle]
  | switch cpu next input => exact hinv.switch hallowed
  | processExec cpu context input =>
      apply hinv.frame hclock rfl rfl
      intro task _ _
      simp [Step.call, Call.handle]
  | processExit cpu context input =>
      apply hinv.frame hclock rfl rfl
      intro task hunshared hoff
      -- the exiting thread runs, so the deleted entry is not a waiting one's
      have hkey : schedKey (threads.tid task) ≠ fillTaskKey ro context := by
        rw [hallowed.1.fillTaskKey]
        intro heq
        have htid : threads.tid task = threads.tid (s.machine.current cpu) :=
          congrArg TaskKey.tid heq
        exact hoff cpu (hunshared _ htid.symm)
      simp only [Step.call, Call.handle, tpSchedProcessExit_schedStates]
      exact Finmap.lookup_erase_ne hkey

end Stored

/-! ## Every run -/

section Runs

variable {Task Cpu : Type*} [DecidableEq Task] [DecidableEq Cpu]

/-- The next state's records are the old ones and the step's own. -/
theorem mem_owned_trace {ro : Rodata} {s : Traced Task Cpu}
    {step : Step Task Cpu} {owned : Task × WireEvent} :
    owned ∈ (trace ro s step).owned ↔
      owned ∈ s.owned ∨ owned.1 = s.owner step ∧
        step.call.record ro s.machine.maps = some owned.2 := by
  simp only [trace, List.mem_append, Option.mem_toList,
    Option.map_eq_some_iff]
  constructor
  · rintro (hold | ⟨e, hrecord, rfl⟩)
    · exact .inl hold
    · exact .inr ⟨rfl, hrecord⟩
  · rintro (hold | ⟨howner, hrecord⟩)
    · exact .inl hold
    · exact .inr ⟨owned.2, hrecord, Prod.ext howner.symm rfl⟩

/-- In the initial pid namespace a run keeps one identity per thread exactly
when every switch that is due a slice brings in a thread-group leader; and in
any run, an interval behind a stored switch-out is reported when it is long
enough and a slot is reserved. -/
theorem oneIdentity_iff_leaderSlice (ro : Rodata) (threads : Threads Task)
    (machine : Machine Task Cpu) (steps : List (Step Task Cpu))
    (hinjective : Function.Injective machine.current)
    (hrun : Along (trace ro) (fun s step => Allowed ro threads s.machine step ∧
      Separate threads s.machine step) (Traced.initial machine) steps) :
    (Always (trace ro) (OneIdentity threads) (Traced.initial machine) steps ↔
      Along (trace ro) (LeaderSlice ro threads) (Traced.initial machine)
        steps) ∧
    Along (trace ro) (StoredReported ro threads) (Traced.initial machine)
      steps := by
  refine ⟨⟨?_, ?_⟩, ?_⟩
  · intro halways
    refine along_of_always (fun _ => True) (fun _ _ _ _ _ => trivial) ?_
      trivial hrun halways
    rintro s step - ⟨hallowed, hseparate⟩ hidentity
    cases step with
    | switch cpu next input =>
        intro hdue
        have hallowed : SwitchAllowed threads s.machine cpu next input :=
          hallowed
        have hne := prevPid_ne_nextPid hallowed hseparate
        obtain ⟨e, hrecord⟩ :=
          Option.isSome_iff_exists.mp ((record_isSome_iff hne).mpr hdue)
        have hids := hidentity.ids (next, e)
          (mem_owned_trace.mpr (.inr ⟨rfl, hrecord⟩))
        rw [← hids.1, ← hallowed.nextPid]
        exact (record_switch_ids hrecord).1.symm
    | _ => trivial
  · intro hleader
    have hids := always_of_invariant (fun s : Traced Task Cpu =>
        ∀ owned ∈ s.owned, owned.2.pid = threads.tgid owned.1 ∧
          owned.2.tid = threads.tid owned.1) ?_ ?_ (hrun.and hleader)
    · exact hids.imp fun s => oneIdentity_of_ids
    · rintro s step hold ⟨⟨hallowed, hseparate⟩, hleader⟩ owned howned
      rcases mem_owned_trace.mp howned with howned | ⟨howner, hrecord⟩
      · exact hold owned howned
      · rw [howner]
        exact record_owner_ids hallowed hseparate hleader hrecord
    · simp [Traced.initial]
  · refine along_of_invariant (StoredInvariant ro threads) ?_ ?_ ?_ hrun
    · exact fun s step hinv hboth => hinv.step hboth.1
    · exact fun s step hinv hboth => hinv.reported hboth.1 hboth.2
    · exact ⟨hinjective, by simp [Traced.initial]⟩

/-- A single-threaded process keeps one identity while it waits. -/
theorem oneIdentity_leader :
    let ro := Rodata.default
    let threads : Threads Bool :=
      ⟨fun task => cond task 7 0, fun task => cond task 7 0⟩
    let machine : Machine Bool Unit := ⟨Maps.empty, fun _ => true, 0⟩
    let comm := Vector.replicate 16 0
    let steps : List (Step Bool Unit) :=
      [.switch () false ⟨7, 0, 1, comm, 0, 100, 110, true, none⟩,
        .switch () true
          ⟨0, 7, 0, comm, 0, 2000100, 2000110, true, some WireEvent.zero⟩]
    Always (trace ro) (OneIdentity threads) (Traced.initial machine)
      steps := by
  intro ro threads machine comm steps
  have hrun : Along (trace ro) (fun s step =>
      Allowed ro threads s.machine step ∧ Separate threads s.machine step)
      (Traced.initial machine) steps := by
    refine ⟨⟨⟨?_, ?_, ?_, ?_, ?_, ?_, ?_⟩, ?_⟩,
      ⟨⟨?_, ?_, ?_, ?_, ?_, ?_, ?_⟩, ?_⟩, trivial⟩ <;> decide
  apply (oneIdentity_iff_leaderSlice ro threads machine steps
    (fun _ _ _ => rfl) hrun).1.mpr
  exact ⟨fun _ => rfl, fun _ => rfl, trivial⟩

/-- The second thread of process 100 waits two milliseconds: its slice carries
pid 101. -/
theorem second_thread_loses_pid :
    let ro := Rodata.default
    let threads : Threads Bool :=
      ⟨fun task => cond task 100 0, fun task => cond task 101 0⟩
    let machine : Machine Bool Unit := ⟨Maps.empty, fun _ => true, 0⟩
    let comm := Vector.replicate 16 0
    let steps : List (Step Bool Unit) :=
      [.switch () false ⟨101, 0, 1, comm, 0, 100, 110, true, none⟩,
        .switch () true
          ⟨0, 101, 0, comm, 0, 2000100, 2000110, true, some WireEvent.zero⟩]
    Along (trace ro) (fun s step => Allowed ro threads s.machine step ∧
        Separate threads s.machine step) (Traced.initial machine) steps ∧
      ¬Always (trace ro) (OneIdentity threads) (Traced.initial machine)
        steps := by
  intro ro threads machine comm steps
  constructor
  · refine ⟨⟨⟨?_, ?_, ?_, ?_, ?_, ?_, ?_⟩, ?_⟩,
      ⟨⟨?_, ?_, ?_, ?_, ?_, ?_, ?_⟩, ?_⟩, trivial⟩ <;> decide
  · rintro ⟨-, -, hlast⟩
    have hpids : ((run (trace ro) (Traced.initial machine) steps).owned.map
        fun owned => (owned.2.pid, threads.tgid owned.1)) = [(101, 100)] := by
      decide
    have hmem : ((101, 100) : UInt32 × UInt32) ∈
        (run (trace ro) (Traced.initial machine) steps).owned.map
          fun owned => (owned.2.pid, threads.tgid owned.1) := by
      simp [hpids]
    obtain ⟨owned, howned, heq⟩ := List.mem_map.mp hmem
    rw [(hlast.ids owned howned).1, Prod.mk.injEq] at heq
    exact absurd (heq.1.symm.trans heq.2) (by decide)

end Runs

end KernelScope.ThreadIdentity
