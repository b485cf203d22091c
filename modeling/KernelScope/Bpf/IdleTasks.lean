import KernelScope.Bpf.ThreadIdentity

/-!
# The idle tasks

Every CPU has an idle task of its own, and all of them have tid 0, so that
`tp_sched_switch` keeps one `sched_states` entry for all of them.  The entry
holds the switch-out of whichever idle task left its CPU last.  A slice of an
idle task is therefore right exactly when that was the idle task of the same
CPU.
-/

namespace KernelScope.IdleTasks

open KernelScope.Filters
open KernelScope.Handlers
open KernelScope.Schedule
open KernelScope.StepRun
open KernelScope.ThreadIdentity (SliceDue record_isSome_iff)
open KernelScope.WireFormat

variable {Task Cpu : Type*}

/-- One idle task for each CPU; they are the tasks with tid 0. -/
structure OnePerCpu (threads : Threads Task) (idle : Cpu → Task) : Prop where
  injective : Function.Injective idle
  tid_eq_zero : ∀ task, threads.tid task = 0 ↔ ∃ cpu, idle cpu = task

/-- The machine with the history of its idle tasks. -/
structure Watched (Task Cpu : Type*) where
  machine : Machine Task Cpu
  /-- when the idle task of each CPU was last switched out -/
  lastOut : Cpu → UInt64
  /-- the CPU whose idle task was the last one whose switch-out was stored -/
  lastStored : Option Cpu

/-- Before the first step; the idle tasks of busy CPUs were switched out at some
time before. -/
def Watched.initial (current : Cpu → Task) (clock : UInt64)
    (lastOut : Cpu → UInt64) : Watched Task Cpu where
  machine := ⟨Maps.empty, current, clock⟩
  lastOut := lastOut
  lastStored := none

section Watch

variable [DecidableEq Task] [DecidableEq Cpu]

def Watched.nextOut (idle : Cpu → Task) (s : Watched Task Cpu) :
    Step Task Cpu → Cpu → UInt64
  | .switch cpu _ input =>
      if s.machine.current cpu = idle cpu then
        Function.update s.lastOut cpu input.outNs
      else s.lastOut
  | _ => s.lastOut

omit [DecidableEq Cpu] in
def Watched.nextStored (idle : Cpu → Task) (s : Watched Task Cpu) :
    Step Task Cpu → Option Cpu
  | .switch cpu _ input =>
      if s.machine.current cpu = idle cpu ∧ input.updateOk = true then some cpu
      else s.lastStored
  | _ => s.lastStored

def watch (ro : Rodata) (idle : Cpu → Task) (s : Watched Task Cpu)
    (step : Step Task Cpu) : Watched Task Cpu where
  machine := exec ro s.machine step
  lastOut := s.nextOut idle step
  lastStored := s.nextStored idle step

end Watch

/-- A CPU runs no other CPU's idle task. -/
def OwnIdle (idle : Cpu → Task) : Step Task Cpu → Prop
  | .switch cpu next _ => ∀ other, idle other = next → other = cpu
  | _ => True

/-- What the kernel may do next. -/
def MayStep (ro : Rodata) (threads : Threads Task) (idle : Cpu → Task)
    (s : Watched Task Cpu) (step : Step Task Cpu) : Prop :=
  Allowed ro threads s.machine step ∧ OwnIdle idle step

/-- A slice that is submitted when a CPU switches to its idle task lasts from
that idle task's last switch-out. -/
def SliceExact (ro : Rodata) (idle : Cpu → Task) (s : Watched Task Cpu) :
    Step Task Cpu → Prop
  | .switch cpu next input =>
      idle cpu = next → ∀ e,
        (Call.schedSwitch input).record ro s.machine.maps = some e →
          e.durationNs = input.inNs - s.lastOut cpu
  | _ => True

/-- When a switch to an idle task is due a slice, the idle task whose switch-out
was stored last is the CPU's own, or it left at the same reading of the
clock. -/
def OwnSwitchOut (ro : Rodata) (idle : Cpu → Task) (s : Watched Task Cpu) :
    Step Task Cpu → Prop
  | .switch cpu next input =>
      idle cpu = next → SliceDue ro s.machine.maps input →
        ∀ other, s.lastStored = some other →
          other = cpu ∨ s.lastOut other = s.lastOut cpu
  | _ => True

/-! ## The shared entry -/

/-- The entry of the idle tasks shows the last switch-out that was stored. -/
structure Consistent (idle : Cpu → Task) (s : Watched Task Cpu) : Prop where
  own : ∀ cpu other, idle other = s.machine.current cpu → other = cpu
  stored : ∀ state,
    s.machine.maps.schedStates.lookup (schedKey 0) = some state →
      0 < state.switchOutNs →
        ∃ cpu, s.lastStored = some cpu ∧ state.switchOutNs = s.lastOut cpu

section Preservation

variable {ro : Rodata} {threads : Threads Task} {idle : Cpu → Task}
variable {s : Watched Task Cpu}

theorem consistent_initial {current : Cpu → Task} (clock : UInt64)
    (lastOut : Cpu → UInt64)
    (hown : ∀ cpu other, idle other = current cpu → other = cpu) :
    Consistent idle (Watched.initial current clock lastOut) where
  own := hown
  stored state hlookup _ := by cases hlookup

/-- The idle task of a CPU is switched out when the CPU's thread has tid 0. -/
theorem current_eq_idle_iff (hidle : OnePerCpu threads idle)
    (hown : ∀ cpu other, idle other = s.machine.current cpu → other = cpu)
    (cpu : Cpu) :
    s.machine.current cpu = idle cpu ↔ threads.tid (s.machine.current cpu) = 0 := by
  rw [hidle.tid_eq_zero]
  constructor
  · intro hcurrent
    exact ⟨cpu, hcurrent.symm⟩
  · rintro ⟨other, hother⟩
    rw [← hother, hown cpu other hother]

/-- On a switch to an idle task the outgoing thread is not one. -/
theorem prevPid_ne_nextPid (hidle : OnePerCpu threads idle)
    (hown : ∀ cpu other, idle other = s.machine.current cpu → other = cpu)
    {cpu : Cpu} {next : Task} {input : SchedSwitchInput}
    (hswitch : SwitchAllowed threads s.machine cpu next input)
    (hnext : idle cpu = next) : input.prevPid ≠ input.nextPid := by
  intro heq
  have htid : threads.tid next = 0 := (hidle.tid_eq_zero next).mpr ⟨cpu, hnext⟩
  have hprev : threads.tid (s.machine.current cpu) = 0 := by
    rw [← hswitch.prevPid, heq, hswitch.nextPid, htid]
  have hcurrent := (current_eq_idle_iff hidle hown cpu).mpr hprev
  exact hswitch.idle cpu (hcurrent.trans hnext)

theorem filterPid_of_targetPid_eq_zero (htarget : ro.targetPid = 0) (pid : UInt32) :
    filterPid ro pid = true :=
  if_pos htarget

theorem sliceExact_iff (hidle : OnePerCpu threads idle) (step : Step Task Cpu)
    (hconsistent : Consistent idle s) (hmay : MayStep ro threads idle s step) :
    SliceExact ro idle s step ↔ OwnSwitchOut ro idle s step := by
  cases step with
  | switch cpu next input =>
      refine forall_congr' fun hnext => ?_
      have hne := prevPid_ne_nextPid hidle hconsistent.own hmay.1 hnext
      have hkey : schedKey input.nextPid ≠ schedKey input.prevPid :=
        fun heq => hne (schedKey_injective heq).symm
      have hpid : input.nextPid = 0 := by
        rw [hmay.1.nextPid]
        exact (hidle.tid_eq_zero next).mpr ⟨cpu, hnext⟩
      constructor
      · intro hexact hdue other hother
        obtain ⟨e, hrecord⟩ :=
          Option.isSome_iff_exists.mp ((record_isSome_iff hne).mpr hdue)
        have hduration := hexact e hrecord
        obtain ⟨state, slot, -, hlookup, ⟨hopen, -⟩, -, rfl⟩ :=
          record_schedSwitch.mp hrecord
        rw [lookup_switchOut_of_ne ro input _ hkey, hpid] at hlookup
        obtain ⟨stored, hstored, hout⟩ := hconsistent.stored state hlookup hopen
        obtain rfl : stored = other := Option.some.inj (hstored.symm.trans hother)
        right
        rw [← hout]
        exact sub_right_injective hduration
      · intro hcondition e hrecord
        have hdue := (record_isSome_iff hne).mp (Option.isSome_of_eq_some hrecord)
        obtain ⟨state, slot, -, hlookup, ⟨hopen, -⟩, -, rfl⟩ :=
          record_schedSwitch.mp hrecord
        rw [lookup_switchOut_of_ne ro input _ hkey, hpid] at hlookup
        obtain ⟨stored, hstored, hout⟩ := hconsistent.stored state hlookup hopen
        change input.inNs - state.switchOutNs = _
        rcases hcondition hdue stored hstored with rfl | heq
        · rw [hout]
        · rw [hout, heq]
  | _ => exact Iff.rfl

/-- The entry after a switch, when it is open: a switch-out of an idle task was
just stored, or nothing happened to the entry. -/
theorem lookup_switch_idle (htarget : ro.targetPid = 0)
    (hidle : OnePerCpu threads idle) (hconsistent : Consistent idle s)
    {cpu : Cpu} {next : Task} {input : SchedSwitchInput}
    (hmay : MayStep ro threads idle s (.switch cpu next input))
    {state : SchedState}
    (hlookup :
      (tpSchedSwitch ro input s.machine.maps).schedStates.lookup (schedKey 0) =
        some state)
    (hopen : 0 < state.switchOutNs) :
    s.machine.current cpu = idle cpu ∧ input.updateOk = true ∧
        state.switchOutNs = input.outNs ∨
      s.machine.current cpu ≠ idle cpu ∧
        s.machine.maps.schedStates.lookup (schedKey 0) = some state := by
  obtain ⟨hswitch, hnextOwn⟩ := hmay
  have hfilter := filterPid_of_targetPid_eq_zero htarget
  have hprev := current_eq_idle_iff hidle hconsistent.own cpu
  rw [← hswitch.prevPid] at hprev
  by_cases hcurrent : s.machine.current cpu = idle cpu
  · left
    refine ⟨hcurrent, ?_⟩
    have hpid := hprev.mp hcurrent
    -- The incoming thread is not idle: it would be the one that leaves.
    have hne : input.prevPid ≠ input.nextPid := by
      intro heq
      have htid : threads.tid next = 0 := by rw [← hswitch.nextPid, ← heq, hpid]
      obtain ⟨other, hother⟩ := (hidle.tid_eq_zero next).mp htid
      obtain rfl := hnextOwn other hother
      exact hswitch.idle other (hcurrent.trans hother)
    rw [← hpid, lookup_tpSchedSwitch_prev ro input _ hne] at hlookup
    split at hlookup
    next hstored =>
      cases hlookup
      exact ⟨hstored.2, rfl⟩
    next hstored =>
      have hok := hswitch.update (Finmap.mem_of_lookup_eq_some hlookup)
      exact absurd ⟨hfilter _, hok⟩ hstored
  · right
    refine ⟨hcurrent, ?_⟩
    have hprevKey : schedKey 0 ≠ schedKey input.prevPid := fun heq =>
      hcurrent (hprev.mpr (schedKey_injective heq).symm)
    by_cases hpid : input.nextPid = 0
    · have hne : input.prevPid ≠ input.nextPid := by
        rw [hpid]
        exact fun heq => hcurrent (hprev.mpr heq)
      rw [← hpid, lookup_tpSchedSwitch_next ro input _ hne, incomingState,
        Option.map_eq_some_iff] at hlookup
      obtain ⟨old, hold, rfl⟩ := hlookup
      split at hopen
      · cases hopen
      next hclosed => exact absurd ⟨hfilter _, hopen⟩ hclosed
    · have hnextKey : schedKey 0 ≠ schedKey input.nextPid := fun heq =>
        hpid (schedKey_injective heq).symm
      rwa [lookup_tpSchedSwitch_of_ne ro input _ hprevKey hnextKey] at hlookup

variable [DecidableEq Task] [DecidableEq Cpu]

theorem consistent_watch (htarget : ro.targetPid = 0)
    (hidle : OnePerCpu threads idle) (step : Step Task Cpu)
    (hconsistent : Consistent idle s) (hmay : MayStep ro threads idle s step) :
    Consistent idle (watch ro idle s step) := by
  cases step with
  | sysEnter cpu context input =>
      refine ⟨hconsistent.own, fun state hlookup => hconsistent.stored state ?_⟩
      rwa [← tpSysEnter_schedStates ro context input]
  | sysExit cpu context input =>
      refine ⟨hconsistent.own, fun state hlookup => hconsistent.stored state ?_⟩
      rwa [← tpSysExit_schedStates ro context input]
  | switch cpu next input =>
      refine ⟨?_, fun state hlookup hopen => ?_⟩
      · intro running other hother
        by_cases hrunning : running = cpu
        · subst hrunning
          apply hmay.2 other
          rw [hother]
          exact Function.update_self ..
        · apply hconsistent.own running other
          rw [hother]
          exact Function.update_of_ne hrunning ..
      · rcases lookup_switch_idle htarget hidle hconsistent hmay hlookup hopen with
          ⟨hcurrent, hok, hout⟩ | ⟨hcurrent, hold⟩
        · refine ⟨cpu, if_pos ⟨hcurrent, hok⟩, ?_⟩
          simp only [watch, Watched.nextOut, if_pos hcurrent,
            Function.update_self, hout]
        · obtain ⟨stored, hstored, hout⟩ := hconsistent.stored state hold hopen
          refine ⟨stored, ?_, ?_⟩
          · simp only [watch, Watched.nextStored, hcurrent, false_and, if_false,
              hstored]
          · simp only [watch, Watched.nextOut, if_neg hcurrent, hout]
  | processExec cpu context input =>
      refine ⟨hconsistent.own, fun state hlookup => hconsistent.stored state ?_⟩
      rwa [← tpSchedProcessExec_schedStates ro context input]
  | processExit cpu context input =>
      refine ⟨hconsistent.own, fun state hlookup => hconsistent.stored state ?_⟩
      change (tpSchedProcessExit ro context input _).schedStates.lookup _ = _ at hlookup
      rw [tpSchedProcessExit_schedStates] at hlookup
      exact KeyedFold.lookup_of_lookup_erase hlookup

/-- In every run with no pid filter, the slices of the idle tasks are right
exactly when each of them comes after the CPU's own switch-out. -/
theorem idleSlices_exact_iff (htarget : ro.targetPid = 0)
    (hidle : OnePerCpu threads idle) {current : Cpu → Task}
    (hown : ∀ cpu other, idle other = current cpu → other = cpu)
    (clock : UInt64) (lastOut : Cpu → UInt64) {steps : List (Step Task Cpu)}
    (hrun : Along (watch ro idle) (MayStep ro threads idle)
      (Watched.initial current clock lastOut) steps) :
    let start := Watched.initial current clock lastOut
    Along (watch ro idle) (SliceExact ro idle) start steps ↔
      Along (watch ro idle) (OwnSwitchOut ro idle) start steps := by
  intro start
  refine along_iff_of_invariant (Consistent idle) ?_ ?_
    (consistent_initial clock lastOut hown) hrun
  · intro s step hconsistent hmay
    exact consistent_watch htarget hidle step hconsistent hmay
  · intro s step hconsistent hmay
    exact sliceExact_iff hidle step hconsistent hmay

end Preservation

/-! ## Two CPUs -/

/-- The tasks of a machine with CPUs `false` and `true`. -/
inductive Thread where
  | idle (cpu : Bool)
  | worker (cpu : Bool)
  deriving DecidableEq

def twoCpus : Threads Thread where
  tgid
    | .idle _ => 0
    | .worker cpu => if cpu then 20 else 10
  tid
    | .idle _ => 0
    | .worker cpu => if cpu then 20 else 10

theorem onePerCpu_twoCpus : OnePerCpu twoCpus Thread.idle where
  injective := fun _ _ heq => Thread.idle.inj heq
  tid_eq_zero task := by
    cases task with
    | idle cpu => exact ⟨fun _ => ⟨cpu, rfl⟩, fun _ => rfl⟩
    | worker cpu =>
        constructor
        · intro htid
          cases cpu <;> cases htid
        · rintro ⟨other, hother⟩
          cases hother

/-- A `sched_switch` whose two clock readings are one. -/
def switchAt (cpu : Bool) (prev next : Thread) (now : UInt64) : Step Thread Bool :=
  .switch cpu next
    { prevPid := twoCpus.tid prev
      nextPid := twoCpus.tid next
      prevState := 0
      nextComm := Vector.replicate 16 0
      cpu := if cpu then 1 else 0
      outNs := now
      inNs := now
      updateOk := true
      slot := some WireEvent.zero }

theorem mayStep_switchAt {s : Watched Thread Bool} {cpu : Bool}
    {prev next : Thread} {now : UInt64} (hprev : s.machine.current cpu = prev)
    (hnext : ∀ other, s.machine.current other ≠ next)
    (hown : ∀ other, Thread.idle other = next → other = cpu)
    (hpositive : 0 < now) (hclock : s.machine.clock ≤ now) :
    MayStep Rodata.default twoCpus Thread.idle s (switchAt cpu prev next now) :=
  ⟨⟨hnext, by rw [hprev], rfl, hpositive, hclock, UInt64.le_refl now,
    fun _ => rfl⟩, hown⟩

/-- Both CPUs idle at first. -/
def bothIdle : Watched Thread Bool :=
  Watched.initial Thread.idle 0 fun _ => 0

/-- One CPU leaves its idle task and comes back to it. -/
theorem idleSlices_exact_one_cpu :
    let steps :=
      [switchAt false (.idle false) (.worker false) 100,
        switchAt false (.worker false) (.idle false) 5000100]
    Along (watch Rodata.default Thread.idle)
        (MayStep Rodata.default twoCpus Thread.idle) bothIdle steps ∧
      Along (watch Rodata.default Thread.idle)
        (OwnSwitchOut Rodata.default Thread.idle) bothIdle steps ∧
      Along (watch Rodata.default Thread.idle)
        (SliceExact Rodata.default Thread.idle) bothIdle steps := by
  intro steps
  have hrun : Along (watch Rodata.default Thread.idle)
      (MayStep Rodata.default twoCpus Thread.idle) bothIdle steps := by
    refine ⟨mayStep_switchAt rfl ?_ ?_ ?_ ?_, mayStep_switchAt rfl ?_ ?_ ?_ ?_,
      trivial⟩ <;> decide
  have hcondition : Along (watch Rodata.default Thread.idle)
      (OwnSwitchOut Rodata.default Thread.idle) bothIdle steps := by
    refine ⟨fun _ _ other hother => ?_, fun _ _ other hother => ?_, trivial⟩
    · cases hother
    · exact Or.inl (Option.some.inj hother).symm
  have hexact := (idleSlices_exact_iff rfl onePerCpu_twoCpus
    (fun _ _ heq => Thread.idle.inj heq) 0 (fun _ => 0) hrun).mpr hcondition
  exact ⟨hrun, hcondition, hexact⟩

/-- Both CPUs leave their idle tasks, and the first one comes back.  Its idle
task was switched out at 100, and the slice counts from 200, when the other one
was. -/
theorem idle_slice_counts_other_cpu :
    let steps :=
      [switchAt false (.idle false) (.worker false) 100,
        switchAt true (.idle true) (.worker true) 200,
        switchAt false (.worker false) (.idle false) 5000200]
    let s := run (watch Rodata.default Thread.idle) bothIdle steps
    Along (watch Rodata.default Thread.idle)
        (MayStep Rodata.default twoCpus Thread.idle) bothIdle steps ∧
      s.lastOut false = 100 ∧
      s.machine.maps.events.map (fun e => (e.timestampNs, e.tid, e.durationNs)) =
        [(5000200, 0, 5000000)] ∧
      ¬Along (watch Rodata.default Thread.idle)
        (SliceExact Rodata.default Thread.idle) bothIdle steps := by
  intro steps s
  refine ⟨?_, by decide, by decide +kernel, ?_⟩
  · refine ⟨mayStep_switchAt rfl ?_ ?_ ?_ ?_, mayStep_switchAt rfl ?_ ?_ ?_ ?_,
      mayStep_switchAt rfl ?_ ?_ ?_ ?_, trivial⟩ <;> decide
  · rintro ⟨-, -, hexact, -⟩
    let before := run (watch Rodata.default Thread.idle) bothIdle (steps.take 2)
    have hrecord :
        ((switchAt false (.worker false) (.idle false) 5000200).call.record
          Rodata.default before.machine.maps).map (fun e => e.durationNs) =
            some 5000000 := by
      decide +kernel
    obtain ⟨e, he, hduration⟩ := Option.map_eq_some_iff.mp hrecord
    have hexpected : e.durationNs = 5000200 - 100 := hexact rfl e he
    rw [hduration] at hexpected
    exact absurd hexpected (by decide)

end KernelScope.IdleTasks
