import KernelScope.Bpf.HandlerSpecs
import KernelScope.Library.StepRun
import Mathlib.Logic.Function.Basic

/-!
# Multi-processor schedules

The environment of the scheduler handlers: every CPU runs one thread, a
`sched_switch` replaces the thread of one CPU by a thread that runs nowhere,
and every other tracepoint fires in the context of the thread its CPU runs.
The profiler runs in the initial pid namespace, so the helpers report global
thread-group and thread ids.
-/

namespace KernelScope.Schedule

open KernelScope.Filters
open KernelScope.Handlers
open KernelScope.WireFormat

/-- The global ids of the threads. -/
structure Threads (Task : Type*) where
  tgid : Task → UInt32
  tid : Task → UInt32

/-- The helpers' answers are those for `task` seen from the initial pid
namespace: the namespace lookup, when it succeeds, reports the global ids. -/
structure RunsAs {Task : Type*} (ro : Rodata) (threads : Threads Task)
    (task : Task) (context : TaskContext) : Prop where
  global : globalPidTgid context = (threads.tgid task, threads.tid task)
  namespaced : ∀ ns,
    context.nsPidTgid ro.pidnsDev ro.pidnsIno = some ns →
      ns.tgid = threads.tgid task ∧ ns.pid = threads.tid task

/-- In the initial namespace both ways of asking for the ids agree. -/
theorem RunsAs.getNsPidTgid {Task : Type*} {ro : Rodata}
    {threads : Threads Task} {task : Task} {context : TaskContext}
    (hruns : RunsAs ro threads task context) :
    getNsPidTgid ro context = (threads.tgid task, threads.tid task) := by
  unfold Filters.getNsPidTgid
  split
  · split
    next ns hns =>
      obtain ⟨htgid, htid⟩ := hruns.namespaced ns hns
      rw [htgid, htid]
    next => exact hruns.global
  · exact hruns.global

theorem RunsAs.fillTaskKey {Task : Type*} {ro : Rodata}
    {threads : Threads Task} {task : Task} {context : TaskContext}
    (hruns : RunsAs ro threads task context) :
    fillTaskKey ro context = ⟨threads.tgid task, threads.tid task⟩ := by
  simp [Filters.fillTaskKey, hruns.getNsPidTgid]

/-- One tracepoint firing on a CPU. -/
inductive Step (Task Cpu : Type*) where
  | sysEnter (cpu : Cpu) (context : TaskContext) (input : SysEnterInput)
  | sysExit (cpu : Cpu) (context : TaskContext) (input : SysExitInput)
  | switch (cpu : Cpu) (next : Task) (input : SchedSwitchInput)
  | processExec (cpu : Cpu) (context : TaskContext) (input : LifecycleInput)
  | processExit (cpu : Cpu) (context : TaskContext) (input : LifecycleInput)

section Machine

variable {Task Cpu : Type*}

def Step.call : Step Task Cpu → Call
  | .sysEnter _ context input => .sysEnter context input
  | .sysExit _ context input => .sysExit context input
  | .switch _ _ input => .schedSwitch input
  | .processExec _ context input => .processExec context input
  | .processExit _ context input => .processExit context input

/-- The last clock reading that matters to the step. -/
def Step.clock : Step Task Cpu → UInt64
  | .sysEnter _ _ input => input.startNs
  | .sysExit _ _ input => input.now
  | .switch _ _ input => input.inNs
  | .processExec _ _ input => input.fillNow
  | .processExit _ _ input => input.fillNow

structure Machine (Task Cpu : Type*) where
  maps : Maps
  current : Cpu → Task
  clock : UInt64

variable [DecidableEq Cpu]

def Step.current (current : Cpu → Task) : Step Task Cpu → Cpu → Task
  | .switch cpu next _ => Function.update current cpu next
  | _ => current

def exec (ro : Rodata) (machine : Machine Task Cpu) (step : Step Task Cpu) :
    Machine Task Cpu where
  maps := step.call.handle ro machine.maps
  current := step.current machine.current
  clock := step.clock

/-- A legal `sched_switch`: the outgoing thread is the one the CPU runs, the
incoming one runs nowhere, clock readings are positive and do not go back, and
a map update can only fail when its key is absent. -/
structure SwitchAllowed (threads : Threads Task) (machine : Machine Task Cpu)
    (cpu : Cpu) (next : Task) (input : SchedSwitchInput) : Prop where
  idle : ∀ other, machine.current other ≠ next
  prevPid : input.prevPid = threads.tid (machine.current cpu)
  nextPid : input.nextPid = threads.tid next
  positive : 0 < input.outNs
  outClock : machine.clock ≤ input.outNs
  inClock : input.outNs ≤ input.inNs
  update : schedKey input.prevPid ∈ machine.maps.schedStates →
    input.updateOk = true

/-- What the kernel may do next. -/
def Allowed (ro : Rodata) (threads : Threads Task)
    (machine : Machine Task Cpu) : Step Task Cpu → Prop
  | .sysEnter cpu context input =>
      RunsAs ro threads (machine.current cpu) context ∧
        machine.clock ≤ input.startNs
  | .sysExit cpu context input =>
      RunsAs ro threads (machine.current cpu) context ∧
        machine.clock ≤ input.now
  | .switch cpu next input => SwitchAllowed threads machine cpu next input
  | .processExec cpu context input =>
      RunsAs ro threads (machine.current cpu) context ∧
        machine.clock ≤ input.fillNow
  | .processExit cpu context input =>
      RunsAs ro threads (machine.current cpu) context ∧
        machine.clock ≤ input.fillNow

theorem clock_le_exec {ro : Rodata} {threads : Threads Task}
    {machine : Machine Task Cpu} {step : Step Task Cpu}
    (hallowed : Allowed ro threads machine step) :
    machine.clock ≤ (exec ro machine step).clock := by
  cases step with
  | sysEnter cpu context input => exact hallowed.2
  | sysExit cpu context input => exact hallowed.2
  | switch cpu next input =>
      exact UInt64.le_trans hallowed.outClock hallowed.inClock
  | processExec cpu context input => exact hallowed.2
  | processExit cpu context input => exact hallowed.2

omit [DecidableEq Cpu] in
/-- Different threads run on different CPUs after a switch as well. -/
theorem injective_switch [DecidableEq Cpu] {current : Cpu → Task} {cpu : Cpu}
    {next : Task} (hinjective : Function.Injective current)
    (hidle : ∀ other, current other ≠ next) :
    Function.Injective (Function.update current cpu next) := by
  intro left right heq
  by_cases hleft : left = cpu
  · by_cases hright : right = cpu
    · rw [hleft, hright]
    · rw [hleft, Function.update_self, Function.update_of_ne hright] at heq
      exact absurd heq.symm (hidle right)
  · rw [Function.update_of_ne hleft] at heq
    by_cases hright : right = cpu
    · rw [hright, Function.update_self] at heq
      exact absurd heq (hidle left)
    · rw [Function.update_of_ne hright] at heq
      exact hinjective heq

/-- After a switch the outgoing thread runs nowhere. -/
theorem outgoing_off {current : Cpu → Task} {cpu : Cpu} {next : Task}
    (hinjective : Function.Injective current)
    (hidle : ∀ other, current other ≠ next) (other : Cpu) :
    Function.update current cpu next other ≠ current cpu := by
  by_cases hother : other = cpu
  · rw [hother, Function.update_self]
    exact (hidle cpu).symm
  · rw [Function.update_of_ne hother]
    exact fun heq => hother (hinjective heq)

end Machine

end KernelScope.Schedule
