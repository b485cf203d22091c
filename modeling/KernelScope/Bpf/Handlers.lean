import KernelScope.Bpf.Filters
import KernelScope.Library.KeyedFold

/-!
# Tracepoint handlers

The five programs of `bpf/kscope.bpf.c`.  Each is a function from the contents
of the maps to the contents afterwards; the answers of the helpers it calls
(clock readings, stack ids, whether a map update succeeds, the slot returned by
`bpf_ringbuf_reserve`) are its input.  A reserved slot arrives with whatever
bytes it held before, and submitted records queue up in `events`.
-/

namespace KernelScope.Handlers

open KernelScope.Events
open KernelScope.Filters
open KernelScope.KeyedFold
open KernelScope.WireFormat

structure Maps where
  activeSyscalls : KeyedMap TaskKey ActiveSyscall
  schedStates : KeyedMap TaskKey SchedState
  events : List WireEvent

/-- The maps after loading. -/
def Maps.empty : Maps where
  activeSyscalls := ∅
  schedStates := ∅
  events := []

/-- Fill a reserved slot and submit it; nothing happens when the reservation
failed. -/
def submit (slot : Option WireEvent) (fill : WireEvent → WireEvent)
    (m : Maps) : Maps :=
  match slot with
  | some e => { m with events := m.events ++ [fill e] }
  | none => m

/-! ## System calls -/

structure SysEnterInput where
  id : UInt64
  /-- `bpf_ktime_get_ns` -/
  startNs : UInt64
  /-- `bpf_get_prandom_u32` -/
  rand : UInt32
  /-- `bpf_get_stackid` with `BPF_F_USER_STACK` -/
  userStack : Int64
  /-- `bpf_get_stackid` for the kernel stack -/
  kernStack : Int64
  /-- whether `bpf_map_update_elem` succeeds -/
  updateOk : Bool

/-- The `struct active_syscall` that `tp_sys_enter` builds. -/
def sysEnterEntry (ro : Rodata) (input : SysEnterInput) : ActiveSyscall :=
  let capture := shouldCaptureStack ro input.rand
  let userStackId :=
    if capture ∧ ro.captureUserStacks ≠ 0 then input.userStack else -1
  let kernStackId :=
    if capture ∧ ro.captureKernStacks ≠ 0 then input.kernStack else -1
  { id := input.id
    startNs := input.startNs
    userStackId := userStackId
    kernStackId := kernStackId
    flags :=
      if capture then
        (if userStackId ≥ 0 then evfHasUserStack else 0) |||
          (if kernStackId ≥ 0 then evfHasKernStack else 0)
      else 0 }

/-- The two filters `tp_sys_enter` applies before it stores an entry. -/
def sysEnterAccepts (ro : Rodata) (task : TaskContext) : Bool :=
  filterPid ro (fillTaskKey ro task).pid && filterComm ro task.comm

def tpSysEnter (ro : Rodata) (task : TaskContext) (input : SysEnterInput)
    (m : Maps) : Maps :=
  let key := fillTaskKey ro task
  if !filterPid ro key.pid then m
  else if !filterComm ro task.comm then m
  else if input.updateOk then
    { m with
      activeSyscalls :=
        m.activeSyscalls.insert key (sysEnterEntry ro input) }
  else m

structure SysExitInput where
  now : UInt64
  /-- the reading inside `fill_event_common`, overwritten by `now` -/
  fillNow : UInt64
  /-- `bpf_ringbuf_reserve` -/
  slot : Option WireEvent

/-- The record `tp_sys_exit` writes into its slot. -/
def sysExitEvent (ro : Rodata) (task : TaskContext) (input : SysExitInput)
    (entry : ActiveSyscall) (e : WireEvent) : WireEvent :=
  { fillEventCommon ro task input.fillNow e with
    timestampNs := input.now
    type := EvType.syscallSlow.code
    durationNs := input.now - entry.startNs
    syscallId := entry.id
    userStackId := entry.userStackId
    kernStackId := entry.kernStackId
    flags := entry.flags }

def tpSysExit (ro : Rodata) (task : TaskContext) (input : SysExitInput)
    (m : Maps) : Maps :=
  let key := fillTaskKey ro task
  match m.activeSyscalls.lookup key with
  | none => m
  | some entry =>
      let deltaNs := input.now - entry.startNs
      let m' :=
        if deltaNs ≥ ro.minLatencyNs then
          submit input.slot (sysExitEvent ro task input entry) m
        else m
      { m' with activeSyscalls := m'.activeSyscalls.erase key }

/-! ## Scheduler switches -/

structure SchedSwitchInput where
  prevPid : UInt32
  nextPid : UInt32
  prevState : UInt32
  nextComm : Comm
  cpu : UInt32
  /-- the reading taken for the outgoing task -/
  outNs : UInt64
  /-- the reading taken for the incoming task -/
  inNs : UInt64
  updateOk : Bool
  slot : Option WireEvent

/-- `sched_switch` keys a thread by its tid in both components. -/
def schedKey (tid : UInt32) : TaskKey where
  pid := tid
  tid := tid

/-- The half of `tp_sched_switch` that handles the outgoing task. -/
def switchOut (ro : Rodata) (input : SchedSwitchInput) (m : Maps) : Maps :=
  if filterPid ro input.prevPid then
    let newState :=
      (m.schedStates.lookup (schedKey input.prevPid)).getD SchedState.zero
    if input.updateOk then
      { m with
        schedStates := m.schedStates.insert (schedKey input.prevPid)
          { newState with
            switchOutNs := input.outNs
            lastState := input.prevState } }
    else m
  else m

/-- `bpf_probe_read_kernel_str`: bytes are copied up to the first NUL, the last
byte is always NUL, and the rest of the destination is left as it was. -/
def probeReadKernelStr (destination source : Comm) : Comm :=
  Vector.ofFn fun index : Fin 16 =>
    if (source.toList.take index).all (· ≠ 0) then
      if index = 15 then 0 else source[index]
    else destination[index]

/-- The record `tp_sched_switch` writes into its slot. -/
def offcpuEvent (input : SchedSwitchInput) (offcpuNs : UInt64)
    (e : WireEvent) : WireEvent :=
  { e with
    timestampNs := input.inNs
    pid := input.nextPid
    tid := input.nextPid
    cpu := input.cpu
    comm := probeReadKernelStr e.comm input.nextComm
    type := EvType.offcpuSlice.code
    durationNs := offcpuNs
    classification := LatClass.offCpu.code
    syscallId := 0
    userStackId := -1
    kernStackId := -1
    flags := 0
    pad := 0 }

/-- The entry of the incoming task after its off-CPU interval is closed. -/
def closeInterval (now : UInt64) (state : SchedState) : SchedState :=
  { state with
    switchOutNs := 0
    switchInNs := now
    accumulatedOffcpuNs :=
      state.accumulatedOffcpuNs + (now - state.switchOutNs) }

/-- The half of `tp_sched_switch` that handles the incoming task. -/
def switchIn (ro : Rodata) (input : SchedSwitchInput) (m : Maps) : Maps :=
  if filterPid ro input.nextPid then
    match m.schedStates.lookup (schedKey input.nextPid) with
    | none => m
    | some state =>
        if state.switchOutNs > 0 then
          let offcpuNs := input.inNs - state.switchOutNs
          let m' :=
            if offcpuNs ≥ ro.minOffcpuNs then
              submit input.slot (offcpuEvent input offcpuNs) m
            else m
          { m' with
            schedStates := m'.schedStates.insert (schedKey input.nextPid)
              (closeInterval input.inNs state) }
        else m
  else m

def tpSchedSwitch (ro : Rodata) (input : SchedSwitchInput) (m : Maps) : Maps :=
  switchIn ro input (switchOut ro input m)

/-! ## Process lifecycle -/

structure LifecycleInput where
  /-- the reading inside `fill_event_common` -/
  fillNow : UInt64
  slot : Option WireEvent

/-- The record written by the exec and exit programs. -/
def lifecycleEvent (ro : Rodata) (task : TaskContext) (input : LifecycleInput)
    (type : EvType) (e : WireEvent) : WireEvent :=
  { fillEventCommon ro task input.fillNow e with
    type := type.code
    durationNs := 0
    syscallId := 0 }

def tpSchedProcessExec (ro : Rodata) (task : TaskContext)
    (input : LifecycleInput) (m : Maps) : Maps :=
  let key := fillTaskKey ro task
  if !filterPid ro key.pid then m
  else submit input.slot (lifecycleEvent ro task input .procExec) m

def tpSchedProcessExit (ro : Rodata) (task : TaskContext)
    (input : LifecycleInput) (m : Maps) : Maps :=
  let key := fillTaskKey ro task
  let m' :=
    { m with
      activeSyscalls := m.activeSyscalls.erase key
      schedStates := m.schedStates.erase key }
  if !filterPid ro key.pid then m'
  else submit input.slot (lifecycleEvent ro task input .procExit) m'

/-! ## One handler invocation -/

/-- A tracepoint firing, with everything its program will read. -/
inductive Call where
  | sysEnter (task : TaskContext) (input : SysEnterInput)
  | sysExit (task : TaskContext) (input : SysExitInput)
  | schedSwitch (input : SchedSwitchInput)
  | processExec (task : TaskContext) (input : LifecycleInput)
  | processExit (task : TaskContext) (input : LifecycleInput)

def Call.handle (ro : Rodata) : Call → Maps → Maps
  | .sysEnter task input => tpSysEnter ro task input
  | .sysExit task input => tpSysExit ro task input
  | .schedSwitch input => tpSchedSwitch ro input
  | .processExec task input => tpSchedProcessExec ro task input
  | .processExit task input => tpSchedProcessExit ro task input

end KernelScope.Handlers
