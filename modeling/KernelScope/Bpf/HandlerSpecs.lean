import KernelScope.Bpf.Handlers

/-!
# What each handler does

One description per handler and per map, so that later proofs never unfold a
program.  `Call.emission` isolates the decision to emit: it is present exactly
when the program reaches `bpf_ringbuf_reserve`, and then says how the reserved
slot is filled.
-/

namespace KernelScope.Handlers

open KernelScope.Events
open KernelScope.Filters
open KernelScope.KeyedFold
open KernelScope.WireFormat

/-- How the call fills a reserved slot, when its thresholds and filters let it
reach the reservation at all. -/
def Call.emission (ro : Rodata) : Call → Maps → Option (WireEvent → WireEvent)
  | .sysEnter _ _, _ => none
  | .sysExit task input, m =>
      (m.activeSyscalls.lookup (fillTaskKey ro task)).bind fun entry =>
        if input.now - entry.startNs ≥ ro.minLatencyNs then
          some (sysExitEvent ro task input entry)
        else none
  | .schedSwitch input, m =>
      if filterPid ro input.nextPid then
        ((switchOut ro input m).schedStates.lookup
            (schedKey input.nextPid)).bind fun state =>
          if state.switchOutNs > 0 ∧
              input.inNs - state.switchOutNs ≥ ro.minOffcpuNs then
            some (offcpuEvent input (input.inNs - state.switchOutNs))
          else none
      else none
  | .processExec task input, _ =>
      if filterPid ro (fillTaskKey ro task).pid then
        some (lifecycleEvent ro task input .procExec)
      else none
  | .processExit task input, _ =>
      if filterPid ro (fillTaskKey ro task).pid then
        some (lifecycleEvent ro task input .procExit)
      else none

/-- The answer of `bpf_ringbuf_reserve`, if the call asks for a slot. -/
def Call.slot : Call → Option WireEvent
  | .sysEnter _ _ => none
  | .sysExit _ input => input.slot
  | .schedSwitch input => input.slot
  | .processExec _ input => input.slot
  | .processExit _ input => input.slot

/-- The record submitted by the call, if any. -/
def Call.record (ro : Rodata) (call : Call) (m : Maps) : Option WireEvent :=
  (call.emission ro m).bind fun fill => call.slot.map fill

/-! ## Submission -/

@[simp]
theorem submit_activeSyscalls (slot : Option WireEvent)
    (fill : WireEvent → WireEvent) (m : Maps) :
    (submit slot fill m).activeSyscalls = m.activeSyscalls := by
  cases slot <;> rfl

@[simp]
theorem submit_schedStates (slot : Option WireEvent)
    (fill : WireEvent → WireEvent) (m : Maps) :
    (submit slot fill m).schedStates = m.schedStates := by
  cases slot <;> rfl

@[simp]
theorem submit_events (slot : Option WireEvent)
    (fill : WireEvent → WireEvent) (m : Maps) :
    (submit slot fill m).events = m.events ++ (slot.map fill).toList := by
  cases slot <;> simp [submit]

@[simp]
theorem switchOut_events (ro : Rodata) (input : SchedSwitchInput) (m : Maps) :
    (switchOut ro input m).events = m.events := by
  unfold switchOut
  split
  · dsimp only
    split <;> rfl
  · rfl

@[simp]
theorem switchOut_activeSyscalls (ro : Rodata) (input : SchedSwitchInput)
    (m : Maps) :
    (switchOut ro input m).activeSyscalls = m.activeSyscalls := by
  unfold switchOut
  split
  · dsimp only
    split <;> rfl
  · rfl

theorem switchIn_events (ro : Rodata) (input : SchedSwitchInput) (m : Maps) :
    (switchIn ro input (switchOut ro input m)).events =
      m.events ++ ((Call.schedSwitch input).record ro m).toList := by
  rw [Call.record, Call.emission, switchIn]
  split
  · cases hstate : (switchOut ro input m).schedStates.lookup
        (schedKey input.nextPid) with
    | none => simp
    | some state =>
        dsimp only [Option.bind_some]
        by_cases hout : state.switchOutNs > 0
        · by_cases hlong : input.inNs - state.switchOutNs ≥ ro.minOffcpuNs
          · rw [if_pos hout, if_pos hlong, if_pos ⟨hout, hlong⟩]
            simp [Call.slot]
          · rw [if_pos hout, if_neg hlong, if_neg fun h => hlong h.2]
            simp
        · rw [if_neg hout, if_neg fun h => hout h.1]
          simp
  · simp

/-- Every handler appends the record it emits, and nothing else, to the ring
buffer. -/
theorem events_handle (ro : Rodata) (call : Call) (m : Maps) :
    (call.handle ro m).events = m.events ++ (call.record ro m).toList := by
  cases call with
  | sysEnter task input =>
      simp only [Call.handle, Call.record, Call.emission, tpSysEnter]
      split_ifs <;> simp
  | sysExit task input =>
      simp only [Call.handle, Call.record, Call.emission, tpSysExit]
      cases m.activeSyscalls.lookup (fillTaskKey ro task) with
      | none => simp
      | some entry =>
          dsimp only [Option.bind_some]
          split <;> simp [Call.slot]
  | schedSwitch input => exact switchIn_events ro input m
  | processExec task input =>
      simp only [Call.handle, Call.record, Call.emission, tpSchedProcessExec]
      cases filterPid ro (fillTaskKey ro task).pid <;> simp [Call.slot]
  | processExit task input =>
      simp only [Call.handle, Call.record, Call.emission, tpSchedProcessExit]
      cases filterPid ro (fillTaskKey ro task).pid <;> simp [Call.slot]

/-- The event type written by each program that emits. -/
def Call.evType : Call → EvType
  | .sysEnter _ _ => .none
  | .sysExit _ _ => .syscallSlow
  | .schedSwitch _ => .offcpuSlice
  | .processExec _ _ => .procExec
  | .processExit _ _ => .procExit

/-- A record is emitted exactly when the program decides to emit and the
reservation succeeds. -/
theorem record_eq_some {ro : Rodata} {call : Call} {m : Maps}
    {e : WireEvent} :
    call.record ro m = some e ↔
      ∃ fill slot, call.emission ro m = some fill ∧ call.slot = some slot ∧
        fill slot = e := by
  simp only [Call.record, Option.bind_eq_some_iff, Option.map_eq_some_iff]
  constructor
  · rintro ⟨fill, hfill, slot, hslot, rfl⟩
    exact ⟨fill, slot, hfill, hslot, rfl⟩
  · rintro ⟨fill, slot, hfill, hslot, rfl⟩
    exact ⟨fill, hfill, slot, hslot, rfl⟩

/-- `tp_sys_exit` reserves a slot for a long enough call that it finds under the
task's key. -/
theorem emission_sysExit {ro : Rodata} {task : TaskContext} {input : SysExitInput}
    {m : Maps} {fill : WireEvent → WireEvent} :
    (Call.sysExit task input).emission ro m = some fill ↔
      ∃ entry, m.activeSyscalls.lookup (fillTaskKey ro task) = some entry ∧
        input.now - entry.startNs ≥ ro.minLatencyNs ∧
        sysExitEvent ro task input entry = fill := by
  simp only [Call.emission, Option.bind_eq_some_iff, Option.ite_none_right_eq_some,
    Option.some.injEq]

/-- `tp_sched_switch` reserves one for a long enough open interval of the
incoming task. -/
theorem emission_schedSwitch {ro : Rodata} {input : SchedSwitchInput} {m : Maps}
    {fill : WireEvent → WireEvent} :
    (Call.schedSwitch input).emission ro m = some fill ↔
      ∃ state, filterPid ro input.nextPid = true ∧
        (switchOut ro input m).schedStates.lookup (schedKey input.nextPid) =
          some state ∧
        (state.switchOutNs > 0 ∧
          input.inNs - state.switchOutNs ≥ ro.minOffcpuNs) ∧
        offcpuEvent input (input.inNs - state.switchOutNs) = fill := by
  simp only [Call.emission, Option.ite_none_right_eq_some,
    Option.bind_eq_some_iff, Option.some.injEq, exists_and_left]

/-- The exec and exit programs reserve one whenever the filter accepts. -/
theorem emission_processExec {ro : Rodata} {task : TaskContext}
    {input : LifecycleInput} {m : Maps} {fill : WireEvent → WireEvent} :
    (Call.processExec task input).emission ro m = some fill ↔
      filterPid ro (fillTaskKey ro task).pid = true ∧
        lifecycleEvent ro task input .procExec = fill := by
  simp only [Call.emission, Option.ite_none_right_eq_some, Option.some.injEq]

theorem emission_processExit {ro : Rodata} {task : TaskContext}
    {input : LifecycleInput} {m : Maps} {fill : WireEvent → WireEvent} :
    (Call.processExit task input).emission ro m = some fill ↔
      filterPid ro (fillTaskKey ro task).pid = true ∧
        lifecycleEvent ro task input .procExit = fill := by
  simp only [Call.emission, Option.ite_none_right_eq_some, Option.some.injEq]

/-- `tp_sys_exit` reports the entry stored under the task's key, when the
threshold is met and a slot is reserved. -/
theorem record_sysExit {ro : Rodata} {task : TaskContext}
    {input : SysExitInput} {m : Maps} {e : WireEvent} :
    (Call.sysExit task input).record ro m = some e ↔
      ∃ entry slot,
        m.activeSyscalls.lookup (fillTaskKey ro task) = some entry ∧
          input.now - entry.startNs ≥ ro.minLatencyNs ∧
          input.slot = some slot ∧
          sysExitEvent ro task input entry slot = e := by
  simp only [record_eq_some, emission_sysExit, Call.slot]
  constructor
  · rintro ⟨_, slot, ⟨entry, hentry, hlong, rfl⟩, hslot, rfl⟩
    exact ⟨entry, slot, hentry, hlong, hslot, rfl⟩
  · rintro ⟨entry, slot, hentry, hlong, hslot, rfl⟩
    exact ⟨_, slot, ⟨entry, hentry, hlong, rfl⟩, hslot, rfl⟩

/-- `tp_sched_switch` reports the open interval of the incoming task, when it
is long enough and a slot is reserved. -/
theorem record_schedSwitch {ro : Rodata} {input : SchedSwitchInput} {m : Maps}
    {e : WireEvent} :
    (Call.schedSwitch input).record ro m = some e ↔
      ∃ state slot, filterPid ro input.nextPid = true ∧
        (switchOut ro input m).schedStates.lookup (schedKey input.nextPid) =
          some state ∧
        (state.switchOutNs > 0 ∧
          input.inNs - state.switchOutNs ≥ ro.minOffcpuNs) ∧
        input.slot = some slot ∧
        offcpuEvent input (input.inNs - state.switchOutNs) slot = e := by
  simp only [record_eq_some, emission_schedSwitch, Call.slot]
  constructor
  · rintro ⟨_, slot, ⟨state, hfilter, hstate, hopen, rfl⟩, hslot, rfl⟩
    exact ⟨state, slot, hfilter, hstate, hopen, hslot, rfl⟩
  · rintro ⟨state, slot, hfilter, hstate, hopen, hslot, rfl⟩
    exact ⟨_, slot, ⟨state, hfilter, hstate, hopen, rfl⟩, hslot, rfl⟩

/-- The exec and exit programs report whenever the filter accepts and a slot is
reserved. -/
theorem record_processExec {ro : Rodata} {task : TaskContext}
    {input : LifecycleInput} {m : Maps} {e : WireEvent} :
    (Call.processExec task input).record ro m = some e ↔
      ∃ slot, filterPid ro (fillTaskKey ro task).pid = true ∧
        input.slot = some slot ∧
        lifecycleEvent ro task input .procExec slot = e := by
  simp only [record_eq_some, emission_processExec, Call.slot]
  constructor
  · rintro ⟨_, slot, ⟨hfilter, rfl⟩, hslot, rfl⟩
    exact ⟨slot, hfilter, hslot, rfl⟩
  · rintro ⟨slot, hfilter, hslot, rfl⟩
    exact ⟨_, slot, ⟨hfilter, rfl⟩, hslot, rfl⟩

theorem record_processExit {ro : Rodata} {task : TaskContext}
    {input : LifecycleInput} {m : Maps} {e : WireEvent} :
    (Call.processExit task input).record ro m = some e ↔
      ∃ slot, filterPid ro (fillTaskKey ro task).pid = true ∧
        input.slot = some slot ∧
        lifecycleEvent ro task input .procExit slot = e := by
  simp only [record_eq_some, emission_processExit, Call.slot]
  constructor
  · rintro ⟨_, slot, ⟨hfilter, rfl⟩, hslot, rfl⟩
    exact ⟨slot, hfilter, hslot, rfl⟩
  · rintro ⟨slot, hfilter, hslot, rfl⟩
    exact ⟨_, slot, ⟨hfilter, rfl⟩, hslot, rfl⟩

theorem record_type {ro : Rodata} {call : Call} {m : Maps} {e : WireEvent}
    (hrecord : call.record ro m = some e) : e.type = call.evType.code := by
  cases call with
  | sysEnter task input => cases hrecord
  | sysExit task input =>
      obtain ⟨entry, slot, -, -, -, rfl⟩ := record_sysExit.mp hrecord
      rfl
  | schedSwitch input =>
      obtain ⟨state, slot, -, -, -, -, rfl⟩ := record_schedSwitch.mp hrecord
      rfl
  | processExec task input =>
      obtain ⟨slot, -, -, rfl⟩ := record_processExec.mp hrecord
      rfl
  | processExit task input =>
      obtain ⟨slot, -, -, rfl⟩ := record_processExit.mp hrecord
      rfl

/-- The task a program runs in; `tp_sched_switch` does not ask. -/
def Call.context : Call → Option TaskContext
  | .sysEnter task _ => some task
  | .sysExit task _ => some task
  | .schedSwitch _ => none
  | .processExec task _ => some task
  | .processExit task _ => some task

/-- Programs that run in the context of their task stamp its ids. -/
theorem record_ids {ro : Rodata} {call : Call} {m : Maps} {e : WireEvent}
    {task : TaskContext} (hcontext : call.context = some task)
    (hrecord : call.record ro m = some e) :
    (e.pid, e.tid) = getNsPidTgid ro task := by
  cases call with
  | sysEnter context input => cases hrecord
  | sysExit context input =>
      cases hcontext
      obtain ⟨entry, slot, -, -, -, rfl⟩ := record_sysExit.mp hrecord
      rfl
  | schedSwitch input => cases hcontext
  | processExec context input =>
      cases hcontext
      obtain ⟨slot, -, -, rfl⟩ := record_processExec.mp hrecord
      rfl
  | processExit context input =>
      cases hcontext
      obtain ⟨slot, -, -, rfl⟩ := record_processExit.mp hrecord
      rfl

/-! ## Active system calls -/

theorem tpSysEnter_activeSyscalls (ro : Rodata) (task : TaskContext)
    (input : SysEnterInput) (m : Maps) :
    (tpSysEnter ro task input m).activeSyscalls =
      if sysEnterAccepts ro task ∧ input.updateOk then
        m.activeSyscalls.insert (fillTaskKey ro task) (sysEnterEntry ro input)
      else m.activeSyscalls := by
  simp only [tpSysEnter, sysEnterAccepts]
  by_cases hpid : filterPid ro (fillTaskKey ro task).pid
  · by_cases hcomm : filterComm ro task.comm
    · by_cases hok : input.updateOk <;> simp [hpid, hcomm, hok]
    · simp [hpid, hcomm]
  · simp [hpid]

theorem tpSysExit_activeSyscalls (ro : Rodata) (task : TaskContext)
    (input : SysExitInput) (m : Maps) :
    (tpSysExit ro task input m).activeSyscalls =
      m.activeSyscalls.erase (fillTaskKey ro task) := by
  simp only [tpSysExit]
  cases hentry : m.activeSyscalls.lookup (fillTaskKey ro task) with
  | none =>
      apply Finmap.ext_lookup
      intro key
      by_cases hkey : key = fillTaskKey ro task
      · subst hkey
        rw [hentry, Finmap.lookup_erase]
      · rw [Finmap.lookup_erase_ne hkey]
  | some entry =>
      dsimp only
      split <;> simp

@[simp]
theorem tpSchedSwitch_activeSyscalls (ro : Rodata) (input : SchedSwitchInput)
    (m : Maps) :
    (tpSchedSwitch ro input m).activeSyscalls = m.activeSyscalls := by
  simp only [tpSchedSwitch, switchIn]
  split
  · split
    · simp
    · split
      · dsimp only
        split <;> simp
      · simp
  · simp

@[simp]
theorem tpSchedProcessExec_activeSyscalls (ro : Rodata) (task : TaskContext)
    (input : LifecycleInput) (m : Maps) :
    (tpSchedProcessExec ro task input m).activeSyscalls =
      m.activeSyscalls := by
  simp only [tpSchedProcessExec]
  split <;> simp

@[simp]
theorem tpSchedProcessExit_activeSyscalls (ro : Rodata) (task : TaskContext)
    (input : LifecycleInput) (m : Maps) :
    (tpSchedProcessExit ro task input m).activeSyscalls =
      m.activeSyscalls.erase (fillTaskKey ro task) := by
  simp only [tpSchedProcessExit]
  split <;> simp

/-- An entry was there before, or an accepted system-call entry has stored
it. -/
theorem lookup_handle_activeSyscalls_cases {ro : Rodata} {call : Call} {m : Maps}
    {key : TaskKey} {entry : ActiveSyscall}
    (hlookup : (call.handle ro m).activeSyscalls.lookup key = some entry) :
    m.activeSyscalls.lookup key = some entry ∨
      ∃ task input, call = .sysEnter task input ∧
        (sysEnterAccepts ro task = true ∧ input.updateOk = true) ∧
        fillTaskKey ro task = key ∧ entry = sysEnterEntry ro input := by
  cases call with
  | sysEnter task input =>
      rw [Call.handle, tpSysEnter_activeSyscalls] at hlookup
      split at hlookup
      next hstored =>
        by_cases hkey : key = fillTaskKey ro task
        · rw [hkey, Finmap.lookup_insert] at hlookup
          exact .inr ⟨task, input, rfl, hstored, hkey.symm,
            (Option.some.inj hlookup).symm⟩
        · rw [Finmap.lookup_insert_of_ne _ hkey] at hlookup
          exact .inl hlookup
      next => exact .inl hlookup
  | sysExit task input =>
      rw [Call.handle, tpSysExit_activeSyscalls] at hlookup
      exact .inl (lookup_of_lookup_erase hlookup)
  | schedSwitch input =>
      rw [Call.handle, tpSchedSwitch_activeSyscalls] at hlookup
      exact .inl hlookup
  | processExec task input =>
      rw [Call.handle, tpSchedProcessExec_activeSyscalls] at hlookup
      exact .inl hlookup
  | processExit task input =>
      rw [Call.handle, tpSchedProcessExit_activeSyscalls] at hlookup
      exact .inl (lookup_of_lookup_erase hlookup)

/-- A program leaves the system calls of other keys than its task's alone. -/
theorem lookup_handle_activeSyscalls_of_ne {ro : Rodata} {call : Call}
    {task : TaskContext} (hcontext : call.context = some task) {key : TaskKey}
    (hkey : key ≠ fillTaskKey ro task) (m : Maps) :
    (call.handle ro m).activeSyscalls.lookup key =
      m.activeSyscalls.lookup key := by
  cases call with
  | sysEnter context input =>
      cases hcontext
      rw [Call.handle, tpSysEnter_activeSyscalls]
      split
      · exact Finmap.lookup_insert_of_ne _ hkey
      · rfl
  | sysExit context input =>
      cases hcontext
      rw [Call.handle, tpSysExit_activeSyscalls, Finmap.lookup_erase_ne hkey]
  | schedSwitch input => cases hcontext
  | processExec context input =>
      rw [Call.handle, tpSchedProcessExec_activeSyscalls]
  | processExit context input =>
      cases hcontext
      rw [Call.handle, tpSchedProcessExit_activeSyscalls,
        Finmap.lookup_erase_ne hkey]

/-- Nor does it report from them. -/
theorem record_erase_activeSyscalls_of_ne {ro : Rodata} {call : Call}
    {task : TaskContext} (hcontext : call.context = some task) {key : TaskKey}
    (hkey : key ≠ fillTaskKey ro task) (m : Maps) :
    call.record ro { m with activeSyscalls := m.activeSyscalls.erase key } =
      call.record ro m := by
  cases call with
  | sysExit context input =>
      cases hcontext
      simp only [Call.record, Call.emission, Finmap.lookup_erase_ne hkey.symm]
  | schedSwitch input => cases hcontext
  | _ => rfl

/-! ## Scheduler states -/

@[simp]
theorem tpSysEnter_schedStates (ro : Rodata) (task : TaskContext)
    (input : SysEnterInput) (m : Maps) :
    (tpSysEnter ro task input m).schedStates = m.schedStates := by
  simp only [tpSysEnter]
  split_ifs <;> rfl

@[simp]
theorem tpSysExit_schedStates (ro : Rodata) (task : TaskContext)
    (input : SysExitInput) (m : Maps) :
    (tpSysExit ro task input m).schedStates = m.schedStates := by
  simp only [tpSysExit]
  split
  · rfl
  · dsimp only
    split <;> simp

@[simp]
theorem tpSchedProcessExec_schedStates (ro : Rodata) (task : TaskContext)
    (input : LifecycleInput) (m : Maps) :
    (tpSchedProcessExec ro task input m).schedStates = m.schedStates := by
  simp only [tpSchedProcessExec]
  split <;> simp

@[simp]
theorem tpSchedProcessExit_schedStates (ro : Rodata) (task : TaskContext)
    (input : LifecycleInput) (m : Maps) :
    (tpSchedProcessExit ro task input m).schedStates =
      m.schedStates.erase (fillTaskKey ro task) := by
  simp only [tpSchedProcessExit]
  split <;> simp

theorem schedKey_injective : Function.Injective schedKey := by
  intro left right hkey
  exact congrArg TaskKey.tid hkey

/-- The entry left behind for the outgoing task. -/
def outgoingState (input : SchedSwitchInput) (state : Option SchedState) :
    SchedState :=
  { state.getD SchedState.zero with
    switchOutNs := input.outNs
    lastState := input.prevState }

theorem switchOut_schedStates (ro : Rodata) (input : SchedSwitchInput)
    (m : Maps) :
    (switchOut ro input m).schedStates =
      if filterPid ro input.prevPid ∧ input.updateOk then
        m.schedStates.insert (schedKey input.prevPid)
          (outgoingState input
            (m.schedStates.lookup (schedKey input.prevPid)))
      else m.schedStates := by
  simp only [switchOut, outgoingState]
  cases filterPid ro input.prevPid <;> cases input.updateOk <;> simp

/-- The entry of the incoming task after the switch: an open interval is
closed, anything else is left alone. -/
def incomingState (ro : Rodata) (input : SchedSwitchInput)
    (state : Option SchedState) : Option SchedState :=
  state.map fun state =>
    if filterPid ro input.nextPid ∧ state.switchOutNs > 0 then
      closeInterval input.inNs state
    else state

theorem lookup_switchIn_next (ro : Rodata) (input : SchedSwitchInput)
    (m : Maps) :
    (switchIn ro input m).schedStates.lookup (schedKey input.nextPid) =
      incomingState ro input
        (m.schedStates.lookup (schedKey input.nextPid)) := by
  simp only [switchIn, incomingState]
  cases hstate : m.schedStates.lookup (schedKey input.nextPid) with
  | none =>
      cases filterPid ro input.nextPid <;> simp [hstate]
  | some state =>
      cases filterPid ro input.nextPid with
      | false => simp [hstate]
      | true =>
          dsimp only [Option.map_some]
          by_cases hout : state.switchOutNs > 0
          · simp only [hout, ↓reduceIte, and_self]
            exact Finmap.lookup_insert _
          · simp only [hout, ↓reduceIte, and_false]
            exact hstate

theorem lookup_switchIn_of_ne (ro : Rodata) (input : SchedSwitchInput)
    (m : Maps) {key : TaskKey} (hkey : key ≠ schedKey input.nextPid) :
    (switchIn ro input m).schedStates.lookup key =
      m.schedStates.lookup key := by
  simp only [switchIn]
  split
  · split
    · rfl
    · split
      · dsimp only
        rw [Finmap.lookup_insert_of_ne _ hkey]
        split <;> simp
      · rfl
  · rfl

theorem mem_switchIn {ro : Rodata} {input : SchedSwitchInput} {m : Maps} {key : TaskKey} :
    key ∈ (switchIn ro input m).schedStates ↔ key ∈ m.schedStates := by
  rw [← Finmap.lookup_isSome, ← Finmap.lookup_isSome]
  by_cases hkey : key = schedKey input.nextPid
  · rw [hkey, lookup_switchIn_next, incomingState, Option.isSome_map]
  · rw [lookup_switchIn_of_ne ro input m hkey]

/-- The keys of the scheduler states after a switch. -/
theorem mem_tpSchedSwitch {ro : Rodata} {input : SchedSwitchInput} {m : Maps}
    {key : TaskKey} :
    key ∈ (tpSchedSwitch ro input m).schedStates ↔
      key = schedKey input.prevPid ∧ filterPid ro input.prevPid = true ∧
          input.updateOk = true ∨
        key ∈ m.schedStates := by
  rw [tpSchedSwitch, mem_switchIn, switchOut_schedStates]
  split
  next hstored => rw [Finmap.mem_insert, and_iff_left hstored]
  next hnot => rw [iff_or_self]; exact fun hstored => absurd hstored.2 hnot

/-- A switch changes at most the entries of the two tasks involved. -/
theorem lookup_tpSchedSwitch_of_ne (ro : Rodata) (input : SchedSwitchInput)
    (m : Maps) {key : TaskKey} (hprev : key ≠ schedKey input.prevPid)
    (hnext : key ≠ schedKey input.nextPid) :
    (tpSchedSwitch ro input m).schedStates.lookup key =
      m.schedStates.lookup key := by
  rw [tpSchedSwitch, lookup_switchIn_of_ne ro input _ hnext,
    switchOut_schedStates]
  split
  · exact Finmap.lookup_insert_of_ne _ hprev
  · rfl

theorem lookup_tpSchedSwitch_prev (ro : Rodata) (input : SchedSwitchInput)
    (m : Maps) (hne : input.prevPid ≠ input.nextPid) :
    (tpSchedSwitch ro input m).schedStates.lookup (schedKey input.prevPid) =
      if filterPid ro input.prevPid ∧ input.updateOk then
        some (outgoingState input
          (m.schedStates.lookup (schedKey input.prevPid)))
      else m.schedStates.lookup (schedKey input.prevPid) := by
  have hkey : schedKey input.prevPid ≠ schedKey input.nextPid :=
    fun heq => hne (schedKey_injective heq)
  rw [tpSchedSwitch, lookup_switchIn_of_ne ro input _ hkey,
    switchOut_schedStates]
  split
  · exact Finmap.lookup_insert _
  · rfl

theorem lookup_switchOut_of_ne (ro : Rodata) (input : SchedSwitchInput)
    (m : Maps) {key : TaskKey} (hkey : key ≠ schedKey input.prevPid) :
    (switchOut ro input m).schedStates.lookup key =
      m.schedStates.lookup key := by
  rw [switchOut_schedStates]
  split
  · exact Finmap.lookup_insert_of_ne _ hkey
  · rfl

theorem lookup_tpSchedSwitch_next (ro : Rodata) (input : SchedSwitchInput)
    (m : Maps) (hne : input.prevPid ≠ input.nextPid) :
    (tpSchedSwitch ro input m).schedStates.lookup (schedKey input.nextPid) =
      incomingState ro input
        (m.schedStates.lookup (schedKey input.nextPid)) := by
  have hkey : schedKey input.nextPid ≠ schedKey input.prevPid :=
    fun heq => hne (schedKey_injective heq).symm
  rw [tpSchedSwitch, lookup_switchIn_next,
    lookup_switchOut_of_ne ro input m hkey]

/-- An entry after the outgoing half is an old one or the outgoing task's. -/
theorem lookup_switchOut_cases {ro : Rodata} {input : SchedSwitchInput}
    {m : Maps} {key : TaskKey} {state : SchedState}
    (hlookup : (switchOut ro input m).schedStates.lookup key = some state) :
    m.schedStates.lookup key = some state ∨
      key = schedKey input.prevPid ∧ filterPid ro input.prevPid = true ∧
        input.updateOk = true ∧ state.switchOutNs = input.outNs := by
  rw [switchOut_schedStates] at hlookup
  split at hlookup
  next hcond =>
    by_cases hkey : key = schedKey input.prevPid
    · subst hkey
      rw [Finmap.lookup_insert, Option.some.injEq] at hlookup
      exact .inr ⟨rfl, hcond.1, hcond.2, hlookup ▸ rfl⟩
    · rw [Finmap.lookup_insert_of_ne _ hkey] at hlookup
      exact .inl hlookup
  next => exact .inl hlookup

/-- An entry after the incoming half is an old one, perhaps with its interval
closed. -/
theorem lookup_switchIn_cases {ro : Rodata} {input : SchedSwitchInput}
    {m : Maps} {key : TaskKey} {state : SchedState}
    (hlookup : (switchIn ro input m).schedStates.lookup key = some state) :
    ∃ old, m.schedStates.lookup key = some old ∧
      (state.switchOutNs = old.switchOutNs ∨ state.switchOutNs = 0) := by
  by_cases hkey : key = schedKey input.nextPid
  · subst hkey
    rw [lookup_switchIn_next, incomingState, Option.map_eq_some_iff] at hlookup
    obtain ⟨old, hold, rfl⟩ := hlookup
    refine ⟨old, hold, ?_⟩
    split
    · exact .inr rfl
    · exact .inl rfl
  · rw [lookup_switchIn_of_ne ro input m hkey] at hlookup
    exact ⟨state, hlookup, .inl rfl⟩

end KernelScope.Handlers
