import KernelScope.Bpf.FilterSoundness
import KernelScope.Library.Interleaving

/-!
# Handlers on several CPUs

The five programs as they run next to each other.  A helper call that goes to a
map, or a store through the pointer that `bpf_map_lookup_elem` returned, is one
step; `bpf_ringbuf_reserve` takes a place in the ring, which stays busy until
`bpf_ringbuf_submit`, and the consumer stops in front of a busy place.

For the serial order, programs that run at the same time touch different elements.
A thread runs on one CPU, so this is a condition on tasks with equal keys only, such
as the idle tasks: they all have the tid 0, and without a pid filter they share an
entry of `sched_states`.
-/

namespace KernelScope.ConcurrentHandlers

open KernelScope.Filters
open KernelScope.FilterSoundness
open KernelScope.Handlers
open KernelScope.Interleaving
open KernelScope.StepRun
open KernelScope.WireFormat

/-- An element of one of the two hash maps. -/
inductive Cell where
  | activeSyscall (key : TaskKey)
  | schedState (key : TaskKey)
  deriving DecidableEq

abbrev Cell.Value : Cell → Type
  | .activeSyscall _ => Option ActiveSyscall
  | .schedState _ => Option SchedState

/-- The elements of the maps. -/
def cells (m : Maps) : ∀ cell : Cell, cell.Value
  | .activeSyscall key => m.activeSyscalls.lookup key
  | .schedState key => m.schedStates.lookup key

/-- A program that still has to be executed. -/
abbrev Code (phase : Interleaving.Phase) : Type :=
  Program Cell Cell.Value WireEvent phase

/-! ## The programs in steps -/

/-- `bpf_map_lookup_elem`, and the fields of the element. -/
def lookupElem {phase : Interleaving.Phase} (cell : Cell)
    (next : cell.Value → Code phase) : Code phase :=
  .access cell id next

/-- `bpf_map_update_elem`, `bpf_map_delete_elem`, or a store into an element. -/
def storeElem {phase : Interleaving.Phase} (cell : Cell)
    (write : cell.Value → cell.Value) (next : Code phase) : Code phase :=
  .access cell write fun _ => next

/-- Reserve a slot, fill and submit it; `next` follows whether or not there was
one. -/
def report (slot : Option WireEvent) (fill : WireEvent → WireEvent)
    (next : ∀ {phase : Interleaving.Phase}, Code phase → Code phase) : Code .before :=
  match slot with
  | some e => .reserve (.submit (fill e) (next .stop))
  | none => next .skip

def sysEnterCode (ro : Rodata) (task : TaskContext) (input : SysEnterInput) :
    Code .before :=
  if sysEnterAccepts ro task ∧ input.updateOk then
    storeElem (.activeSyscall (fillTaskKey ro task))
      (fun _ => some (sysEnterEntry ro input)) .skip
  else .skip

def sysExitCode (ro : Rodata) (task : TaskContext) (input : SysExitInput) :
    Code .before :=
  lookupElem (.activeSyscall (fillTaskKey ro task)) fun found =>
    match found with
    | none => .skip
    | some entry =>
        if input.now - entry.startNs ≥ ro.minLatencyNs then
          report input.slot (sysExitEvent ro task input entry)
            (storeElem (.activeSyscall (fillTaskKey ro task)) fun _ => none)
        else
          storeElem (.activeSyscall (fillTaskKey ro task)) (fun _ => none) .skip

/-- A store into an element that is there. -/
def storeState {phase : Interleaving.Phase} (key : TaskKey)
    (write : SchedState → SchedState) (next : Code phase) : Code phase :=
  storeElem (.schedState key) (Option.map write) next

def switchOutCode (ro : Rodata) (input : SchedSwitchInput) (next : Code .before) :
    Code .before :=
  if filterPid ro input.prevPid then
    lookupElem (.schedState (schedKey input.prevPid)) fun existing =>
      if input.updateOk then
        storeElem (.schedState (schedKey input.prevPid))
          (fun _ => some (outgoingState input existing)) next
      else next
  else next

def switchInCode (ro : Rodata) (input : SchedSwitchInput) : Code .before :=
  if filterPid ro input.nextPid then
    lookupElem (.schedState (schedKey input.nextPid)) fun found =>
      match found with
      | none => .skip
      | some state =>
          if state.switchOutNs > 0 then
            let offcpuNs := input.inNs - state.switchOutNs
            storeState (schedKey input.nextPid)
              (fun state => { state with switchInNs := input.inNs }) <|
            storeState (schedKey input.nextPid)
              (fun state => { state with
                accumulatedOffcpuNs := state.accumulatedOffcpuNs + offcpuNs }) <|
            if offcpuNs ≥ ro.minOffcpuNs then
              report input.slot (offcpuEvent input offcpuNs)
                (storeState (schedKey input.nextPid)
                  fun state => { state with switchOutNs := 0 })
            else
              storeState (schedKey input.nextPid)
                (fun state => { state with switchOutNs := 0 }) .skip
          else .skip
  else .skip

def processExecCode (ro : Rodata) (task : TaskContext) (input : LifecycleInput) :
    Code .before :=
  if filterPid ro (fillTaskKey ro task).pid then
    report input.slot (lifecycleEvent ro task input .procExec) fun code => code
  else .skip

def processExitCode (ro : Rodata) (task : TaskContext) (input : LifecycleInput) :
    Code .before :=
  storeElem (.activeSyscall (fillTaskKey ro task)) (fun _ => none) <|
  storeElem (.schedState (fillTaskKey ro task)) (fun _ => none) <|
  if filterPid ro (fillTaskKey ro task).pid then
    report input.slot (lifecycleEvent ro task input .procExit) fun code => code
  else .skip

def code (ro : Rodata) : Call → Code .before
  | .sysEnter task input => sysEnterCode ro task input
  | .sysExit task input => sysExitCode ro task input
  | .schedSwitch input => switchOutCode ro input (switchInCode ro input)
  | .processExec task input => processExecCode ro task input
  | .processExit task input => processExitCode ro task input

/-- The elements that a program may touch.  `tp_sched_switch` passes over the threads
that the filter rejects. -/
def foot (ro : Rodata) : Call → Finset Cell
  | .schedSwitch input =>
      (({input.prevPid, input.nextPid} : Finset UInt32).filter fun tid => filterPid ro tid).image
        fun tid => .schedState (schedKey tid)
  | .sysEnter task _ | .sysExit task _ => {.activeSyscall (fillTaskKey ro task)}
  | .processExec _ _ => ∅
  | .processExit task _ =>
      {.activeSyscall (fillTaskKey ro task), .schedState (fillTaskKey ro task)}

/-! ## The steps together -/

section Steps

variable {phase : Interleaving.Phase} {ro : Rodata}

theorem finish_lookupElem (cell : Cell) (next : cell.Value → Code phase)
    (mem : ∀ cell : Cell, cell.Value) :
    (lookupElem cell next).finish mem = (next (mem cell)).finish mem := by
  rw [lookupElem, Program.finish, id, Function.update_eq_self]

theorem emits_lookupElem (cell : Cell) (next : cell.Value → Code phase)
    (mem : ∀ cell : Cell, cell.Value) :
    (lookupElem cell next).emits mem = (next (mem cell)).emits mem := by
  rw [lookupElem, Program.emits, id, Function.update_eq_self]

theorem finish_storeElem (cell : Cell) (write : cell.Value → cell.Value)
    (next : Code phase) (mem : ∀ cell : Cell, cell.Value) :
    (storeElem cell write next).finish mem =
      next.finish (Function.update mem cell (write (mem cell))) := rfl

theorem emits_storeElem (cell : Cell) (write : cell.Value → cell.Value)
    (next : Code phase) (mem : ∀ cell : Cell, cell.Value) :
    (storeElem cell write next).emits mem =
      next.emits (Function.update mem cell (write (mem cell))) := rfl

theorem within_report {within : Finset Cell} (slot : Option WireEvent)
    (fill : WireEvent → WireEvent)
    {next : ∀ {phase : Interleaving.Phase}, Code phase → Code phase}
    (hnext : ∀ {phase : Interleaving.Phase} (code : Code phase),
      code.Within within → (next code).Within within) :
    (report slot fill next).Within within := by
  cases slot with
  | none => exact hnext _ trivial
  | some e => exact hnext _ trivial

theorem finish_report (slot : Option WireEvent) (fill : WireEvent → WireEvent)
    {next : ∀ {phase : Interleaving.Phase}, Code phase → Code phase}
    {mem after : ∀ cell : Cell, cell.Value}
    (hstop : (next .stop).finish mem = after) (hskip : (next .skip).finish mem = after) :
    (report slot fill next).finish mem = after := by
  cases slot with
  | none => exact hskip
  | some e => exact hstop

theorem emits_report (slot : Option WireEvent) (fill : WireEvent → WireEvent)
    {next : ∀ {phase : Interleaving.Phase}, Code phase → Code phase}
    {mem : ∀ cell : Cell, cell.Value} (hskip : (next .skip).emits mem = none) :
    (report slot fill next).emits mem = slot.map fill := by
  cases slot with
  | none => exact hskip
  | some e => rfl

theorem mem_foot_schedSwitch {input : SchedSwitchInput} {tid : UInt32}
    (htid : tid = input.prevPid ∨ tid = input.nextPid)
    (hfilter : filterPid ro tid = true) :
    Cell.schedState (schedKey tid) ∈ foot ro (.schedSwitch input) := by
  apply Finset.mem_image_of_mem
  rw [Finset.mem_filter, Finset.mem_insert, Finset.mem_singleton]
  exact ⟨htid, hfilter⟩

theorem within_switchIn {input : SchedSwitchInput} :
    (switchInCode ro input).Within (foot ro (.schedSwitch input)) := by
  unfold switchInCode
  split
  next hfilter =>
    have hmem : Cell.schedState (schedKey input.nextPid) ∈
        foot ro (.schedSwitch input) := by
      exact mem_foot_schedSwitch (.inr rfl) hfilter
    refine ⟨hmem, fun found => ?_⟩
    cases found with
    | none => trivial
    | some state =>
        dsimp only
        split
        · refine ⟨hmem, fun _ => ⟨hmem, fun _ => ?_⟩⟩
          split
          · exact within_report _ _ fun code hcode => ⟨hmem, fun _ => hcode⟩
          · exact ⟨hmem, fun _ => trivial⟩
        · trivial
  next => trivial

/-- A program stays within its elements. -/
theorem within_code (call : Call) : (code ro call).Within (foot ro call) := by
  cases call with
  | sysEnter task input =>
      rw [code, sysEnterCode]
      split
      · exact ⟨by simp [foot], fun _ => trivial⟩
      · trivial
  | sysExit task input =>
      have hmem : Cell.activeSyscall (fillTaskKey ro task) ∈
          foot ro (.sysExit task input) := by
        simp [foot]
      refine ⟨hmem, fun found => ?_⟩
      cases found with
      | none => trivial
      | some entry =>
          dsimp only
          split
          · exact within_report _ _ fun code hcode => ⟨hmem, fun _ => hcode⟩
          · exact ⟨hmem, fun _ => trivial⟩
  | schedSwitch input =>
      rw [code, switchOutCode]
      split
      next hfilter =>
        have hmem : Cell.schedState (schedKey input.prevPid) ∈
            foot ro (.schedSwitch input) := by
          exact mem_foot_schedSwitch (.inl rfl) hfilter
        refine ⟨hmem, fun existing => ?_⟩
        split
        · exact ⟨hmem, fun _ => within_switchIn⟩
        · exact within_switchIn
      next => exact within_switchIn
  | processExec task input =>
      rw [code, processExecCode]
      split
      · exact within_report _ _ fun code hcode => hcode
      · trivial
  | processExit task input =>
      refine ⟨by simp [foot], fun _ => ⟨by simp [foot], fun _ => ?_⟩⟩
      split
      · exact within_report _ _ fun code hcode => hcode
      · trivial

/-! ## The steps against the handlers -/

/-- A store into an element of `active_syscalls`. -/
theorem update_activeSyscall {m m' : Maps} {key : TaskKey}
    {value : Option ActiveSyscall} (hsched : m'.schedStates = m.schedStates)
    (hself : m'.activeSyscalls.lookup key = value)
    (hother : ∀ other, other ≠ key →
      m'.activeSyscalls.lookup other = m.activeSyscalls.lookup other) :
    Function.update (cells m) (.activeSyscall key) value = cells m' := by
  apply Function.update_eq_iff.mpr
  refine ⟨hself.symm, fun cell hne => ?_⟩
  cases cell with
  | schedState other => rw [cells, cells, hsched]
  | activeSyscall other => exact (hother other fun heq => hne (heq ▸ rfl)).symm

/-- A store into an element of `sched_states`. -/
theorem update_schedState {m m' : Maps} {key : TaskKey}
    {value : Option SchedState} (hactive : m'.activeSyscalls = m.activeSyscalls)
    (hself : m'.schedStates.lookup key = value)
    (hother : ∀ other, other ≠ key →
      m'.schedStates.lookup other = m.schedStates.lookup other) :
    Function.update (cells m) (.schedState key) value = cells m' := by
  apply Function.update_eq_iff.mpr
  refine ⟨hself.symm, fun cell hne => ?_⟩
  cases cell with
  | activeSyscall other => rw [cells, cells, hactive]
  | schedState other => exact (hother other fun heq => hne (heq ▸ rfl)).symm

theorem erase_activeSyscall (m : Maps) (key : TaskKey) :
    Function.update (cells m) (.activeSyscall key) none =
      cells { m with activeSyscalls := m.activeSyscalls.erase key } :=
  update_activeSyscall rfl (Finmap.lookup_erase _ _)
    fun _ hne => Finmap.lookup_erase_ne hne

theorem erase_schedState (m : Maps) (key : TaskKey) :
    Function.update (cells m) (.schedState key) none =
      cells { m with schedStates := m.schedStates.erase key } :=
  update_schedState rfl (Finmap.lookup_erase _ _)
    fun _ hne => Finmap.lookup_erase_ne hne

theorem cells_congr {m m' : Maps} (hactive : m.activeSyscalls = m'.activeSyscalls)
    (hsched : m.schedStates = m'.schedStates) : cells m = cells m' := by
  funext cell
  cases cell with
  | activeSyscall key => rw [cells, cells, hactive]
  | schedState key => rw [cells, cells, hsched]

theorem insert_schedState (m : Maps) (key : TaskKey) (state : SchedState) :
    Function.update (cells m) (.schedState key) (some state) =
      cells { m with schedStates := m.schedStates.insert key state } :=
  update_schedState rfl (Finmap.lookup_insert _)
    fun _ hne => Finmap.lookup_insert_of_ne _ hne

/-- A store into an element that the map has. -/
theorem update_storeState {m : Maps} {key : TaskKey} {state : SchedState}
    (hstate : m.schedStates.lookup key = some state) (write : SchedState → SchedState) :
    Function.update (cells m) (.schedState key)
        ((cells m (.schedState key)).map write) =
      cells { m with schedStates := m.schedStates.insert key (write state) } := by
  rw [cells, hstate, Option.map_some]
  exact insert_schedState m key (write state)

theorem finish_storeState {m : Maps} {key : TaskKey} {state : SchedState}
    (hstate : m.schedStates.lookup key = some state) (write : SchedState → SchedState)
    (next : Code phase) :
    (storeState key write next).finish (cells m) =
      next.finish (cells { m with schedStates := m.schedStates.insert key (write state) }) := by
  rw [storeState, finish_storeElem, update_storeState hstate]

theorem emits_storeState {m : Maps} {key : TaskKey} {state : SchedState}
    (hstate : m.schedStates.lookup key = some state) (write : SchedState → SchedState)
    (next : Code phase) :
    (storeState key write next).emits (cells m) =
      next.emits (cells { m with schedStates := m.schedStates.insert key (write state) }) := by
  rw [storeState, emits_storeElem, update_storeState hstate]

/-- The incoming half of a switch. -/
theorem finish_switchIn (input : SchedSwitchInput) (m : Maps) :
    (switchInCode ro input).finish (cells m) = cells (switchIn ro input m) := by
  unfold switchInCode switchIn
  split
  · rw [finish_lookupElem, cells]
    cases hstate : m.schedStates.lookup (schedKey input.nextPid) with
    | none => rfl
    | some state =>
        dsimp only
        split
        · rw [finish_storeState hstate, finish_storeState (Finmap.lookup_insert _)]
          simp only [Finmap.insert_insert]
          split
          · apply finish_report
            · rw [finish_storeState (Finmap.lookup_insert _), Finmap.insert_insert]
              apply cells_congr <;> simp [closeInterval]
            · rw [finish_storeState (Finmap.lookup_insert _), Finmap.insert_insert]
              apply cells_congr <;> simp [closeInterval]
          · rw [finish_storeState (Finmap.lookup_insert _), Finmap.insert_insert]
            rfl
        · rfl
  · rfl

theorem emits_switchIn (input : SchedSwitchInput) (m : Maps) :
    (switchInCode ro input).emits (cells (switchOut ro input m)) =
      (Call.schedSwitch input).record ro m := by
  rw [Call.record, Call.emission, switchInCode]
  split
  · rw [emits_lookupElem, cells]
    cases hstate : (switchOut ro input m).schedStates.lookup (schedKey input.nextPid) with
    | none => rfl
    | some state =>
        dsimp only [Option.bind_some]
        by_cases hout : state.switchOutNs > 0
        · rw [if_pos hout, emits_storeState hstate,
            emits_storeState (Finmap.lookup_insert _)]
          by_cases hlong : input.inNs - state.switchOutNs ≥ ro.minOffcpuNs
          · rw [if_pos hlong, if_pos ⟨hout, hlong⟩]
            exact emits_report _ _ rfl
          · rw [if_neg hlong, if_neg fun hopen => hlong hopen.2]
            rfl
        · rw [if_neg hout, if_neg fun hopen => hout hopen.1]
          rfl
  · rfl

/-- The outgoing half of a switch, before whatever comes next. -/
theorem switchOutCode_cells (input : SchedSwitchInput) (next : Code .before) (m : Maps) :
    (switchOutCode ro input next).finish (cells m) =
        next.finish (cells (switchOut ro input m)) ∧
      (switchOutCode ro input next).emits (cells m) =
        next.emits (cells (switchOut ro input m)) := by
  unfold switchOutCode switchOut
  split
  · rw [finish_lookupElem, emits_lookupElem, cells]
    split
    · rw [finish_storeElem, emits_storeElem, insert_schedState]
      exact ⟨rfl, rfl⟩
    · exact ⟨rfl, rfl⟩
  · exact ⟨rfl, rfl⟩

/-- Executed without interruption, the steps are the handler. -/
theorem finish_code (call : Call) (m : Maps) :
    (code ro call).finish (cells m) = cells (call.handle ro m) := by
  cases call with
  | sysEnter task input =>
      have hstored := tpSysEnter_activeSyscalls ro task input m
      rw [code, sysEnterCode]
      split
      next haccepted =>
        rw [if_pos haccepted] at hstored
        rw [finish_storeElem, Program.finish]
        apply update_activeSyscall (tpSysEnter_schedStates ro task input m)
        · rw [hstored, Finmap.lookup_insert]
        · intro other hne
          rw [hstored, Finmap.lookup_insert_of_ne _ hne]
      next hrejected =>
        rw [if_neg hrejected] at hstored
        exact cells_congr hstored.symm (tpSysEnter_schedStates ro task input m).symm
  | sysExit task input =>
      have hdeleted : Function.update (cells m) (.activeSyscall (fillTaskKey ro task)) none =
          cells (tpSysExit ro task input m) := by
        rw [erase_activeSyscall]
        exact cells_congr (tpSysExit_activeSyscalls ro task input m).symm
          (tpSysExit_schedStates ro task input m).symm
      rw [code, sysExitCode, finish_lookupElem, cells]
      cases hentry : m.activeSyscalls.lookup (fillTaskKey ro task) with
      | none =>
          rw [Call.handle, tpSysExit, hentry]
          rfl
      | some entry =>
          dsimp only
          split
          · exact finish_report _ _ hdeleted hdeleted
          · exact hdeleted
  | schedSwitch input =>
      rw [code, (switchOutCode_cells input _ m).1, finish_switchIn]
      rfl
  | processExec task input =>
      have hsame : cells m = cells (tpSchedProcessExec ro task input m) :=
        cells_congr (tpSchedProcessExec_activeSyscalls ro task input m).symm
          (tpSchedProcessExec_schedStates ro task input m).symm
      rw [code, processExecCode]
      split
      · exact finish_report _ _ hsame hsame
      · exact hsame
  | processExit task input =>
      have hcells : cells { m with
            activeSyscalls := m.activeSyscalls.erase (fillTaskKey ro task)
            schedStates := m.schedStates.erase (fillTaskKey ro task) } =
          cells (tpSchedProcessExit ro task input m) :=
        cells_congr (tpSchedProcessExit_activeSyscalls ro task input m).symm
          (tpSchedProcessExit_schedStates ro task input m).symm
      rw [code, processExitCode, finish_storeElem, erase_activeSyscall,
        finish_storeElem, erase_schedState]
      split
      · exact finish_report _ _ hcells hcells
      · exact hcells

/-- They submit the record of the handler. -/
theorem emits_code (call : Call) (m : Maps) :
    (code ro call).emits (cells m) = call.record ro m := by
  cases call with
  | sysEnter task input =>
      rw [code, sysEnterCode]
      split <;> rfl
  | sysExit task input =>
      rw [code, sysExitCode, emits_lookupElem, cells, Call.record, Call.emission]
      cases m.activeSyscalls.lookup (fillTaskKey ro task) with
      | none => rfl
      | some entry =>
          dsimp only [Option.bind_some]
          split
          · exact emits_report _ _ rfl
          · rfl
  | schedSwitch input =>
      rw [code, (switchOutCode_cells input _ m).2, emits_switchIn]
  | processExec task input =>
      rw [code, processExecCode, Call.record, Call.emission]
      split
      · exact emits_report _ _ rfl
      · rfl
  | processExit task input =>
      rw [code, processExitCode, emits_storeElem, emits_storeElem, Call.record,
        Call.emission]
      split
      · exact emits_report _ _ rfl
      · rfl

end Steps

/-! ## Several CPUs -/

/-- The call as a task for a CPU. -/
def task (ro : Rodata) (call : Call) : Task Cell Cell.Value WireEvent where
  program := code ro call
  foot := foot ro call
  within := within_code call

/-- The CPUs and the maps when the programs have just been attached. -/
def attached (Cpu : Type*) (ro : Rodata) : Machine Cpu (task ro) :=
  Machine.idle (task ro) (cells Maps.empty)

section Machines

variable {Cpu : Type*} [DecidableEq Cpu] {ro : Rodata}

omit [DecidableEq Cpu] in
/-- A CPU handles one tracepoint at a time, and no two CPUs handle tracepoints about
the same element of a map. -/
def HandledApart (ro : Rodata) (m : Machine Cpu (task ro)) : Label Cpu Call → Prop
  | .start cpu call =>
      m.thread cpu = none ∧
        ∀ other running, m.thread other = some running →
          Disjoint (foot ro running.job) (foot ro call)
  | .step _ => True

theorem serialized_run_attached {labels : List (Label Cpu Call)}
    (hrun : Along Interleaving.exec (HandledApart ro) (attached Cpu ro) labels) :
    Serialized (cells Maps.empty) (run Interleaving.exec (attached Cpu ro) labels) := by
  apply serialized_run
  refine along_of_invariant (fun _ => True) (fun _ _ _ _ => trivial) ?_ trivial hrun
  intro m label _ hapart
  cases label with
  | start cpu call => exact hapart
  | step cpu => trivial

omit [DecidableEq Cpu] in
/-- The serial execution of the tasks is the run of the handlers. -/
theorem serial_task (jobs : List (Cpu × Call)) :
    serial (task ro) (cells Maps.empty) jobs =
      (cells (run (fire ro) Maps.empty (jobs.map Prod.snd)),
        (run (fire ro) Maps.empty (jobs.map Prod.snd)).events) := by
  have hrun : ∀ (jobs : List (Cpu × Call)) (m : Maps),
      run (perform (task ro)) (cells m, m.events) jobs =
        (cells (run (fire ro) m (jobs.map Prod.snd)),
          (run (fire ro) m (jobs.map Prod.snd)).events) := by
    intro jobs
    induction jobs with
    | nil => exact fun m => rfl
    | cons begun jobs ih =>
        intro m
        have hstep : perform (task ro) (cells m, m.events) begun =
            (cells (fire ro m begun.2), (fire ro m begun.2).events) := by
          rw [perform, fire, events_handle]
          simp only [task, finish_code, emits_code]
        rw [run_cons, hstep, ih, List.map_cons, run_cons]
  exact hrun jobs Maps.empty

/-- Whatever the CPUs do at the same time, the consumer sees the first events of
a run of the handlers one after the other, over the calls in the order in which
they reserve their places or end.  This order is never revised, it keeps the
order of each CPU, and it contains every call that has returned.  When all calls
have returned, the ring and both maps are those of that run. -/
theorem handlers_serializable {labels : List (Label Cpu Call)}
    (hrun : Along Interleaving.exec (HandledApart ro) (attached Cpu ro) labels) :
    let m := run Interleaving.exec (attached Cpu ro) labels
    let maps := run (fire ro) Maps.empty (m.done.map Prod.snd)
    visible m.queue <+: maps.events ∧
      (∀ more, m.done <+: (run Interleaving.exec m more).done) ∧
      (∀ cpu, onCpu cpu m.done <+: onCpu cpu m.begun ∧
        (m.thread cpu = none → onCpu cpu m.done = onCpu cpu m.begun)) ∧
      ((∀ cpu, m.thread cpu = none) →
        visible m.queue = maps.events ∧ m.mem = cells maps) := by
  intro m maps
  have hserialized := serialized_run_attached hrun
  have hserial : serial (task ro) (cells Maps.empty) m.done = (cells maps, maps.events) :=
    serial_task m.done
  refine ⟨?_, done_prefix_run m, fun cpu => ⟨?_, fun hidle => ?_⟩, fun hquiet => ?_⟩
  · have hvisible := hserialized.visible_isPrefix
    rw [hserial] at hvisible
    exact hvisible
  · exact hserialized.onCpu_isPrefix cpu
  · exact (hserialized.resting cpu hidle).symm
  · have hall := hserialized.quiet hquiet
    rw [hserial] at hall
    exact ⟨hall.2, hall.1⟩

end Machines

/-- The exit of one process overtakes the exec of another one on a second CPU:
both have taken effect, but the exec has not filled its place yet, and nothing
can be seen. -/
theorem handlers_serializable_overtaken :
    let labels : List (Label Bool Call) :=
      [.start false (.processExec (TaskContext.ofIds 7 7) ⟨1000, some WireEvent.zero⟩),
        .step false,
        .start true (.processExit (TaskContext.ofIds 8 8) ⟨2000, some WireEvent.zero⟩),
        .step true, .step true, .step true, .step true, .step true]
    let m := run Interleaving.exec (attached Bool Rodata.default) labels
    let maps := run (fire Rodata.default) Maps.empty (m.done.map Prod.snd)
    visible m.queue = [] ∧ maps.events.map WireEvent.pid = [7, 8] ∧
      visible m.queue <+: maps.events ∧ m.thread true = none := by
  intro labels m maps
  have hrun : Along Interleaving.exec (HandledApart Rodata.default)
      (attached Bool Rodata.default) labels := by
    refine ⟨⟨rfl, ?_⟩, trivial, ⟨rfl, ?_⟩, trivial, trivial, trivial, trivial,
      trivial, trivial⟩
    · intro other running hother
      cases hother
    · intro other running hother
      cases other with
      | true => cases hother
      | false =>
          cases hother
          decide
  exact ⟨rfl, rfl, (handlers_serializable hrun).1, rfl⟩

end KernelScope.ConcurrentHandlers
