import KernelScope.Bpf.HandlerSpecs
import KernelScope.Library.StepRun
import Mathlib.Logic.Function.Basic

/-!
# What the filters guarantee

Runs of the five programs over any tasks in any order.  The pid filter is an
invariant of the two maps: `tp_sys_exit` does not ask, but the keys it can find
have been let in by `tp_sys_enter`.  The comm filter is applied by
`tp_sys_enter` alone.  Whether it holds for the events of the other programs is
decided by the tasks: by who is switched in after having been switched out, and
by who calls exec or exits.
-/

namespace KernelScope.FilterSoundness

open KernelScope.Events
open KernelScope.Filters
open KernelScope.Handlers
open KernelScope.KeyedFold
open KernelScope.StepRun
open KernelScope.WireFormat

/-! ## The pid filter -/

/-- One program invocation. -/
def fire (ro : Rodata) (m : Maps) (call : Call) : Maps :=
  call.handle ro m

/-- Everything in the maps is about the target process. -/
structure OnlyTarget (ro : Rodata) (m : Maps) : Prop where
  events : ∀ e ∈ m.events, e.pid = ro.targetPid
  activeSyscalls : ∀ key ∈ m.activeSyscalls, key.pid = ro.targetPid
  schedStates : ∀ key ∈ m.schedStates, key.pid = ro.targetPid

section Pid

variable {ro : Rodata} {m : Maps}

theorem eq_targetPid_of_filterPid (htarget : ro.targetPid ≠ 0) {pid : UInt32}
    (hfilter : filterPid ro pid = true) : pid = ro.targetPid := by
  rw [filterPid, if_neg htarget] at hfilter
  exact of_decide_eq_true hfilter

/-- A record is about the target, given that the stored system calls are. -/
theorem record_pid (htarget : ro.targetPid ≠ 0)
    (hactive : ∀ key ∈ m.activeSyscalls, key.pid = ro.targetPid) {call : Call}
    {e : WireEvent} (hrecord : call.record ro m = some e) :
    e.pid = ro.targetPid := by
  cases call with
  | sysEnter task input => cases hrecord
  | sysExit task input =>
      obtain ⟨entry, slot, hlookup, -, -, rfl⟩ := record_sysExit.mp hrecord
      exact hactive _ (Finmap.mem_of_lookup_eq_some hlookup)
  | schedSwitch input =>
      obtain ⟨state, slot, hfilter, -, -, -, rfl⟩ :=
        record_schedSwitch.mp hrecord
      exact eq_targetPid_of_filterPid htarget hfilter
  | processExec task input =>
      obtain ⟨slot, hfilter, -, rfl⟩ := record_processExec.mp hrecord
      exact eq_targetPid_of_filterPid htarget hfilter
  | processExit task input =>
      obtain ⟨slot, hfilter, -, rfl⟩ := record_processExit.mp hrecord
      exact eq_targetPid_of_filterPid htarget hfilter

/-- The call stores an entry under the key. -/
def Stores (ro : Rodata) (key : TaskKey) (call : Call) : Prop :=
  ∃ task input, call = .sysEnter task input ∧
    (sysEnterAccepts ro task = true ∧ input.updateOk = true) ∧
    fillTaskKey ro task = key

/-- Only `tp_sys_enter` adds a key to `active_syscalls`. -/
theorem mem_activeSyscalls_handle {call : Call} {key : TaskKey}
    (hkey : key ∈ (call.handle ro m).activeSyscalls) :
    key ∈ m.activeSyscalls ∨ Stores ro key call := by
  obtain ⟨entry, hlookup⟩ := Finmap.mem_iff.mp hkey
  rcases lookup_handle_activeSyscalls_cases hlookup with
    hold | ⟨task, input, hcall, hstored, htask, -⟩
  · exact .inl (Finmap.mem_of_lookup_eq_some hold)
  · exact .inr ⟨task, input, hcall, hstored, htask⟩

theorem Stores.filterPid {call : Call} {key : TaskKey} (hstores : Stores ro key call) :
    Filters.filterPid ro key.pid = true := by
  obtain ⟨task, input, -, ⟨haccepts, -⟩, rfl⟩ := hstores
  exact (Bool.and_eq_true_iff.mp haccepts).1

/-- A key of `sched_states` has passed the filter as the tid of an outgoing
task. -/
theorem mem_schedStates_handle {call : Call} {key : TaskKey}
    (hkey : key ∈ (call.handle ro m).schedStates) :
    key ∈ m.schedStates ∨ filterPid ro key.pid = true := by
  cases call with
  | sysEnter task input =>
      rw [Call.handle, tpSysEnter_schedStates] at hkey
      exact .inl hkey
  | sysExit task input =>
      rw [Call.handle, tpSysExit_schedStates] at hkey
      exact .inl hkey
  | schedSwitch input =>
      obtain ⟨state, hstate⟩ := Finmap.mem_iff.mp hkey
      obtain ⟨old, hold, -⟩ := lookup_switchIn_cases hstate
      rcases lookup_switchOut_cases hold with hbefore | ⟨rfl, hfilter, -⟩
      · exact .inl (Finmap.mem_of_lookup_eq_some hbefore)
      · exact .inr hfilter
  | processExec task input =>
      rw [Call.handle, tpSchedProcessExec_schedStates] at hkey
      exact .inl hkey
  | processExit task input =>
      rw [Call.handle, tpSchedProcessExit_schedStates] at hkey
      exact .inl (Finmap.mem_erase.mp hkey).2

theorem onlyTarget_fire (htarget : ro.targetPid ≠ 0) (m : Maps) (call : Call)
    (honly : OnlyTarget ro m) : OnlyTarget ro (fire ro m call) where
  events e he := by
    rw [fire, events_handle, List.mem_append, Option.mem_toList] at he
    rcases he with hold | hnew
    · exact honly.events e hold
    · exact record_pid htarget honly.activeSyscalls hnew
  activeSyscalls key hkey :=
    (mem_activeSyscalls_handle hkey).elim (honly.activeSyscalls key)
      fun hstores => eq_targetPid_of_filterPid htarget hstores.filterPid
  schedStates key hkey :=
    (mem_schedStates_handle hkey).elim (honly.schedStates key)
      (eq_targetPid_of_filterPid htarget)

/-- In every run under a pid filter, the events and both maps are about the
target process only. -/
theorem pidFilter_sound (htarget : ro.targetPid ≠ 0) (calls : List Call) :
    Always (fire ro)
      (fun m =>
        (∀ e ∈ m.events, e.pid = ro.targetPid) ∧
        (∀ key ∈ m.activeSyscalls, key.pid = ro.targetPid) ∧
        ∀ key ∈ m.schedStates, key.pid = ro.targetPid)
      Maps.empty calls := by
  have hstart : OnlyTarget ro Maps.empty := by
    refine ⟨?_, ?_, ?_⟩
    · intro e he
      cases he
    · intro key hkey
      exact absurd hkey Finmap.notMem_empty
    · intro key hkey
      exact absurd hkey Finmap.notMem_empty
  refine (always_of_step (OnlyTarget ro) ?_ hstart calls).imp
    fun _ honly => ⟨honly.events, honly.activeSyscalls, honly.schedStates⟩
  intro m call honly
  exact onlyTarget_fire htarget m call honly

end Pid

/-- An exec of the target and one of another process. -/
theorem pidFilter_sound_exec :
    let ro := { Rodata.default with targetPid := 7 }
    let m := run (fire ro) Maps.empty
      [.processExec (TaskContext.ofIds 7 7) ⟨1000, some WireEvent.zero⟩,
        .processExec (TaskContext.ofIds 8 8) ⟨2000, some WireEvent.zero⟩]
    m.events.length = 1 ∧ ∀ e ∈ m.events, e.pid = 7 := by
  intro ro m
  have htarget : ro.targetPid ≠ 0 := by decide
  exact ⟨by decide +kernel, (pidFilter_sound htarget _).last.1⟩

/-! ## The comm filter -/

/-- The tasks that a tracepoint is about.  What its program reads besides (clocks,
and the answers of the maps and of the ring) is left open. -/
inductive Tracepoint where
  | sysEnter (task : TaskContext)
  | sysExit (task : TaskContext)
  | schedSwitch (prevPid nextPid : UInt32) (nextComm : Comm)
  | processExec (task : TaskContext)
  | processExit (task : TaskContext)

def tracepoint : Call → Tracepoint
  | .sysEnter task _ => .sysEnter task
  | .sysExit task _ => .sysExit task
  | .schedSwitch input => .schedSwitch input.prevPid input.nextPid input.nextComm
  | .processExec task _ => .processExec task
  | .processExit task _ => .processExit task

/-- The name under which a tracepoint shows its task: the current one, or the
incoming one of a switch. -/
def Tracepoint.comm : Tracepoint → Comm
  | .sysEnter task | .sysExit task | .processExec task | .processExit task => task.comm
  | .schedSwitch _ _ nextComm => nextComm

/-- A tracepoint and the task whose name it shows. -/
structure Occurrence (Task : Type*) where
  task : Task
  tracepoint : Tracepoint

/-- A program invocation and the task it is about. -/
structure Firing (Task : Type*) where
  task : Task
  call : Call

section Comm

variable {Task : Type*}

def Firing.occurrence (firing : Firing Task) : Occurrence Task where
  task := firing.task
  tracepoint := FilterSoundness.tracepoint firing.call

def fireTask (ro : Rodata) (m : Maps) (firing : Firing Task) : Maps :=
  fire ro m firing.call

/-- An event that the call submits is one of a task that the comm filter accepts. -/
def CommAccepted (ro : Rodata) (comm : Task → Comm) (m : Maps) (firing : Firing Task) :
    Prop :=
  (fireTask ro m firing).events ≠ m.events → filterComm ro (comm firing.task) = true

/-- What the tasks are in the middle of, by their keys: system calls that both filters
let in, with the tasks that make them, and time off the CPU. -/
structure Underway (Task : Type*) where
  inCall : List (TaskKey × Task)
  offCpu : Finset TaskKey

def Underway.none : Underway Task where
  inCall := []
  offCpu := ∅

/-- The calls under way once those under a key are over. -/
def withoutKey (key : TaskKey) (inCall : List (TaskKey × Task)) : List (TaskKey × Task) :=
  inCall.filter fun call => call.1 ≠ key

/-- The threads off the CPU once the outgoing one has left it. -/
def leave (ro : Rodata) (prevPid : UInt32) (offCpu : Finset TaskKey) : Finset TaskKey :=
  if filterPid ro prevPid then insert (schedKey prevPid) offCpu else offCpu

def track (ro : Rodata) (u : Underway Task) (occurrence : Occurrence Task) : Underway Task :=
  match occurrence.tracepoint with
  | .sysEnter task =>
      if sysEnterAccepts ro task then
        { u with inCall := (fillTaskKey ro task, occurrence.task) :: u.inCall }
      else u
  | .sysExit task => { u with inCall := withoutKey (fillTaskKey ro task) u.inCall }
  | .schedSwitch prevPid nextPid _ =>
      if filterPid ro nextPid then
        { u with offCpu := (leave ro prevPid u.offCpu).erase (schedKey nextPid) }
      else { u with offCpu := leave ro prevPid u.offCpu }
  | .processExec _ => u
  | .processExit task =>
      { inCall := withoutKey (fillTaskKey ro task) u.inCall
        offCpu := u.offCpu.erase (fillTaskKey ro task) }

/-- The tracepoint may report a task about which `filter_comm` was not asked: a thread
that comes back from off the CPU, an exec or an exit, all under the pid filter, or the
end of a system call while another task has one under the same key. -/
def Exposed (ro : Rodata) (u : Underway Task) (occurrence : Occurrence Task) : Prop :=
  match occurrence.tracepoint with
  | .sysEnter _ => False
  | .sysExit task => ∃ other, (fillTaskKey ro task, other) ∈ u.inCall ∧ other ≠ occurrence.task
  | .schedSwitch prevPid nextPid _ =>
      filterPid ro nextPid = true ∧ schedKey nextPid ∈ leave ro prevPid u.offCpu
  | .processExec task | .processExit task => filterPid ro (fillTaskKey ro task).pid = true

/-- Such a task is accepted by the comm filter nevertheless. -/
def Screened (ro : Rodata) (comm : Task → Comm) (u : Underway Task)
    (occurrence : Occurrence Task) : Prop :=
  Exposed ro u occurrence → filterComm ro (comm occurrence.task) = true

/-- The tracepoint shows the name that the task always has. -/
def Named (comm : Task → Comm) (occurrence : Occurrence Task) : Prop :=
  occurrence.tracepoint.comm = comm occurrence.task

variable {ro : Rodata} {comm : Task → Comm} {m : Maps} {u : Underway Task}

theorem mem_withoutKey {key : TaskKey} {inCall : List (TaskKey × Task)} {call : TaskKey × Task} :
    call ∈ withoutKey key inCall ↔ call ∈ inCall ∧ call.1 ≠ key := by
  rw [withoutKey, List.mem_filter, decide_eq_true_iff]

theorem events_fireTask_ne_iff {firing : Firing Task} :
    (fireTask ro m firing).events ≠ m.events ↔ ∃ e, firing.call.record ro m = some e := by
  rw [fireTask, fire, events_handle]
  cases firing.call.record ro m with
  | none => simp
  | some e => simp

/-! ### What is reported -/

/-- The maps hold no more than what the tasks are in the middle of, and the calls are
those of accepted tasks. -/
structure Tracked (ro : Rodata) (comm : Task → Comm) (m : Maps) (u : Underway Task) : Prop where
  active : ∀ key ∈ m.activeSyscalls, ∃ task, (key, task) ∈ u.inCall
  away : ∀ key state, m.schedStates.lookup key = some state → 0 < state.switchOutNs →
    key ∈ u.offCpu
  accepted : ∀ call ∈ u.inCall, filterComm ro (comm call.2) = true

theorem tracked_empty : Tracked ro comm Maps.empty Underway.none where
  active key hkey := absurd hkey Finmap.notMem_empty
  away key state hlookup := by cases hlookup
  accepted call hcall := by cases hcall

/-- A call that is over leaves the entries of the others. -/
theorem Tracked.active_erase (htracked : Tracked ro comm m u) {ended key : TaskKey}
    (hkey : key ∈ m.activeSyscalls.erase ended) :
    ∃ task, (key, task) ∈ withoutKey ended u.inCall := by
  obtain ⟨hne, hmem⟩ := Finmap.mem_erase.mp hkey
  obtain ⟨owner, howner⟩ := htracked.active key hmem
  exact ⟨owner, mem_withoutKey.mpr ⟨howner, hne⟩⟩

theorem Tracked.away_switchOut (htracked : Tracked ro comm m u) {input : SchedSwitchInput}
    {key : TaskKey} {state : SchedState}
    (hlookup : (switchOut ro input m).schedStates.lookup key = some state)
    (haway : 0 < state.switchOutNs) : key ∈ leave ro input.prevPid u.offCpu := by
  rw [leave]
  rcases lookup_switchOut_cases hlookup with hold | ⟨rfl, hfilter, -⟩
  · have hmem := htracked.away key state hold haway
    split
    · exact Finset.mem_insert_of_mem hmem
    · exact hmem
  · rw [if_pos hfilter]
    exact Finset.mem_insert_self _ _

/-- A thread that was switched in under the filter is not away. -/
theorem switchOutNs_switchIn_next {input : SchedSwitchInput} {state : SchedState}
    (hfilter : filterPid ro input.nextPid = true)
    (hlookup : (switchIn ro input m).schedStates.lookup (schedKey input.nextPid) =
      some state) : ¬0 < state.switchOutNs := by
  rw [lookup_switchIn_next, incomingState, Option.map_eq_some_iff] at hlookup
  obtain ⟨old, -, rfl⟩ := hlookup
  split
  next => exact UInt64.not_lt.mpr UInt64.zero_le
  next hnot => exact fun haway => hnot ⟨hfilter, haway⟩

theorem Tracked.step (htracked : Tracked ro comm m u) (firing : Firing Task)
    (hnamed : Named comm firing.occurrence) :
    Tracked ro comm (fireTask ro m firing) (track ro u firing.occurrence) := by
  obtain ⟨task, call⟩ := firing
  cases call with
  | sysEnter context input =>
      have hown : sysEnterAccepts ro context = true → filterComm ro (comm task) = true := by
        intro haccepts
        rw [← show context.comm = comm task from hnamed]
        exact (Bool.and_eq_true_iff.mp haccepts).2
      simp only [track, Firing.occurrence, tracepoint]
      constructor
      · intro key hkey
        rcases mem_activeSyscalls_handle hkey with hold | ⟨_, _, hcall, ⟨haccepts, -⟩, rfl⟩
        · obtain ⟨owner, howner⟩ := htracked.active key hold
          split
          · exact ⟨owner, List.mem_cons_of_mem _ howner⟩
          · exact ⟨owner, howner⟩
        · cases hcall
          rw [if_pos haccepts]
          exact ⟨task, List.mem_cons_self⟩
      · intro key state hlookup
        rw [fireTask, fire, Call.handle, tpSysEnter_schedStates] at hlookup
        split <;> exact htracked.away key state hlookup
      · split
        next haccepts =>
          exact List.forall_mem_cons.mpr ⟨hown haccepts, htracked.accepted⟩
        next => exact htracked.accepted
  | sysExit context input =>
      constructor
      · intro key hkey
        rw [fireTask, fire, Call.handle, tpSysExit_activeSyscalls] at hkey
        exact htracked.active_erase hkey
      · intro key state hlookup
        rw [fireTask, fire, Call.handle, tpSysExit_schedStates] at hlookup
        exact htracked.away key state hlookup
      · exact fun call hcall => htracked.accepted call (mem_withoutKey.mp hcall).1
  | schedSwitch input =>
      simp only [track, Firing.occurrence, tracepoint]
      constructor
      · intro key hkey
        rw [fireTask, fire, Call.handle, tpSchedSwitch_activeSyscalls] at hkey
        split <;> exact htracked.active key hkey
      · intro key state hlookup haway
        obtain ⟨old, hold, hsame⟩ := lookup_switchIn_cases hlookup
        have hleft : key ∈ leave ro input.prevPid u.offCpu := by
          apply htracked.away_switchOut hold
          rcases hsame with hsame | hclosed
          · rwa [← hsame]
          · exact absurd (hclosed ▸ haway) (UInt64.lt_irrefl 0)
        split
        next hfilter =>
          refine Finset.mem_erase.mpr ⟨?_, hleft⟩
          rintro rfl
          exact switchOutNs_switchIn_next hfilter hlookup haway
        next => exact hleft
      · split <;> exact htracked.accepted
  | processExec context input =>
      constructor
      · intro key hkey
        rw [fireTask, fire, Call.handle, tpSchedProcessExec_activeSyscalls] at hkey
        exact htracked.active key hkey
      · intro key state hlookup
        rw [fireTask, fire, Call.handle, tpSchedProcessExec_schedStates] at hlookup
        exact htracked.away key state hlookup
      · exact htracked.accepted
  | processExit context input =>
      constructor
      · intro key hkey
        rw [fireTask, fire, Call.handle, tpSchedProcessExit_activeSyscalls] at hkey
        exact htracked.active_erase hkey
      · intro key state hlookup haway
        rw [fireTask, fire, Call.handle, tpSchedProcessExit_schedStates] at hlookup
        refine Finset.mem_erase.mpr ⟨?_, ?_⟩
        · rintro rfl
          rw [Finmap.lookup_erase] at hlookup
          cases hlookup
        · exact htracked.away key state (lookup_of_lookup_erase hlookup) haway
      · exact fun call hcall => htracked.accepted call (mem_withoutKey.mp hcall).1

theorem Tracked.commAccepted (htracked : Tracked ro comm m u) {firing : Firing Task}
    (hscreened : Screened ro comm u firing.occurrence) : CommAccepted ro comm m firing := by
  intro hevents
  obtain ⟨e, hrecord⟩ := events_fireTask_ne_iff.mp hevents
  obtain ⟨task, call⟩ := firing
  cases call with
  | sysEnter context input => cases hrecord
  | sysExit context input =>
      obtain ⟨entry, slot, hentry, -⟩ := record_sysExit.mp hrecord
      obtain ⟨owner, howner⟩ := htracked.active _ (Finmap.mem_of_lookup_eq_some hentry)
      by_cases hown : owner = task
      · exact hown ▸ htracked.accepted _ howner
      · exact hscreened ⟨owner, howner, hown⟩
  | schedSwitch input =>
      obtain ⟨state, slot, hfilter, hstate, hopen, -⟩ := record_schedSwitch.mp hrecord
      exact hscreened ⟨hfilter, htracked.away_switchOut hstate hopen.1⟩
  | processExec context input =>
      obtain ⟨slot, hfilter, -⟩ := record_processExec.mp hrecord
      exact hscreened hfilter
  | processExit context input =>
      obtain ⟨slot, hfilter, -⟩ := record_processExit.mp hrecord
      exact hscreened hfilter

/-! ### What may be reported -/

def generousSwitch (ro : Rodata) (prevPid nextPid : UInt32) (nextComm : Comm) :
    SchedSwitchInput where
  prevPid := prevPid
  nextPid := nextPid
  prevState := 0
  nextComm := nextComm
  cpu := 0
  outNs := 1
  inNs := ro.minOffcpuNs + 1
  updateOk := true
  slot := some WireEvent.zero

/-- A call in which the maps and the ring have room and every time is as long as the
thresholds ask for. -/
def generous (ro : Rodata) : Tracepoint → Call
  | .sysEnter task => .sysEnter task ⟨0, 0, 0, -1, -1, true⟩
  | .sysExit task => .sysExit task ⟨ro.minLatencyNs, 0, some WireEvent.zero⟩
  | .schedSwitch prevPid nextPid nextComm =>
      .schedSwitch (generousSwitch ro prevPid nextPid nextComm)
  | .processExec task => .processExec task ⟨0, some WireEvent.zero⟩
  | .processExit task => .processExit task ⟨0, some WireEvent.zero⟩

def Occurrence.generous (ro : Rodata) (occurrence : Occurrence Task) : Firing Task where
  task := occurrence.task
  call := FilterSoundness.generous ro occurrence.tracepoint

theorem occurrence_generous (occurrence : Occurrence Task) :
    (occurrence.generous ro).occurrence = occurrence := by
  obtain ⟨task, point⟩ := occurrence
  cases point <;> rfl

/-- The maps hold all that the tasks are in the middle of. -/
structure Noted (m : Maps) (u : Underway Task) : Prop where
  active : ∀ call ∈ u.inCall, ∃ entry, m.activeSyscalls.lookup call.1 = some entry ∧
    entry.startNs = 0
  away : ∀ key ∈ u.offCpu, ∃ state, m.schedStates.lookup key = some state ∧
    state.switchOutNs = 1

theorem noted_none : Noted Maps.empty (Underway.none : Underway Task) where
  active call hcall := by cases hcall
  away key hkey := absurd hkey (Finset.notMem_empty key)

theorem Noted.active_erase (hnoted : Noted m u) {ended : TaskKey} {call : TaskKey × Task}
    (hcall : call ∈ withoutKey ended u.inCall) :
    ∃ entry, (m.activeSyscalls.erase ended).lookup call.1 = some entry ∧ entry.startNs = 0 := by
  obtain ⟨hmem, hne⟩ := mem_withoutKey.mp hcall
  rw [Finmap.lookup_erase_ne hne]
  exact hnoted.active call hmem

theorem Noted.leave (hnoted : Noted m u) {prevPid : UInt32} (nextPid : UInt32)
    (nextComm : Comm) {key : TaskKey} (hkey : key ∈ leave ro prevPid u.offCpu) :
    ∃ state, (switchOut ro (generousSwitch ro prevPid nextPid nextComm) m).schedStates.lookup
        key = some state ∧ state.switchOutNs = 1 := by
  rw [FilterSoundness.leave] at hkey
  rw [switchOut_schedStates]
  split at hkey
  next hfilter =>
    rw [if_pos ⟨hfilter, rfl⟩]
    by_cases hprev : key = schedKey (generousSwitch ro prevPid nextPid nextComm).prevPid
    · subst hprev
      exact ⟨_, Finmap.lookup_insert _, rfl⟩
    · rw [Finmap.lookup_insert_of_ne _ hprev]
      exact hnoted.away key ((Finset.mem_insert.mp hkey).resolve_left hprev)
  next hfilter =>
    rw [if_neg fun h => hfilter h.1]
    exact hnoted.away key hkey

theorem Noted.step (hnoted : Noted m u) (occurrence : Occurrence Task) :
    Noted (fireTask ro m (occurrence.generous ro)) (track ro u occurrence) := by
  obtain ⟨task, point⟩ := occurrence
  cases point with
  | sysEnter context =>
      simp only [fireTask, fire, Occurrence.generous, generous, Call.handle, track]
      constructor
      · intro call hcall
        rw [tpSysEnter_activeSyscalls]
        split at hcall
        next haccepts =>
          rw [if_pos ⟨haccepts, rfl⟩]
          by_cases hself : call.1 = fillTaskKey ro context
          · rw [hself]
            exact ⟨_, Finmap.lookup_insert _, rfl⟩
          · rw [Finmap.lookup_insert_of_ne _ hself]
            apply hnoted.active call
            exact (List.mem_cons.mp hcall).resolve_left fun heq => hself (heq ▸ rfl)
        next hrejected =>
          rw [if_neg fun h => hrejected h.1]
          exact hnoted.active call hcall
      · intro key hkey
        rw [tpSysEnter_schedStates]
        split at hkey <;> exact hnoted.away key hkey
  | sysExit context =>
      simp only [fireTask, fire, Occurrence.generous, generous, Call.handle, track]
      constructor
      · intro call hcall
        rw [tpSysExit_activeSyscalls]
        exact hnoted.active_erase hcall
      · intro key hkey
        rw [tpSysExit_schedStates]
        exact hnoted.away key hkey
  | schedSwitch prevPid nextPid nextComm =>
      simp only [fireTask, fire, Occurrence.generous, generous, Call.handle, track]
      constructor
      · intro call hcall
        rw [tpSchedSwitch_activeSyscalls]
        split at hcall <;> exact hnoted.active call hcall
      · intro key hkey
        rw [tpSchedSwitch]
        split at hkey
        next =>
          obtain ⟨hne, hmem⟩ := Finset.mem_erase.mp hkey
          rw [lookup_switchIn_of_ne ro _ _ hne]
          exact hnoted.leave nextPid nextComm hmem
        next hrejected =>
          have hsame : ∀ m, switchIn ro (generousSwitch ro prevPid nextPid nextComm) m = m :=
            fun m => if_neg hrejected
          rw [hsame]
          exact hnoted.leave nextPid nextComm hkey
  | processExec context =>
      simp only [fireTask, fire, Occurrence.generous, generous, Call.handle, track]
      constructor
      · intro call hcall
        rw [tpSchedProcessExec_activeSyscalls]
        exact hnoted.active call hcall
      · intro key hkey
        rw [tpSchedProcessExec_schedStates]
        exact hnoted.away key hkey
  | processExit context =>
      simp only [fireTask, fire, Occurrence.generous, generous, Call.handle, track]
      constructor
      · intro call hcall
        rw [tpSchedProcessExit_activeSyscalls]
        exact hnoted.active_erase hcall
      · intro key hkey
        obtain ⟨hne, hmem⟩ := Finset.mem_erase.mp hkey
        rw [tpSchedProcessExit_schedStates, Finmap.lookup_erase_ne hne]
        exact hnoted.away key hmem

theorem Noted.record (hnoted : Noted m u) {occurrence : Occurrence Task}
    (hexposed : Exposed ro u occurrence) :
    ∃ e, (occurrence.generous ro).call.record ro m = some e := by
  obtain ⟨task, point⟩ := occurrence
  cases point with
  | sysEnter context => cases hexposed
  | sysExit context =>
      obtain ⟨other, hmem, -⟩ := hexposed
      obtain ⟨entry, hentry, hstart⟩ := hnoted.active _ hmem
      refine ⟨_, record_sysExit.mpr ⟨entry, _, hentry, ?_, rfl, rfl⟩⟩
      simp [hstart]
  | schedSwitch prevPid nextPid nextComm =>
      obtain ⟨hfilter, hmem⟩ := hexposed
      obtain ⟨state, hstate, hout⟩ := hnoted.leave nextPid nextComm hmem
      refine ⟨_, record_schedSwitch.mpr ⟨state, _, hfilter, hstate, ⟨?_, ?_⟩, rfl, rfl⟩⟩
      · rw [hout]
        decide
      · simp [hout, generousSwitch]
  | processExec context => exact ⟨_, record_processExec.mpr ⟨_, hexposed, rfl, rfl⟩⟩
  | processExit context => exact ⟨_, record_processExit.mpr ⟨_, hexposed, rfl, rfl⟩⟩

/-! ### The condition on the tasks -/

/-- Over tasks whose names never change, every event is one of an accepted task,
whatever the clocks, the maps and the ring answer, exactly when the filter accepts
every task that is reported without being asked about. -/
theorem commFilter_sound_iff {occurrences : List (Occurrence Task)}
    (hnamed : ∀ occurrence ∈ occurrences, Named comm occurrence) :
    (∀ firings : List (Firing Task), firings.map Firing.occurrence = occurrences →
        Along (fireTask ro) (CommAccepted ro comm) Maps.empty firings) ↔
      Along (track ro) (Screened ro comm) Underway.none occurrences := by
  constructor
  · intro hsound
    have hmap : (occurrences.map (Occurrence.generous ro)).map Firing.occurrence =
        occurrences := by
      simp [Function.comp_def, occurrence_generous]
    apply along_of_simulation (Occurrence.generous ro) (fun u m => Noted m u)
      (fun u m occurrence hnoted _ => hnoted.step occurrence) _ noted_none (hsound _ hmap)
    intro u m occurrence hnoted haccepted hexposed
    exact haccepted (events_fireTask_ne_iff.mpr (hnoted.record hexposed))
  · rintro hscreened firings rfl
    apply along_of_simulation Firing.occurrence (Tracked ro comm) _ _ tracked_empty
      ((along_of_forall_mem hnamed Underway.none).and hscreened)
    · intro m u firing htracked hright
      exact htracked.step firing hright.1
    · intro m u firing htracked hright
      exact htracked.commAccepted hright.2

end Comm

/-- The names `nginx` and `bash`. -/
def nginx : Comm := #v[110, 103, 105, 110, 120, 0, 0, 0, 0, 0, 0, 0, 0, 0, 0, 0]

def bash : Comm := #v[98, 97, 115, 104, 0, 0, 0, 0, 0, 0, 0, 0, 0, 0, 0, 0]

def onlyNginx : Rodata := { Rodata.default with targetComm := nginx }

def nginxContext : TaskContext := { TaskContext.ofIds 7 7 with comm := nginx }

def bashContext : TaskContext := { TaskContext.ofIds 9 9 with comm := bash }

/-- Two threads of an accepted process, one of them to its exit.  The tasks are told
apart by their names. -/
theorem commFilter_sound_nginx :
    let occurrences : List (Occurrence Comm) :=
      [⟨nginx, .sysEnter nginxContext⟩, ⟨nginx, .sysExit nginxContext⟩,
        ⟨nginx, .schedSwitch 7 8 nginx⟩, ⟨nginx, .schedSwitch 8 7 nginx⟩,
        ⟨nginx, .processExit nginxContext⟩]
    (∀ firings : List (Firing Comm), firings.map Firing.occurrence = occurrences →
        Along (fireTask onlyNginx) (CommAccepted onlyNginx id) Maps.empty firings) ∧
      (run (fireTask onlyNginx) Maps.empty
        (occurrences.map (Occurrence.generous onlyNginx))).events.length = 3 := by
  intro occurrences
  have haccepted : filterComm onlyNginx nginx = true := by decide
  have hnamed : ∀ occurrence ∈ occurrences, Named id occurrence := by
    simp [occurrences, Named, Tracepoint.comm, nginxContext]
  have hscreened : Along (track onlyNginx) (Screened onlyNginx id) Underway.none occurrences :=
    ⟨fun _ => haccepted, fun _ => haccepted, fun _ => haccepted, fun _ => haccepted,
      fun _ => haccepted, trivial⟩
  exact ⟨(commFilter_sound_iff hnamed).mpr hscreened, by decide +kernel⟩

/-- The exit of a task with another name is reported. -/
theorem exit_of_bash_reported :
    let firing : Firing Comm :=
      ⟨bash, .processExit bashContext ⟨1000, some WireEvent.zero⟩⟩
    onlyNginx.targetComm.get 0 ≠ 0 ∧
      Named id firing.occurrence ∧
      filterComm onlyNginx bash = false ∧
      (fireTask onlyNginx Maps.empty firing).events.map
          (fun e => (e.type, e.pid, e.comm)) =
        [(EvType.procExit.code, 9, bash)] ∧
      ¬Along (fireTask onlyNginx) (CommAccepted onlyNginx id) Maps.empty [firing] := by
  intro firing
  have hrejected : filterComm onlyNginx bash = false := by decide
  have hevents : (fireTask onlyNginx Maps.empty firing).events.map
      (fun e => (e.type, e.pid, e.comm)) = [(EvType.procExit.code, 9, bash)] := by
    decide +kernel
  refine ⟨by decide, rfl, hrejected, hevents, ?_⟩
  rintro ⟨haccepted, -⟩
  refine absurd (haccepted fun hnone => ?_) (ne_true_of_eq_false hrejected)
  rw [hnone] at hevents
  cases hevents

end KernelScope.FilterSoundness
