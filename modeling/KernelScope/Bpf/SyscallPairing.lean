import KernelScope.Bpf.HandlerSpecs
import KernelScope.Library.StepRun
import Mathlib.Data.List.Nodup

/-!
# Pairing of system call entries and exits

The `active_syscalls` map against the tasks that use it.  Tasks come and go,
each alternates between user mode and one system call at a time, and their
tracepoints interleave freely.  The world remembers, for every live task, the
`sys_enter` it is inside of; the invariant ties the map to these positions, so
that each reported duration belongs to the system call that produced it.
-/

namespace KernelScope.SyscallPairing

open KernelScope.Filters
open KernelScope.Handlers
open KernelScope.StepRun
open KernelScope.WireFormat

/-- A `sys_enter` of the run, numbered in the order of the run. -/
structure Enter where
  serial : ℕ
  context : TaskContext
  input : SysEnterInput

/-- The entry passed both filters and its map update succeeded. -/
def Enter.Stored (ro : Rodata) (enter : Enter) : Prop :=
  sysEnterAccepts ro enter.context = true ∧ enter.input.updateOk = true

/-- Where a live task stands.  A task that was already inside a system call
when it was first seen has no recorded entry. -/
inductive Phase where
  | outside
  | inside (enter : Option Enter)

structure World (Task : Type*) where
  maps : Maps
  live : Task → Option Phase
  clock : UInt64
  serial : ℕ
  /-- serial numbers of the entries behind the submitted slow events -/
  reported : List ℕ

def World.initial (Task : Type*) : World Task where
  maps := Maps.empty
  live := fun _ => none
  clock := 0
  serial := 0
  reported := []

inductive Action (Task : Type*) where
  | start (task : Task) (insideSyscall : Bool)
  | sysEnter (task : Task) (context : TaskContext) (input : SysEnterInput)
  | sysExit (task : Task) (context : TaskContext) (input : SysExitInput)
  | processExit (task : Task) (context : TaskContext) (input : LifecycleInput)
  | schedSwitch (input : SchedSwitchInput)
  | processExec (context : TaskContext) (input : LifecycleInput)

section Runs

variable {Task : Type*} [DecidableEq Task]

/-- The serial number of the entry that `task` is inside of. -/
def World.pendingSerial (world : World Task) (task : Task) : List ℕ :=
  match world.live task with
  | some (.inside (some enter)) => [enter.serial]
  | _ => []

def exec (ro : Rodata) (world : World Task) : Action Task → World Task
  | .start task insideSyscall =>
      { world with
        live := Function.update world.live task
          (some (if insideSyscall then .inside none else .outside)) }
  | .sysEnter task context input =>
      { world with
        maps := tpSysEnter ro context input world.maps
        live := Function.update world.live task
          (some (.inside (some ⟨world.serial, context, input⟩)))
        clock := input.startNs
        serial := world.serial + 1 }
  | .sysExit task context input =>
      { world with
        maps := tpSysExit ro context input world.maps
        live := Function.update world.live task (some .outside)
        clock := input.now
        reported :=
          if (tpSysExit ro context input world.maps).events =
              world.maps.events then world.reported
          else world.reported ++ world.pendingSerial task }
  | .processExit task context input =>
      { world with
        maps := tpSchedProcessExit ro context input world.maps
        live := Function.update world.live task none }
  | .schedSwitch input =>
      { world with maps := tpSchedSwitch ro input world.maps }
  | .processExec context input =>
      { world with maps := tpSchedProcessExec ro context input world.maps }

/-- What the kernel may do next.  `key` is the identity that `fill_task_key`
computes for each task; live tasks have distinct keys, a task's entries and
exits alternate, and the clock never goes back. -/
def Allowed (ro : Rodata) (key : Task → TaskKey) (world : World Task) :
    Action Task → Prop
  | .start task _ =>
      world.live task = none ∧
        ∀ other, world.live other ≠ none → key other ≠ key task
  | .sysEnter task context input =>
      world.live task = some .outside ∧ fillTaskKey ro context = key task ∧
        world.clock ≤ input.startNs
  | .sysExit task context input =>
      (∃ enter, world.live task = some (.inside enter)) ∧
        fillTaskKey ro context = key task ∧ world.clock ≤ input.now
  | .processExit task context _ =>
      world.live task ≠ none ∧ fillTaskKey ro context = key task
  | .schedSwitch _ => True
  | .processExec _ _ => True

/-! ## The map and the tasks' positions -/

/-- `task` is inside the system call that `enter` began. -/
def World.Pending (world : World Task) (task : Task) (enter : Enter) : Prop :=
  world.live task = some (.inside (some enter))

/-- The map holds exactly the stored entries of the pending system calls. -/
structure Paired (ro : Rodata) (key : Task → TaskKey) (world : World Task) :
    Prop where
  distinct : ∀ left right, world.live left ≠ none → world.live right ≠ none →
    key left = key right → left = right
  complete : ∀ task enter, world.Pending task enter → enter.Stored ro →
    world.maps.activeSyscalls.lookup (key task) =
      some (sysEnterEntry ro enter.input)
  sound : ∀ k entry, world.maps.activeSyscalls.lookup k = some entry →
    ∃ task enter, key task = k ∧ world.Pending task enter ∧ enter.Stored ro ∧
      entry = sysEnterEntry ro enter.input
  started : ∀ task enter, world.Pending task enter →
    enter.input.startNs ≤ world.clock

/-- What is pending after one task has moved. -/
theorem World.pending_update {world next : World Task} {task : Task}
    {phase : Option Phase}
    (hlive : next.live = Function.update world.live task phase)
    (other : Task) (enter : Enter) :
    next.Pending other enter ↔
      (other = task ∧ phase = some (.inside (some enter))) ∨
        (other ≠ task ∧ world.Pending other enter) := by
  by_cases hother : other = task
  · subst hother
    simp [World.Pending, hlive]
  · simp [World.Pending, hlive, hother]

/-- A task that has moved out of its system call is the only one for which
anything changes. -/
theorem World.pending_leave {world next : World Task} {task : Task}
    {phase : Option Phase}
    (hlive : next.live = Function.update world.live task phase)
    (hphase : ∀ enter, phase ≠ some (.inside (some enter)))
    (other : Task) (enter : Enter) :
    next.Pending other enter ↔ other ≠ task ∧ world.Pending other enter := by
  rw [World.pending_update hlive]
  simp [hphase enter]

/-- A move of a live task makes no other task live. -/
theorem World.live_of_update {world next : World Task} {task other : Task}
    {phase : Option Phase}
    (hlive : next.live = Function.update world.live task phase)
    (htask : world.live task ≠ none) (hother : next.live other ≠ none) :
    world.live other ≠ none := by
  by_cases heq : other = task
  · rw [heq]
    exact htask
  · simpa [hlive, heq] using hother

omit [DecidableEq Task] in
theorem World.Pending.live_ne {world : World Task} {task : Task}
    {enter : Enter} (hpending : world.Pending task enter) :
    world.live task ≠ none := by
  rw [World.Pending] at hpending
  simp [hpending]

omit [DecidableEq Task] in
theorem Paired.unique {ro : Rodata} {key : Task → TaskKey}
    {world : World Task} (hpaired : Paired ro key world) {task other : Task}
    {enter : Enter} (htask : world.live task ≠ none)
    (hpending : world.Pending other enter) (hkey : key other = key task) :
    other = task :=
  hpaired.distinct other task hpending.live_ne htask hkey

omit [DecidableEq Task] in
/-- Steps that touch neither the map nor any task's position. -/
theorem Paired.keep {ro : Rodata} {key : Task → TaskKey}
    {world : World Task} (hpaired : Paired ro key world) (maps : Maps)
    (hmaps : maps.activeSyscalls = world.maps.activeSyscalls) :
    Paired ro key { world with maps := maps } where
  distinct := hpaired.distinct
  complete := by
    rw [hmaps]
    exact hpaired.complete
  sound := by
    rw [hmaps]
    exact hpaired.sound
  started := hpaired.started

theorem pending_start {ro : Rodata} {world : World Task} {task : Task}
    {insideSyscall : Bool} (other : Task) (enter : Enter) :
    (exec ro world (.start task insideSyscall)).Pending other enter ↔
      other ≠ task ∧ world.Pending other enter :=
  World.pending_leave rfl (fun _ => by cases insideSyscall <;> simp) other enter

theorem Paired.start {ro : Rodata} {key : Task → TaskKey}
    {world : World Task} (hpaired : Paired ro key world) (task : Task)
    (insideSyscall : Bool) (hdead : world.live task = none)
    (hfresh : ∀ other, world.live other ≠ none → key other ≠ key task) :
    Paired ro key (exec ro world (.start task insideSyscall)) := by
  have hold : ∀ other enter,
      (exec ro world (.start task insideSyscall)).Pending other enter ↔
        world.Pending other enter := by
    intro other enter
    rw [pending_start]
    constructor
    · exact fun h => h.2
    · intro hpending
      apply And.intro _ hpending
      rintro rfl
      exact hpending.live_ne hdead
  refine ⟨?_, ?_, ?_, ?_⟩
  · intro left right hleft hright hkey
    by_cases hl : left = task
    · by_cases hr : right = task
      · rw [hl, hr]
      · have hlive : world.live right ≠ none := by simpa [exec, hr] using hright
        exact absurd (hl ▸ hkey.symm) (hfresh right hlive)
    · have hlive : world.live left ≠ none := by simpa [exec, hl] using hleft
      by_cases hr : right = task
      · exact absurd (hr ▸ hkey) (hfresh left hlive)
      · exact hpaired.distinct left right hlive
          (by simpa [exec, hr] using hright) hkey
  · intro other enter hpending hstored
    exact hpaired.complete other enter ((hold other enter).mp hpending) hstored
  · intro k entry hlookup
    obtain ⟨other, enter, hkey, hpending, hrest⟩ := hpaired.sound k entry hlookup
    exact ⟨other, enter, hkey, (hold other enter).mpr hpending, hrest⟩
  · intro other enter hpending
    exact hpaired.started other enter ((hold other enter).mp hpending)

theorem pending_sysEnter {ro : Rodata} {world : World Task} {task : Task}
    {context : TaskContext} {input : SysEnterInput} (other : Task)
    (enter : Enter) :
    (exec ro world (.sysEnter task context input)).Pending other enter ↔
      (other = task ∧ enter = ⟨world.serial, context, input⟩) ∨
        (other ≠ task ∧ world.Pending other enter) := by
  rw [World.pending_update rfl]
  simp [eq_comm]

section SysEnter

variable {ro : Rodata} {key : Task → TaskKey} {world : World Task} {task : Task}
  {context : TaskContext} {input : SysEnterInput}

theorem lookup_sysEnter_self (hkey : fillTaskKey ro context = key task) :
    (exec ro world (.sysEnter task context input)).maps.activeSyscalls.lookup
        (key task) =
      if sysEnterAccepts ro context ∧ input.updateOk then
        some (sysEnterEntry ro input)
      else world.maps.activeSyscalls.lookup (key task) := by
  rw [← hkey, exec, tpSysEnter_activeSyscalls]
  split
  · exact Finmap.lookup_insert _
  · rfl

theorem lookup_sysEnter_of_ne (hkey : fillTaskKey ro context = key task)
    {k : TaskKey} (hk : k ≠ key task) :
    (exec ro world (.sysEnter task context input)).maps.activeSyscalls.lookup k =
      world.maps.activeSyscalls.lookup k := by
  rw [← hkey] at hk
  rw [exec, tpSysEnter_activeSyscalls]
  split
  · exact Finmap.lookup_insert_of_ne _ hk
  · rfl

theorem Paired.complete_sysEnter (hpaired : Paired ro key world)
    (htask : world.live task ≠ none) (hkey : fillTaskKey ro context = key task)
    {other : Task} {enter : Enter}
    (hpending :
      (exec ro world (.sysEnter task context input)).Pending other enter)
    (hstored : enter.Stored ro) :
    (exec ro world (.sysEnter task context input)).maps.activeSyscalls.lookup
      (key other) = some (sysEnterEntry ro enter.input) := by
  rcases (pending_sysEnter other enter).mp hpending with ⟨rfl, rfl⟩ | ⟨hother, hold⟩
  · have haccepted : sysEnterAccepts ro context ∧ input.updateOk := hstored
    rw [lookup_sysEnter_self hkey, if_pos haccepted]
  · have hdiff : key other ≠ key task := fun h =>
      hother (hpaired.unique htask hold h)
    rw [lookup_sysEnter_of_ne hkey hdiff]
    exact hpaired.complete other enter hold hstored

/-- An entry under the task's key is the one just stored: before the call no
pending system call had that key. -/
theorem Paired.sound_sysEnter (hpaired : Paired ro key world)
    (hphase : world.live task = some .outside)
    (hkey : fillTaskKey ro context = key task) {k : TaskKey} {entry : ActiveSyscall}
    (hlookup : (exec ro world
      (.sysEnter task context input)).maps.activeSyscalls.lookup k = some entry) :
    ∃ other enter, key other = k ∧
      (exec ro world (.sysEnter task context input)).Pending other enter ∧
      enter.Stored ro ∧ entry = sysEnterEntry ro enter.input := by
  have htask : world.live task ≠ none := by simp [hphase]
  by_cases hk : k = key task
  · subst hk
    rw [lookup_sysEnter_self hkey] at hlookup
    split at hlookup
    next hstored =>
      exact ⟨task, ⟨world.serial, context, input⟩, rfl,
        (pending_sysEnter _ _).mpr (.inl ⟨rfl, rfl⟩), hstored,
        (Option.some.inj hlookup).symm⟩
    next =>
      obtain ⟨other, enter, hother, hpending, -⟩ := hpaired.sound _ _ hlookup
      obtain rfl := hpaired.unique htask hpending hother
      simp [World.Pending, hphase] at hpending
  · rw [lookup_sysEnter_of_ne hkey hk] at hlookup
    obtain ⟨other, enter, hother, hpending, hrest⟩ := hpaired.sound k entry hlookup
    have hne : other ≠ task := fun h => hk (h ▸ hother.symm)
    exact ⟨other, enter, hother,
      (pending_sysEnter _ _).mpr (.inr ⟨hne, hpending⟩), hrest⟩

theorem Paired.sysEnter (hpaired : Paired ro key world)
    (hphase : world.live task = some .outside)
    (hkey : fillTaskKey ro context = key task)
    (hclock : world.clock ≤ input.startNs) :
    Paired ro key (exec ro world (.sysEnter task context input)) := by
  have htask : world.live task ≠ none := by simp [hphase]
  refine ⟨?_, ?_, ?_, ?_⟩
  · intro left right hleft hright
    exact hpaired.distinct left right (World.live_of_update rfl htask hleft)
      (World.live_of_update rfl htask hright)
  · intro other enter hpending hstored
    exact hpaired.complete_sysEnter htask hkey hpending hstored
  · intro k entry hlookup
    exact hpaired.sound_sysEnter hphase hkey hlookup
  · intro other enter hpending
    rcases (pending_sysEnter other enter).mp hpending with ⟨-, rfl⟩ | ⟨-, hold⟩
    · exact UInt64.le_refl _
    · exact UInt64.le_trans (hpaired.started other enter hold) hclock

end SysEnter

/-- Steps in which a task leaves its system call, or the system altogether,
and its key is deleted from the map. -/
theorem Paired.leave {ro : Rodata} {key : Task → TaskKey}
    {world next : World Task} (hpaired : Paired ro key world) (task : Task)
    (phase : Option Phase) (htask : world.live task ≠ none)
    (hphase : ∀ enter, phase ≠ some (.inside (some enter)))
    (hlive : next.live = Function.update world.live task phase)
    (hmaps : next.maps.activeSyscalls =
      world.maps.activeSyscalls.erase (key task))
    (hclock : world.clock ≤ next.clock) : Paired ro key next := by
  have hold := World.pending_leave hlive hphase
  refine ⟨?_, ?_, ?_, ?_⟩
  · intro left right hleft hright
    exact hpaired.distinct left right (World.live_of_update hlive htask hleft)
      (World.live_of_update hlive htask hright)
  · intro other enter hpending hstored
    obtain ⟨hne, hpending⟩ := (hold other enter).mp hpending
    have hdiff : key other ≠ key task := fun h =>
      hne (hpaired.unique htask hpending h)
    rw [hmaps, Finmap.lookup_erase_ne hdiff]
    exact hpaired.complete other enter hpending hstored
  · intro k entry hlookup
    rw [hmaps] at hlookup
    by_cases hk : k = key task
    · subst hk
      rw [Finmap.lookup_erase] at hlookup
      cases hlookup
    · rw [Finmap.lookup_erase_ne hk] at hlookup
      obtain ⟨other, enter, hother, hpending, hrest⟩ :=
        hpaired.sound k entry hlookup
      have hne : other ≠ task := fun h => hk (h ▸ hother.symm)
      exact ⟨other, enter, hother, (hold other enter).mpr ⟨hne, hpending⟩,
        hrest⟩
  · intro other enter hpending
    exact UInt64.le_trans
      (hpaired.started other enter ((hold other enter).mp hpending).2) hclock

theorem Paired.step {ro : Rodata} {key : Task → TaskKey} {world : World Task}
    {action : Action Task} (hpaired : Paired ro key world)
    (hallowed : Allowed ro key world action) :
    Paired ro key (exec ro world action) := by
  cases action with
  | start task insideSyscall =>
      exact hpaired.start task insideSyscall hallowed.1 hallowed.2
  | sysEnter task context input =>
      exact hpaired.sysEnter hallowed.1 hallowed.2.1
        hallowed.2.2
  | sysExit task context input =>
      obtain ⟨⟨enter, hinside⟩, hkey, hclock⟩ := hallowed
      refine hpaired.leave task (some .outside) (by simp [hinside]) (by simp)
        rfl ?_ hclock
      rw [← hkey]
      exact tpSysExit_activeSyscalls ro context input world.maps
  | processExit task context input =>
      refine hpaired.leave task none hallowed.1 (by simp) rfl ?_
        (UInt64.le_refl _)
      rw [← hallowed.2]
      exact tpSchedProcessExit_activeSyscalls ro context input world.maps
  | schedSwitch input => exact hpaired.keep _ (by simp)
  | processExec context input => exact hpaired.keep _ (by simp)

/-! ## Each entry is reported at most once -/

/-- The slow events in the ring buffer. -/
def World.slowEvents (world : World Task) : List WireEvent :=
  world.maps.events.filter fun e => e.type = EvType.syscallSlow.code

/-- Entry serial numbers are never shared: not between pending entries, not
between reports, and not between the two. -/
structure Accounted (world : World Task) : Prop where
  pendingBound : ∀ task enter, world.Pending task enter →
    enter.serial < world.serial
  pendingUnreported : ∀ task enter, world.Pending task enter →
    enter.serial ∉ world.reported
  pendingDistinct : ∀ left right first second, world.Pending left first →
    world.Pending right second → first.serial = second.serial → left = right
  reportedBound : ∀ serial ∈ world.reported, serial < world.serial
  reportedNodup : world.reported.Nodup
  counted : world.slowEvents.length = world.reported.length

omit [DecidableEq Task] in
/-- Steps that begin no system call and report none. -/
theorem Accounted.keep {world next : World Task} (haccounted : Accounted world)
    (hpending : ∀ task enter, next.Pending task enter →
      world.Pending task enter)
    (hserial : next.serial = world.serial)
    (hreported : next.reported = world.reported)
    (hslow : next.slowEvents = world.slowEvents) : Accounted next where
  pendingBound task enter h := by
    rw [hserial]
    exact haccounted.pendingBound task enter (hpending task enter h)
  pendingUnreported task enter h := by
    rw [hreported]
    exact haccounted.pendingUnreported task enter (hpending task enter h)
  pendingDistinct left right first second hfirst hsecond :=
    haccounted.pendingDistinct left right first second
      (hpending left first hfirst) (hpending right second hsecond)
  reportedBound := by
    rw [hreported, hserial]
    exact haccounted.reportedBound
  reportedNodup := by
    rw [hreported]
    exact haccounted.reportedNodup
  counted := by
    rw [hslow, hreported]
    exact haccounted.counted

omit [DecidableEq Task] in
/-- A step that reports the pending system call of `task` and ends it. -/
theorem Accounted.report {world next : World Task} (haccounted : Accounted world)
    {task : Task} {enter : Enter} (hreport : world.Pending task enter)
    (hpending : ∀ other pending, next.Pending other pending →
      other ≠ task ∧ world.Pending other pending)
    (hserial : next.serial = world.serial)
    (hreported : next.reported = world.reported ++ [enter.serial])
    (hslow : next.slowEvents.length = world.slowEvents.length + 1) :
    Accounted next where
  pendingBound other pending h := by
    rw [hserial]
    exact haccounted.pendingBound other pending (hpending other pending h).2
  pendingUnreported other pending h hmem := by
    obtain ⟨hne, hother⟩ := hpending other pending h
    rw [hreported, List.mem_append, List.mem_singleton] at hmem
    rcases hmem with hmem | hmem
    · exact haccounted.pendingUnreported other pending hother hmem
    · exact hne (haccounted.pendingDistinct other task pending enter hother hreport
        hmem)
  pendingDistinct left right first second hfirst hsecond :=
    haccounted.pendingDistinct left right first second
      (hpending left first hfirst).2 (hpending right second hsecond).2
  reportedBound serial hmem := by
    rw [hreported, List.mem_append, List.mem_singleton] at hmem
    rw [hserial]
    rcases hmem with hmem | rfl
    · exact haccounted.reportedBound serial hmem
    · exact haccounted.pendingBound task enter hreport
  reportedNodup := by
    rw [hreported, List.nodup_append]
    refine ⟨haccounted.reportedNodup, List.nodup_singleton _, ?_⟩
    rintro serial hserial other hother rfl
    exact haccounted.pendingUnreported task enter hreport
      (List.mem_singleton.mp hother ▸ hserial)
  counted := by
    rw [hslow, hreported, List.length_append, haccounted.counted]
    rfl

omit [DecidableEq Task] in
/-- Handlers other than `tp_sys_exit` add no slow event. -/
theorem slowEvents_handle (ro : Rodata) (world : World Task) (call : Call)
    (hcall : call.evType ≠ .syscallSlow) :
    World.slowEvents { world with maps := call.handle ro world.maps } =
      world.slowEvents := by
  have htype : ∀ e, call.record ro world.maps = some e →
      e.type ≠ EvType.syscallSlow.code := by
    intro e hrecord
    rw [record_type hrecord]
    exact EvType.code_injective.ne hcall
  simp only [World.slowEvents, events_handle, List.filter_append]
  cases hrecord : call.record ro world.maps with
  | none => simp
  | some e => simp [htype e hrecord]

omit [DecidableEq Task] in
/-- The entry found by a `sys_exit` is the one its own task stored. -/
theorem Paired.lookup_exit {ro : Rodata} {key : Task → TaskKey}
    {world : World Task} (hpaired : Paired ro key world) {task : Task}
    {context : TaskContext} {input : SysExitInput}
    (hallowed : Allowed ro key world (.sysExit task context input))
    {entry : ActiveSyscall} :
    world.maps.activeSyscalls.lookup (fillTaskKey ro context) = some entry ↔
      ∃ enter, world.Pending task enter ∧ enter.Stored ro ∧
        entry = sysEnterEntry ro enter.input := by
  obtain ⟨⟨phase, hinside⟩, hkey, -⟩ := hallowed
  rw [hkey]
  constructor
  · intro hlookup
    obtain ⟨other, enter, hother, hpending, hrest⟩ :=
      hpaired.sound _ _ hlookup
    obtain rfl := hpaired.unique (by simp [hinside]) hpending hother
    exact ⟨enter, hpending, hrest⟩
  · rintro ⟨enter, hpending, hstored, rfl⟩
    exact hpaired.complete task enter hpending hstored

theorem Accounted.sysExit {ro : Rodata} {key : Task → TaskKey}
    {world : World Task} (haccounted : Accounted world)
    (hpaired : Paired ro key world) (task : Task) (context : TaskContext)
    (input : SysExitInput)
    (hallowed : Allowed ro key world (.sysExit task context input)) :
    Accounted (exec ro world (.sysExit task context input)) := by
  have hold : ∀ other enter,
      (exec ro world (.sysExit task context input)).Pending other enter ↔
        other ≠ task ∧ world.Pending other enter :=
    World.pending_leave rfl (by simp)
  have hevents : (tpSysExit ro context input world.maps).events =
      world.maps.events ++
        ((Call.sysExit context input).record ro world.maps).toList :=
    events_handle ro (.sysExit context input) world.maps
  cases hrecord : (Call.sysExit context input).record ro world.maps with
  | none =>
      have hsame : (tpSysExit ro context input world.maps).events =
          world.maps.events := by simpa [hrecord] using hevents
      refine haccounted.keep (fun other enter h => ((hold other enter).mp h).2)
        rfl ?_ ?_
      · simp [exec, hsame]
      · simp [World.slowEvents, exec, hsame]
  | some e =>
      obtain ⟨entry, slot, hentry, -, -, -⟩ := record_sysExit.mp hrecord
      obtain ⟨enter, hpending, -, -⟩ := (hpaired.lookup_exit hallowed).mp hentry
      have hgrown : (tpSysExit ro context input world.maps).events =
          world.maps.events ++ [e] := by simpa [hrecord] using hevents
      have hreported :
          (exec ro world (.sysExit task context input)).reported =
            world.reported ++ [enter.serial] := by
        rw [World.Pending] at hpending
        simp [exec, hgrown, World.pendingSerial, hpending]
      have htype : e.type = EvType.syscallSlow.code := record_type hrecord
      refine haccounted.report hpending (fun other pending => (hold other pending).mp)
        rfl hreported ?_
      simp [World.slowEvents, exec, hgrown, htype]

theorem Accounted.sysEnter {ro : Rodata} {world : World Task}
    (haccounted : Accounted world) (task : Task) (context : TaskContext)
    (input : SysEnterInput) :
    Accounted (exec ro world (.sysEnter task context input)) := by
  have hcases : ∀ other enter,
      (exec ro world (.sysEnter task context input)).Pending other enter →
        (other = task ∧ enter.serial = world.serial) ∨
          world.Pending other enter := by
    intro other enter hpending
    rcases (pending_sysEnter other enter).mp hpending with ⟨hother, rfl⟩ | hold
    · exact .inl ⟨hother, rfl⟩
    · exact .inr hold.2
  have hslow := slowEvents_handle ro world (.sysEnter context input) (by
    simp [Call.evType])
  refine ⟨?_, ?_, ?_, ?_, haccounted.reportedNodup, ?_⟩
  · intro other enter hpending
    have hnext : (exec ro world (.sysEnter task context input)).serial =
        world.serial + 1 := rfl
    rcases hcases other enter hpending with ⟨-, hserial⟩ | hold
    · omega
    · have := haccounted.pendingBound other enter hold
      omega
  · intro other enter hpending hmem
    rcases hcases other enter hpending with ⟨-, hserial⟩ | hold
    · have := haccounted.reportedBound _ hmem
      omega
    · exact haccounted.pendingUnreported other enter hold hmem
  · intro left right first second hfirst hsecond hserial
    rcases hcases left first hfirst with ⟨hleft, hnew⟩ | hold
    · rcases hcases right second hsecond with ⟨hright, -⟩ | hold'
      · rw [hleft, hright]
      · have := haccounted.pendingBound right second hold'
        omega
    · rcases hcases right second hsecond with ⟨-, hnew⟩ | hold'
      · have := haccounted.pendingBound left first hold
        omega
      · exact haccounted.pendingDistinct left right first second hold hold'
          hserial
  · intro serial hmem
    exact Nat.lt_succ_of_lt (haccounted.reportedBound serial hmem)
  · exact hslow ▸ haccounted.counted

theorem Accounted.step {ro : Rodata} {key : Task → TaskKey}
    {world : World Task} {action : Action Task} (hpaired : Paired ro key world)
    (haccounted : Accounted world) (hallowed : Allowed ro key world action) :
    Accounted (exec ro world action) := by
  cases action with
  | start task insideSyscall =>
      refine haccounted.keep ?_ rfl rfl rfl
      exact fun other enter h => ((pending_start other enter).mp h).2
  | sysEnter task context input => exact haccounted.sysEnter task context input
  | sysExit task context input =>
      exact haccounted.sysExit hpaired task context input hallowed
  | processExit task context input =>
      have hslow := slowEvents_handle ro world (.processExit context input)
        (by simp [Call.evType])
      refine haccounted.keep ?_ rfl rfl hslow
      intro other enter h
      exact ((World.pending_leave rfl (by simp) other enter).mp h).2
  | schedSwitch input =>
      exact haccounted.keep (fun _ _ h => h) rfl rfl
        (slowEvents_handle ro world (.schedSwitch input) (by
          simp [Call.evType]))
  | processExec context input =>
      exact haccounted.keep (fun _ _ h => h) rfl rfl
        (slowEvents_handle ro world (.processExec context input) (by
          simp [Call.evType]))

/-! ## Every run -/

theorem paired_and_accounted {ro : Rodata} {key : Task → TaskKey}
    {actions : List (Action Task)}
    (hrun : Along (exec ro) (Allowed ro key) (World.initial Task) actions) :
    Paired ro key (run (exec ro) (World.initial Task) actions) ∧
      Accounted (run (exec ro) (World.initial Task) actions) := by
  refine run_invariant (fun world => Paired ro key world ∧ Accounted world)
    ?_ ?_ hrun
  · rintro world action ⟨hpaired, haccounted⟩ hallowed
    exact ⟨hpaired.step hallowed, haccounted.step hpaired hallowed⟩
  · refine ⟨⟨?_, ?_, ?_, ?_⟩, ⟨?_, ?_, ?_, ?_, ?_, ?_⟩⟩ <;>
      simp [World.initial, World.Pending, World.slowEvents, Maps.empty]

/-- The step makes the ring buffer grow by exactly the record `e`. -/
def Submits (ro : Rodata) (world : World Task) (action : Action Task)
    (e : WireEvent) : Prop :=
  (exec ro world action).maps.events = world.maps.events ++ [e]

theorem submits_sysExit {ro : Rodata} {world : World Task} {task : Task}
    {context : TaskContext} {input : SysExitInput} {e : WireEvent} :
    Submits ro world (.sysExit task context input) e ↔
      (Call.sysExit context input).record ro world.maps = some e := by
  have hevents : (exec ro world (.sysExit task context input)).maps.events =
      world.maps.events ++
        ((Call.sysExit context input).record ro world.maps).toList :=
    events_handle ro (.sysExit context input) world.maps
  rw [Submits, hevents, List.append_right_inj]
  cases (Call.sysExit context input).record ro world.maps <;> simp

/-- The threshold comparison on the 64-bit difference is the comparison of the
true elapsed time. -/
theorem elapsed_ge_iff {start now threshold : UInt64} (hle : start ≤ now) :
    now - start ≥ threshold ↔
      threshold.toNat ≤ now.toNat - start.toNat := by
  rw [ge_iff_le, UInt64.le_iff_toNat_le, UInt64.toNat_sub_of_le _ _ hle]

theorem not_submits_sysEnter {ro : Rodata} {world : World Task} {task : Task}
    {context : TaskContext} {input : SysEnterInput} {e : WireEvent} :
    ¬Submits ro world (.sysEnter task context input) e := by
  intro hsubmits
  have hevents : (tpSysEnter ro context input world.maps).events =
      world.maps.events ++ [] :=
    events_handle ro (.sysEnter context input) world.maps
  have hgrown : (tpSysEnter ro context input world.maps).events =
      world.maps.events ++ [e] := hsubmits
  simp [hevents] at hgrown

/-! ### What a paired world reports -/

section Reports

variable {ro : Rodata} {key : Task → TaskKey} {world : World Task}

omit [DecidableEq Task] in
theorem Paired.mem_activeSyscalls (hpaired : Paired ro key world)
    (k : TaskKey) :
    k ∈ world.maps.activeSyscalls ↔
      ∃ task enter, key task = k ∧ world.Pending task enter ∧
        enter.Stored ro := by
  rw [Finmap.mem_iff]
  constructor
  · rintro ⟨entry, hlookup⟩
    obtain ⟨task, enter, hkey, hpending, hstored, -⟩ :=
      hpaired.sound k entry hlookup
    exact ⟨task, enter, hkey, hpending, hstored⟩
  · rintro ⟨task, enter, rfl, hpending, hstored⟩
    exact ⟨_, hpaired.complete task enter hpending hstored⟩

variable {task : Task} {context : TaskContext} {input : SysExitInput}

omit [DecidableEq Task] in
theorem Paired.start_le_exit (hpaired : Paired ro key world)
    (hallowed : Allowed ro key world (.sysExit task context input))
    {enter : Enter} (hpending : world.Pending task enter) :
    enter.input.startNs ≤ input.now :=
  UInt64.le_trans (hpaired.started task enter hpending) hallowed.2.2

theorem Paired.exists_submits_iff (hpaired : Paired ro key world)
    (hallowed : Allowed ro key world (.sysExit task context input)) :
    (∃ e, Submits ro world (.sysExit task context input) e) ↔
      ∃ enter, world.Pending task enter ∧ enter.Stored ro ∧
        ro.minLatencyNs.toNat ≤
          input.now.toNat - enter.input.startNs.toNat ∧
        input.slot.isSome := by
  simp only [submits_sysExit, record_sysExit]
  constructor
  · rintro ⟨e, entry, slot, hentry, hlong, hslot, -⟩
    obtain ⟨enter, hpending, hstored, rfl⟩ :=
      (hpaired.lookup_exit hallowed).mp hentry
    have hle := hpaired.start_le_exit hallowed hpending
    exact ⟨enter, hpending, hstored, (elapsed_ge_iff hle).mp hlong,
      by simp [hslot]⟩
  · rintro ⟨enter, hpending, hstored, hlong, hslot⟩
    obtain ⟨slot, hslot⟩ := Option.isSome_iff_exists.mp hslot
    have hentry :=
      (hpaired.lookup_exit hallowed).mpr ⟨enter, hpending, hstored, rfl⟩
    have hle := hpaired.start_le_exit hallowed hpending
    exact ⟨_, _, slot, hentry, (elapsed_ge_iff hle).mpr hlong, hslot, rfl⟩

theorem Paired.submitted (hpaired : Paired ro key world)
    (hallowed : Allowed ro key world (.sysExit task context input))
    {e : WireEvent} (hsubmits : Submits ro world (.sysExit task context input) e) :
    ∃ enter, world.Pending task enter ∧ enter.Stored ro ∧
      e.type = EvType.syscallSlow.code ∧
      e.syscallId = enter.input.id ∧
      e.userStackId = (sysEnterEntry ro enter.input).userStackId ∧
      e.kernStackId = (sysEnterEntry ro enter.input).kernStackId ∧
      e.flags = (sysEnterEntry ro enter.input).flags ∧
      enter.input.startNs ≤ input.now ∧
      e.durationNs.toNat =
        input.now.toNat - enter.input.startNs.toNat := by
  rw [submits_sysExit, record_sysExit] at hsubmits
  obtain ⟨entry, slot, hentry, hlong, hslot, rfl⟩ := hsubmits
  obtain ⟨enter, hpending, hstored, rfl⟩ :=
    (hpaired.lookup_exit hallowed).mp hentry
  have hle := hpaired.start_le_exit hallowed hpending
  exact ⟨enter, hpending, hstored, rfl, rfl, rfl, rfl, rfl, hle,
    UInt64.toNat_sub_of_le _ _ hle⟩

end Reports

/-- In every reachable state `active_syscalls` holds exactly the stored entries
of the system calls in progress; a `sys_exit` reports exactly when its own
task's entry was stored, enough time has passed and a slot is reserved, and the
report carries that entry's data and the true elapsed time; a `sys_enter`
submits nothing, and no entry is reported twice. -/
theorem sysExit_reports_own_sysEnter (ro : Rodata) (key : Task → TaskKey)
    (actions : List (Action Task))
    (hrun : Along (exec ro) (Allowed ro key) (World.initial Task) actions) :
    let world := run (exec ro) (World.initial Task) actions
    (∀ k, k ∈ world.maps.activeSyscalls ↔
      ∃ task enter, key task = k ∧ world.Pending task enter ∧
        enter.Stored ro) ∧
    (∀ task context input,
      Allowed ro key world (.sysExit task context input) →
        ((∃ e, Submits ro world (.sysExit task context input) e) ↔
          ∃ enter, world.Pending task enter ∧ enter.Stored ro ∧
            ro.minLatencyNs.toNat ≤
              input.now.toNat - enter.input.startNs.toNat ∧
            input.slot.isSome) ∧
        ∀ e, Submits ro world (.sysExit task context input) e →
          ∃ enter, world.Pending task enter ∧ enter.Stored ro ∧
            e.type = EvType.syscallSlow.code ∧
            e.syscallId = enter.input.id ∧
            e.userStackId = (sysEnterEntry ro enter.input).userStackId ∧
            e.kernStackId = (sysEnterEntry ro enter.input).kernStackId ∧
            e.flags = (sysEnterEntry ro enter.input).flags ∧
            enter.input.startNs ≤ input.now ∧
            e.durationNs.toNat =
              input.now.toNat - enter.input.startNs.toNat) ∧
    (∀ task context input e,
      ¬Submits ro world (.sysEnter task context input) e) ∧
    world.reported.Nodup ∧
    world.slowEvents.length = world.reported.length := by
  intro world
  obtain ⟨hpaired, haccounted⟩ := paired_and_accounted hrun
  refine ⟨hpaired.mem_activeSyscalls, ?_, ?_, haccounted.reportedNodup,
    haccounted.counted⟩
  · intro task context input hallowed
    constructor
    · exact hpaired.exists_submits_iff hallowed
    · exact fun e hsubmits => hpaired.submitted hallowed hsubmits
  · exact fun task context input e => not_submits_sysEnter

/-- A single task reads for one millisecond and is reported. -/
theorem sysExit_reports_read :
    let ro := Rodata.default
    let key : Unit → TaskKey := fun _ => ⟨7, 8⟩
    let context := TaskContext.ofIds 7 8
    let entry : SysEnterInput := ⟨0, 1000, 0, 5, 6, true⟩
    let exit : SysExitInput := ⟨1001000, 1001001, some WireEvent.zero⟩
    let actions := [.start () false, .sysEnter () context entry]
    let world := run (exec ro) (World.initial Unit) actions
    Along (exec ro) (Allowed ro key) (World.initial Unit) actions ∧
      ∃ e, Submits ro world (.sysExit () context exit) e := by
  intro ro key context entry exit actions world
  have hrun : Along (exec ro) (Allowed ro key) (World.initial Unit)
      actions := by
    refine ⟨⟨rfl, fun other h => absurd rfl h⟩, ⟨rfl, ?_, ?_⟩, trivial⟩
    · decide
    · decide
  refine ⟨hrun, ?_⟩
  have hexit := (sysExit_reports_own_sysEnter ro key actions hrun).2.1
    () context exit ⟨⟨_, rfl⟩, by decide, by decide⟩
  refine hexit.1.mpr ⟨⟨0, context, entry⟩, rfl, ⟨?_, rfl⟩, ?_, rfl⟩
  · decide
  · decide

end Runs

end KernelScope.SyscallPairing
