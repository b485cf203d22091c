import KernelScope.Bpf.Schedule
import Mathlib.Data.Fin.VecNotation
import Mathlib.Data.Fintype.Basic

/-!
# Scheduler state and thread lifetimes

Threads are created, scheduled and exit.  `sched_process_exit` fires in the
exiting thread's context, and the thread leaves its CPU for the last time only
later, in a `sched_switch` of its own; after that its tid may be given to a new
thread.  The exit program deletes the entry under `{tgid, tid}`, whereas
`tp_sched_switch` stores it under `{tid, tid}` and stores it again at the final
switch.
-/

namespace KernelScope.ThreadLifetime

open KernelScope.Filters
open KernelScope.Handlers
open KernelScope.KeyedFold
open KernelScope.Schedule
open KernelScope.StepRun
open KernelScope.WireFormat

inductive Status where
  | unborn
  | alive
  | exiting
  | dead
  deriving DecidableEq

/-- A thread that exists: it may run, and its tid is taken. -/
def Status.Live : Status → Prop
  | .alive | .exiting => True
  | .unborn | .dead => False

instance : ∀ status : Status, Decidable status.Live
  | .alive | .exiting => inferInstanceAs (Decidable True)
  | .unborn | .dead => inferInstanceAs (Decidable False)

structure World (Task Cpu : Type*) where
  machine : Machine Task Cpu
  status : Task → Status
  born : Task → UInt64
  /-- the submitted slices, with the threads they are about -/
  slices : List (Task × WireEvent)

inductive Action (Task Cpu : Type*) where
  | create (task : Task) (now : UInt64)
  | act (step : Step Task Cpu)
  /-- the switch after which the outgoing thread never runs again -/
  | finalSwitch (cpu : Cpu) (next : Task) (input : SchedSwitchInput)

section Lifetime

variable {Task Cpu : Type*}

def World.Live (w : World Task Cpu) (task : Task) : Prop :=
  (w.status task).Live

instance (w : World Task Cpu) (task : Task) : Decidable (w.Live task) :=
  inferInstanceAs (Decidable (w.status task).Live)

/-- The slice a step submits, with its thread. -/
def World.newSlices (ro : Rodata) (w : World Task Cpu) :
    Step Task Cpu → List (Task × WireEvent)
  | .switch _ next input =>
      (((Call.schedSwitch input).record ro w.machine.maps).map fun e =>
        (next, e)).toList
  | _ => []

variable [DecidableEq Task]

/-- `sched_process_exit` marks the running thread as exiting. -/
def World.nextStatus (w : World Task Cpu) : Step Task Cpu → Task → Status
  | .processExit cpu _ _ =>
      Function.update w.status (w.machine.current cpu) .exiting
  | _ => w.status

variable [DecidableEq Cpu]

def exec (ro : Rodata) (w : World Task Cpu) : Action Task Cpu → World Task Cpu
  | .create task now =>
      { w with
        machine := { w.machine with clock := now }
        status := Function.update w.status task .alive
        born := Function.update w.born task now }
  | .act step =>
      { w with
        machine := Schedule.exec ro w.machine step
        status := w.nextStatus step
        slices := w.slices ++ w.newSlices ro step }
  | .finalSwitch cpu next input =>
      { w with
        machine := Schedule.exec ro w.machine (.switch cpu next input)
        status := Function.update w.status (w.machine.current cpu) .dead
        slices := w.slices ++ w.newSlices ro (.switch cpu next input) }

/-- The program runs in the context of `task`; how the task looks from inside
a pid namespace is left open. -/
def InContext (threads : Threads Task) (task : Task) (context : TaskContext) :
    Prop :=
  globalPidTgid context = (threads.tgid task, threads.tid task)

instance (threads : Threads Task) (task : Task) (context : TaskContext) :
    Decidable (InContext threads task context) :=
  inferInstanceAs (Decidable (_ = _))

/-- What the kernel may do next.  Thread ids of live threads are distinct; only
the idle threads, which are never created and never exit, share the tid 0. -/
def Allowed (threads : Threads Task) (w : World Task Cpu) :
    Action Task Cpu → Prop
  | .create task now =>
      w.status task = .unborn ∧ w.machine.clock ≤ now ∧
        threads.tid task ≠ 0 ∧
        ∀ other, w.Live other → threads.tid other ≠ threads.tid task
  | .act (.sysEnter cpu context input) =>
      InContext threads (w.machine.current cpu) context ∧
        w.machine.clock ≤ input.startNs
  | .act (.sysExit cpu context input) =>
      InContext threads (w.machine.current cpu) context ∧
        w.machine.clock ≤ input.now
  | .act (.switch cpu next input) =>
      SwitchAllowed threads w.machine cpu next input ∧ w.Live next
  | .act (.processExec cpu context input) =>
      InContext threads (w.machine.current cpu) context ∧
        w.machine.clock ≤ input.fillNow
  | .act (.processExit cpu context input) =>
      InContext threads (w.machine.current cpu) context ∧
        w.machine.clock ≤ input.fillNow ∧
        w.status (w.machine.current cpu) = .alive ∧
        threads.tid (w.machine.current cpu) ≠ 0
  | .finalSwitch cpu next input =>
      SwitchAllowed threads w.machine cpu next input ∧ w.Live next ∧
        w.status (w.machine.current cpu) = .exiting

/-- No scheduler state outlives its thread: a dead thread whose tid was not
given away has no entry, and every slice lies within its thread's life. -/
structure WithinLifetimes (threads : Threads Task) (w : World Task Cpu) :
    Prop where
  noEntry : ∀ task, w.status task = .dead →
    (∀ other, w.Live other → threads.tid other ≠ threads.tid task) →
      ∀ key ∈ w.machine.maps.schedStates, key.tid ≠ threads.tid task
  slices : ∀ slice ∈ w.slices,
    (w.born slice.1).toNat + slice.2.durationNs.toNat ≤
      slice.2.timestampNs.toNat

/-- The final switch of a thread stores nothing: the thread is filtered out, or
it has no entry and the map has no room for one. -/
def StoresNothing (ro : Rodata) (w : World Task Cpu) :
    Action Task Cpu → Prop
  | .finalSwitch _ _ input =>
      filterPid ro input.prevPid = false ∨
        schedKey input.prevPid ∉ w.machine.maps.schedStates ∧
          input.updateOk = false
  | _ => True

end Lifetime

/-! ## Entries belong to live threads -/

section Entries

variable {Task Cpu : Type*} {ro : Rodata} {threads : Threads Task}
  {live : Task → Prop} {born : Task → UInt64} {clock : UInt64}

/-- The entry under `key` belongs to a live thread, and an open interval began
in the lifetime of every live thread it can be attributed to. -/
structure EntryLive (ro : Rodata) (threads : Threads Task)
    (live : Task → Prop) (born : Task → UInt64) (clock : UInt64)
    (key : TaskKey) (state : SchedState) : Prop where
  filed : key = schedKey key.tid
  filtered : filterPid ro key.tid = true
  owned : ∃ task, live task ∧ threads.tid task = key.tid
  since : ∀ task, live task → threads.tid task = key.tid →
    state.switchOutNs = 0 ∨
      born task ≤ state.switchOutNs ∧ state.switchOutNs ≤ clock

def EntriesLive (ro : Rodata) (threads : Threads Task) (live : Task → Prop)
    (born : Task → UInt64) (clock : UInt64)
    (states : KeyedMap TaskKey SchedState) : Prop :=
  ∀ key state, states.lookup key = some state →
    EntryLive ro threads live born clock key state

/-- Time passes and entries may disappear. -/
theorem EntriesLive.keep {states states' : KeyedMap TaskKey SchedState}
    {clock' : UInt64} (hlive : EntriesLive ro threads live born clock states)
    (hclock : clock ≤ clock')
    (hsub : ∀ key state, states'.lookup key = some state →
      states.lookup key = some state) :
    EntriesLive ro threads live born clock' states' := by
  intro key state hlookup
  obtain ⟨hfiled, hfiltered, howned, hsince⟩ :=
    hlive key state (hsub key state hlookup)
  refine ⟨hfiled, hfiltered, howned, fun task htask htid => ?_⟩
  exact (hsince task htask htid).imp_right fun h =>
    ⟨h.1, UInt64.le_trans h.2 hclock⟩

theorem EntriesLive.switchOut {input : SchedSwitchInput} {maps : Maps}
    {prev : Task}
    (hlive : EntriesLive ro threads live born clock maps.schedStates)
    (hborn : ∀ task, live task → born task ≤ clock)
    (hprev : live prev) (hpid : input.prevPid = threads.tid prev)
    (hclock : clock ≤ input.outNs) :
    EntriesLive ro threads live born input.outNs
      (Handlers.switchOut ro input maps).schedStates := by
  intro key state hlookup
  rcases lookup_switchOut_cases hlookup with hold | ⟨rfl, hfilter, -, hout⟩
  · exact hlive.keep hclock (fun _ _ => id) key state hold
  · refine ⟨rfl, hfilter, ⟨prev, hprev, hpid.symm⟩, fun task htask _ => ?_⟩
    rw [hout]
    exact .inr ⟨UInt64.le_trans (hborn task htask) hclock, UInt64.le_refl _⟩

theorem EntriesLive.switchIn {input : SchedSwitchInput} {maps : Maps}
    (hlive : EntriesLive ro threads live born clock maps.schedStates)
    (hclock : clock ≤ input.inNs) :
    EntriesLive ro threads live born input.inNs
      (Handlers.switchIn ro input maps).schedStates := by
  intro key state hlookup
  obtain ⟨old, hold, hout⟩ := lookup_switchIn_cases hlookup
  obtain ⟨hfiled, hfiltered, howned, hsince⟩ :=
    hlive.keep hclock (fun _ _ => id) key old hold
  refine ⟨hfiled, hfiltered, howned, fun task htask htid => ?_⟩
  rcases hout with hout | hout
  · rw [hout]
    exact hsince task htask htid
  · exact .inl hout

/-- A slice taken from such entries begins after its thread was created. -/
theorem EntriesLive.slice_after_birth {input : SchedSwitchInput} {maps : Maps}
    {next : Task} {e : WireEvent}
    (hlive : EntriesLive ro threads live born clock
      (Handlers.switchOut ro input maps).schedStates)
    (hnext : live next) (hpid : input.nextPid = threads.tid next)
    (hclock : clock ≤ input.inNs)
    (hrecord : (Call.schedSwitch input).record ro maps = some e) :
    (born next).toNat + e.durationNs.toNat ≤ e.timestampNs.toNat := by
  obtain ⟨state, slot, -, hstate, hopen, -, rfl⟩ :=
    record_schedSwitch.mp hrecord
  rcases (hlive _ _ hstate).since next hnext hpid.symm with hzero | hsince
  · rw [hzero] at hopen
    exact absurd hopen.1 (by decide)
  · have hle : state.switchOutNs ≤ input.inNs :=
      UInt64.le_trans hsince.2 hclock
    have hborn := UInt64.le_iff_toNat_le.mp hsince.1
    have hle' := UInt64.le_iff_toNat_le.mp hle
    simp only [offcpuEvent, UInt64.toNat_sub_of_le _ _ hle]
    omega

end Entries

/-! ## The population of threads -/

section Population

variable {Task Cpu : Type*}

/-- What the kernel guarantees about the threads of every state. -/
structure Populated (threads : Threads Task) (w : World Task Cpu) : Prop where
  injective : Function.Injective w.machine.current
  running : ∀ cpu, w.Live (w.machine.current cpu)
  distinct : ∀ left right, w.Live left → w.Live right →
    threads.tid left = threads.tid right → threads.tid left ≠ 0 → left = right
  exitingTid : ∀ task, w.status task = .exiting → threads.tid task ≠ 0
  bornPast : ∀ task, w.Live task → w.born task ≤ w.machine.clock
  sliced : ∀ slice ∈ w.slices, w.status slice.1 ≠ .unborn

variable [DecidableEq Task] [DecidableEq Cpu] {ro : Rodata}
  {threads : Threads Task} {w : World Task Cpu}

omit [DecidableEq Task] [DecidableEq Cpu] in
theorem World.Live.ne_unborn {task : Task} (hlive : w.Live task) :
    w.status task ≠ .unborn := by
  intro hunborn
  simp [World.Live, hunborn, Status.Live] at hlive

theorem live_create {task other : Task} {now : UInt64} :
    (exec ro w (.create task now)).Live other ↔
      other = task ∨ w.Live other := by
  by_cases hother : other = task
  · simp [exec, World.Live, hother, Status.Live]
  · simp [exec, World.Live, hother]

theorem live_act {step : Step Task Cpu}
    (hallowed : Allowed threads w (.act step)) {other : Task} :
    (exec ro w (.act step)).Live other ↔ w.Live other := by
  cases step with
  | processExit cpu context input =>
      have halive := hallowed.2.2.1
      by_cases hother : other = w.machine.current cpu
      · subst hother
        simp [exec, World.Live, World.nextStatus, halive, Status.Live]
      · simp [exec, World.Live, World.nextStatus, hother]
  | _ => rfl

theorem live_finalSwitch {cpu : Cpu} {next other : Task}
    {input : SchedSwitchInput} :
    (exec ro w (.finalSwitch cpu next input)).Live other ↔
      other ≠ w.machine.current cpu ∧ w.Live other := by
  by_cases hother : other = w.machine.current cpu
  · simp [exec, World.Live, hother, Status.Live]
  · simp [exec, World.Live, hother]

omit [DecidableEq Task] [DecidableEq Cpu] in
/-- Threads in new slices are live. -/
theorem newSlices_live (step : Step Task Cpu)
    (hnext : ∀ cpu next input, step = .switch cpu next input → w.Live next) :
    ∀ slice ∈ w.newSlices ro step, w.Live slice.1 := by
  intro slice hslice
  cases step with
  | switch cpu next input =>
      simp only [World.newSlices, Option.mem_toList,
        Option.map_eq_some_iff] at hslice
      obtain ⟨e, -, rfl⟩ := hslice
      exact hnext cpu next input rfl
  | _ => simp [World.newSlices] at hslice

theorem Populated.create {task : Task} {now : UInt64}
    (hpop : Populated threads w)
    (hallowed : Allowed threads w (.create task now)) :
    Populated threads (exec ro w (.create task now)) := by
  obtain ⟨hunborn, hclock, htid, hfresh⟩ := hallowed
  refine ⟨hpop.injective, ?_, ?_, ?_, ?_, ?_⟩
  · intro cpu
    exact live_create.mpr (.inr (hpop.running cpu))
  · intro left right hleft hright heq hzero
    rcases live_create.mp hleft with hleft | hleft
    · rcases live_create.mp hright with hright | hright
      · rw [hleft, hright]
      · exact absurd (hleft ▸ heq.symm) (hfresh right hright)
    · rcases live_create.mp hright with hright | hright
      · exact absurd (hright ▸ heq) (hfresh left hleft)
      · exact hpop.distinct left right hleft hright heq hzero
  · intro other hexiting
    by_cases hother : other = task
    · subst hother
      exact htid
    · exact hpop.exitingTid other (by simpa [exec, hother] using hexiting)
  · intro other hother
    by_cases heq : other = task
    · subst heq
      simp [exec]
    · have hold : w.Live other := (live_create.mp hother).resolve_left heq
      simpa [exec, heq] using UInt64.le_trans (hpop.bornPast other hold) hclock
  · intro slice hslice
    have hold := hpop.sliced slice hslice
    by_cases heq : slice.1 = task
    · exact absurd (heq ▸ hunborn) hold
    · simpa [exec, heq] using hold

omit [DecidableEq Task] [DecidableEq Cpu] in
/-- Steps that create no thread. -/
theorem Populated.frame {w' : World Task Cpu} (hpop : Populated threads w)
    (hinjective : Function.Injective w'.machine.current)
    (hrunning : ∀ cpu, w'.Live (w'.machine.current cpu))
    (hlive : ∀ task, w'.Live task → w.Live task)
    (hexiting : ∀ task, w'.status task = .exiting → threads.tid task ≠ 0)
    (hborn : w'.born = w.born) (hclock : w.machine.clock ≤ w'.machine.clock)
    (hsliced : ∀ slice ∈ w'.slices, w'.status slice.1 ≠ .unborn) :
    Populated threads w' where
  injective := hinjective
  running := hrunning
  distinct left right hleft hright :=
    hpop.distinct left right (hlive left hleft) (hlive right hright)
  exitingTid := hexiting
  bornPast task htask := by
    rw [hborn]
    exact UInt64.le_trans (hpop.bornPast task (hlive task htask)) hclock
  sliced := hsliced

omit [DecidableEq Task] in
/-- Whatever runs after a switch to a live thread is live. -/
theorem running_switch {cpu : Cpu} {next : Task} (hpop : Populated threads w)
    (hnext : w.Live next) (other : Cpu) :
    w.Live (Function.update w.machine.current cpu next other) := by
  by_cases hother : other = cpu
  · rw [hother, Function.update_self]
    exact hnext
  · rw [Function.update_of_ne hother]
    exact hpop.running other

omit [DecidableEq Task] [DecidableEq Cpu] in
theorem clock_le_act {step : Step Task Cpu}
    (hallowed : Allowed threads w (.act step)) :
    w.machine.clock ≤ step.clock := by
  cases step with
  | sysEnter cpu context input => exact hallowed.2
  | sysExit cpu context input => exact hallowed.2
  | switch cpu next input =>
      exact UInt64.le_trans hallowed.1.outClock hallowed.1.inClock
  | processExec cpu context input => exact hallowed.2
  | processExit cpu context input => exact hallowed.2.1

omit [DecidableEq Cpu] in
/-- A step brings no thread back to the unborn state, and marks no idle thread
as exiting. -/
theorem nextStatus_cases {step : Step Task Cpu}
    (hallowed : Allowed threads w (.act step)) (task : Task) :
    w.nextStatus step task = w.status task ∨
      w.nextStatus step task = .exiting ∧ threads.tid task ≠ 0 := by
  cases step with
  | processExit cpu context input =>
      by_cases htask : task = w.machine.current cpu
      · subst htask
        exact .inr ⟨by simp [World.nextStatus], hallowed.2.2.2⟩
      · exact .inl (by simp [World.nextStatus, htask])
  | _ => exact .inl rfl

theorem Populated.act {step : Step Task Cpu} (hpop : Populated threads w)
    (hallowed : Allowed threads w (.act step)) :
    Populated threads (exec ro w (.act step)) := by
  have hnext : ∀ cpu next input, step = .switch cpu next input →
      w.Live next := by
    rintro cpu next input rfl
    exact hallowed.2
  refine hpop.frame ?_ ?_ (fun task => (live_act hallowed).mp) ?_ rfl
    (clock_le_act hallowed) ?_
  · cases step with
    | switch cpu next input =>
        exact injective_switch hpop.injective hallowed.1.idle
    | _ => exact hpop.injective
  · intro other
    apply (live_act hallowed).mpr
    cases step with
    | switch cpu next input => exact running_switch hpop hallowed.2 other
    | _ => exact hpop.running other
  · intro task hexiting
    rcases nextStatus_cases hallowed task with hsame | hnew
    · exact hpop.exitingTid task (hsame ▸ hexiting)
    · exact hnew.2
  · intro slice hslice hunborn
    have hold : w.status slice.1 ≠ .unborn := by
      rcases List.mem_append.mp hslice with hslice | hslice
      · exact hpop.sliced slice hslice
      · exact (newSlices_live step hnext slice hslice).ne_unborn
    rcases nextStatus_cases hallowed slice.1 with hsame | hnew
    · exact hold (hsame ▸ hunborn)
    · exact absurd (hnew.1.symm.trans hunborn) (by decide)

theorem Populated.finalSwitch {cpu : Cpu} {next : Task}
    {input : SchedSwitchInput} (hpop : Populated threads w)
    (hallowed : Allowed threads w (.finalSwitch cpu next input)) :
    Populated threads (exec ro w (.finalSwitch cpu next input)) := by
  obtain ⟨hswitch, hlive, hexiting⟩ := hallowed
  refine hpop.frame (injective_switch hpop.injective hswitch.idle) ?_
    (fun task htask => (live_finalSwitch.mp htask).2) ?_ rfl
    (UInt64.le_trans hswitch.outClock hswitch.inClock) ?_
  · intro other
    apply live_finalSwitch.mpr
    exact ⟨outgoing_off hpop.injective hswitch.idle other,
      running_switch hpop hlive other⟩
  · intro task htask
    by_cases heq : task = w.machine.current cpu
    · subst heq
      simp [exec] at htask
    · exact hpop.exitingTid task (by simpa [exec, heq] using htask)
  · intro slice hslice hunborn
    have hold : w.status slice.1 ≠ .unborn := by
      rcases List.mem_append.mp hslice with hslice | hslice
      · exact hpop.sliced slice hslice
      · apply World.Live.ne_unborn
        apply newSlices_live (.switch cpu next input) _ slice hslice
        rintro _ _ _ ⟨⟩
        exact hlive
    by_cases heq : slice.1 = w.machine.current cpu
    · simp [exec, heq] at hunborn
    · exact hold (by simpa [exec, heq] using hunborn)

theorem Populated.step {action : Action Task Cpu} (hpop : Populated threads w)
    (hallowed : Allowed threads w action) :
    Populated threads (exec ro w action) := by
  cases action with
  | create task now => exact hpop.create hallowed
  | act step => exact hpop.act hallowed
  | finalSwitch cpu next input => exact hpop.finalSwitch hallowed

end Population

/-! ## Every run -/

section Runs

variable {Task Cpu : Type*} [DecidableEq Task] [DecidableEq Cpu] {ro : Rodata}
  {threads : Threads Task} {w : World Task Cpu}

/-- Entries belong to live threads and slices lie within lifetimes. -/
structure Sound (ro : Rodata) (threads : Threads Task)
    (w : World Task Cpu) : Prop where
  entries : EntriesLive ro threads w.Live w.born w.machine.clock
    w.machine.maps.schedStates
  slices : ∀ slice ∈ w.slices,
    (w.born slice.1).toNat + slice.2.durationNs.toNat ≤
      slice.2.timestampNs.toNat

omit [DecidableEq Task] [DecidableEq Cpu] in
theorem Sound.withinLifetimes (hsound : Sound ro threads w) :
    WithinLifetimes threads w where
  noEntry task _ hgone key hkey htid := by
    obtain ⟨state, hstate⟩ := Finmap.mem_iff.mp hkey
    obtain ⟨owner, howner, heq⟩ := (hsound.entries key state hstate).owned
    exact hgone owner howner (heq.trans htid)
  slices := hsound.slices

theorem Sound.create {task : Task} {now : UInt64} (hsound : Sound ro threads w)
    (hpop : Populated threads w)
    (hallowed : Allowed threads w (.create task now)) :
    Sound ro threads (exec ro w (.create task now)) := by
  obtain ⟨hunborn, hclock, -, hfresh⟩ := hallowed
  constructor
  · intro key state hlookup
    obtain ⟨hfiled, hfiltered, ⟨owner, howner, htid⟩, hsince⟩ :=
      hsound.entries.keep hclock (fun _ _ => id) key state hlookup
    refine ⟨hfiled, hfiltered, ⟨owner, live_create.mpr (.inr howner), htid⟩, ?_⟩
    intro other hother heq
    -- the new thread's tid is taken by no live thread, so it has no entry
    have hne : other ≠ task := by
      rintro rfl
      exact hfresh owner howner (htid.trans heq.symm)
    have hold : w.Live other := (live_create.mp hother).resolve_left hne
    simpa [exec, hne] using hsince other hold heq
  · intro slice hslice
    have hne : slice.1 ≠ task := by
      intro heq
      exact hpop.sliced slice hslice (heq ▸ hunborn)
    simpa [exec, hne] using hsound.slices slice hslice

omit [DecidableEq Task] [DecidableEq Cpu] in
/-- The slices a switch adds begin after their thread's creation. -/
theorem slices_switch {cpu : Cpu} {next : Task} {input : SchedSwitchInput}
    {clock : UInt64} (hsound : Sound ro threads w)
    (hout : EntriesLive ro threads w.Live w.born clock
      (switchOut ro input w.machine.maps).schedStates)
    (hclock : clock ≤ input.inNs) (hlive : w.Live next)
    (hpid : input.nextPid = threads.tid next) :
    ∀ slice ∈ w.slices ++ w.newSlices ro (.switch cpu next input),
      (w.born slice.1).toNat + slice.2.durationNs.toNat ≤
        slice.2.timestampNs.toNat := by
  intro slice hslice
  rcases List.mem_append.mp hslice with hslice | hslice
  · exact hsound.slices slice hslice
  · simp only [World.newSlices, Option.mem_toList,
      Option.map_eq_some_iff] at hslice
    obtain ⟨e, hrecord, rfl⟩ := hslice
    exact hout.slice_after_birth hlive hpid hclock hrecord

/-- Steps that switch no thread keep entries or delete them. -/
theorem Sound.quiet {step : Step Task Cpu} (hsound : Sound ro threads w)
    (hallowed : Allowed threads w (.act step))
    (hsub : ∀ key state,
      (step.call.handle ro w.machine.maps).schedStates.lookup key =
        some state → w.machine.maps.schedStates.lookup key = some state)
    (hslices : w.newSlices ro step = []) :
    Sound ro threads (exec ro w (.act step)) := by
  have hlive : (exec ro w (.act step)).Live = w.Live := by
    funext task
    exact propext (live_act hallowed)
  constructor
  · rw [hlive]
    exact hsound.entries.keep (clock_le_act hallowed) hsub
  · simpa [exec, hslices] using hsound.slices

theorem Sound.act {step : Step Task Cpu} (hsound : Sound ro threads w)
    (hpop : Populated threads w)
    (hallowed : Allowed threads w (.act step)) :
    Sound ro threads (exec ro w (.act step)) := by
  cases step with
  | sysEnter cpu context input =>
      apply hsound.quiet hallowed _ rfl
      simp [Step.call, Call.handle]
  | sysExit cpu context input =>
      apply hsound.quiet hallowed _ rfl
      simp [Step.call, Call.handle]
  | switch cpu next input =>
      obtain ⟨hswitch, hnext⟩ := hallowed
      have hout := hsound.entries.switchOut hpop.bornPast (hpop.running cpu)
        hswitch.prevPid hswitch.outClock
      exact ⟨hout.switchIn hswitch.inClock,
        slices_switch hsound hout hswitch.inClock hnext hswitch.nextPid⟩
  | processExec cpu context input =>
      apply hsound.quiet hallowed _ rfl
      simp [Step.call, Call.handle]
  | processExit cpu context input =>
      apply hsound.quiet hallowed _ rfl
      intro key state hlookup
      simp only [Step.call, Call.handle,
        tpSchedProcessExit_schedStates] at hlookup
      exact lookup_of_lookup_erase hlookup

/-- A final switch that stores nothing leaves no entry of the dead thread. -/
theorem Sound.finalSwitch {cpu : Cpu} {next : Task} {input : SchedSwitchInput}
    (hsound : Sound ro threads w) (hpop : Populated threads w)
    (hallowed : Allowed threads w (.finalSwitch cpu next input))
    (hstores : StoresNothing ro w (.finalSwitch cpu next input)) :
    Sound ro threads (exec ro w (.finalSwitch cpu next input)) := by
  obtain ⟨hswitch, hnext, -⟩ := hallowed
  have hstates : (switchOut ro input w.machine.maps).schedStates =
      w.machine.maps.schedStates := by
    rw [switchOut_schedStates, if_neg]
    rintro ⟨hfilter, hupdate⟩
    rcases hstores with hfiltered | ⟨-, hfails⟩
    · simp [hfilter] at hfiltered
    · simp [hupdate] at hfails
  have hout := hsound.entries.switchOut hpop.bornPast (hpop.running cpu)
    hswitch.prevPid hswitch.outClock
  constructor
  · intro key state hlookup
    obtain ⟨hfiled, hfiltered, ⟨owner, howner, htid⟩, hsince⟩ :=
      hout.switchIn hswitch.inClock key state hlookup
    refine ⟨hfiled, hfiltered, ⟨owner, ?_, htid⟩, ?_⟩
    · apply live_finalSwitch.mpr
      refine ⟨?_, howner⟩
      -- an entry of the outgoing thread would have been stored again
      rintro rfl
      obtain ⟨old, hold, -⟩ := lookup_switchIn_cases hlookup
      rw [hstates] at hold
      have hkey : key = schedKey input.prevPid := by
        rw [hfiled, hswitch.prevPid, htid]
      have hmem : schedKey input.prevPid ∈ w.machine.maps.schedStates :=
        hkey ▸ Finmap.mem_iff.mpr ⟨old, hold⟩
      rcases hstores with hfails | ⟨habsent, -⟩
      · rw [hkey] at hfiltered
        exact absurd (hfails.symm.trans hfiltered) (by decide)
      · exact habsent hmem
    · intro task htask
      exact hsince task (live_finalSwitch.mp htask).2
  · exact slices_switch hsound hout hswitch.inClock hnext hswitch.nextPid

theorem Sound.step {action : Action Task Cpu} (hsound : Sound ro threads w)
    (hpop : Populated threads w) (hallowed : Allowed threads w action)
    (hstores : StoresNothing ro w action) :
    Sound ro threads (exec ro w action) := by
  cases action with
  | create task now => exact hsound.create hpop hallowed
  | act step => exact hsound.act hpop hallowed
  | finalSwitch cpu next input =>
      exact hsound.finalSwitch hpop hallowed hstores

/-- If the dead thread has no entry after its final switch, the switch stored
nothing. -/
theorem storesNothing_of_withinLifetimes {action : Action Task Cpu}
    (hpop : Populated threads w) (hallowed : Allowed threads w action)
    (hwithin : WithinLifetimes threads (exec ro w action)) :
    StoresNothing ro w action := by
  cases action with
  | finalSwitch cpu next input =>
      obtain ⟨hswitch, hnext, hexiting⟩ := hallowed
      have hzero := hpop.exitingTid _ hexiting
      have hne : input.prevPid ≠ input.nextPid := by
        rw [hswitch.prevPid, hswitch.nextPid]
        intro heq
        exact hswitch.idle cpu
          (hpop.distinct _ _ (hpop.running cpu) hnext heq hzero)
      have habsent : schedKey input.prevPid ∉
          (tpSchedSwitch ro input w.machine.maps).schedStates := by
        intro hmem
        apply hwithin.noEntry (w.machine.current cpu) _ _ _ hmem
          hswitch.prevPid
        · simp [exec]
        · intro other hother heq
          obtain ⟨hother, hlive⟩ := live_finalSwitch.mp hother
          exact hother (hpop.distinct _ _ hlive (hpop.running cpu) heq
            (heq ▸ hzero))
      rw [← Finmap.lookup_eq_none,
        lookup_tpSchedSwitch_prev ro input _ hne] at habsent
      by_cases hfilter : filterPid ro input.prevPid
      · have hfails : input.updateOk = false := by
          cases hok : input.updateOk with
          | false => rfl
          | true => simp [hfilter, hok] at habsent
        refine .inr ⟨?_, hfails⟩
        rw [← Finmap.lookup_eq_none]
        simpa [hfails] using habsent
      · exact .inl (by simpa using hfilter)
  | _ => trivial

/-- No scheduler state outlives its thread, in every state of a run, exactly
when no final switch of a thread stores an entry. -/
theorem withinLifetimes_iff_storesNothing (ro : Rodata)
    (threads : Threads Task) (w : World Task Cpu)
    (actions : List (Action Task Cpu)) (hmaps : w.machine.maps = Maps.empty)
    (hslices : w.slices = []) (hpop : Populated threads w)
    (hrun : Along (exec ro) (Allowed threads) w actions) :
    Always (exec ro) (WithinLifetimes threads) w actions ↔
      Along (exec ro) (StoresNothing ro) w actions := by
  constructor
  · intro halways
    exact along_of_always (Populated threads)
      (fun _ _ hpop hallowed _ => hpop.step hallowed)
      (fun _ _ hpop hallowed => storesNothing_of_withinLifetimes hpop hallowed)
      hpop hrun halways
  · intro hstores
    have hsound : Sound ro threads w := by
      constructor
      · simp [EntriesLive, hmaps, Maps.empty]
      · simp [hslices]
    have halways := always_of_invariant
      (fun w => Populated threads w ∧ Sound ro threads w)
      (fun _ _ hboth hstep => ⟨hboth.1.step hstep.1,
        hboth.2.step hboth.1 hstep.1 hstep.2⟩)
      ⟨hpop, hsound⟩ (hrun.and hstores)
    exact halways.imp fun _ hboth => hboth.2.withinLifetimes

/-- A process exits while the map is full: nothing of it remains. -/
theorem withinLifetimes_full_map :
    let ro := Rodata.default
    let threads : Threads Bool :=
      ⟨fun task => cond task 7 0, fun task => cond task 7 0⟩
    let w : World Bool Unit :=
      ⟨⟨Maps.empty, fun _ => false, 0⟩,
        fun task => cond task .unborn .alive, fun _ => 0, []⟩
    let comm := Vector.replicate 16 0
    let actions : List (Action Bool Unit) :=
      [.create true 50,
        .act (.switch () true ⟨0, 7, 0, comm, 0, 60, 61, true, none⟩),
        .act (.processExit () (TaskContext.ofIds 7 7) ⟨70, none⟩),
        .finalSwitch () false ⟨7, 0, 16, comm, 0, 80, 81, false, none⟩]
    Always (exec ro) (WithinLifetimes threads) w actions := by
  intro ro threads w comm actions
  have hpop : Populated threads w := by
    refine ⟨fun _ _ _ => rfl, ?_, ?_, ?_, ?_, ?_⟩ <;> decide
  have hrun : Along (exec ro) (Allowed threads) w actions := by
    refine ⟨⟨?_, ?_, ?_, ?_⟩, ⟨⟨?_, ?_, ?_, ?_, ?_, ?_, ?_⟩, ?_⟩,
      ⟨?_, ?_, ?_, ?_⟩, ⟨⟨?_, ?_, ?_, ?_, ?_, ?_, ?_⟩, ?_, ?_⟩, trivial⟩ <;>
      decide
  apply (withinLifetimes_iff_storesNothing ro threads w actions rfl rfl hpop
    hrun).mpr
  exact ⟨trivial, trivial, trivial, .inr ⟨by decide, rfl⟩, trivial⟩

/-- A single-threaded process exits; its final switch files its state again.
Five milliseconds later its tid is given to a new process, whose first slice
begins before its creation. -/
theorem state_outlives_thread :
    let ro := Rodata.default
    let threads : Threads (Fin 3) := ⟨![0, 7, 7], ![0, 7, 7]⟩
    let w : World (Fin 3) Unit :=
      ⟨⟨Maps.empty, fun _ => 0, 0⟩, ![.alive, .unborn, .unborn], ![0, 0, 0],
        []⟩
    let comm := Vector.replicate 16 0
    let exits : List (Action (Fin 3) Unit) :=
      [.create 1 50,
        .act (.switch () 1 ⟨0, 7, 0, comm, 0, 60, 61, true, none⟩),
        .act (.processExit () (TaskContext.ofIds 7 7) ⟨70, none⟩),
        .finalSwitch () 0 ⟨7, 0, 16, comm, 0, 80, 81, true, none⟩]
    let reuses : List (Action (Fin 3) Unit) :=
      [.create 2 5000000,
        .act (.switch () 2 ⟨0, 7, 0, comm, 0, 6000000, 6000001, true,
          some WireEvent.zero⟩)]
    Populated threads w ∧
      Along (exec ro) (Allowed threads) w (exits ++ reuses) ∧
      ¬Always (exec ro) (WithinLifetimes threads) w exits ∧
      ∃ slice ∈ (run (exec ro) w (exits ++ reuses)).slices,
        slice.1 = 2 ∧ slice.2.timestampNs - slice.2.durationNs = 80 := by
  intro ro threads w comm exits reuses
  refine ⟨?_, ?_, ?_, ?_⟩
  · refine ⟨fun _ _ _ => rfl, ?_, ?_, ?_, ?_, ?_⟩ <;> decide
  · refine ⟨⟨?_, ?_, ?_, ?_⟩, ⟨⟨?_, ?_, ?_, ?_, ?_, ?_, ?_⟩, ?_⟩,
      ⟨?_, ?_, ?_, ?_⟩, ⟨⟨?_, ?_, ?_, ?_, ?_, ?_, ?_⟩, ?_, ?_⟩,
      ⟨?_, ?_, ?_, ?_⟩, ⟨⟨?_, ?_, ?_, ?_, ?_, ?_, ?_⟩, ?_⟩, trivial⟩ <;> decide
  · rintro ⟨-, -, -, -, hlast⟩
    exact hlast.noEntry 1 rfl (by decide) (schedKey 7) (by decide) rfl
  · have hslices : ((run (exec ro) w (exits ++ reuses)).slices.map fun slice =>
        (slice.1, slice.2.timestampNs - slice.2.durationNs)) = [(2, 80)] := by
      decide
    have hmem : ((2, 80) : Fin 3 × UInt64) ∈
        (run (exec ro) w (exits ++ reuses)).slices.map fun slice =>
          (slice.1, slice.2.timestampNs - slice.2.durationNs) := by
      rw [hslices]
      exact List.mem_singleton_self _
    obtain ⟨slice, hslice, heq⟩ := List.mem_map.mp hmem
    rw [Prod.mk.injEq] at heq
    exact ⟨slice, hslice, heq⟩

end Runs

end KernelScope.ThreadLifetime
