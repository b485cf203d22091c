import KernelScope.Bpf.SyscallPairing
import KernelScope.Bpf.ThreadLifetime
import Mathlib.Data.Fintype.Card

/-!
# Room in the hash maps

`active_syscalls` and `sched_states` are hash maps with a fixed number of entries,
and an update of a full map fails.  An entry of `active_syscalls` goes when its
system call ends or its task exits, so the map needs room for the tasks that are
inside a system call at the same time and for no others.  An entry of
`sched_states` that a thread files at its final switch is deleted by nothing: it
takes a place for as long as no new thread gets the tid, and when such entries are
all there is, no thread's time off the CPU is seen any more.
-/

namespace KernelScope.MapCapacity

open KernelScope.Filters
open KernelScope.Handlers
open KernelScope.StepRun
open KernelScope.WireFormat

/-- A hash map of `capacity` entries takes a new key only while it has room. -/
def OnlyWithRoom (capacity : ℕ) (keys : Finset TaskKey) (key : TaskKey)
    (updateOk : Bool) : Prop :=
  updateOk = true → key ∉ keys → keys.card < capacity

/-! ## The keys of the scheduler states -/

/-- A switch leaves a map within its capacity. -/
theorem card_tpSchedSwitch {ro : Rodata} {input : SchedSwitchInput} {m : Maps} {capacity : ℕ}
    (hcard : m.schedStates.keys.card ≤ capacity)
    (hroom : OnlyWithRoom capacity m.schedStates.keys (schedKey input.prevPid)
      input.updateOk) :
    (tpSchedSwitch ro input m).schedStates.keys.card ≤ capacity := by
  by_cases hnew : input.updateOk = true ∧ schedKey input.prevPid ∉ m.schedStates.keys
  · have hsub : (tpSchedSwitch ro input m).schedStates.keys ⊆
        insert (schedKey input.prevPid) m.schedStates.keys := by
      intro key hkey
      rw [Finmap.mem_keys, mem_tpSchedSwitch] at hkey
      rw [Finset.mem_insert, Finmap.mem_keys]
      exact hkey.imp_left And.left
    calc (tpSchedSwitch ro input m).schedStates.keys.card
        ≤ (insert (schedKey input.prevPid) m.schedStates.keys).card := Finset.card_le_card hsub
      _ ≤ m.schedStates.keys.card + 1 := Finset.card_insert_le _ _
      _ ≤ capacity := hroom hnew.1 hnew.2
  · apply le_trans (Finset.card_le_card _) hcard
    intro key hkey
    rw [Finmap.mem_keys, mem_tpSchedSwitch] at hkey
    rcases hkey with ⟨rfl, -, hok⟩ | hold
    · by_contra habsent
      exact hnew ⟨hok, habsent⟩
    · exact Finmap.mem_keys.mpr hold

/-! ## Entries that outlive their threads -/

section SchedStates

open KernelScope.Schedule hiding Allowed exec
open KernelScope.ThreadLifetime

variable {Task Cpu : Type*}

/-- There is an entry under the tid, and no live thread that has the tid. -/
def Leaked (threads : Threads Task) (w : World Task Cpu) (tid : UInt32) : Prop :=
  schedKey tid ∈ w.machine.maps.schedStates ∧ ∀ task, w.Live task → threads.tid task ≠ tid

/-- The tids of the threads that filed their state at their final switch.  A tid is
struck off when a new thread gets it. -/
def leftBehind (ro : Rodata) (threads : Threads Task) (tids : Finset UInt32) :
    ThreadLifetime.Action Task Cpu → Finset UInt32
  | .create task _ => tids.erase (threads.tid task)
  | .act _ => tids
  | .finalSwitch _ _ input =>
      if filterPid ro input.prevPid ∧ input.updateOk then insert input.prevPid tids else tids

/-- What the kernel may do, with the profiler in the initial pid namespace and
`capacity` entries in `sched_states`. -/
def Admitted (ro : Rodata) (threads : Threads Task) (capacity : ℕ) (w : World Task Cpu)
    (action : ThreadLifetime.Action Task Cpu) : Prop :=
  Allowed threads w action ∧
    match action with
    | .act (.switch _ _ input) | .finalSwitch _ _ input =>
        OnlyWithRoom capacity w.machine.maps.schedStates.keys (schedKey input.prevPid)
          input.updateOk
    | .act (.processExit cpu context _) => RunsAs ro threads (w.machine.current cpu) context
    | _ => True

/-- The map between its live entries and the ones left behind. -/
structure Tracked (ro : Rodata) (threads : Threads Task) (capacity : ℕ)
    (w : World Task Cpu) (left : Finset UInt32) : Prop where
  populated : Populated threads w
  filtered : ∀ tid, schedKey tid ∈ w.machine.maps.schedStates → filterPid ro tid = true
  bounded : w.machine.maps.schedStates.keys.card ≤ capacity
  leaked : ∀ tid, Leaked threads w tid ↔ tid ∈ left

section Steps

variable {ro : Rodata} {threads : Threads Task} {capacity : ℕ} {w : World Task Cpu}
  {left : Finset UInt32}

/-- Steps that neither file nor delete an entry of a thread that is gone. -/
theorem Leaked.congr {w' : World Task Cpu} (hlive : ∀ task, w'.Live task ↔ w.Live task)
    {tid : UInt32}
    (hmem : (∀ task, w.Live task → threads.tid task ≠ tid) →
      (schedKey tid ∈ w'.machine.maps.schedStates ↔ schedKey tid ∈ w.machine.maps.schedStates)) :
    Leaked threads w' tid ↔ Leaked threads w tid := by
  simp only [Leaked, hlive]
  exact and_congr_left hmem

theorem Tracked.live_notMem (htracked : Tracked ro threads capacity w left) {task : Task}
    (hlive : w.Live task) : threads.tid task ∉ left := by
  intro hleft
  exact ((htracked.leaked _).mpr hleft).2 task hlive rfl

theorem Tracked.image_subset (htracked : Tracked ro threads capacity w left) :
    left.image schedKey ⊆ w.machine.maps.schedStates.keys := by
  intro key hkey
  obtain ⟨tid, htid, rfl⟩ := Finset.mem_image.mp hkey
  exact Finmap.mem_keys.mpr ((htracked.leaked tid).mpr htid).1

theorem Tracked.card_le (htracked : Tracked ro threads capacity w left) :
    left.card ≤ capacity := by
  rw [← Finset.card_image_of_injective left schedKey_injective]
  exact le_trans (Finset.card_le_card htracked.image_subset) htracked.bounded

/-- Live threads share the room that the entries left behind do not take. -/
theorem Tracked.card_add_le (htracked : Tracked ro threads capacity w left)
    {tids : Finset UInt32}
    (hlive : ∀ tid ∈ tids, schedKey tid ∈ w.machine.maps.schedStates ∧
      ∃ task, w.Live task ∧ threads.tid task = tid) :
    tids.card + left.card ≤ capacity := by
  have hdisjoint : Disjoint tids left := by
    rw [Finset.disjoint_left]
    intro tid htid
    obtain ⟨-, task, htask, rfl⟩ := hlive tid htid
    exact htracked.live_notMem htask
  have hsub : (tids ∪ left).image schedKey ⊆ w.machine.maps.schedStates.keys := by
    rw [Finset.image_union]
    apply Finset.union_subset _ htracked.image_subset
    intro key hkey
    obtain ⟨tid, htid, rfl⟩ := Finset.mem_image.mp hkey
    exact Finmap.mem_keys.mpr (hlive tid htid).1
  calc tids.card + left.card
      = (tids ∪ left).card := (Finset.card_union_of_disjoint hdisjoint).symm
    _ = ((tids ∪ left).image schedKey).card :=
        (Finset.card_image_of_injective _ schedKey_injective).symm
    _ ≤ capacity := le_trans (Finset.card_le_card hsub) htracked.bounded

/-- When the entries left behind fill the map, there are no others. -/
theorem Tracked.keys_of_full (htracked : Tracked ro threads capacity w left)
    (hfull : left.card = capacity) :
    w.machine.maps.schedStates.keys = left.image schedKey := by
  symm
  apply Finset.eq_of_subset_of_card_le htracked.image_subset
  rw [Finset.card_image_of_injective left schedKey_injective, hfull]
  exact htracked.bounded

/-- What a switch between live threads reads is not an entry left behind. -/
theorem Tracked.record_of_full (htracked : Tracked ro threads capacity w left)
    (hfull : left.card = capacity) {cpu : Cpu} {next : Task} {input : SchedSwitchInput}
    (hswitch : SwitchAllowed threads w.machine cpu next input) (hnext : w.Live next)
    (hroom : OnlyWithRoom capacity w.machine.maps.schedStates.keys (schedKey input.prevPid)
      input.updateOk) :
    (Call.schedSwitch input).record ro w.machine.maps = none := by
  have habsent : ∀ task, w.Live task →
      schedKey (threads.tid task) ∉ w.machine.maps.schedStates.keys := by
    intro task hlive hmem
    rw [htracked.keys_of_full hfull, schedKey_injective.mem_finset_image] at hmem
    exact htracked.live_notMem hlive hmem
  have hprev := habsent _ (htracked.populated.running cpu)
  rw [← hswitch.prevPid] at hprev
  apply Option.eq_none_iff_forall_ne_some.mpr
  intro e hrecord
  obtain ⟨state, slot, -, hstate, -⟩ := record_schedSwitch.mp hrecord
  rcases lookup_switchOut_cases hstate with hold | ⟨-, -, hok, -⟩
  · apply habsent next hnext
    rw [← hswitch.nextPid, Finmap.mem_keys]
    exact Finmap.mem_iff.mpr ⟨state, hold⟩
  · have hless := hroom hok hprev
    rw [htracked.keys_of_full hfull,
      Finset.card_image_of_injective left schedKey_injective, hfull] at hless
    exact lt_irrefl _ hless

variable [DecidableEq Task] [DecidableEq Cpu]

theorem Tracked.filtered_step (htracked : Tracked ro threads capacity w left)
    (action : ThreadLifetime.Action Task Cpu) :
    ∀ tid, schedKey tid ∈ (exec ro w action).machine.maps.schedStates →
      filterPid ro tid = true := by
  have hswitch : ∀ input tid,
      schedKey tid ∈ (tpSchedSwitch ro input w.machine.maps).schedStates →
        filterPid ro tid = true := by
    intro input tid hmem
    rcases mem_tpSchedSwitch.mp hmem with ⟨hkey, hfilter, -⟩ | hold
    · rw [schedKey_injective hkey]
      exact hfilter
    · exact htracked.filtered tid hold
  intro tid hmem
  cases action with
  | create task now => exact htracked.filtered tid hmem
  | finalSwitch cpu next input => exact hswitch input tid hmem
  | act step =>
      cases step with
      | switch cpu next input => exact hswitch input tid hmem
      | processExit cpu context input =>
          apply htracked.filtered tid
          simp only [exec, Schedule.exec, Step.call, Call.handle,
            tpSchedProcessExit_schedStates, Finmap.mem_erase] at hmem
          exact hmem.2
      | _ =>
          apply htracked.filtered tid
          simpa only [exec, Schedule.exec, Step.call, Call.handle, tpSysEnter_schedStates,
            tpSysExit_schedStates, tpSchedProcessExec_schedStates] using hmem

theorem Tracked.bounded_step (htracked : Tracked ro threads capacity w left)
    {action : ThreadLifetime.Action Task Cpu} (hadmitted : Admitted ro threads capacity w action) :
    (exec ro w action).machine.maps.schedStates.keys.card ≤ capacity := by
  cases action with
  | create task now => exact htracked.bounded
  | finalSwitch cpu next input => exact card_tpSchedSwitch htracked.bounded hadmitted.2
  | act step =>
      cases step with
      | switch cpu next input => exact card_tpSchedSwitch htracked.bounded hadmitted.2
      | processExit cpu context input =>
          apply le_trans (Finset.card_le_card _) htracked.bounded
          intro key hkey
          simp only [exec, Schedule.exec, Step.call, Call.handle,
            tpSchedProcessExit_schedStates, Finmap.mem_keys, Finmap.mem_erase] at hkey
          exact Finmap.mem_keys.mpr hkey.2
      | _ =>
          simpa only [exec, Schedule.exec, Step.call, Call.handle, tpSysEnter_schedStates,
            tpSysExit_schedStates, tpSchedProcessExec_schedStates] using htracked.bounded

/-- A step of a thread that stays leaks nothing: a switch files the state of a live
thread, and the exit program deletes under the ids of one. -/
theorem leaked_act (hpop : Populated threads w) {step : Step Task Cpu}
    (hadmitted : Admitted ro threads capacity w (.act step)) (tid : UInt32) :
    Leaked threads (exec ro w (.act step)) tid ↔ Leaked threads w tid := by
  apply Leaked.congr (fun task => live_act hadmitted.1)
  intro hgone
  cases step with
  | switch cpu next input =>
      have hne : schedKey tid ≠ schedKey input.prevPid := by
        intro hkey
        apply hgone _ (hpop.running cpu)
        rw [← hadmitted.1.1.prevPid, schedKey_injective hkey]
      exact mem_tpSchedSwitch.trans (or_iff_right fun hnew => hne hnew.1)
  | processExit cpu context input =>
      have hne : schedKey tid ≠ fillTaskKey ro context := by
        intro hkey
        apply hgone _ (hpop.running cpu)
        rw [hadmitted.2.fillTaskKey] at hkey
        exact (congrArg TaskKey.tid hkey).symm
      simp only [exec, Schedule.exec, Step.call, Call.handle, tpSchedProcessExit_schedStates,
        Finmap.mem_erase]
      exact and_iff_right hne
  | _ =>
      simp only [exec, Schedule.exec, Step.call, Call.handle, tpSysEnter_schedStates,
        tpSysExit_schedStates, tpSchedProcessExec_schedStates]

theorem leaked_create {task : Task} {now : UInt64} {tid : UInt32} :
    Leaked threads (exec ro w (.create task now)) tid ↔
      tid ≠ threads.tid task ∧ Leaked threads w tid := by
  simp only [Leaked, live_create, forall_eq_or_imp]
  exact ⟨fun h => ⟨h.2.1.symm, h.1, h.2.2⟩, fun h => ⟨h.2.1, h.1.symm, h.2.2⟩⟩

/-- At its final switch a thread leaves an entry behind exactly when it stores one:
an entry it already has can always be stored again. -/
theorem Tracked.leaked_finalSwitch (htracked : Tracked ro threads capacity w left)
    {cpu : Cpu} {next : Task} {input : SchedSwitchInput}
    (hallowed : Allowed threads w (.finalSwitch cpu next input)) (tid : UInt32) :
    Leaked threads (exec ro w (.finalSwitch cpu next input)) tid ↔
      tid = input.prevPid ∧ filterPid ro input.prevPid = true ∧ input.updateOk = true ∨
        Leaked threads w tid := by
  obtain ⟨hswitch, -, hexiting⟩ := hallowed
  have hmem : schedKey tid ∈
        (exec ro w (.finalSwitch cpu next input)).machine.maps.schedStates ↔
      tid = input.prevPid ∧ filterPid ro input.prevPid = true ∧ input.updateOk = true ∨
        schedKey tid ∈ w.machine.maps.schedStates := by
    rw [← schedKey_injective.eq_iff]
    exact mem_tpSchedSwitch
  by_cases htid : tid = input.prevPid
  · -- the thread was the only one with its tid
    have hgone : ∀ task, (exec ro w (.finalSwitch cpu next input)).Live task →
        threads.tid task ≠ tid := by
      intro task htask heq
      obtain ⟨hne, hlive⟩ := live_finalSwitch.mp htask
      have hsame : threads.tid task = threads.tid (w.machine.current cpu) := by
        rw [heq, htid, hswitch.prevPid]
      apply hne
      apply htracked.populated.distinct _ _ hlive (htracked.populated.running cpu) hsame
      rw [hsame]
      exact htracked.populated.exitingTid _ hexiting
    have hnot : ¬Leaked threads w tid := by
      intro hleaked
      apply hleaked.2 _ (htracked.populated.running cpu)
      rw [htid, hswitch.prevPid]
    rw [Leaked, and_iff_left hgone, hmem, or_iff_left hnot, or_iff_left_of_imp]
    intro hold
    rw [htid] at hold
    exact ⟨htid, htracked.filtered _ hold, hswitch.update hold⟩
  · have hcurrent : threads.tid (w.machine.current cpu) ≠ tid := by
      rw [← hswitch.prevPid]
      exact Ne.symm htid
    rw [or_iff_right fun hnew => htid hnew.1, Leaked, hmem,
      or_iff_right fun hnew => htid hnew.1]
    apply and_congr_right'
    constructor
    · intro hgone task hlive
      by_cases htask : task = w.machine.current cpu
      · rw [htask]
        exact hcurrent
      · exact hgone task (live_finalSwitch.mpr ⟨htask, hlive⟩)
    · intro hgone task hlive
      exact hgone task (live_finalSwitch.mp hlive).2

theorem Tracked.step (htracked : Tracked ro threads capacity w left)
    {action : ThreadLifetime.Action Task Cpu} (hadmitted : Admitted ro threads capacity w action) :
    Tracked ro threads capacity (exec ro w action) (leftBehind ro threads left action) where
  populated := htracked.populated.step hadmitted.1
  filtered := htracked.filtered_step action
  bounded := htracked.bounded_step hadmitted
  leaked tid := by
    cases action with
    | create task now =>
        rw [leaked_create, htracked.leaked, leftBehind, Finset.mem_erase]
    | act step => rw [leaked_act htracked.populated hadmitted, htracked.leaked, leftBehind]
    | finalSwitch cpu next input =>
        rw [htracked.leaked_finalSwitch hadmitted.1, htracked.leaked, leftBehind]
        split
        next hstored => rw [Finset.mem_insert, and_iff_left hstored]
        next hnot => exact or_iff_right fun hnew => hnot hnew.2

theorem Tracked.run (htracked : Tracked ro threads capacity w left)
    {actions : List (ThreadLifetime.Action Task Cpu)}
    (hrun : Along (exec ro) (Admitted ro threads capacity) w actions) :
    Tracked ro threads capacity (run (exec ro) w actions)
      (run (leftBehind ro threads) left actions) := by
  induction actions generalizing w left with
  | nil => exact htracked
  | cons action actions ih => exact ih (htracked.step hrun.1) hrun.2

omit [DecidableEq Task] [DecidableEq Cpu] in
theorem subset_leftBehind {kept : Finset UInt32} (hkept : kept ⊆ left)
    {action : ThreadLifetime.Action Task Cpu}
    (hfresh : ∀ task now, action = .create task now → threads.tid task ∉ kept) :
    kept ⊆ leftBehind ro threads left action := by
  cases action with
  | create task now =>
      intro tid htid
      apply Finset.mem_erase.mpr
      refine ⟨?_, hkept htid⟩
      rintro rfl
      exact hfresh task now rfl htid
  | act step => exact hkept
  | finalSwitch cpu next input =>
      rw [leftBehind]
      split
      · exact hkept.trans (Finset.subset_insert _ _)
      · exact hkept

theorem Tracked.slices_of_full (htracked : Tracked ro threads capacity w left)
    (hfull : left.card = capacity) {action : ThreadLifetime.Action Task Cpu}
    (hadmitted : Admitted ro threads capacity w action) :
    (exec ro w action).slices = w.slices := by
  have hswitch : ∀ cpu next input, SwitchAllowed threads w.machine cpu next input →
      w.Live next → OnlyWithRoom capacity w.machine.maps.schedStates.keys
        (schedKey input.prevPid) input.updateOk →
      w.slices ++ w.newSlices ro (.switch cpu next input) = w.slices := by
    intro cpu next input hallowed hnext hroom
    rw [World.newSlices, htracked.record_of_full hfull hallowed hnext hroom]
    exact List.append_nil _
  cases action with
  | create task now => rfl
  | finalSwitch cpu next input =>
      exact hswitch cpu next input hadmitted.1.1 hadmitted.1.2.1 hadmitted.2
  | act step =>
      cases step with
      | switch cpu next input =>
          exact hswitch cpu next input hadmitted.1.1 hadmitted.1.2 hadmitted.2
      | _ => exact List.append_nil _

/-- As long as the tids are not given away, a map that is full of them stays so. -/
theorem Tracked.run_of_full {kept : Finset UInt32} (hfull : kept.card = capacity)
    (htracked : Tracked ro threads capacity w left) (hkept : kept ⊆ left)
    {actions : List (ThreadLifetime.Action Task Cpu)}
    (hrun : Along (exec ro) (Admitted ro threads capacity) w actions)
    (hfresh : ∀ task now, .create task now ∈ actions → threads.tid task ∉ kept) :
    (StepRun.run (exec ro) w actions).slices = w.slices := by
  induction actions generalizing w left with
  | nil => rfl
  | cons action actions ih =>
      have hcard : left.card = capacity :=
        le_antisymm htracked.card_le (hfull ▸ Finset.card_le_card hkept)
      have hsubset : kept ⊆ leftBehind ro threads left action := by
        apply subset_leftBehind hkept
        rintro task now rfl
        exact hfresh task now List.mem_cons_self
      rw [run_cons, ih (htracked.step hrun.1) hsubset hrun.2
        (fun task now hmem => hfresh task now (List.mem_cons_of_mem _ hmem)),
        htracked.slices_of_full hcard hrun.1]

end Steps

variable [DecidableEq Task] [DecidableEq Cpu]

/-- From the start of the profiler on, the entries without a thread are exactly
those that final switches left behind; live threads share the rest of the map, and
once there is no rest, no slice is submitted until one of the tids is used again. -/
theorem leaked_entries_silence_profiler (ro : Rodata) (threads : Threads Task)
    (capacity : ℕ) (w : World Task Cpu) (before after : List (ThreadLifetime.Action Task Cpu))
    (hmaps : w.machine.maps = Maps.empty) (hpop : Populated threads w)
    (hrun : Along (exec ro) (Admitted ro threads capacity) w (before ++ after)) :
    let left := run (leftBehind ro threads) ∅ before
    let reached := run (exec ro) w before
    (∀ tid, Leaked threads reached tid ↔ tid ∈ left) ∧
      (∀ tids : Finset UInt32,
        (∀ tid ∈ tids, schedKey tid ∈ reached.machine.maps.schedStates ∧
          ∃ task, reached.Live task ∧ threads.tid task = tid) →
        tids.card + left.card ≤ capacity) ∧
      (left.card = capacity →
        (∀ task now, .create task now ∈ after → threads.tid task ∉ left) →
        (run (exec ro) reached after).slices = reached.slices) := by
  intro left reached
  have hempty : ∀ tid, schedKey tid ∉ w.machine.maps.schedStates := by
    intro tid
    rw [hmaps]
    exact Finmap.notMem_empty
  have hstart : Tracked ro threads capacity w ∅ := by
    refine ⟨hpop, fun tid hmem => absurd hmem (hempty tid), ?_, ?_⟩
    · rw [hmaps]
      exact Nat.zero_le capacity
    · intro tid
      exact iff_of_false (fun hleaked => hempty tid hleaked.1) (Finset.notMem_empty tid)
  obtain ⟨hbefore, hafter⟩ := along_append.mp hrun
  have htracked : Tracked ro threads capacity reached left := hstart.run hbefore
  refine ⟨htracked.leaked, ?_, ?_⟩
  · intro tids htids
    exact htracked.card_add_le htids
  · intro hfull hfresh
    exact htracked.run_of_full hfull subset_rfl hafter hfresh

/-- A map with one entry.  The thread 7 exits and files its state; the thread 8 then
sleeps for five milliseconds, and nothing is submitted. -/
theorem leaked_entries_silence_one :
    let ro := Rodata.default
    let threads : Threads (Fin 3) := ⟨![0, 7, 8], ![0, 7, 8]⟩
    let w : World (Fin 3) Unit :=
      ⟨⟨Maps.empty, fun _ => 1, 0⟩, fun _ => .alive, fun _ => 0, []⟩
    let comm := Vector.replicate 16 0
    let exits : List (ThreadLifetime.Action (Fin 3) Unit) :=
      [.act (.processExit () (TaskContext.ofIds 7 7) ⟨70, none⟩),
        .finalSwitch () 0 ⟨7, 0, 16, comm, 0, 80, 81, true, none⟩]
    let sleeps : List (ThreadLifetime.Action (Fin 3) Unit) :=
      [.act (.switch () 2 ⟨0, 8, 0, comm, 0, 90, 91, false, none⟩),
        .act (.switch () 0 ⟨8, 0, 1, comm, 0, 100, 101, false, none⟩),
        .act (.switch () 2 ⟨0, 8, 0, comm, 0, 5000100, 5000101, false,
          some WireEvent.zero⟩)]
    Along (exec ro) (Admitted ro threads 1) w (exits ++ sleeps) ∧
      (run (exec ro) (run (exec ro) w exits) sleeps).slices = [] := by
  intro ro threads w comm exits sleeps
  have hpop : Populated threads w := by
    refine ⟨fun _ _ _ => rfl, ?_, ?_, ?_, ?_, ?_⟩ <;> decide
  have hrun : Along (exec ro) (Admitted ro threads 1) w (exits ++ sleeps) := by
    refine ⟨⟨⟨?_, ?_, ?_, ?_⟩, ⟨?_, ?_⟩⟩, ⟨⟨⟨?_, ?_, ?_, ?_, ?_, ?_, ?_⟩, ?_, ?_⟩, ?_⟩,
      ⟨⟨⟨?_, ?_, ?_, ?_, ?_, ?_, ?_⟩, ?_⟩, ?_⟩, ⟨⟨⟨?_, ?_, ?_, ?_, ?_, ?_, ?_⟩, ?_⟩, ?_⟩,
      ⟨⟨⟨?_, ?_, ?_, ?_, ?_, ?_, ?_⟩, ?_⟩, ?_⟩, trivial⟩
    all_goals first
      | decide
      | (intro hok hnew; revert hok; decide)
  apply And.intro hrun
  exact (leaked_entries_silence_profiler ro threads 1 w exits sleeps rfl hpop hrun).2.2
    (by decide) (by simp [sleeps])

end SchedStates

/-! ## Entries of system calls that are under way -/

section ActiveSyscalls

open KernelScope.SyscallPairing

variable {Task : Type*} [DecidableEq Task]

/-- At every entry into a system call fewer than `capacity` tasks are inside one, and
an update of `active_syscalls` fails only when all of its `capacity` entries are
taken. -/
def EntersWithRoom (capacity : ℕ) (world : World Task) : SyscallPairing.Action Task → Prop
  | .sysEnter _ _ input =>
      (∀ tasks : Finset Task, (∀ task ∈ tasks, ∃ enter, world.Pending task enter) →
        tasks.card < capacity) ∧
      (input.updateOk = false → capacity ≤ world.maps.activeSyscalls.keys.card)
  | _ => True

/-- At the end of an accepted system call its own duration decides. -/
def ReportsOwn (ro : Rodata) (world : World Task) : SyscallPairing.Action Task → Prop
  | .sysExit task context input => ∀ enter, world.Pending task enter →
      sysEnterAccepts ro enter.context = true →
      (Call.sysExit context input).record ro world.maps =
        if ro.minLatencyNs.toNat ≤ input.now.toNat - enter.input.startNs.toNat then
          input.slot.map (sysExitEvent ro context input (sysEnterEntry ro enter.input))
        else none
  | _ => True

section Steps

variable {ro : Rodata} {key : Task → TaskKey} {world : World Task}

omit [DecidableEq Task] in
/-- There are as many tasks inside system calls as there are entries. -/
theorem exists_tasks_of_paired (hpaired : Paired ro key world) :
    ∃ tasks : Finset Task, (∀ task ∈ tasks, ∃ enter, world.Pending task enter) ∧
      tasks.card = world.maps.activeSyscalls.keys.card := by
  classical
  have hpending : ∀ k ∈ world.maps.activeSyscalls.keys,
      ∃ task, key task = k ∧ ∃ enter, world.Pending task enter := by
    intro k hk
    obtain ⟨entry, hentry⟩ := Finmap.mem_iff.mp (Finmap.mem_keys.mp hk)
    obtain ⟨task, enter, htask, hpending, -⟩ := hpaired.sound k entry hentry
    exact ⟨task, htask, enter, hpending⟩
  choose owner hkey howner using hpending
  refine ⟨world.maps.activeSyscalls.keys.attach.image fun k => owner k.1 k.2, ?_, ?_⟩
  · intro task htask
    obtain ⟨k, -, rfl⟩ := Finset.mem_image.mp htask
    exact howner k.1 k.2
  · rw [Finset.card_image_of_injective, Finset.card_attach]
    intro k other hsame
    apply Subtype.ext
    calc k.1 = key (owner k.1 k.2) := (hkey k.1 k.2).symm
      _ = key (owner other.1 other.2) := congrArg key hsame
      _ = other.1 := hkey other.1 other.2

omit [DecidableEq Task] in
theorem updateOk_of_room (hpaired : Paired ro key world) {capacity : ℕ} {task : Task}
    {context : TaskContext} {input : SysEnterInput}
    (hroom : EntersWithRoom capacity world (.sysEnter task context input)) :
    input.updateOk = true := by
  obtain ⟨tasks, htasks, hcard⟩ := exists_tasks_of_paired hpaired
  have hless := hroom.1 tasks htasks
  by_contra hfails
  have hfull := hroom.2 (Bool.eq_false_of_not_eq_true hfails)
  omega

/-- Every accepted system call that is under way has its entry. -/
def AllStored (ro : Rodata) (world : World Task) : Prop :=
  ∀ task enter, world.Pending task enter → sysEnterAccepts ro enter.context = true →
    enter.Stored ro

theorem AllStored.step (hstored : AllStored ro world) (hpaired : Paired ro key world)
    {capacity : ℕ} {action : SyscallPairing.Action Task}
    (hroom : EntersWithRoom capacity world action) :
    AllStored ro (exec ro world action) := by
  intro other enter hpending haccepts
  cases action with
  | start task insideSyscall =>
      exact hstored other enter ((pending_start other enter).mp hpending).2 haccepts
  | sysEnter task context input =>
      rcases (pending_sysEnter other enter).mp hpending with ⟨-, rfl⟩ | ⟨-, hold⟩
      · exact ⟨haccepts, updateOk_of_room hpaired hroom⟩
      · exact hstored other enter hold haccepts
  | sysExit task context input =>
      have hold := (World.pending_leave rfl (by simp) other enter).mp hpending
      exact hstored other enter hold.2 haccepts
  | processExit task context input =>
      have hold := (World.pending_leave rfl (by simp) other enter).mp hpending
      exact hstored other enter hold.2 haccepts
  | schedSwitch input => exact hstored other enter hpending haccepts
  | processExec context input => exact hstored other enter hpending haccepts

omit [DecidableEq Task] in
theorem reportsOwn_of_allStored (hstored : AllStored ro world) (hpaired : Paired ro key world)
    {action : SyscallPairing.Action Task} (hallowed : Allowed ro key world action) :
    ReportsOwn ro world action := by
  cases action with
  | sysExit task context input =>
      intro enter hpending haccepts
      have hentry := hpaired.complete task enter hpending (hstored task enter hpending haccepts)
      rw [← hallowed.2.1] at hentry
      have hlong : input.now - (sysEnterEntry ro enter.input).startNs ≥ ro.minLatencyNs ↔
          ro.minLatencyNs.toNat ≤ input.now.toNat - enter.input.startNs.toNat :=
        elapsed_ge_iff (hpaired.start_le_exit hallowed hpending)
      rw [Call.record, Call.emission, hentry, Option.bind_some]
      simp only [← hlong]
      split
      · rfl
      · rfl
  | _ => trivial

end Steps

/-- However tasks with keys of their own come and go, as long as fewer of them are
inside system calls than `active_syscalls` has entries, none of the calls is missed:
each accepted one is reported at its end exactly when it took long enough and the ring
has a slot. -/
theorem no_call_missed_with_room (ro : Rodata) (key : Task → TaskKey) (capacity : ℕ)
    (actions : List (SyscallPairing.Action Task))
    (hrun : Along (exec ro) (Allowed ro key) (World.initial Task) actions)
    (hroom : Along (exec ro) (EntersWithRoom capacity) (World.initial Task) actions) :
    Along (exec ro) (ReportsOwn ro) (World.initial Task) actions := by
  apply along_of_invariant (fun world => Paired ro key world ∧ AllStored ro world)
    _ _ _ (hrun.and hroom)
  · rintro world action ⟨hpaired, hstored⟩ ⟨hallowed, hroom⟩
    exact ⟨hpaired.step hallowed, hstored.step hpaired hroom⟩
  · rintro world action ⟨hpaired, hstored⟩ ⟨hallowed, -⟩
    exact reportsOwn_of_allStored hstored hpaired hallowed
  · have hnothing : Along (exec ro) (Allowed ro key) (World.initial Task) [] := trivial
    apply And.intro (paired_and_accounted hnothing).1
    intro task enter hpending
    cases hpending

/-- A map with two entries.  Two tasks read at the same time, the first of them for
one millisecond, and it is reported. -/
theorem no_call_missed_of_two :
    let ro := Rodata.default
    let key : Bool → TaskKey := fun task => cond task ⟨7, 7⟩ ⟨7, 8⟩
    let first := TaskContext.ofIds 7 7
    let second := TaskContext.ofIds 7 8
    let exit : SysExitInput := ⟨1001000, 1001001, some WireEvent.zero⟩
    let actions : List (SyscallPairing.Action Bool) :=
      [.start true false, .start false false, .sysEnter true first ⟨0, 1000, 0, 5, 6, true⟩,
        .sysEnter false second ⟨0, 2000, 0, 5, 6, true⟩]
    Along (exec ro) (Allowed ro key) (World.initial Bool)
        (actions ++ [.sysExit true first exit]) ∧
      ((Call.sysExit first exit).record ro
        (run (exec ro) (World.initial Bool) actions).maps).isSome := by
  intro ro key first second exit actions
  have hrun : Along (exec ro) (Allowed ro key) (World.initial Bool)
      (actions ++ [.sysExit true first exit]) := by
    refine ⟨⟨rfl, nofun⟩, ⟨rfl, ?_⟩, ⟨rfl, ?_, ?_⟩, ⟨rfl, ?_, ?_⟩, ⟨⟨_, rfl⟩, ?_, ?_⟩, trivial⟩
    · intro other hother
      cases other with
      | false => exact absurd rfl hother
      | true => decide
    all_goals decide
  have hroom : Along (exec ro) (EntersWithRoom 2) (World.initial Bool)
      (actions ++ [.sysExit true first exit]) := by
    have hless : ∀ tasks : Finset Bool, false ∉ tasks → tasks.card < 2 :=
      fun tasks => Finset.card_lt_univ_of_notMem
    refine ⟨trivial, trivial, ⟨?_, nofun⟩, ⟨?_, nofun⟩, trivial, trivial⟩
    all_goals
      intro tasks htasks
      apply hless tasks
      intro hmem
      obtain ⟨enter, hpending⟩ := htasks false hmem
      cases hpending
  apply And.intro hrun
  have hreports := along_append.mp (no_call_missed_with_room ro key 2 _ hrun hroom)
  rw [hreports.2.1 ⟨0, first, ⟨0, 1000, 0, 5, 6, true⟩⟩ rfl (by decide)]
  decide

end ActiveSyscalls

end KernelScope.MapCapacity
