import KernelScope.Bpf.ChangingTable
import KernelScope.Bpf.HandlerSpecs
import KernelScope.Library.StepRun

/-!
# Counting entries while the programs run

`active_syscall_count` and `sched_state_count` walk a map key by key, and the
programs go on filing and deleting entries between two calls of
`bpf_map_get_next_key`.  When a count is returned, every entry that stayed in place
is in it.  Nothing bounds it from above, however: one thread that leaves its system
call at the right moments has the walk start over each time.
-/

namespace KernelScope.CountsWhileRunning

open KernelScope.ChangingTable
open KernelScope.Filters
open KernelScope.Handlers
open KernelScope.SkeletonBridge
open KernelScope.WireFormat

/-! ## The tables of the programs -/

/-- The two maps that are counted. -/
inductive Table where
  | activeSyscalls
  | schedStates

def Table.keys : Table → Maps → Finset TaskKey
  | .activeSyscalls, m => m.activeSyscalls.keys
  | .schedStates, m => m.schedStates.keys

/-- What a program does to the keys of a table.  Deleting a key that is not there
changes nothing, and `tp_sched_switch` writes the incoming task's state in place. -/
def Table.change (ro : Rodata) : Table → Call → Option (Change TaskKey)
  | .activeSyscalls, .sysEnter task input =>
      if sysEnterAccepts ro task ∧ input.updateOk then some (.file (fillTaskKey ro task))
      else none
  | .activeSyscalls, .sysExit task _ => some (.drop (fillTaskKey ro task))
  | .activeSyscalls, .processExit task _ => some (.drop (fillTaskKey ro task))
  | .schedStates, .schedSwitch input =>
      if filterPid ro input.prevPid ∧ input.updateOk then some (.file (schedKey input.prevPid))
      else none
  | .schedStates, .processExit task _ => some (.drop (fillTaskKey ro task))
  | _, _ => none

/-- The keys after a program has run. -/
theorem mem_keys_handle (table : Table) (ro : Rodata) (call : Call) (m : Maps) (key : TaskKey) :
    key ∈ table.keys (call.handle ro m) ↔
      match table.change ro call with
      | none => key ∈ table.keys m
      | some (.file filed) => key = filed ∨ key ∈ table.keys m
      | some (.drop dropped) => key ≠ dropped ∧ key ∈ table.keys m := by
  cases table with
  | activeSyscalls =>
      cases call with
      | sysEnter task input =>
          simp only [Table.keys, Table.change, Call.handle, tpSysEnter_activeSyscalls]
          split <;> simp [Finmap.mem_keys]
      | sysExit task input =>
          simp [Table.keys, Table.change, Call.handle, tpSysExit_activeSyscalls, Finmap.mem_keys]
      | schedSwitch input => simp [Table.keys, Table.change, Call.handle]
      | processExec task input => simp [Table.keys, Table.change, Call.handle]
      | processExit task input => simp [Table.keys, Table.change, Call.handle, Finmap.mem_keys]
  | schedStates =>
      cases call with
      | sysEnter task input => simp [Table.keys, Table.change, Call.handle]
      | sysExit task input => simp [Table.keys, Table.change, Call.handle]
      | schedSwitch input =>
          simp only [Table.keys, Table.change, Call.handle, Finmap.mem_keys, mem_tpSchedSwitch]
          by_cases hstored : filterPid ro input.prevPid = true ∧ input.updateOk = true
          · rw [if_pos hstored, and_iff_left hstored]
          · rw [if_neg hstored, or_iff_right fun hfiled => hstored hfiled.2]
      | processExec task input => simp [Table.keys, Table.change, Call.handle]
      | processExit task input => simp [Table.keys, Table.change, Call.handle, Finmap.mem_keys]

/-- A counted map inside the kernel: the order in which it is walked goes bucket by
bucket and holds the keys of the table, and a program's update links its element at the
head of a bucket. -/
structure Kernel (bucket : TaskKey → ℕ) (relink : List TaskKey → Change TaskKey → List TaskKey)
    (table : Table) where
  fd : Int
  maps : Maps
  order : List TaskKey
  valid : 0 ≤ fd
  linked : LinksAtHead bucket relink
  inOrder : InOrder bucket order
  complete : ∀ key, key ∈ order ↔ key ∈ table.keys maps

section Programs

variable {bucket : TaskKey → ℕ} {relink : List TaskKey → Change TaskKey → List TaskKey}
  {table : Table} (ro : Rodata)

theorem Kernel.mem_order_handle (kernel : Kernel bucket relink table) (call : Call)
    (key : TaskKey) :
    key ∈ (table.change ro call).elim kernel.order (relink kernel.order) ↔
      key ∈ table.keys (call.handle ro kernel.maps) := by
  rw [mem_keys_handle]
  cases table.change ro call with
  | none => exact kernel.complete key
  | some change =>
      cases change with
      | file filed => exact kernel.linked.mem_file.trans (or_congr_right (kernel.complete key))
      | drop dropped => exact kernel.linked.mem_drop.trans (and_congr_right' (kernel.complete key))

def Kernel.handle (kernel : Kernel bucket relink table) (call : Call) :
    Kernel bucket relink table where
  fd := kernel.fd
  maps := call.handle ro kernel.maps
  order := (table.change ro call).elim kernel.order (relink kernel.order)
  valid := kernel.valid
  linked := kernel.linked
  inOrder := by
    cases table.change ro call with
    | none => exact kernel.inOrder
    | some change => exact kernel.linked.inOrder kernel.inOrder change
  complete := kernel.mem_order_handle ro call

/-- A map right after loading. -/
def Kernel.loaded (hlinked : LinksAtHead bucket relink) (table : Table) (fd : ℕ) :
    Kernel bucket relink table where
  fd := fd
  maps := Maps.empty
  order := []
  valid := Int.natCast_nonneg fd
  linked := hlinked
  inOrder := ⟨List.nodup_nil, List.Pairwise.nil⟩
  complete _ := by cases table <;> exact ⟨nofun, nofun⟩

theorem Kernel.card_keys (kernel : Kernel bucket relink table) :
    (table.keys kernel.maps).card = kernel.order.length := by
  rw [← List.toFinset_card_of_nodup kernel.inOrder.nodup]
  congr 1
  ext key
  rw [List.mem_toFinset, kernel.complete]

theorem Kernel.order_handle (kernel : Kernel bucket relink table) (call : Call) :
    (kernel.handle ro call).order =
      (table.change ro call).elim kernel.order (relink kernel.order) := rfl

/-- The loop of the counting functions, with the programs that run before each call of
`bpf_map_get_next_key`. -/
def countDuring : List (List Call) → Kernel bucket relink table → TaskKey → UInt32 → Option UInt32
  | [], _, _, _ => none
  | batch :: batches, kernel, key, count =>
      let kernel := StepRun.run (Kernel.handle ro) kernel batch
      match getNextKey kernel.order key with
      | none => some count
      | some nextKey => countDuring batches kernel nextKey (count + 1)

/-- `active_syscall_count` and `sched_state_count` on a running system. -/
def entryCountDuring (batches : List (List Call)) (kernel : Kernel bucket relink table) :
    Option UInt32 :=
  if kernel.fd < 0 then some 0 else countDuring ro batches kernel zeroKey 0

/-- The changes of the table in each batch. -/
def changes (table : Table) (batches : List (List Call)) : List (List (Change TaskKey)) :=
  batches.map (List.filterMap (table.change ro))

theorem order_run (kernel : Kernel bucket relink table) (batch : List Call) :
    (StepRun.run (Kernel.handle ro) kernel batch).order =
      (batch.filterMap (table.change ro)).foldl relink kernel.order := by
  induction batch generalizing kernel with
  | nil => rfl
  | cons call batch ih =>
      rw [StepRun.run_cons, ih, Kernel.order_handle]
      cases hchange : table.change ro call with
      | none => rw [List.filterMap_cons_none hchange, Option.elim_none]
      | some change =>
          rw [List.filterMap_cons_some hchange, Option.elim_some, List.foldl_cons]

/-- Only the changes of the keys matter to the loop. -/
theorem countDuring_eq (batches : List (List Call)) (kernel : Kernel bucket relink table)
    (key : TaskKey) (count : UInt32) :
    countDuring ro batches kernel key count =
      countWhile relink (changes ro table batches) kernel.order key count := by
  induction batches generalizing kernel key count with
  | nil => rfl
  | cons batch batches ih =>
      rw [countDuring, changes, List.map_cons, countWhile, order_run]
      cases getNextKey ((batch.filterMap (table.change ro)).foldl relink
          kernel.order) key with
      | none => rfl
      | some nextKey =>
          dsimp only
          rw [ih, order_run, changes]

theorem entryCountDuring_eq (batches : List (List Call)) (kernel : Kernel bucket relink table) :
    entryCountDuring ro batches kernel =
      countWhile relink (changes ro table batches) kernel.order zeroKey 0 := by
  rw [entryCountDuring, if_neg (Int.not_lt.mpr kernel.valid), countDuring_eq]

/-- The entries that no program of the run files or deletes. -/
def untouched (kernel : Kernel bucket relink table) (calls : List Call) : Finset TaskKey :=
  (table.keys kernel.maps).filter fun key =>
    ∀ call ∈ calls, (table.change ro call).map Change.key ≠ some key

theorem mem_changes {batches : List (List Call)} {batch : List (Change TaskKey)}
    {change : Change TaskKey} (hbatch : batch ∈ changes ro table batches)
    (hchange : change ∈ batch) : ∃ call ∈ batches.flatten, table.change ro call = some change := by
  obtain ⟨calls, hcalls, rfl⟩ := List.mem_map.mp hbatch
  obtain ⟨call, hcall, hsome⟩ := List.mem_filterMap.mp hchange
  exact ⟨call, List.mem_flatten_of_mem hcalls hcall, hsome⟩

/-- A count that is returned while the programs run covers every entry that stayed in
place, wherever the cursor was set back to, as long as no task has the all-zero key. -/
theorem untouched_entries_counted (kernel : Kernel bucket relink table) (batches : List (List Call))
    (hzero : zeroKey ∉ table.keys kernel.maps)
    (hunfiled : ∀ call ∈ batches.flatten, table.change ro call ≠ some (.file zeroKey))
    (hturns : batches.length ≤ 2 ^ 32) {count : UInt32}
    (hcount : entryCountDuring ro batches kernel = some count) :
    (untouched ro kernel batches.flatten).card ≤ count.toNat := by
  rw [entryCountDuring_eq, countWhile_eq, Option.map_eq_some_iff] at hcount
  obtain ⟨visited, hvisits, rfl⟩ := hcount
  have hlength : visited.length < 2 ^ 32 := by
    have hshort := length_visits hvisits
    rw [changes, List.length_map] at hshort
    exact lt_of_lt_of_le hshort hturns
  have hcovered : untouched ro kernel batches.flatten ⊆ visited.toFinset := by
    intro key hkey
    obtain ⟨hentry, hleft⟩ := Finset.mem_filter.mp hkey
    rw [List.mem_toFinset]
    refine mem_visits_of_notMem kernel.linked kernel.inOrder
      (mt (kernel.complete zeroKey).mp hzero) ?_ ((kernel.complete key).mpr hentry) ?_ hvisits
    · rintro batch hbatch change hchange rfl
      obtain ⟨call, hcall, hfiled⟩ := mem_changes ro hbatch hchange
      exact hunfiled call hcall hfiled
    · rintro batch hbatch change hchange rfl
      obtain ⟨call, hcall, htouched⟩ := mem_changes ro hbatch hchange
      exact hleft call hcall (congrArg (Option.map Change.key) htouched)
  calc (untouched ro kernel batches.flatten).card
      ≤ visited.toFinset.card := Finset.card_le_card hcovered
    _ ≤ visited.length := visited.toFinset_card_le
    _ = ((0 : UInt32) + UInt32.ofNat visited.length).toNat := by
        rw [UInt32.zero_add, UInt32.toNat_ofNat_of_lt' hlength]

end Programs

/-- Two threads of a process inside system calls. -/
def twoThreads : Kernel (fun key => key.tid.toNat) (relinkAtHead fun key => key.tid.toNat)
    .activeSyscalls :=
  StepRun.run (Kernel.handle Rodata.default) (Kernel.loaded (linksAtHead_relinkAtHead _) _ 4)
    [.sysEnter (TaskContext.ofIds 7 7) ⟨0, 1000, 0, 5, 6, true⟩,
      .sysEnter (TaskContext.ofIds 7 8) ⟨0, 2000, 0, 5, 6, true⟩]

/-- The second thread leaves under the cursor, and a third one enters. -/
theorem untouched_entries_counted_two :
    let batches : List (List Call) :=
      [[], [], [.sysExit (TaskContext.ofIds 7 8) ⟨3000, 3001, none⟩],
        [.sysEnter (TaskContext.ofIds 7 9) ⟨0, 4000, 0, 5, 6, true⟩], []]
    entryCountDuring Rodata.default batches twoThreads = some 4 ∧
      untouched Rodata.default twoThreads batches.flatten = {⟨7, 7⟩} ∧
      (untouched Rodata.default twoThreads batches.flatten).card ≤ 4 := by
  intro batches
  have hcount : entryCountDuring Rodata.default batches twoThreads = some 4 := by decide
  refine ⟨hcount, by decide, ?_⟩
  exact untouched_entries_counted Rodata.default twoThreads batches (by decide) (by decide)
    (by decide) hcount

/-! ## A busy thread -/

section Busy

variable {bucket : TaskKey → ℕ} {relink : List TaskKey → Change TaskKey → List TaskKey}
  (ro : Rodata) (waiting busy : TaskContext)
  (enter : SysEnterInput) (exit : SysExitInput)

/-- A thread that leaves its system call whenever the walk has come to it, and is in
the next one a turn later. -/
def rounds : ℕ → List (List Call)
  | 0 => [[]]
  | count + 1 => [.sysExit busy exit] :: [.sysEnter busy enter] :: rounds count

/-- The walk has visited both threads when the rounds begin. -/
def busyRun (count : ℕ) : List (List Call) :=
  [] :: [] :: rounds busy enter exit count

/-- The thread that waits has an entry, and the busy one perhaps. -/
def Pair (kernel : Kernel bucket relink .activeSyscalls) : Prop :=
  kernel.order = [fillTaskKey ro waiting] ∨
    kernel.order = [fillTaskKey ro waiting, fillTaskKey ro busy]

variable {ro waiting busy enter}
variable {kernel : Kernel bucket relink .activeSyscalls}

theorem ne_of_buckets {first second : TaskKey} (hbuckets : bucket first < bucket second) :
    first ≠ second :=
  fun heq => absurd (congrArg bucket heq) hbuckets.ne

theorem inOrder_pair {first second : TaskKey} (hbuckets : bucket first < bucket second) :
    InOrder bucket [first, second] :=
  ⟨by simp [ne_of_buckets hbuckets], by simp [hbuckets.le]⟩

theorem Pair.order_sysExit (hpair : Pair ro waiting busy kernel)
    (hbuckets : bucket (fillTaskKey ro waiting) < bucket (fillTaskKey ro busy)) :
    (kernel.handle ro (.sysExit busy exit)).order = [fillTaskKey ro waiting] := by
  have hne := ne_of_buckets hbuckets
  refine (kernel.handle ro (.sysExit busy exit)).inOrder.eq_of_mem_iff
    ⟨List.nodup_singleton _, List.pairwise_singleton _ _⟩ (by simp) fun key => ?_
  rw [Kernel.order_handle, Table.change, Option.elim_some, kernel.linked.mem_drop,
    List.mem_singleton]
  rcases hpair with horder | horder
  · rw [horder, List.mem_singleton]
    exact and_iff_right_of_imp fun hkey => hkey ▸ hne
  · rw [horder, List.mem_cons, List.mem_singleton, and_or_left,
      or_iff_left fun hkey => hkey.1 hkey.2]
    exact and_iff_right_of_imp fun hkey => hkey ▸ hne

theorem Pair.order_sysEnter (hpair : Pair ro waiting busy kernel)
    (hbuckets : bucket (fillTaskKey ro waiting) < bucket (fillTaskKey ro busy))
    (haccepted : sysEnterAccepts ro busy = true ∧ enter.updateOk = true) :
    (kernel.handle ro (.sysEnter busy enter)).order =
      [fillTaskKey ro waiting, fillTaskKey ro busy] := by
  refine (kernel.handle ro (.sysEnter busy enter)).inOrder.eq_of_mem_iff
    (inOrder_pair hbuckets) (by simp [hbuckets.ne, hbuckets.ne']) fun key => ?_
  rw [Kernel.order_handle, Table.change, if_pos haccepted, Option.elim_some,
    kernel.linked.mem_file, List.mem_cons, List.mem_singleton]
  rcases hpair with horder | horder
  · rw [horder, List.mem_singleton, or_comm]
  · rw [horder, List.mem_cons, List.mem_singleton, or_left_comm, or_self]

theorem getNextKey_pair {first second : TaskKey} (hne : first ≠ second) :
    getNextKey [first, second] first = some second ∧
      getNextKey [first, second] second = none ∧ getNextKey [first] second = some first := by
  simp [getNextKey, hne]

/-- Each round counts both threads once more. -/
theorem countDuring_rounds
    (horder : kernel.order = [fillTaskKey ro waiting, fillTaskKey ro busy])
    (hbuckets : bucket (fillTaskKey ro waiting) < bucket (fillTaskKey ro busy))
    (haccepted : sysEnterAccepts ro busy = true ∧ enter.updateOk = true)
    (turns : ℕ) (count : UInt32) :
    countDuring ro (rounds busy enter exit turns) kernel (fillTaskKey ro busy) count =
      some (count + UInt32.ofNat (2 * turns)) := by
  obtain ⟨hsecond, hend, hback⟩ := getNextKey_pair (ne_of_buckets hbuckets)
  induction turns generalizing kernel count with
  | zero =>
      rw [rounds, countDuring, StepRun.run_nil, horder, hend]
      exact congrArg some (UInt32.add_zero count).symm
  | succ turns ih =>
      have hleft := Pair.order_sysExit exit (.inr horder) hbuckets
      have hagain := Pair.order_sysEnter (.inl hleft) hbuckets haccepted
      -- the cursor's entry is gone: the walk is sent back to the first entry
      rw [rounds, countDuring, StepRun.run_cons, StepRun.run_nil, hleft, hback]
      dsimp only
      rw [countDuring, StepRun.run_cons, StepRun.run_nil, hagain, hsecond]
      dsimp only
      rw [ih hagain, Nat.mul_succ, UInt32.ofNat_add, UInt32.add_assoc count,
        UInt32.add_assoc count, UInt32.add_comm (UInt32.ofNat (2 * turns))]
      rfl

theorem mem_rounds {turns : ℕ} {call : Call}
    (hcall : call ∈ (rounds busy enter exit turns).flatten) :
    call = .sysExit busy exit ∨ call = .sysEnter busy enter := by
  induction turns with
  | zero => cases hcall
  | succ turns ih =>
      rw [rounds, List.flatten_cons, List.flatten_cons, List.singleton_append,
        List.singleton_append, List.mem_cons, List.mem_cons] at hcall
      rcases hcall with hexit | henter | hlater
      · exact .inl hexit
      · exact .inr henter
      · exact ih hlater

/-- One busy thread is enough to have the count of two entries reach any even number:
its entry is gone each time the walk wants to go on from it. -/
theorem count_exceeds_entries
    (horder : kernel.order = [fillTaskKey ro waiting, fillTaskKey ro busy])
    (hbuckets : bucket (fillTaskKey ro waiting) < bucket (fillTaskKey ro busy))
    (hzero : zeroKey ∉ kernel.order)
    (haccepted : sysEnterAccepts ro busy = true ∧ enter.updateOk = true) (turns : ℕ) :
    StepRun.Always (Kernel.handle ro)
        (fun kernel => (Table.activeSyscalls.keys kernel.maps).card ≤ 2) kernel
        (busyRun busy enter exit turns).flatten ∧
      entryCountDuring ro (busyRun busy enter exit turns) kernel =
        some (UInt32.ofNat (2 * turns + 2)) := by
  constructor
  · have hcalls : StepRun.Along (Kernel.handle ro)
        (fun _ call => call = .sysExit busy exit ∨ call = .sysEnter busy enter) kernel
        (busyRun busy enter exit turns).flatten :=
      StepRun.along_of_forall_mem (fun call hcall => mem_rounds exit hcall) kernel
    have hpairs := StepRun.always_of_invariant (Pair ro waiting busy)
      (fun kernel call hpair hcall => ?_) (.inr horder) hcalls
    · refine hpairs.imp fun kernel hpair => ?_
      rw [kernel.card_keys]
      rcases hpair with hone | htwo
      · simp [hone]
      · simp [htwo]
    · rcases hcall with rfl | rfl
      · exact .inl (hpair.order_sysExit exit hbuckets)
      · exact .inr (hpair.order_sysEnter hbuckets haccepted)
  · obtain ⟨hsecond, -⟩ := getNextKey_pair (ne_of_buckets hbuckets)
    rw [entryCountDuring, if_neg (Int.not_lt.mpr kernel.valid), busyRun, countDuring,
      StepRun.run_nil, getNextKey_of_notMem hzero, horder, List.head?_cons]
    dsimp only
    rw [countDuring, StepRun.run_nil, horder, hsecond]
    dsimp only
    rw [countDuring_rounds exit horder hbuckets haccepted, Nat.add_comm (2 * turns),
      UInt32.ofNat_add]
    rfl

end Busy

/-- Two entries, and a count of a million. -/
theorem count_exceeds_entries_million :
    entryCountDuring Rodata.default
        (busyRun (TaskContext.ofIds 7 8) ⟨0, 4000, 0, 5, 6, true⟩ ⟨3000, 3001, none⟩ 499999)
        twoThreads = some 1000000 := by
  have horder : twoThreads.order = [fillTaskKey Rodata.default (TaskContext.ofIds 7 7),
      fillTaskKey Rodata.default (TaskContext.ofIds 7 8)] := by decide
  exact (count_exceeds_entries ⟨3000, 3001, none⟩ horder (by decide) (by decide) (by decide)
    499999).2

end KernelScope.CountsWhileRunning
