import KernelScope.Bpf.Handlers
import Mathlib.Data.List.DropRight

/-!
# The skeleton bridge

User space reads the maps through `src/bpf/skeleton_bridge.cpp`.  A hash map is
walked with `bpf_map_get_next_key`, which needs no more than the order in which
the kernel visits the keys.  Both counting functions start the walk at the
all-zero key, as if it stood for no key.  When a task has that key, the walk
starts behind its entry.
-/

namespace KernelScope.SkeletonBridge

open KernelScope.Filters
open KernelScope.Handlers
open KernelScope.KeyedFold
open KernelScope.WireFormat

/-! ## Walking a hash map -/

section Walk

variable {K : Type*} [DecidableEq K]

/-- `bpf_map_get_next_key` on a hash map that visits `keys` in this order: the
key behind a key that is there, the first key otherwise. -/
def getNextKey (keys : List K) (key : K) : Option K :=
  match keys.dropWhile (· ≠ key) with
  | [] => keys.head?
  | _ :: rest => rest.head?

/-- The loop of the counting functions. -/
def countKeys (keys : List K) : Nat → K → UInt32 → Option UInt32
  | 0, _, _ => none
  | fuel + 1, key, count =>
      match getNextKey keys key with
      | none => some count
      | some nextKey => countKeys keys fuel nextKey (count + 1)

theorem getNextKey_of_notMem {keys : List K} {key : K} (hkey : key ∉ keys) :
    getNextKey keys key = keys.head? := by
  have hdrop : keys.dropWhile (· ≠ key) = [] := by
    rw [List.dropWhile_eq_nil_iff]
    intro other hother
    exact decide_eq_true fun heq => hkey (heq ▸ hother)
  rw [getNextKey, hdrop]

theorem getNextKey_append {front rest : List K} {key : K}
    (hnodup : (front ++ key :: rest).Nodup) :
    getNextKey (front ++ key :: rest) key = rest.head? := by
  have hfront : ∀ other ∈ front, decide (other ≠ key) = true := fun other hother =>
    decide_eq_true ((List.nodup_append.mp hnodup).2.2 other hother key List.mem_cons_self)
  have hdrop : (front ++ key :: rest).dropWhile (· ≠ key) = key :: rest := by
    rw [List.dropWhile_append_of_pos hfront, List.dropWhile_cons_of_neg (by simp)]
  rw [getNextKey, hdrop]

omit [DecidableEq K] in
theorem add_one_add_length (count : UInt32) (key : K) (keys : List K) :
    count + 1 + UInt32.ofNat keys.length = count + UInt32.ofNat (key :: keys).length := by
  rw [List.length_cons, UInt32.ofNat_add, UInt32.add_assoc, UInt32.add_comm 1]
  rfl

/-- From a key that is there, the loop counts the keys behind it. -/
theorem countKeys_append {front rest : List K} {key : K}
    (hnodup : (front ++ key :: rest).Nodup) {fuel : Nat} (hfuel : rest.length < fuel)
    (count : UInt32) :
    countKeys (front ++ key :: rest) fuel key count =
      some (count + UInt32.ofNat rest.length) := by
  induction rest generalizing front key fuel count with
  | nil =>
      obtain ⟨fuel, rfl⟩ := Nat.exists_eq_succ_of_ne_zero (Nat.ne_of_gt hfuel)
      rw [countKeys, getNextKey_append hnodup]
      simp
  | cons next rest ih =>
      obtain ⟨fuel, rfl⟩ := Nat.exists_eq_succ_of_ne_zero (Nat.ne_of_gt (by omega : 0 < fuel))
      have hsplit : front ++ key :: next :: rest = (front ++ [key]) ++ next :: rest := by
        simp
      have hnext := ih (hsplit ▸ hnodup) (Nat.lt_of_succ_lt_succ hfuel) (count + 1)
      rw [countKeys, getNextKey_append hnodup]
      simp only [List.head?_cons]
      rw [hsplit, hnext, add_one_add_length]

/-- From a key that is not there, the loop counts every key. -/
theorem countKeys_of_notMem {keys : List K} (hnodup : keys.Nodup) {key : K}
    (hkey : key ∉ keys) {fuel : Nat} (hfuel : keys.length < fuel) (count : UInt32) :
    countKeys keys fuel key count = some (count + UInt32.ofNat keys.length) := by
  obtain ⟨fuel, rfl⟩ := Nat.exists_eq_succ_of_ne_zero (Nat.ne_of_gt (by omega : 0 < fuel))
  rw [countKeys, getNextKey_of_notMem hkey]
  cases keys with
  | nil => simp
  | cons first rest =>
      have hrest : countKeys ([] ++ first :: rest) fuel first (count + 1) = _ :=
        countKeys_append hnodup (Nat.lt_of_succ_lt_succ hfuel) (count + 1)
      simp only [List.head?_cons]
      rw [List.nil_append] at hrest
      rw [hrest, add_one_add_length]

end Walk

/-! ## The maps of a loaded skeleton -/

/-- A hash map in the kernel, in some iteration order. -/
structure HashMap (maxEntries : Nat) (V : Type) where
  fd : Int
  contents : KeyedMap TaskKey V
  order : Enumeration contents
  valid : 0 ≤ fd
  bounded : contents.keys.card ≤ maxEntries

def HashMap.keys {maxEntries : Nat} {V : Type} (map : HashMap maxEntries V) :
    List TaskKey :=
  map.order.entries.map Sigma.fst

abbrev maxActiveSyscalls : Nat := 65536

abbrev maxSchedEntries : Nat := 65536

abbrev maxStackDepth : Nat := 127

/-- The stack-trace map: a record of addresses under an id. -/
structure StackTraceMap where
  fd : Int
  lookup : UInt32 → Option (Vector UInt64 maxStackDepth)

structure Skeleton where
  activeSyscalls : HashMap maxActiveSyscalls ActiveSyscall
  schedStates : HashMap maxSchedEntries SchedState
  stackTraces : StackTraceMap

def activeSyscallsFd (skel : Option Skeleton) : Int :=
  skel.elim (-1) fun skel => skel.activeSyscalls.fd

def schedStatesFd (skel : Option Skeleton) : Int :=
  skel.elim (-1) fun skel => skel.schedStates.fd

def stackTraceFd (skel : Option Skeleton) : Int :=
  skel.elim (-1) fun skel => skel.stackTraces.fd

/-- Trailing zeros are not part of a stack. -/
def readStack (skel : Option Skeleton) (stackId : Int32) : List UInt64 :=
  if stackTraceFd skel < 0 ∨ stackId < 0 then []
  else
    match skel.bind fun skel => skel.stackTraces.lookup stackId.toUInt32 with
    | none => []
    | some addrs => addrs.toList.rdropWhile (· = 0)

/-- `struct task_key key = {}`. -/
def zeroKey : TaskKey where
  pid := 0
  tid := 0

/-- The two counting functions, up to the map they walk. -/
def entryCount (fd : Int) (keys : List TaskKey) (fuel : Nat) : Option UInt32 :=
  if fd < 0 then some 0 else countKeys keys fuel zeroKey 0

def activeSyscallCount (skel : Option Skeleton) (fuel : Nat) : Option UInt32 :=
  entryCount (activeSyscallsFd skel)
    (skel.elim [] fun skel => skel.activeSyscalls.keys) fuel

def schedStateCount (skel : Option Skeleton) (fuel : Nat) : Option UInt32 :=
  entryCount (schedStatesFd skel)
    (skel.elim [] fun skel => skel.schedStates.keys) fuel

/-! ## What is counted -/

section Counting

variable {maxEntries : Nat} {V : Type} (map : HashMap maxEntries V)

theorem HashMap.length_keys : map.keys.length = map.contents.keys.card := by
  rw [HashMap.keys, List.length_map, map.order.length_entries]

theorem HashMap.mem_keys {key : TaskKey} : key ∈ map.keys ↔ key ∈ map.contents := by
  rw [Finmap.mem_def, ← map.order.complete]
  rfl

/-- The walk ends, and it visits every entry exactly when no task has the
all-zero key. -/
theorem HashMap.entryCount_exact_iff (hmax : maxEntries < 2 ^ 32) :
    ∃ count : UInt32,
      (∀ fuel, map.contents.keys.card < fuel →
        entryCount map.fd map.keys fuel = some count) ∧
      (count.toNat = map.contents.keys.card ↔ zeroKey ∉ map.contents) := by
  have hfd : ¬map.fd < 0 := Int.not_lt.mpr map.valid
  have hlength := map.length_keys
  have hword : map.keys.length < 2 ^ 32 :=
    hlength ▸ Nat.lt_of_le_of_lt map.bounded hmax
  have hnodup : map.keys.Nodup := map.order.nodup_keys
  by_cases hzero : zeroKey ∈ map.keys
  · -- the entries in front of the all-zero key, and its own, are not counted
    obtain ⟨front, rest, hsplit⟩ := List.append_of_mem hzero
    have hrest : rest.length < map.keys.length := by simp [hsplit]; omega
    have hcount : (UInt32.ofNat rest.length).toNat = rest.length :=
      UInt32.toNat_ofNat_of_lt' (Nat.lt_trans hrest hword)
    refine ⟨UInt32.ofNat rest.length, ?_, ?_⟩
    · intro fuel hfuel
      rw [entryCount, if_neg hfd, hsplit,
        countKeys_append (hsplit ▸ hnodup) (by omega), UInt32.zero_add]
    · rw [hcount, ← map.mem_keys, ← hlength]
      exact ⟨fun heq => absurd heq (Nat.ne_of_lt hrest), fun hnot => absurd hzero hnot⟩
  · refine ⟨UInt32.ofNat map.keys.length, ?_, ?_⟩
    · intro fuel hfuel
      rw [entryCount, if_neg hfd, countKeys_of_notMem hnodup hzero (hlength ▸ hfuel),
        UInt32.zero_add]
    · rw [UInt32.toNat_ofNat_of_lt' hword, ← map.mem_keys, hlength]
      simp [hzero]

end Counting

/-- Both counts end, and each is the number of entries exactly when the
all-zero key is not one of the keys. -/
theorem entry_counts_exact_iff (skel : Skeleton) :
    (∃ count : UInt32,
      (∀ fuel, skel.activeSyscalls.contents.keys.card < fuel →
        activeSyscallCount (some skel) fuel = some count) ∧
      (count.toNat = skel.activeSyscalls.contents.keys.card ↔
        zeroKey ∉ skel.activeSyscalls.contents)) ∧
    (∃ count : UInt32,
      (∀ fuel, skel.schedStates.contents.keys.card < fuel →
        schedStateCount (some skel) fuel = some count) ∧
      (count.toNat = skel.schedStates.contents.keys.card ↔
        zeroKey ∉ skel.schedStates.contents)) :=
  ⟨skel.activeSyscalls.entryCount_exact_iff (by decide),
    skel.schedStates.entryCount_exact_iff (by decide)⟩

/-- The maps after an idle task has left its CPU. -/
def idleLeft : Maps :=
  tpSchedSwitch Rodata.default
    { prevPid := 0, nextPid := 7, prevState := 0, nextComm := Vector.replicate 16 0,
      cpu := 0, outNs := 5, inNs := 5, updateOk := true, slot := none }
    Maps.empty

def afterIdle : Skeleton where
  activeSyscalls :=
    { fd := 4, contents := idleLeft.activeSyscalls, order := ⟨[], rfl⟩,
      valid := by decide, bounded := by decide }
  schedStates :=
    { fd := 5, contents := idleLeft.schedStates,
      order := ⟨[⟨zeroKey, { SchedState.zero with switchOutNs := 5 }⟩], rfl⟩,
      valid := by decide, bounded := by decide }
  stackTraces := ⟨6, fun _ => none⟩

/-- The idle task's entry is the only one, and it is not counted. -/
theorem sched_state_count_misses_idle :
    afterIdle.schedStates.contents.keys.card = 1 ∧
      schedStateCount (some afterIdle) 2 = some 0 := by
  decide

end KernelScope.SkeletonBridge
