import KernelScope.Bpf.HandlerSpecs
import KernelScope.Bpf.Loader
import Mathlib.Logic.Relation

/-!
# Task keys and pid namespaces

`fill_task_key` takes the ids of a task from the pid namespace `kscope` runs in
when the task runs there too, and from the global numbering otherwise.  Two
numberings in one table: the keys tell the live tasks apart exactly when no task
of `kscope`'s namespace has the ids there that a task outside has globally.
-/

namespace KernelScope.TaskKeys

open KernelScope.Filters
open KernelScope.Handlers
open KernelScope.KeyedFold
open KernelScope.Loader
open KernelScope.WireFormat

variable {Task Ns : Type*}

/-- `outer` is `inner` or one of the namespaces around it. -/
def Encloses (parent : Ns → Option Ns) (outer inner : Ns) : Prop :=
  Relation.ReflTransGen (fun child ns => parent child = some ns) inner outer

/-- Simultaneously live tasks in a tree of pid namespaces.  A task has ids in
its active namespace and in every one around it; the ids in the root are the
global ones. -/
structure PidTree (Task Ns : Type*) where
  parent : Ns → Option Ns
  root : Ns
  /-- what `/proc/self/ns/pid` is for a process in the namespace -/
  file : Ns → Stat
  active : Task → Ns
  ids : Ns → Task → PidnsInfo
  root_encloses : ∀ ns, Encloses parent root ns
  pid_unique : ∀ ns left right, Encloses parent ns (active left) →
    Encloses parent ns (active right) →
      (ids ns left).pid = (ids ns right).pid → left = right

/-- The answers of the kernel's helpers to the programs while a task runs, when
`kscope` was started in the namespace `home`. -/
structure Answers (tree : PidTree Task Ns) (home : Ns) (ro : Rodata) (task : Task)
    (context : TaskContext) : Prop where
  global : globalPidTgid context =
    ((tree.ids tree.root task).tgid, (tree.ids tree.root task).pid)
  inside : tree.active task = home →
    context.nsPidTgid ro.pidnsDev ro.pidnsIno = some (tree.ids home task)
  outside : tree.active task ≠ home →
    context.nsPidTgid ro.pidnsDev ro.pidnsIno = none

/-- Distinct live tasks get distinct keys. -/
def SeparateKeys (tree : PidTree Task Ns) (home : Ns) (ro : Rodata) : Prop :=
  ∀ task other context context',
    Answers tree home ro task context → Answers tree home ro other context' →
      fillTaskKey ro context = fillTaskKey ro context' → task = other

/-- A handler that runs for another live task neither changes a task's entry in
`active_syscalls` nor reports from it. -/
def SeparateEntries (tree : PidTree Task Ns) (home : Ns) (ro : Rodata) : Prop :=
  ∀ task other context context' (call : Call) m,
    Answers tree home ro task context → Answers tree home ro other context' →
      call.context = some context' → task ≠ other →
        (call.handle ro m).activeSyscalls.lookup (fillTaskKey ro context) =
            m.activeSyscalls.lookup (fillTaskKey ro context) ∧
          call.record ro
              { m with
                activeSyscalls :=
                  m.activeSyscalls.erase (fillTaskKey ro context) } =
            call.record ro m

/-- A task of the namespace has the ids there that a task outside has in the
global numbering. -/
def Collision (tree : PidTree Task Ns) (home : Ns) : Prop :=
  ∃ inner outer, tree.active inner = home ∧ tree.active outer ≠ home ∧
    tree.ids home inner = tree.ids tree.root outer

/-! ## The key of a task -/

/-- The key that spells out a pair of ids. -/
def keyOf (ids : PidnsInfo) : TaskKey where
  pid := ids.tgid
  tid := ids.pid

theorem keyOf_injective : Function.Injective keyOf := by
  intro left right hkey
  have htgid := congrArg TaskKey.pid hkey
  have hpid := congrArg TaskKey.tid hkey
  cases left
  cases right
  cases htgid
  cases hpid
  rfl

section Keys

variable {tree : PidTree Task Ns} {home : Ns} {ro : Rodata} {task : Task}
variable {context : TaskContext}

theorem fillTaskKey_inside (hstored : ro.pidnsDev ≠ 0 ∧ ro.pidnsIno ≠ 0)
    (hanswers : Answers tree home ro task context)
    (hinside : tree.active task = home) :
    fillTaskKey ro context = keyOf (tree.ids home task) := by
  simp only [fillTaskKey, getNsPidTgid, if_pos hstored,
    hanswers.inside hinside]
  rfl

theorem fillTaskKey_outside (hanswers : Answers tree home ro task context)
    (houtside : tree.active task ≠ home) :
    fillTaskKey ro context = keyOf (tree.ids tree.root task) := by
  simp only [fillTaskKey, getNsPidTgid, hanswers.outside houtside, ite_self,
    hanswers.global]
  rfl

theorem fillTaskKey_unstored (hstored : ¬(ro.pidnsDev ≠ 0 ∧ ro.pidnsIno ≠ 0))
    (hanswers : Answers tree home ro task context) :
    fillTaskKey ro context = keyOf (tree.ids tree.root task) := by
  simp only [fillTaskKey, getNsPidTgid, if_neg hstored, hanswers.global]
  rfl

/-- Whatever the ids, there is a context in which the kernel answers so. -/
theorem exists_answers (tree : PidTree Task Ns) (home : Ns) (ro : Rodata)
    (task : Task) : ∃ context, Answers tree home ro task context := by
  classical
  let ids := tree.ids tree.root task
  refine ⟨{ TaskContext.ofIds ids.tgid ids.pid with
    nsPidTgid := fun _ _ =>
      if tree.active task = home then some (tree.ids home task) else none },
    globalPidTgid_ofIds _ _, fun hinside => if_pos hinside,
    fun houtside => if_neg houtside⟩

end Keys

/-- Global ids tell all live tasks apart. -/
theorem PidTree.eq_of_global_ids (tree : PidTree Task Ns) {task other : Task}
    (hids : tree.ids tree.root task = tree.ids tree.root other) : task = other :=
  tree.pid_unique tree.root task other (tree.root_encloses _)
    (tree.root_encloses _) (congrArg PidnsInfo.pid hids)

theorem PidTree.eq_of_local_ids (tree : PidTree Task Ns) {task other : Task}
    {ns : Ns} (htask : tree.active task = ns) (hother : tree.active other = ns)
    (hids : tree.ids ns task = tree.ids ns other) : task = other :=
  tree.pid_unique ns task other (htask ▸ .refl) (hother ▸ .refl)
    (congrArg PidnsInfo.pid hids)

theorem separateKeys_iff (tree : PidTree Task Ns) (home : Ns) (ro : Rodata) :
    SeparateKeys tree home ro ↔
      ¬(ro.pidnsDev ≠ 0 ∧ ro.pidnsIno ≠ 0) ∨ ¬Collision tree home := by
  constructor
  · intro hseparate
    by_contra hcollide
    rw [not_or, not_not, not_not] at hcollide
    obtain ⟨hstored, inner, outer, hinner, houter, hids⟩ := hcollide
    obtain ⟨context, hcontext⟩ := exists_answers tree home ro inner
    obtain ⟨context', hcontext'⟩ := exists_answers tree home ro outer
    have hkey : fillTaskKey ro context = fillTaskKey ro context' := by
      rw [fillTaskKey_inside hstored hcontext hinner,
        fillTaskKey_outside hcontext' houter, hids]
    have heq := hseparate inner outer context context' hcontext hcontext' hkey
    exact houter (heq ▸ hinner)
  · intro hcondition task other context context' hcontext hcontext' hkey
    by_cases hstored : ro.pidnsDev ≠ 0 ∧ ro.pidnsIno ≠ 0
    case neg =>
      rw [fillTaskKey_unstored hstored hcontext,
        fillTaskKey_unstored hstored hcontext'] at hkey
      exact tree.eq_of_global_ids (keyOf_injective hkey)
    have hfree := hcondition.resolve_left (not_not.mpr hstored)
    by_cases htask : tree.active task = home
    · rw [fillTaskKey_inside hstored hcontext htask] at hkey
      by_cases hother : tree.active other = home
      · rw [fillTaskKey_inside hstored hcontext' hother] at hkey
        exact tree.eq_of_local_ids htask hother (keyOf_injective hkey)
      · rw [fillTaskKey_outside hcontext' hother] at hkey
        exact absurd ⟨task, other, htask, hother, keyOf_injective hkey⟩ hfree
    · rw [fillTaskKey_outside hcontext htask] at hkey
      by_cases hother : tree.active other = home
      · rw [fillTaskKey_inside hstored hcontext' hother] at hkey
        exact absurd ⟨other, task, hother, htask, (keyOf_injective hkey).symm⟩
          hfree
      · rw [fillTaskKey_outside hcontext' hother] at hkey
        exact tree.eq_of_global_ids (keyOf_injective hkey)

theorem SeparateKeys.entries {tree : PidTree Task Ns} {home : Ns} {ro : Rodata}
    (hseparate : SeparateKeys tree home ro) : SeparateEntries tree home ro := by
  intro task other context context' call m hcontext hcontext' hcall hne
  have hkey : fillTaskKey ro context ≠ fillTaskKey ro context' := fun heq =>
    hne (hseparate task other context context' hcontext hcontext' heq)
  exact ⟨lookup_handle_activeSyscalls_of_ne hcall hkey m,
    record_erase_activeSyscalls_of_ne hcall hkey m⟩

/-- Keys identify live tasks, and a task's entry is its own, exactly when no
namespace was stored or no task inside collides with one outside. -/
theorem taskKeys_separate_iff (tree : PidTree Task Ns) (home : Ns)
    (cfg : BpfConfig) (rodata : Rodata) :
    let ro := configured cfg (some (tree.file home)) rodata
    SeparateKeys tree home ro ∧ SeparateEntries tree home ro ↔
      ((tree.file home).dev.toUInt32 = 0 ∨ (tree.file home).ino.toUInt32 = 0) ∨
        ¬∃ inner outer, tree.active inner = home ∧ tree.active outer ≠ home ∧
          tree.ids home inner = tree.ids tree.root outer := by
  intro ro
  have hstored :
      ¬(ro.pidnsDev ≠ 0 ∧ ro.pidnsIno ≠ 0) ↔
        (tree.file home).dev.toUInt32 = 0 ∨ (tree.file home).ino.toUInt32 = 0 := by
    rw [not_and_or, not_not, not_not]
    rfl
  rw [and_iff_left_of_imp SeparateKeys.entries, separateKeys_iff, hstored]
  rfl

/-! ## A container -/

/-- The host and a container in it, with one task each. -/
inductive Place where
  | host
  | box
  deriving DecidableEq

/-- The container's task is 1007 to the host and 7 in the container; the host
has a task 7 of its own. -/
def boxTree : PidTree Place Place where
  parent
    | .host => none
    | .box => some .host
  root := .host
  file
    | .host => ⟨4, 4026531836⟩
    | .box => ⟨4, 4026532500⟩
  active place := place
  ids
    | .host, .host => ⟨7, 7⟩
    | .host, .box => ⟨1007, 1007⟩
    | .box, .box => ⟨7, 7⟩
    | .box, .host => ⟨0, 0⟩
  root_encloses ns := by
    cases ns with
    | host => exact .refl
    | box => exact .single rfl
  pid_unique ns left right _ _ hpid := by
    cases ns <;> cases left <;> cases right <;> first | rfl | cases hpid

/-- The kernel's answers for the host's task to a `kscope` in the container. -/
def hostContext : TaskContext := TaskContext.ofIds 7 7

def boxContext : TaskContext :=
  { TaskContext.ofIds 1007 1007 with nsPidTgid := fun _ _ => some ⟨7, 7⟩ }

/-- With `kscope` in the container, its task's `sys_exit` takes the entry of the
host's task and reports the host task's system call as its own. -/
theorem container_takes_host_entry :
    let ro :=
      configured BpfConfig.default (some (boxTree.file .box)) Rodata.default
    let entered := tpSysEnter ro hostContext ⟨0, 1000, 0, -1, -1, true⟩ Maps.empty
    let exit := Call.sysExit boxContext ⟨501000, 501000, some WireEvent.zero⟩
    Answers boxTree .box ro .host hostContext ∧
      Answers boxTree .box ro .box boxContext ∧
      fillTaskKey ro hostContext = fillTaskKey ro boxContext ∧
      (entered.activeSyscalls.lookup (fillTaskKey ro hostContext)).isSome ∧
      (exit.handle ro entered).activeSyscalls.lookup
        (fillTaskKey ro hostContext) = none ∧
      (exit.record ro entered).map (fun e => (e.pid, e.tid, e.durationNs)) =
        some (7, 7, 500000) ∧
      ¬(SeparateKeys boxTree .box ro ∧ SeparateEntries boxTree .box ro) := by
  intro ro entered exit
  have hhost : Answers boxTree .box ro .host hostContext :=
    ⟨by decide, fun hinside => absurd hinside (by decide), fun _ => rfl⟩
  have hbox : Answers boxTree .box ro .box boxContext :=
    ⟨by decide, fun _ => rfl, fun houtside => absurd rfl houtside⟩
  have hkey : fillTaskKey ro hostContext = fillTaskKey ro boxContext := by decide
  refine ⟨hhost, hbox, hkey, by decide +kernel, by decide +kernel, by decide +kernel, ?_⟩
  rintro ⟨hseparate, -⟩
  cases hseparate .host .box hostContext boxContext hhost hbox hkey

end KernelScope.TaskKeys
