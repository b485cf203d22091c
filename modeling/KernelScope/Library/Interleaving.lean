import KernelScope.Library.StepRun
import Mathlib.Data.Finset.Basic
import Mathlib.Logic.Function.Basic

/-!
# Interleaved programs

Short programs run on several processors at once.  A program reads and writes
the cells of a shared memory one at a time and may put one record into a queue:
it reserves a place, which fixes the order of the records, and submits the
record later.  Until then the place is busy, and a reader of the queue stops in
front of it.

Programs that run at the same time touch different cells.  Then every run is
like a serial one, in which each program is executed at once at the moment it
reserves its place, or at its end if it has no record.  What each access keeps by
itself is kept without that condition.
-/

namespace KernelScope.Interleaving

universe u v w

/-- How far a program is with its record. -/
inductive Phase where
  | before
  | owing
  | after
  deriving DecidableEq

/-- A program that still has to be executed.  A place is reserved at most once,
and it is given back by exactly one submission. -/
inductive Program (Cell : Type u) (Value : Cell → Type v) (Record : Type w) :
    Phase → Type (max u v w) where
  /-- the end, without a record -/
  | skip : Program Cell Value Record .before
  /-- the end, after the record -/
  | stop : Program Cell Value Record .after
  /-- one atomic access to a cell: its old value decides what comes next -/
  | access {phase : Phase} (cell : Cell) (write : Value cell → Value cell)
      (next : Value cell → Program Cell Value Record phase) :
      Program Cell Value Record phase
  | reserve (next : Program Cell Value Record .owing) :
      Program Cell Value Record .before
  | submit (record : Record) (next : Program Cell Value Record .after) :
      Program Cell Value Record .owing

section Programs

variable {Cell : Type u} {Value : Cell → Type v} {Record : Type w}
variable {phase : Phase}

/-- The program touches no cell outside of `foot`. -/
def Program.Within (foot : Finset Cell) :
    {phase : Phase} → Program Cell Value Record phase → Prop
  | _, .skip => True
  | _, .stop => True
  | _, .access cell _ next => cell ∈ foot ∧ ∀ value, (next value).Within foot
  | _, .reserve next => next.Within foot
  | _, .submit _ next => next.Within foot

/-- As long as the cells hold what is `ok` when they are read, the program writes
nothing else and submits a record that is `good`. -/
def Program.Safe (ok : ∀ cell, Value cell → Prop) (good : Record → Prop) :
    {phase : Phase} → Program Cell Value Record phase → Prop
  | _, .skip => True
  | _, .stop => True
  | _, .access cell write next =>
      ∀ value, ok cell value → ok cell (write value) ∧ (next value).Safe ok good
  | _, .reserve next => next.Safe ok good
  | _, .submit record next => good record ∧ next.Safe ok good

/-- The memories agree on the cells of `foot`. -/
def AgreeOn (foot : Finset Cell) (left right : ∀ cell, Value cell) : Prop :=
  ∀ cell ∈ foot, left cell = right cell

variable [DecidableEq Cell]

/-- The memory when the program is executed to its end and nothing else
happens. -/
def Program.finish :
    {phase : Phase} → Program Cell Value Record phase →
      (∀ cell, Value cell) → ∀ cell, Value cell
  | _, .skip, mem => mem
  | _, .stop, mem => mem
  | _, .access cell write next, mem =>
      (next (mem cell)).finish (Function.update mem cell (write (mem cell)))
  | _, .reserve next, mem => next.finish mem
  | _, .submit _ next, mem => next.finish mem

/-- The record that is still to be submitted. -/
def Program.emits :
    {phase : Phase} → Program Cell Value Record phase →
      (∀ cell, Value cell) → Option Record
  | _, .skip, _ => none
  | _, .stop, _ => none
  | _, .access cell write next, mem =>
      (next (mem cell)).emits (Function.update mem cell (write (mem cell)))
  | _, .reserve next, mem => next.emits mem
  | _, .submit record _, _ => some record

/-! ## Frames -/

omit [DecidableEq Cell] in
theorem AgreeOn.symm {foot : Finset Cell} {left right : ∀ cell, Value cell}
    (hagree : AgreeOn foot left right) : AgreeOn foot right left :=
  fun cell hcell => (hagree cell hcell).symm

omit [DecidableEq Cell] in
theorem AgreeOn.trans {foot : Finset Cell} {left middle right : ∀ cell, Value cell}
    (hleft : AgreeOn foot left middle) (hright : AgreeOn foot middle right) :
    AgreeOn foot left right :=
  fun cell hcell => (hleft cell hcell).trans (hright cell hcell)

theorem AgreeOn.update {foot : Finset Cell} {left right : ∀ cell, Value cell}
    (hagree : AgreeOn foot left right) (cell : Cell) (value : Value cell) :
    AgreeOn foot (Function.update left cell value)
      (Function.update right cell value) := by
  intro other hother
  by_cases heq : other = cell
  · subst heq
    rw [Function.update_self, Function.update_self]
  · rw [Function.update_of_ne heq, Function.update_of_ne heq]
    exact hagree other hother

/-- A program leaves the cells outside of its footprint alone. -/
theorem Program.finish_of_notMem {foot : Finset Cell}
    (program : Program Cell Value Record phase) (hwithin : program.Within foot)
    {cell : Cell} (hcell : cell ∉ foot) (mem : ∀ cell, Value cell) :
    program.finish mem cell = mem cell := by
  induction program generalizing mem with
  | skip => rfl
  | stop => rfl
  | access touched write next ih =>
      have hne : cell ≠ touched := fun heq => hcell (heq ▸ hwithin.1)
      rw [Program.finish, ih _ (hwithin.2 _), Function.update_of_ne hne]
  | reserve next ih => exact ih hwithin mem
  | submit record next ih => exact ih hwithin mem

/-- What a program does is decided by the cells of its footprint. -/
theorem Program.finish_congr {foot : Finset Cell}
    (program : Program Cell Value Record phase) (hwithin : program.Within foot)
    {left right : ∀ cell, Value cell} (hagree : AgreeOn foot left right) :
    AgreeOn foot (program.finish left) (program.finish right) ∧
      program.emits left = program.emits right := by
  induction program generalizing left right with
  | skip => exact ⟨hagree, rfl⟩
  | stop => exact ⟨hagree, rfl⟩
  | access cell write next ih =>
      rw [Program.finish, Program.finish, Program.emits, Program.emits,
        hagree cell hwithin.1]
      exact ih _ (hwithin.2 _) (hagree.update cell _)
  | reserve next ih => exact ih hwithin hagree
  | submit record next ih => exact ⟨(ih hwithin hagree).1, rfl⟩

/-- A program that has reserved its place owes a record. -/
theorem Program.emits_of_owing (program : Program Cell Value Record phase)
    (hphase : phase = .owing) (mem : ∀ cell, Value cell) :
    (program.emits mem).isSome := by
  induction program generalizing mem with
  | skip => cases hphase
  | stop => cases hphase
  | access cell write next ih => exact ih _ hphase _
  | reserve next ih => cases hphase
  | submit record next ih => rfl

end Programs

/-! ## The machine -/

/-- A program with the cells that it may touch. -/
structure Task (Cell : Type u) (Value : Cell → Type v) (Record : Type w) where
  program : Program Cell Value Record .before
  foot : Finset Cell
  within : program.Within foot

/-- A task in execution. -/
structure Running {Cell : Type u} {Value : Cell → Type v} {Record : Type w}
    {Job : Type*} (task : Job → Task Cell Value Record) where
  job : Job
  phase : Phase
  rest : Program Cell Value Record phase
  within : rest.Within (task job).foot

/-- The memory, the queue, in which a busy place names its processor, and what
each processor executes.  Two lists are kept for the record: the jobs in the
order in which they were begun, and in the order in which they took effect. -/
structure Machine (Cpu : Type*) {Cell : Type u} {Value : Cell → Type v}
    {Record : Type w} {Job : Type*} (task : Job → Task Cell Value Record) where
  mem : ∀ cell, Value cell
  queue : List (Cpu ⊕ Record)
  thread : Cpu → Option (Running task)
  begun : List (Cpu × Job)
  done : List (Cpu × Job)

inductive Label (Cpu Job : Type*) where
  | start (cpu : Cpu) (job : Job)
  | step (cpu : Cpu)

section Machines

variable {Cpu : Type*} {Cell : Type u} {Value : Cell → Type v} {Record : Type w}
variable {Job : Type*} {task : Job → Task Cell Value Record}

/-- Nothing has been begun yet. -/
def Machine.idle (task : Job → Task Cell Value Record) (mem : ∀ cell, Value cell) :
    Machine Cpu task where
  mem := mem
  queue := []
  thread := fun _ => none
  begun := []
  done := []

/-- The records in front of the first busy place. -/
def visible : List (Cpu ⊕ Record) → List Record
  | .inr record :: queue => record :: visible queue
  | _ => []

variable [DecidableEq Cpu]

/-- The busy places of a processor get its record. -/
def settle (cpu : Cpu) (record : Record) : Cpu ⊕ Record → Cpu ⊕ Record
  | .inl other => if other = cpu then .inr record else .inl other
  | .inr old => .inr old

variable [DecidableEq Cell]

/-- One step of the program that a processor executes. -/
def Machine.advance (m : Machine Cpu task) (cpu : Cpu) :
    Running task → Machine Cpu task
  | ⟨job, _, .skip, _⟩ =>
      { m with
        thread := Function.update m.thread cpu none
        done := m.done ++ [(cpu, job)] }
  | ⟨_, _, .stop, _⟩ =>
      { m with thread := Function.update m.thread cpu none }
  | ⟨job, phase, .access cell write next, hwithin⟩ =>
      { m with
        mem := Function.update m.mem cell (write (m.mem cell))
        thread := Function.update m.thread cpu
          (some ⟨job, phase, next (m.mem cell), hwithin.2 _⟩) }
  | ⟨job, _, .reserve next, hwithin⟩ =>
      { m with
        queue := m.queue ++ [.inl cpu]
        thread := Function.update m.thread cpu (some ⟨job, .owing, next, hwithin⟩)
        done := m.done ++ [(cpu, job)] }
  | ⟨job, _, .submit record next, hwithin⟩ =>
      { m with
        queue := m.queue.map (settle cpu record)
        thread := Function.update m.thread cpu (some ⟨job, .after, next, hwithin⟩) }

def exec (m : Machine Cpu task) : Label Cpu Job → Machine Cpu task
  | .start cpu job =>
      { m with
        thread := Function.update m.thread cpu
          (some ⟨job, .before, (task job).program, (task job).within⟩)
        begun := m.begun ++ [(cpu, job)] }
  | .step cpu =>
      match m.thread cpu with
      | none => m
      | some running => m.advance cpu running

omit [DecidableEq Cpu] [DecidableEq Cell] in
/-- A job is begun on a processor that executes nothing, and no job in execution
touches any of its cells. -/
def Allowed (m : Machine Cpu task) : Label Cpu Job → Prop
  | .start cpu job =>
      m.thread cpu = none ∧
        ∀ other running, m.thread other = some running →
          Disjoint (task running.job).foot (task job).foot
  | .step _ => True

/-! ## Serial execution -/

/-- A job executed at once. -/
def perform (task : Job → Task Cell Value Record)
    (state : (∀ cell, Value cell) × List Record) (begun : Cpu × Job) :
    (∀ cell, Value cell) × List Record :=
  ((task begun.2).program.finish state.1,
    state.2 ++ ((task begun.2).program.emits state.1).toList)

/-- The jobs executed one after the other. -/
def serial (task : Job → Task Cell Value Record) (mem : ∀ cell, Value cell)
    (jobs : List (Cpu × Job)) : (∀ cell, Value cell) × List Record :=
  StepRun.run (perform task) (mem, []) jobs

omit [DecidableEq Cpu] in
theorem serial_append (mem : ∀ cell, Value cell) (jobs : List (Cpu × Job))
    (begun : Cpu × Job) :
    serial task mem (jobs ++ [begun]) = perform task (serial task mem jobs) begun := by
  simp [serial, StepRun.run]

/-! ## The correspondence -/

/-- The jobs of one processor. -/
def onCpu (cpu : Cpu) (jobs : List (Cpu × Job)) : List (Cpu × Job) :=
  jobs.filter fun begun => begun.1 = cpu

omit [DecidableEq Cell] in
theorem onCpu_append_self (cpu : Cpu) (jobs : List (Cpu × Job)) (job : Job) :
    onCpu cpu (jobs ++ [(cpu, job)]) = onCpu cpu jobs ++ [(cpu, job)] := by
  simp [onCpu]

theorem onCpu_append_of_ne {cpu other : Cpu} (hne : other ≠ cpu)
    (jobs : List (Cpu × Job)) (job : Job) :
    onCpu other (jobs ++ [(cpu, job)]) = onCpu other jobs := by
  simp [onCpu, hne.symm]

/-- The record that a processor still owes. -/
def Machine.forecast (m : Machine Cpu task) (cpu : Cpu) : Option Record :=
  (m.thread cpu).bind fun running => running.rest.emits m.mem

/-- A running job against the serial memory.  Before it takes effect, its whole
program does there what the rest does here; afterwards the serial memory is the
one that the rest leads to. -/
structure Follows (serialMem : ∀ cell, Value cell) (m : Machine Cpu task)
    (cpu : Cpu) (running : Running task) : Prop where
  pending : running.phase = .before →
    onCpu cpu m.begun = onCpu cpu m.done ++ [(cpu, running.job)] ∧
      AgreeOn (task running.job).foot
        ((task running.job).program.finish serialMem) (running.rest.finish m.mem) ∧
      (task running.job).program.emits serialMem = running.rest.emits m.mem
  effected : running.phase ≠ .before →
    onCpu cpu m.begun = onCpu cpu m.done ∧
      AgreeOn (task running.job).foot serialMem (running.rest.finish m.mem)

/-- The machine is on its way to what the jobs that took effect do serially. -/
structure Serialized (mem : ∀ cell, Value cell) (m : Machine Cpu task) : Prop where
  exclusive : ∀ left right one other, left ≠ right → m.thread left = some one →
    m.thread right = some other → Disjoint (task one.job).foot (task other.job).foot
  unowned : ∀ cell,
    (∀ cpu running, m.thread cpu = some running → cell ∉ (task running.job).foot) →
      (serial task mem m.done).1 cell = m.mem cell
  follows : ∀ cpu running, m.thread cpu = some running →
    Follows (serial task mem m.done).1 m cpu running
  resting : ∀ cpu, m.thread cpu = none → onCpu cpu m.begun = onCpu cpu m.done
  busy : ∀ cpu, .inl cpu ∈ m.queue →
    ∃ running, m.thread cpu = some running ∧ running.phase = .owing
  records : (serial task mem m.done).2.map some =
    m.queue.map (Sum.elim m.forecast some)

theorem serialized_idle (mem : ∀ cell, Value cell) :
    Serialized mem (Machine.idle task mem : Machine Cpu task) where
  exclusive _ _ _ _ _ hleft := by cases hleft
  unowned _ _ := rfl
  follows _ _ hthread := by cases hthread
  resting _ _ := rfl
  busy _ hmem := by cases hmem
  records := rfl

variable {mem : ∀ cell, Value cell} {m m' : Machine Cpu task} {cpu : Cpu}
variable {running : Running task}

/-- A running job does not notice what happens outside of its footprint. -/
theorem Follows.frame {serialMem serialMem' : ∀ cell, Value cell}
    (hfollows : Follows serialMem m cpu running)
    (hmem : AgreeOn (task running.job).foot m.mem m'.mem)
    (hserialMem : AgreeOn (task running.job).foot serialMem serialMem')
    (hbegun : onCpu cpu m'.begun = onCpu cpu m.begun)
    (hdone : onCpu cpu m'.done = onCpu cpu m.done) :
    Follows serialMem' m' cpu running := by
  have hrest := running.rest.finish_congr running.within hmem
  have hwhole := (task running.job).program.finish_congr
    (task running.job).within hserialMem
  constructor
  · intro hphase
    obtain ⟨horder, hfinish, hemits⟩ := hfollows.pending hphase
    refine ⟨by rw [hbegun, hdone, horder], ?_, ?_⟩
    · exact hwhole.1.symm.trans (hfinish.trans hrest.1)
    · rw [← hwhole.2, hemits, hrest.2]
  · intro hphase
    obtain ⟨horder, hfinish⟩ := hfollows.effected hphase
    exact ⟨by rw [hbegun, hdone, horder],
      hserialMem.symm.trans (hfinish.trans hrest.1)⟩

/-- The footprint of a running job is not owned by another processor. -/
theorem Serialized.agreeOn_of_outside (hserialized : Serialized mem m)
    (hthread : m.thread cpu = some running) {other : Cpu} {bystander : Running task}
    (hne : other ≠ cpu) (hother : m.thread other = some bystander)
    {left right : ∀ cell, Value cell}
    (houtside : ∀ cell, cell ∉ (task running.job).foot → left cell = right cell) :
    AgreeOn (task bystander.job).foot left right := by
  intro cell hcell
  apply houtside
  exact Finset.disjoint_left.mp
    (hserialized.exclusive other cpu bystander running hne hother hthread) hcell

/-- The memory part of a step: the processor `cpu` moves from `running` to
`next`, and nothing changes outside of the footprint. -/
structure Moves (mem : ∀ cell, Value cell) (m m' : Machine Cpu task) (cpu : Cpu)
    (running : Running task) (next : Option (Running task)) : Prop where
  thread : m'.thread = Function.update m.thread cpu next
  begun : m'.begun = m.begun
  done : ∀ other, other ≠ cpu → onCpu other m'.done = onCpu other m.done
  outside : ∀ cell, cell ∉ (task running.job).foot → m.mem cell = m'.mem cell
  serialOutside : ∀ cell, cell ∉ (task running.job).foot →
    (serial task mem m.done).1 cell = (serial task mem m'.done).1 cell
  continues : ∀ after, next = some after → after.job = running.job ∧
    Follows (serial task mem m'.done).1 m' cpu after
  ends : next = none → onCpu cpu m'.begun = onCpu cpu m'.done ∧
    AgreeOn (task running.job).foot (serial task mem m'.done).1 m'.mem

variable {next : Option (Running task)}

/-- What the other processors owe does not change. -/
theorem Moves.forecast_of_ne (hmoves : Moves mem m m' cpu running next)
    (hserialized : Serialized mem m) (hthread : m.thread cpu = some running)
    {other : Cpu} (hne : other ≠ cpu) : m'.forecast other = m.forecast other := by
  rw [Machine.forecast, Machine.forecast, hmoves.thread, Function.update_of_ne hne]
  cases hother : m.thread other with
  | none => rfl
  | some bystander =>
      have hagree := hserialized.agreeOn_of_outside hthread hne hother hmoves.outside
      exact (bystander.rest.finish_congr bystander.within hagree).2.symm

/-- A step keeps the correspondence if it keeps the queue in order. -/
theorem Moves.serialized (hmoves : Moves mem m m' cpu running next)
    (hserialized : Serialized mem m) (hthread : m.thread cpu = some running)
    (hbusy : ∀ other, .inl other ∈ m'.queue →
      ∃ running, m'.thread other = some running ∧ running.phase = .owing)
    (hrecords : (serial task mem m'.done).2.map some =
      m'.queue.map (Sum.elim m'.forecast some)) :
    Serialized mem m' where
  exclusive left right one other hne hone hother := by
    -- a running job keeps its footprint, so the threads of `m` tell
    have hbefore : ∀ place after, m'.thread place = some after →
        ∃ earlier, m.thread place = some earlier ∧ earlier.job = after.job := by
      intro place after hafter
      rw [hmoves.thread] at hafter
      by_cases heq : place = cpu
      · subst heq
        rw [Function.update_self] at hafter
        exact ⟨running, hthread, (hmoves.continues after hafter).1.symm⟩
      · rw [Function.update_of_ne heq] at hafter
        exact ⟨after, hafter, rfl⟩
    obtain ⟨oneBefore, honeBefore, honeJob⟩ := hbefore left one hone
    obtain ⟨otherBefore, hotherBefore, hotherJob⟩ := hbefore right other hother
    rw [← honeJob, ← hotherJob]
    exact hserialized.exclusive left right _ _ hne honeBefore hotherBefore
  unowned cell hcell := by
    by_cases hin : cell ∈ (task running.job).foot
    · -- only the end of the job sets its cells free
      cases hnext : next with
      | none => exact (hmoves.ends hnext).2 cell hin
      | some after =>
          have howned := hcell cpu after (by rw [hmoves.thread, Function.update_self, hnext])
          rw [(hmoves.continues after hnext).1] at howned
          exact absurd hin howned
    · rw [← hmoves.serialOutside cell hin, ← hmoves.outside cell hin]
      apply hserialized.unowned
      intro other bystander hother
      by_cases heq : other = cpu
      · subst heq
        rw [hthread, Option.some.injEq] at hother
        rwa [← hother]
      · apply hcell other bystander
        rw [hmoves.thread, Function.update_of_ne heq, hother]
  follows other after hafter := by
    rw [hmoves.thread] at hafter
    by_cases heq : other = cpu
    · subst heq
      rw [Function.update_self] at hafter
      exact (hmoves.continues after hafter).2
    · rw [Function.update_of_ne heq] at hafter
      exact (hserialized.follows other after hafter).frame
        (hserialized.agreeOn_of_outside hthread heq hafter hmoves.outside)
        (hserialized.agreeOn_of_outside hthread heq hafter hmoves.serialOutside)
        (by rw [hmoves.begun]) (hmoves.done other heq)
  resting other hother := by
    rw [hmoves.thread] at hother
    by_cases heq : other = cpu
    · subst heq
      rw [Function.update_self] at hother
      exact (hmoves.ends hother).1
    · rw [Function.update_of_ne heq] at hother
      rw [hmoves.begun, hmoves.done other heq]
      exact hserialized.resting other hother
  busy := hbusy
  records := hrecords

/-- A step that leaves the queue and what is owed for its places alone. -/
theorem Moves.serialized_of_queue (hmoves : Moves mem m m' cpu running next)
    (hserialized : Serialized mem m) (hthread : m.thread cpu = some running)
    (hqueue : m'.queue = m.queue)
    (hserialRecords : (serial task mem m'.done).2 = (serial task mem m.done).2)
    (howing : running.phase = .owing →
      (∃ after, next = some after ∧ after.phase = .owing) ∧
        m'.forecast cpu = m.forecast cpu) :
    Serialized mem m' := by
  have hphase : .inl cpu ∈ m.queue → running.phase = .owing := by
    intro hcpu
    obtain ⟨owing, howner, howes⟩ := hserialized.busy cpu hcpu
    rw [hthread, Option.some.injEq] at howner
    rw [howner, howes]
  apply hmoves.serialized hserialized hthread
  · intro other hother
    rw [hqueue] at hother
    rw [hmoves.thread]
    by_cases heq : other = cpu
    · subst heq
      rw [Function.update_self]
      exact (howing (hphase hother)).1
    · rw [Function.update_of_ne heq]
      exact hserialized.busy other hother
  · rw [hserialRecords, hserialized.records, hqueue]
    apply List.map_congr_left
    intro place hplace
    cases place with
    | inr record => rfl
    | inl other =>
        by_cases heq : other = cpu
        · subst heq
          exact (howing (hphase hplace)).2.symm
        · exact (hmoves.forecast_of_ne hserialized hthread heq).symm

omit [DecidableEq Cpu] in
theorem serialOutside_append {job : Job} {cell : Cell}
    (hcell : cell ∉ (task job).foot) (done : List (Cpu × Job)) :
    (serial task mem done).1 cell =
      (serial task mem (done ++ [(cpu, job)])).1 cell := by
  rw [serial_append]
  exact ((task job).program.finish_of_notMem (task job).within hcell _).symm

theorem Serialized.skip {job : Job}
    {hwithin : Program.Within (task job).foot
      (.skip : Program Cell Value Record .before)}
    (hserialized : Serialized mem m)
    (hthread : m.thread cpu = some ⟨job, .before, .skip, hwithin⟩) :
    Serialized mem (m.advance cpu ⟨job, .before, .skip, hwithin⟩) := by
  obtain ⟨horder, hfinish, hemits⟩ := (hserialized.follows cpu _ hthread).pending rfl
  have hmoves : Moves mem m (m.advance cpu ⟨job, .before, .skip, hwithin⟩) cpu
      ⟨job, .before, .skip, hwithin⟩ none :=
    { thread := rfl
      begun := rfl
      done := fun other hne => onCpu_append_of_ne hne m.done job
      outside := fun _ _ => rfl
      serialOutside := fun _ hcell => serialOutside_append hcell m.done
      continues := by
        intro after hafter
        cases hafter
      ends := by
        intro _
        constructor
        · exact horder.trans (onCpu_append_self cpu m.done job).symm
        · rw [Machine.advance, serial_append]
          exact hfinish }
  apply hmoves.serialized_of_queue hserialized hthread rfl
  · rw [Machine.advance, serial_append, perform, hemits]
    exact List.append_nil _
  · intro hphase
    cases hphase

theorem Serialized.stop {job : Job}
    {hwithin : Program.Within (task job).foot
      (.stop : Program Cell Value Record .after)}
    (hserialized : Serialized mem m)
    (hthread : m.thread cpu = some ⟨job, .after, .stop, hwithin⟩) :
    Serialized mem (m.advance cpu ⟨job, .after, .stop, hwithin⟩) := by
  have hmoves : Moves mem m (m.advance cpu ⟨job, .after, .stop, hwithin⟩) cpu
      ⟨job, .after, .stop, hwithin⟩ none :=
    { thread := rfl
      begun := rfl
      done := fun _ _ => rfl
      outside := fun _ _ => rfl
      serialOutside := fun _ _ => rfl
      continues := by
        intro after hafter
        cases hafter
      ends := fun _ => (hserialized.follows cpu _ hthread).effected (by simp) }
  apply hmoves.serialized_of_queue hserialized hthread rfl rfl
  intro hphase
  cases hphase

theorem Serialized.access {job : Job} {phase : Phase} {cell : Cell}
    {write : Value cell → Value cell}
    {rest : Value cell → Program Cell Value Record phase}
    {hwithin : Program.Within (task job).foot (.access cell write rest)}
    (hserialized : Serialized mem m)
    (hthread : m.thread cpu = some ⟨job, phase, .access cell write rest, hwithin⟩) :
    Serialized mem (m.advance cpu ⟨job, phase, .access cell write rest, hwithin⟩) := by
  have hfollows := hserialized.follows cpu _ hthread
  have hmoves : Moves mem m
      (m.advance cpu ⟨job, phase, .access cell write rest, hwithin⟩) cpu
      ⟨job, phase, .access cell write rest, hwithin⟩
      (some ⟨job, phase, rest (m.mem cell), hwithin.2 _⟩) :=
    { thread := rfl
      begun := rfl
      done := fun _ _ => rfl
      outside := by
        intro other hother
        have hne : other ≠ cell := fun heq => hother (heq ▸ hwithin.1)
        exact (Function.update_of_ne hne _ _).symm
      serialOutside := fun _ _ => rfl
      continues := by
        intro after hafter
        cases hafter
        exact ⟨rfl, ⟨hfollows.pending, hfollows.effected⟩⟩
      ends := by
        intro hend
        cases hend }
  apply hmoves.serialized_of_queue hserialized hthread rfl rfl
  intro hphase
  refine ⟨⟨_, rfl, hphase⟩, ?_⟩
  rw [Machine.forecast, Machine.forecast, hmoves.thread, Function.update_self, hthread]
  rfl

theorem Serialized.reserve {job : Job} {rest : Program Cell Value Record .owing}
    {hwithin : Program.Within (task job).foot (.reserve rest)}
    (hserialized : Serialized mem m)
    (hthread : m.thread cpu = some ⟨job, .before, .reserve rest, hwithin⟩) :
    Serialized mem (m.advance cpu ⟨job, .before, .reserve rest, hwithin⟩) := by
  obtain ⟨horder, hfinish, hemits⟩ := (hserialized.follows cpu _ hthread).pending rfl
  have hmoves : Moves mem m (m.advance cpu ⟨job, .before, .reserve rest, hwithin⟩)
      cpu ⟨job, .before, .reserve rest, hwithin⟩ (some ⟨job, .owing, rest, hwithin⟩) :=
    { thread := rfl
      begun := rfl
      done := fun other hne => onCpu_append_of_ne hne m.done job
      outside := fun _ _ => rfl
      serialOutside := fun _ hcell => serialOutside_append hcell m.done
      continues := by
        intro after hafter
        cases hafter
        refine ⟨rfl, ⟨by simp, fun _ => ⟨?_, ?_⟩⟩⟩
        · exact horder.trans (onCpu_append_self cpu m.done job).symm
        · rw [Machine.advance, serial_append]
          exact hfinish
      ends := by
        intro hend
        cases hend }
  have hnotBusy : .inl cpu ∉ m.queue := by
    intro hcpu
    obtain ⟨owing, howner, howes⟩ := hserialized.busy cpu hcpu
    rw [hthread, Option.some.injEq] at howner
    rw [← howner] at howes
    cases howes
  have hother : ∀ other, .inl other ∈ m.queue → other ≠ cpu :=
    fun other hmem heq => hnotBusy (heq ▸ hmem)
  apply hmoves.serialized hserialized hthread
  · intro other hmem
    rw [hmoves.thread]
    rcases List.mem_append.mp hmem with hold | hnew
    · rw [Function.update_of_ne (hother other hold)]
      exact hserialized.busy other hold
    · rw [List.mem_singleton, Sum.inl.injEq] at hnew
      rw [hnew, Function.update_self]
      exact ⟨_, rfl, rfl⟩
  · -- the record of the serial run is the one that the new place waits for
    obtain ⟨record, hrecord⟩ := Option.isSome_iff_exists.mp
      (rest.emits_of_owing rfl m.mem)
    have hforecast : (m.advance cpu ⟨job, .before, .reserve rest, hwithin⟩).forecast cpu =
        some record := by
      rw [Machine.forecast, hmoves.thread, Function.update_self]
      exact hrecord
    have hsame : m.queue.map (Sum.elim m.forecast some) = m.queue.map (Sum.elim
        (m.advance cpu ⟨job, .before, .reserve rest, hwithin⟩).forecast some) := by
      apply List.map_congr_left
      intro place hplace
      cases place with
      | inr record => rfl
      | inl other =>
          exact (hmoves.forecast_of_ne hserialized hthread (hother other hplace)).symm
    have hserial : (serial task mem (m.done ++ [(cpu, job)])).2 =
        (serial task mem m.done).2 ++ [record] := by
      rw [serial_append, perform, hemits, Program.emits, hrecord]
      rfl
    change (serial task mem (m.done ++ [(cpu, job)])).2.map some =
      (m.queue ++ [Sum.inl cpu]).map _
    rw [hserial, List.map_append, List.map_append, hserialized.records, hsame,
      List.map_singleton, List.map_singleton, Sum.elim_inl, hforecast]

theorem Serialized.submit {job : Job} {record : Record}
    {rest : Program Cell Value Record .after}
    {hwithin : Program.Within (task job).foot (.submit record rest)}
    (hserialized : Serialized mem m)
    (hthread : m.thread cpu = some ⟨job, .owing, .submit record rest, hwithin⟩) :
    Serialized mem (m.advance cpu ⟨job, .owing, .submit record rest, hwithin⟩) := by
  have hfollows := hserialized.follows cpu _ hthread
  have hmoves : Moves mem m (m.advance cpu ⟨job, .owing, .submit record rest, hwithin⟩)
      cpu ⟨job, .owing, .submit record rest, hwithin⟩
      (some ⟨job, .after, rest, hwithin⟩) :=
    { thread := rfl
      begun := rfl
      done := fun _ _ => rfl
      outside := fun _ _ => rfl
      serialOutside := fun _ _ => rfl
      continues := by
        intro after hafter
        cases hafter
        exact ⟨rfl, ⟨by simp, fun _ => hfollows.effected (by simp)⟩⟩
      ends := by
        intro hend
        cases hend }
  apply hmoves.serialized hserialized hthread
  · intro other hmem
    -- the places of `cpu` are no longer busy
    obtain ⟨place, hplace, hsettled⟩ := List.mem_map.mp hmem
    cases place with
    | inr old => cases hsettled
    | inl owner =>
        rw [settle] at hsettled
        split_ifs at hsettled with heq
        cases hsettled
        rw [hmoves.thread, Function.update_of_ne heq]
        exact hserialized.busy other hplace
  · change (serial task mem m.done).2.map some =
      (m.queue.map (settle cpu record)).map _
    calc (serial task mem m.done).2.map some
        = m.queue.map (Sum.elim m.forecast some) := hserialized.records
      _ = m.queue.map (Sum.elim (m.advance cpu
            ⟨job, .owing, .submit record rest, hwithin⟩).forecast some ∘
              settle cpu record) := by
          apply List.map_congr_left
          intro place hplace
          cases place with
          | inr old => rfl
          | inl owner =>
              by_cases heq : owner = cpu
              · rw [Function.comp_apply, settle, if_pos heq, heq, Sum.elim_inl,
                  Machine.forecast, hthread]
                rfl
              · rw [Function.comp_apply, settle, if_neg heq]
                exact (hmoves.forecast_of_ne hserialized hthread heq).symm
      _ = (m.queue.map (settle cpu record)).map _ := by
          rw [List.map_map]

/-- Each step of a running program keeps the correspondence. -/
theorem Serialized.step (hserialized : Serialized mem m)
    (hthread : m.thread cpu = some running) :
    Serialized mem (m.advance cpu running) := by
  obtain ⟨job, phase, rest, hwithin⟩ := running
  cases rest with
  | skip => exact hserialized.skip hthread
  | stop => exact hserialized.stop hthread
  | access cell write next => exact hserialized.access hthread
  | reserve next => exact hserialized.reserve hthread
  | submit record next => exact hserialized.submit hthread

/-- A job that is begun finds in its cells what the serial run left there. -/
theorem Serialized.start {job : Job} (hserialized : Serialized mem m)
    (hidle : m.thread cpu = none)
    (hfree : ∀ other running, m.thread other = some running →
      Disjoint (task running.job).foot (task job).foot) :
    Serialized mem (exec m (.start cpu job)) := by
  have hkeeps : ∀ other running, m.thread other = some running →
      (exec m (.start cpu job)).thread other = m.thread other := by
    intro other running hother
    apply Function.update_of_ne
    intro heq
    rw [heq, hidle] at hother
    cases hother
  have hmem : AgreeOn (task job).foot (serial task mem m.done).1 m.mem := by
    intro cell hcell
    apply hserialized.unowned
    intro other running hother
    exact Finset.disjoint_right.mp (hfree other running hother) hcell
  have hprogram := (task job).program.finish_congr (task job).within hmem
  constructor
  case exclusive =>
    intro left right one other hne hone hother
    simp only [exec, Function.update_apply] at hone hother
    split_ifs at hone hother with hleft hright hright
    · exact absurd (hleft.trans hright.symm) hne
    · cases hone
      exact (hfree right other hother).symm
    · cases hother
      exact hfree left one hone
    · exact hserialized.exclusive left right one other hne hone hother
  case unowned =>
    intro cell hcell
    apply hserialized.unowned
    intro other running hother
    apply hcell other running
    rw [hkeeps other running hother, hother]
  case follows =>
    intro other running hother
    simp only [exec, Function.update_apply] at hother
    split_ifs at hother with heq
    · subst heq
      cases hother
      refine ⟨fun _ => ⟨?_, hprogram⟩, fun hphase => absurd rfl hphase⟩
      rw [exec, onCpu_append_self, hserialized.resting other hidle]
    · exact (hserialized.follows other running hother).frame (fun _ _ => rfl)
        (fun _ _ => rfl) (onCpu_append_of_ne heq m.begun job) rfl
  case resting =>
    intro other hother
    simp only [exec, Function.update_apply] at hother
    split_ifs at hother with heq
    rw [exec, onCpu_append_of_ne heq]
    exact hserialized.resting other hother
  case busy =>
    intro other hother
    obtain ⟨running, hrunning, hphase⟩ := hserialized.busy other hother
    refine ⟨running, ?_, hphase⟩
    rw [hkeeps other running hrunning, hrunning]
  case records =>
    apply hserialized.records.trans
    apply List.map_congr_left
    intro place hplace
    cases place with
    | inr record => rfl
    | inl other =>
        obtain ⟨running, hrunning, _⟩ := hserialized.busy other hplace
        rw [Sum.elim_inl, Sum.elim_inl, Machine.forecast, Machine.forecast,
          hkeeps other running hrunning]
        rfl

theorem Serialized.exec {label : Label Cpu Job} (hserialized : Serialized mem m)
    (hallowed : Allowed m label) : Serialized mem (exec m label) := by
  cases label with
  | start cpu job => exact hserialized.start hallowed.1 hallowed.2
  | step cpu =>
      rw [Interleaving.exec]
      cases hthread : m.thread cpu with
      | none => exact hserialized
      | some running => exact hserialized.step hthread

/-- Every run corresponds to a serial one. -/
theorem serialized_run (mem : ∀ cell, Value cell) {labels : List (Label Cpu Job)}
    (hrun : StepRun.Along exec Allowed (Machine.idle task mem) labels) :
    Serialized mem (StepRun.run exec (Machine.idle task mem) labels) :=
  StepRun.run_invariant (Serialized mem)
    (fun _ _ hserialized hallowed => hserialized.exec hallowed)
    (serialized_idle mem) hrun

/-! ## What can be observed -/

omit [DecidableEq Cpu] in
/-- What a reader of the queue has got. -/
theorem visible_isPrefix {forecast : Cpu → Option Record} (queue : List (Cpu ⊕ Record))
    {records : List Record}
    (hrecords : records.map some = queue.map (Sum.elim forecast some)) :
    visible queue <+: records := by
  induction queue generalizing records with
  | nil => exact List.nil_prefix
  | cons place queue ih =>
      cases place with
      | inl cpu => exact List.nil_prefix
      | inr record =>
          cases records with
          | nil => cases hrecords
          | cons first records =>
              simp only [List.map_cons, Sum.elim_inr, List.cons.injEq,
                Option.some.injEq] at hrecords
              rw [visible, hrecords.1, List.cons_prefix_cons]
              exact ⟨rfl, ih hrecords.2⟩

omit [DecidableEq Cpu] in
theorem map_visible_of_free {queue : List (Cpu ⊕ Record)}
    (hfree : ∀ cpu, .inl cpu ∉ queue) : (visible queue).map Sum.inr = queue := by
  induction queue with
  | nil => rfl
  | cons place queue ih =>
      cases place with
      | inl cpu => exact absurd (List.mem_cons_self ..) (hfree cpu)
      | inr record =>
          rw [visible, List.map_cons,
            ih fun cpu hmem => hfree cpu (List.mem_cons_of_mem _ hmem)]

/-- What a reader gets are the first records of the serial run. -/
theorem Serialized.visible_isPrefix (hserialized : Serialized mem m) :
    visible m.queue <+: (serial task mem m.done).2 :=
  Interleaving.visible_isPrefix m.queue hserialized.records

/-- Each processor's jobs take effect in the order in which they are begun. -/
theorem Serialized.onCpu_isPrefix (hserialized : Serialized mem m) (cpu : Cpu) :
    onCpu cpu m.done <+: onCpu cpu m.begun := by
  cases hthread : m.thread cpu with
  | none => rw [hserialized.resting cpu hthread]
  | some running =>
      by_cases hphase : running.phase = .before
      · rw [((hserialized.follows cpu running hthread).pending hphase).1]
        exact List.prefix_append _ _
      · rw [((hserialized.follows cpu running hthread).effected hphase).1]

/-- When no program is in execution, memory and queue are those of the serial
run. -/
theorem Serialized.quiet (hserialized : Serialized mem m)
    (hquiet : ∀ cpu, m.thread cpu = none) :
    m.mem = (serial task mem m.done).1 ∧ visible m.queue = (serial task mem m.done).2 := by
  constructor
  · funext cell
    symm
    apply hserialized.unowned
    intro cpu running hthread
    rw [hquiet cpu] at hthread
    cases hthread
  · have hfree : ∀ cpu, .inl cpu ∉ m.queue := by
      intro cpu hmem
      obtain ⟨running, hthread, _⟩ := hserialized.busy cpu hmem
      rw [hquiet cpu] at hthread
      cases hthread
    apply List.map_injective_iff.mpr (Option.some_injective Record)
    calc (visible m.queue).map some
        = ((visible m.queue).map Sum.inr).map (Sum.elim m.forecast some) := by
          rw [List.map_map]
          rfl
      _ = (serial task mem m.done).2.map some := by
          rw [map_visible_of_free hfree, hserialized.records]

/-- What has taken effect stays in its place. -/
theorem done_prefix_run (m : Machine Cpu task) (labels : List (Label Cpu Job)) :
    m.done <+: (StepRun.run exec m labels).done := by
  induction labels generalizing m with
  | nil => exact List.prefix_rfl
  | cons label labels ih =>
      refine List.IsPrefix.trans ?_ (ih (exec m label))
      cases label with
      | start cpu job => exact List.prefix_rfl
      | step cpu =>
          rw [exec]
          cases m.thread cpu with
          | none => exact List.prefix_rfl
          | some running =>
              obtain ⟨job, phase, rest, hwithin⟩ := running
              cases rest with
              | skip => exact List.prefix_append _ _
              | reserve next => exact List.prefix_append _ _
              | stop => exact List.prefix_rfl
              | access cell write next => exact List.prefix_rfl
              | submit record next => exact List.prefix_rfl

/-! ## What every record satisfies

Nothing is asked of the footprints here: what holds of each access alone, for every
value that the cell may have, holds under every interleaving. -/

section Safety

variable {ok : ∀ cell, Value cell → Prop} {good : Record → Prop}

/-- The cells are `ok`, the records are `good`, and the programs in execution leave it
at that. -/
structure Machine.Safe (ok : ∀ cell, Value cell → Prop) (good : Record → Prop)
    (m : Machine Cpu task) : Prop where
  mem : ∀ cell, ok cell (m.mem cell)
  records : ∀ record, .inr record ∈ m.queue → good record
  threads : ∀ cpu running, m.thread cpu = some running → running.rest.Safe ok good

omit [DecidableEq Cell] in
theorem safe_update {thread : Cpu → Option (Running task)} {after : Option (Running task)}
    (hthreads : ∀ cpu running, thread cpu = some running → running.rest.Safe ok good)
    (hafter : ∀ running, after = some running → running.rest.Safe ok good) (cpu other : Cpu)
    (running : Running task) (hother : Function.update thread cpu after other = some running) :
    running.rest.Safe ok good := by
  by_cases heq : other = cpu
  · subst heq
    rw [Function.update_self] at hother
    exact hafter running hother
  · rw [Function.update_of_ne heq] at hother
    exact hthreads other running hother

theorem Machine.Safe.step (hm : m.Safe ok good) (hthread : m.thread cpu = some running) :
    (m.advance cpu running).Safe ok good := by
  obtain ⟨job, phase, rest, hwithin⟩ := running
  have hsafe := hm.threads cpu _ hthread
  cases rest with
  | skip =>
      refine ⟨hm.mem, hm.records, safe_update hm.threads ?_ cpu⟩
      rintro _ ⟨⟩
  | stop =>
      refine ⟨hm.mem, hm.records, safe_update hm.threads ?_ cpu⟩
      rintro _ ⟨⟩
  | access cell write next =>
      obtain ⟨hwrite, hnext⟩ := hsafe (m.mem cell) (hm.mem cell)
      refine ⟨fun other => ?_, hm.records, safe_update hm.threads ?_ cpu⟩
      · by_cases heq : other = cell
        · subst heq
          simpa [Machine.advance] using hwrite
        · simpa [Machine.advance, heq] using hm.mem other
      · rintro _ ⟨⟩
        exact hnext
  | reserve next =>
      refine ⟨hm.mem, fun record hrecord => ?_, safe_update hm.threads ?_ cpu⟩
      · exact hm.records record ((List.mem_append.mp hrecord).resolve_right (by simp))
      · rintro _ ⟨⟩
        exact hsafe
  | submit record next =>
      refine ⟨hm.mem, fun other hother => ?_, safe_update hm.threads ?_ cpu⟩
      · obtain ⟨place, hplace, hsettled⟩ := List.mem_map.mp hother
        cases place with
        | inr old =>
            cases hsettled
            exact hm.records _ hplace
        | inl owner =>
            rw [settle] at hsettled
            split_ifs at hsettled
            cases hsettled
            exact hsafe.1
      · rintro _ ⟨⟩
        exact hsafe.2

theorem Machine.Safe.exec (hm : m.Safe ok good)
    (htasks : ∀ job, (task job).program.Safe ok good) (label : Label Cpu Job) :
    (exec m label).Safe ok good := by
  cases label with
  | start cpu job =>
      refine ⟨hm.mem, hm.records, safe_update hm.threads ?_ cpu⟩
      rintro _ ⟨⟩
      exact htasks job
  | step cpu =>
      rw [Interleaving.exec]
      cases hthread : m.thread cpu with
      | none => exact hm
      | some running => exact hm.step hthread

omit [DecidableEq Cpu] [DecidableEq Cell] in
theorem mem_of_mem_visible {queue : List (Cpu ⊕ Record)} {record : Record}
    (hrecord : record ∈ visible queue) : .inr record ∈ queue := by
  induction queue with
  | nil => cases hrecord
  | cons place queue ih =>
      cases place with
      | inl cpu => cases hrecord
      | inr first =>
          rcases List.mem_cons.mp hrecord with rfl | hlater
          · exact List.mem_cons_self
          · exact List.mem_cons_of_mem _ (ih hlater)

/-- What safe programs show to a reader of the queue is good. -/
theorem good_of_visible (htasks : ∀ job, (task job).program.Safe ok good)
    (hmem : ∀ cell, ok cell (mem cell)) (labels : List (Label Cpu Job)) :
    ∀ record ∈ visible (StepRun.run exec (Machine.idle task mem : Machine Cpu task) labels).queue,
      good record := by
  have hidle : (Machine.idle task mem : Machine Cpu task).Safe ok good := ⟨hmem, nofun, nofun⟩
  have hsafe := (StepRun.always_of_step (Machine.Safe ok good)
    (fun _ label hm => hm.exec htasks label) hidle labels).last
  exact fun record hrecord => hsafe.records record (mem_of_mem_visible hrecord)

end Safety

end Machines

end KernelScope.Interleaving
