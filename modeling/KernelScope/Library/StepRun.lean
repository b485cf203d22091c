import Mathlib.Data.List.Basic
import Mathlib.Tactic.Common

/-!
# Runs of a step function

A system is given by a total step function `exec : State → Label → State`; the
labels carry every choice the environment makes.  `Along` says that each label
of a run satisfies a relation in the state it is taken from, which expresses
both what the environment is allowed to do and conditions placed on a run;
`Always` says that every visited state has a property.
-/

namespace KernelScope.StepRun

variable {State Label : Type*} (exec : State → Label → State)

/-- The state reached by taking the labels in order. -/
def run (start : State) (labels : List Label) : State :=
  labels.foldl exec start

@[simp]
theorem run_nil (start : State) : run exec start [] = start := rfl

@[simp]
theorem run_cons (start : State) (label : Label) (labels : List Label) :
    run exec start (label :: labels) = run exec (exec start label) labels := rfl

/-- Every label of the run satisfies `relation` in the state it is taken
from. -/
def Along (relation : State → Label → Prop) : State → List Label → Prop
  | _, [] => True
  | state, label :: labels =>
      relation state label ∧ Along relation (exec state label) labels

/-- Every state visited by the run, the first and the last included, satisfies
`property`. -/
def Always (property : State → Prop) : State → List Label → Prop
  | state, [] => property state
  | state, label :: labels =>
      property state ∧ Always property (exec state label) labels

instance decidableAlong (relation : State → Label → Prop)
    [∀ state label, Decidable (relation state label)] :
    ∀ (state : State) (labels : List Label),
      Decidable (Along exec relation state labels)
  | _, [] => inferInstanceAs (Decidable True)
  | state, label :: labels =>
      have := decidableAlong relation (exec state label) labels
      inferInstanceAs (Decidable (_ ∧ _))

variable {exec}

theorem Along.and {left right : State → Label → Prop} {state : State}
    {labels : List Label} (hleft : Along exec left state labels)
    (hright : Along exec right state labels) :
    Along exec (fun state label => left state label ∧ right state label)
      state labels := by
  induction labels generalizing state with
  | nil => trivial
  | cons label labels ih =>
      exact ⟨⟨hleft.1, hright.1⟩, ih hleft.2 hright.2⟩

/-- A run and what follows it. -/
theorem along_append {relation : State → Label → Prop} {state : State}
    {labels later : List Label} :
    Along exec relation state (labels ++ later) ↔
      Along exec relation state labels ∧
        Along exec relation (run exec state labels) later := by
  induction labels generalizing state with
  | nil => exact (iff_of_eq (true_and _)).symm
  | cons label labels ih =>
      rw [List.cons_append, Along, Along, ih, run_cons, and_assoc]

theorem along_of_forall_mem {property : Label → Prop} {labels : List Label}
    (hall : ∀ label ∈ labels, property label) (state : State) :
    Along exec (fun _ label => property label) state labels := by
  induction labels generalizing state with
  | nil => trivial
  | cons label labels ih =>
      exact ⟨hall label (List.mem_cons_self ..),
        ih (fun other hother => hall other (List.mem_cons_of_mem _ hother)) _⟩

theorem along_true (state : State) (labels : List Label) :
    Along exec (fun _ _ => True) state labels :=
  along_of_forall_mem (fun _ _ => trivial) state

theorem Always.start {property : State → Prop} {state : State}
    {labels : List Label} (hrun : Always exec property state labels) :
    property state := by
  cases labels with
  | nil => exact hrun
  | cons label labels => exact hrun.1

theorem Always.last {property : State → Prop} {state : State}
    {labels : List Label} (hrun : Always exec property state labels) :
    property (run exec state labels) := by
  induction labels generalizing state with
  | nil => exact hrun
  | cons label labels ih => exact ih hrun.2

theorem Always.imp {property other : State → Prop}
    (himp : ∀ state, property state → other state) {state : State}
    {labels : List Label} (hrun : Always exec property state labels) :
    Always exec other state labels := by
  induction labels generalizing state with
  | nil => exact himp _ hrun
  | cons label labels ih => exact ⟨himp _ hrun.1, ih hrun.2⟩

/-! ## Invariants -/

/-- A property of the first state that every admitted step preserves holds
wherever the run leads. -/
theorem run_invariant {relation : State → Label → Prop}
    (invariant : State → Prop)
    (hstep : ∀ state label, invariant state → relation state label →
      invariant (exec state label))
    {start : State} {labels : List Label} (hstart : invariant start)
    (hrun : Along exec relation start labels) :
    invariant (run exec start labels) := by
  induction labels generalizing start with
  | nil => exact hstart
  | cons label labels ih =>
      exact ih (hstep _ _ hstart hrun.1) hrun.2

theorem always_of_invariant {relation : State → Label → Prop}
    (invariant : State → Prop)
    (hstep : ∀ state label, invariant state → relation state label →
      invariant (exec state label))
    {start : State} {labels : List Label} (hstart : invariant start)
    (hrun : Along exec relation start labels) :
    Always exec invariant start labels := by
  induction labels generalizing start with
  | nil => exact hstart
  | cons label labels ih =>
      exact ⟨hstart, ih (hstep _ _ hstart hrun.1) hrun.2⟩

/-- What every step preserves holds along every run. -/
theorem always_of_step (invariant : State → Prop)
    (hstep : ∀ state label, invariant state → invariant (exec state label))
    {start : State} (hstart : invariant start) (labels : List Label) :
    Always exec invariant start labels :=
  always_of_invariant invariant (fun state label hstate _ => hstep state label hstate)
    hstart (along_true start labels)

/-- Along a run that keeps an invariant, a step property that follows from the
invariant holds at every step. -/
theorem along_of_invariant {relation other : State → Label → Prop}
    (invariant : State → Prop)
    (hstep : ∀ state label, invariant state → relation state label →
      invariant (exec state label))
    (hother : ∀ state label, invariant state → relation state label →
      other state label)
    {start : State} {labels : List Label} (hstart : invariant start)
    (hrun : Along exec relation start labels) :
    Along exec other start labels := by
  induction labels generalizing start with
  | nil => trivial
  | cons label labels ih =>
      exact ⟨hother _ _ hstart hrun.1, ih (hstep _ _ hstart hrun.1) hrun.2⟩

/-- Two step properties that agree under the invariant hold along the same
runs. -/
theorem along_iff_of_invariant {relation left right : State → Label → Prop}
    (invariant : State → Prop)
    (hstep : ∀ state label, invariant state → relation state label →
      invariant (exec state label))
    (hiff : ∀ state label, invariant state → relation state label →
      (left state label ↔ right state label))
    {start : State} {labels : List Label} (hstart : invariant start)
    (hrun : Along exec relation start labels) :
    Along exec left start labels ↔ Along exec right start labels := by
  induction labels generalizing start with
  | nil => exact Iff.rfl
  | cons label labels ih =>
      exact and_congr (hiff _ _ hstart hrun.1)
        (ih (hstep _ _ hstart hrun.1) hrun.2)

/-- A property that a step keeps or gets exactly under a condition holds at the end
of the runs that meet the condition at every step. -/
theorem run_iff_along {relation condition : State → Label → Prop}
    (invariant : State → Prop) {property : State → Prop}
    (hstep : ∀ state label, invariant state → relation state label →
      invariant (exec state label))
    (hiff : ∀ state label, invariant state → relation state label →
      (property (exec state label) ↔ property state ∧ condition state label))
    {start : State} {labels : List Label} (hstart : invariant start)
    (hrun : Along exec relation start labels) :
    property (run exec start labels) ↔
      property start ∧ Along exec condition start labels := by
  induction labels generalizing start with
  | nil => exact (iff_of_eq (and_true _)).symm
  | cons label labels ih =>
      rw [run_cons, ih (hstep _ _ hstart hrun.1) hrun.2, hiff _ _ hstart hrun.1, and_assoc]
      rfl

/-- A system that stays related to another one, whose labels it refines: a step
property of the other system that is stronger on related states holds along the
run here if it holds along the run there. -/
theorem along_of_simulation {Other OtherLabel : Type*} {step : Other → OtherLabel → Other}
    {left : State → Label → Prop} {right : Other → OtherLabel → Prop}
    (view : Label → OtherLabel) (related : State → Other → Prop)
    (hstep : ∀ state other label, related state other → right other (view label) →
      related (exec state label) (step other (view label)))
    (himp : ∀ state other label, related state other →
      right other (view label) → left state label)
    {start : State} {other : Other} (hstart : related start other) {labels : List Label}
    (hrun : Along step right other (labels.map view)) :
    Along exec left start labels := by
  induction labels generalizing start other with
  | nil => trivial
  | cons label labels ih =>
      exact ⟨himp start other label hstart hrun.1,
        ih (hstep start other label hstart hrun.1) hrun.2⟩

/-- Two systems that stay related take the same labels; step properties that
agree on related states hold along the same runs. -/
theorem along_iff_of_simulation {Other : Type*} {step : Other → Label → Other}
    {left : State → Label → Prop} {right : Other → Label → Prop}
    (related : State → Other → Prop)
    (hstep : ∀ state other label, related state other →
      related (exec state label) (step other label))
    (hiff : ∀ state other label, related state other →
      (left state label ↔ right other label))
    {start : State} {other : Other} (hstart : related start other)
    (labels : List Label) :
    Along exec left start labels ↔ Along step right other labels := by
  constructor
  · intro hrun
    apply along_of_simulation id (fun other state => related state other)
      (fun other state label hrelated _ => hstep state other label hrelated)
      (fun other state label hrelated => (hiff state other label hrelated).mp) hstart
    rwa [List.map_id]
  · intro hrun
    apply along_of_simulation id related
      (fun state other label hrelated _ => hstep state other label hrelated)
      (fun state other label hrelated => (hiff state other label hrelated).mpr) hstart
    rwa [List.map_id]

/-- A condition on the steps of a run is necessary for a property of its
states when the first step that breaks the condition breaks the property. -/
theorem along_of_always {relation condition : State → Label → Prop}
    (invariant : State → Prop) {property : State → Prop}
    (hstep : ∀ state label, invariant state → relation state label →
      condition state label → invariant (exec state label))
    (hbreak : ∀ state label, invariant state → relation state label →
      property (exec state label) → condition state label)
    {start : State} {labels : List Label} (hstart : invariant start)
    (hrun : Along exec relation start labels)
    (halways : Always exec property start labels) :
    Along exec condition start labels := by
  induction labels generalizing start with
  | nil => trivial
  | cons label labels ih =>
      have hcondition := hbreak _ _ hstart hrun.1 halways.2.start
      exact ⟨hcondition,
        ih (hstep _ _ hstart hrun.1 hcondition) hrun.2 halways.2⟩

end KernelScope.StepRun
