import Mathlib.Data.List.Induction
import Mathlib.Order.Bounds.Basic
import Mathlib.Order.RelClasses

/-!
# Running maxima and minima

A running maximum or minimum is an accumulator that each item either replaces
by its own value or leaves alone, whichever comes later in a partial order
`rel`.  Taking `rel` to be `≤` gives maxima and `≥` gives minima.  The extreme
value of a union is the extreme of the parts' extremes, which is what relates
accumulators kept at two levels of grouping.
-/

namespace KernelScope.Extremes

variable {A E I V : Type*} {rel : A → A → Prop}

/-- `a` belongs to `values` and comes after all of them. -/
def Extreme (rel : A → A → Prop) (values : Set A) (a : A) : Prop :=
  a ∈ values ∧ ∀ other ∈ values, rel other a

theorem extreme_le_iff [LE A] {values : Set A} {a : A} :
    Extreme (· ≤ ·) values a ↔ IsGreatest values a := Iff.rfl

theorem extreme_ge_iff [LE A] {values : Set A} {a : A} :
    Extreme (· ≥ ·) values a ↔ IsLeast values a := Iff.rfl

/-- One update of a running extreme: `after` is the later one of `before` and
`value`. -/
def Updates (rel : A → A → Prop) (before value after : A) : Prop :=
  (after = value ∧ rel before value) ∨ (after = before ∧ rel value before)

section Order

variable [IsPartialOrder A rel]

/-- After a nonempty stream, a running extreme that starts before every value
is the extreme of the stream's values. -/
theorem extreme_foldl (field : V → A) {value : E → A} {change : E → V → V}
    {fresh : V} (hfresh : ∀ a, rel (field fresh) a)
    (hchange : ∀ item v,
      Updates rel (field v) (value item) (field (change item v)))
    {items : List E} (hitems : items ≠ []) :
    Extreme rel {a | ∃ item ∈ items, value item = a}
      (field (items.foldl (fun v item => change item v) fresh)) := by
  induction items using List.reverseRecOn with
  | nil => exact absurd rfl hitems
  | append_singleton items last ih =>
      rw [List.foldl_append, List.foldl_cons, List.foldl_nil]
      have hlast : last ∈ items ++ [last] := by simp
      rcases hchange last (items.foldl (fun v item => change item v) fresh)
        with ⟨heq, hrel⟩ | ⟨heq, hrel⟩
      · rw [heq]
        refine ⟨⟨last, hlast, rfl⟩, ?_⟩
        rintro _ ⟨item, hitem, rfl⟩
        rcases List.mem_append.mp hitem with hitem | hitem
        · have hbest := (ih (List.ne_nil_of_mem hitem)).2 _ ⟨item, hitem, rfl⟩
          exact trans_of rel hbest hrel
        · rw [List.mem_singleton.mp hitem]
          exact refl_of rel _
      · rw [heq]
        by_cases hnil : items = []
        · subst hnil
          -- the start value is not before the only value, so they are equal
          have hstart : value last = field fresh :=
            antisymm_of rel hrel (hfresh _)
          refine ⟨⟨last, hlast, hstart⟩, ?_⟩
          rintro _ ⟨item, hitem, rfl⟩
          rw [List.mem_singleton.mp hitem]
          exact hrel
        · obtain ⟨⟨item, hitem, hvalue⟩, hbest⟩ := ih hnil
          refine ⟨⟨item, List.mem_append_left _ hitem, hvalue⟩, ?_⟩
          rintro _ ⟨other, hother, rfl⟩
          rcases List.mem_append.mp hother with hother | hother
          · exact hbest _ ⟨other, hother, rfl⟩
          · rw [List.mem_singleton.mp hother]
            exact hrel

/-- The extreme of a union is the extreme of the parts' extremes. -/
theorem Extreme.of_parts {whole : Set A} {a : A} {index : Set I}
    {part : I → Set A} {best : I → A} (hwhole : Extreme rel whole a)
    (hparts : ∀ i ∈ index, Extreme rel (part i) (best i))
    (hcover : ∀ b, b ∈ whole ↔ ∃ i ∈ index, b ∈ part i) :
    Extreme rel {b | ∃ i ∈ index, best i = b} a := by
  have hbound : ∀ i ∈ index, rel (best i) a := by
    intro i hi
    apply hwhole.2
    exact (hcover _).mpr ⟨i, hi, (hparts i hi).1⟩
  constructor
  · obtain ⟨i, hi, hmem⟩ := (hcover a).mp hwhole.1
    refine ⟨i, hi, ?_⟩
    apply antisymm_of rel
    · exact hbound i hi
    · exact (hparts i hi).2 a hmem
  · rintro _ ⟨i, hi, rfl⟩
    exact hbound i hi

end Order

/-! ## Machine words -/

instance isPartialOrder_le : IsPartialOrder UInt64 (· ≤ ·) where
  refl := UInt64.le_refl
  trans _ _ _ := UInt64.le_trans
  antisymm _ _ := UInt64.le_antisymm

instance isPartialOrder_ge : IsPartialOrder UInt64 (· ≥ ·) where
  refl := UInt64.le_refl
  trans _ _ _ hab hbc := UInt64.le_trans hbc hab
  antisymm _ _ hab hba := UInt64.le_antisymm hba hab

/-- `if (value > best) best = value` keeps a running maximum. -/
theorem updates_max (best value : UInt64) :
    Updates (· ≤ ·) best value (if value > best then value else best) := by
  unfold Updates
  split
  next hlt => exact .inl ⟨rfl, UInt64.le_of_lt hlt⟩
  next hle => exact .inr ⟨rfl, UInt64.not_lt.mp hle⟩

/-- `if (value < best) best = value` keeps a running minimum. -/
theorem updates_min (best value : UInt64) :
    Updates (· ≥ ·) best value (if value < best then value else best) := by
  unfold Updates
  split
  next hlt => exact .inl ⟨rfl, UInt64.le_of_lt hlt⟩
  next hle => exact .inr ⟨rfl, UInt64.not_lt.mp hle⟩

end KernelScope.Extremes
