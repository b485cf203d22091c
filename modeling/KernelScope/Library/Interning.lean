import Mathlib.Logic.Function.Basic

/-!
# Naming items by the bucket they are filed in

A hash assigns a bucket to every item.  The first item that is filed in a bucket
keeps it, and from then on the number of the bucket stands for the item; another
item with the same hash is turned away.
-/

namespace KernelScope.Interning

variable {Item Index : Type*} [DecidableEq Item] [DecidableEq Index]

abbrev Table (Item Index : Type*) := Index → Option Item

def intern (hash : Item → Index) (item : Item) (table : Table Item Index) :
    Option Index × Table Item Index :=
  match table (hash item) with
  | none => (some (hash item), Function.update table (hash item) (some item))
  | some filed => (if filed = item then some (hash item) else none, table)

/-- The item is in its bucket. -/
def Held (hash : Item → Index) (table : Table Item Index) (item : Item) : Prop :=
  table (hash item) = some item

variable {hash : Item → Index} {table : Table Item Index} {item other : Item}

omit [DecidableEq Item] [DecidableEq Index] in
/-- Bucket numbers name the items they stand for. -/
theorem Held.hash_eq_iff (hitem : Held hash table item) (hother : Held hash table other) :
    hash item = hash other ↔ item = other := by
  constructor
  · intro hsame
    rw [Held, hsame] at hitem
    exact Option.some.inj (hitem.symm.trans hother)
  · exact congrArg hash

/-- No item loses its bucket. -/
theorem Held.intern (hheld : Held hash table item) (next : Item) :
    Held hash (intern hash next table).2 item := by
  rw [Interning.intern]
  split
  next hfree =>
    have hne : hash item ≠ hash next := by
      intro hsame
      rw [Held, hsame, hfree] at hheld
      cases hheld
    exact (Function.update_of_ne hne _ _).trans hheld
  next => exact hheld

/-- An item that gets a number is in the bucket of that number. -/
theorem held_of_intern {index : Index} (hindex : (intern hash item table).1 = some index) :
    index = hash item ∧ Held hash (intern hash item table).2 item := by
  rw [intern] at hindex ⊢
  split at hindex
  next => exact ⟨(Option.some.inj hindex).symm, Function.update_self ..⟩
  next filed hfiled =>
    rw [Option.ite_none_right_eq_some] at hindex
    obtain ⟨rfl, hsame⟩ := hindex
    exact ⟨(Option.some.inj hsame).symm, hfiled⟩

end KernelScope.Interning
