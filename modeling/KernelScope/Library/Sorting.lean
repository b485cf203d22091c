import Mathlib.Data.List.Induction
import Mathlib.Data.List.Sort
import Mathlib.Order.RelClasses
import Mathlib.Tactic.Common

/-!
# Sorted sequences

What the standard algorithms promise about sorted sequences.  A comparator is a
Boolean function; sorting is any function that returns a sorted permutation
whenever the comparator is a strict weak order, so that the order of equivalent
items is left open.  The position that `upperBound` returns is the one where a
sequence changes from items that fail a test to items that pass it.
-/

namespace KernelScope.Sorting

variable {A K : Type*}

/-! ## Sorting -/

/-- The comparators that sorting accepts. -/
abbrev StrictWeakOrder (less : A → A → Bool) : Prop :=
  IsStrictWeakOrder A fun a b => less a b = true

/-- An implementation of `std::sort`. -/
structure StdSort where
  sort : ∀ {A : Type}, (A → A → Bool) → List A → List A
  perm : ∀ {A : Type} {less : A → A → Bool}, StrictWeakOrder less →
    ∀ items, (sort less items).Perm items
  sorted : ∀ {A : Type} {less : A → A → Bool}, StrictWeakOrder less →
    ∀ items, (sort less items).Pairwise fun a b => less b a = false

/-- Comparing the keys of items is a strict weak order. -/
theorem strictWeakOrder_of_key [LinearOrder K] (key : A → K)
    {less : A → A → Bool} (hless : ∀ a b, less a b = true ↔ key a < key b) :
    StrictWeakOrder less where
  irrefl a ha := lt_irrefl _ ((hless a a).mp ha)
  trans a b c hab hbc :=
    (hless a c).mpr (((hless a b).mp hab).trans ((hless b c).mp hbc))
  incomp_trans a b c hab hbc := by
    simp only [hless, not_lt] at *
    exact ⟨hbc.1.trans hab.1, hab.2.trans hbc.2⟩

theorem StrictWeakOrder.not_less_total {less : A → A → Bool}
    (horder : StrictWeakOrder less) (a b : A) : (!less b a || !less a b) = true := by
  by_contra hboth
  simp only [Bool.not_eq_true, Bool.or_eq_false_iff, Bool.not_eq_false'] at hboth
  exact horder.irrefl a (horder.trans a b a hboth.2 hboth.1)

theorem StrictWeakOrder.not_less_trans {less : A → A → Bool}
    (horder : StrictWeakOrder less) (a b c : A) (hab : (!less b a) = true)
    (hbc : (!less c b) = true) : (!less c a) = true := by
  simp only [Bool.not_eq_true', ← Bool.not_eq_true] at *
  intro hca
  -- `b` is equivalent to both ends, or else it would lie between them
  have hab' : ¬less a b = true := fun h => hbc (horder.trans c a b hca h)
  have hbc' : ¬less b c = true := fun h => hab (horder.trans b c a h hca)
  exact (horder.incomp_trans a b c ⟨hab', hab⟩ ⟨hbc', hbc⟩).2 hca

/-- Merge sort is one of the implementations. -/
def StdSort.mergeSort : StdSort where
  sort less items := items.mergeSort fun a b => !less b a
  perm _ items := List.mergeSort_perm items _
  sorted horder items := by
    have hsorted := List.pairwise_mergeSort horder.not_less_trans
      horder.not_less_total items
    simpa using hsorted

section Keyed

variable {A : Type} [LinearOrder K] (std : StdSort) (key : A → K)
  {less : A → A → Bool}

theorem StdSort.perm_key (hless : ∀ a b, less a b = true ↔ key a < key b)
    (items : List A) : (std.sort less items).Perm items :=
  std.perm (strictWeakOrder_of_key key hless) items

theorem StdSort.sorted_key (hless : ∀ a b, less a b = true ↔ key a < key b)
    (items : List A) :
    (std.sort less items).Pairwise fun a b => key a ≤ key b := by
  have hsorted := std.sorted (strictWeakOrder_of_key key hless) items
  refine hsorted.imp fun {a b} hab => ?_
  rw [← Bool.not_eq_true, hless, not_lt] at hab
  exact hab

/-- There is only one way to sort items whose keys increase already. -/
theorem StdSort.sort_eq_self (hless : ∀ a b, less a b = true ↔ key a < key b)
    {items : List A} (hitems : items.Pairwise fun a b => key a < key b) :
    std.sort less items = items := by
  have hperm := std.perm_key key hless items
  have hdistinct : (items.map key).Nodup :=
    List.pairwise_map.mpr (hitems.imp fun hab => hab.ne)
  refine List.Perm.eq_of_pairwise ?_ (std.sorted_key key hless items)
    (hitems.imp le_of_lt) hperm
  intro a b ha hb hab hba
  exact List.inj_on_of_nodup_map hdistinct (hperm.mem_iff.mp ha) hb
    (hab.antisymm hba)

/-- The first `n` items of a sequence in decreasing order of their keys. -/
structure IsTop (key : A → K) (items : List A) (n : ℕ) (top : List A) : Prop where
  length : top.length = min n items.length
  sorted : top.Pairwise fun a b => key b ≤ key a
  rest : ∃ out, (top ++ out).Perm items ∧ ∀ b ∈ out, ∀ a ∈ top, key b ≤ key a

theorem StdSort.isTop_take (hless : ∀ a b, less a b = true ↔ key b < key a)
    (items : List A) (n : ℕ) :
    IsTop key items n ((std.sort less items).take n) := by
  have hperm := std.perm_key (fun a => OrderDual.toDual (key a)) hless items
  have hsorted := std.sorted_key (fun a => OrderDual.toDual (key a)) hless items
  have hsplit := List.take_append_drop n (std.sort less items)
  constructor
  · rw [List.length_take, hperm.length_eq]
  · exact hsorted.sublist (List.take_sublist n _)
  · refine ⟨(std.sort less items).drop n, hsplit.symm ▸ hperm, ?_⟩
    rw [← hsplit, List.pairwise_append] at hsorted
    intro b hb a ha
    exact hsorted.2.2 a ha b hb

end Keyed

/-! ## Ranks -/

/-- Where the items that satisfy a predicate come first, the item at an index
satisfies it exactly when more than that many items do. -/
theorem satisfies_iff_lt_countP {p : A → Bool} {items : List A}
    (hfirst : items.Pairwise fun a b => p b = true → p a = true) {index : ℕ}
    (hindex : index < items.length) :
    p items[index] = true ↔ index < items.countP p := by
  induction items generalizing index with
  | nil => exact absurd hindex (Nat.not_lt_zero index)
  | cons head tail ih =>
      obtain ⟨hhead, htail⟩ := List.pairwise_cons.mp hfirst
      by_cases hp : p head = true
      · rw [List.countP_cons_of_pos hp]
        cases index with
        | zero => simp [hp]
        | succ index =>
            rw [List.getElem_cons_succ, Nat.add_lt_add_iff_right]
            exact ih htail (Nat.lt_of_succ_lt_succ hindex)
      · have hnone : ∀ item ∈ head :: tail, ¬p item = true := by
          intro item hitem hitem'
          rcases List.mem_cons.mp hitem with rfl | hitem
          · exact hp hitem'
          · exact hp (hhead item hitem hitem')
        rw [List.countP_eq_zero.mpr hnone]
        simpa using hnone _ (List.getElem_mem hindex)

/-! ## Searching -/

/-- The loop of `std::upper_bound` over `len` items from `first`, where `test`
tells whether the searched value comes before an item. -/
def upperBoundLoop (test : A → Bool) (items : List A) : ℕ → ℕ → ℕ → ℕ
  | 0, first, _ => first
  | fuel + 1, first, len =>
      if len = 0 then first
      else
        let half := len / 2
        let middle := first + half
        if (items[middle]?).any test then
          upperBoundLoop test items fuel first half
        else upperBoundLoop test items fuel (middle + 1) (len - half - 1)

/-- `std::upper_bound` -/
def upperBound (test : A → Bool) (items : List A) : ℕ :=
  upperBoundLoop test items items.length 0 items.length

section Search

variable {test : A → Bool} {items : List A}

/-- The number of items that fail the test stays within the searched range. -/
theorem upperBoundLoop_eq
    (hsorted : items.Pairwise fun a b => test a = true → test b = true)
    {fuel first len : ℕ} (hfuel : len ≤ fuel)
    (hlow : first ≤ items.countP (!test ·))
    (hhigh : items.countP (!test ·) ≤ first + len)
    (hlen : first + len ≤ items.length) :
    upperBoundLoop test items fuel first len = items.countP (!test ·) := by
  have hfirst : items.Pairwise fun a b => (!test b) = true → (!test a) = true := by
    refine hsorted.imp fun {a b} hab => ?_
    cases ha : test a
    · simp
    · simp [hab ha]
  induction fuel generalizing first len with
  | zero => simp only [upperBoundLoop]; omega
  | succ fuel ih =>
      simp only [upperBoundLoop]
      split
      next => omega
      next hpos =>
        have hmiddle : first + len / 2 < items.length := by omega
        have hcount := satisfies_iff_lt_countP hfirst hmiddle
        rw [List.getElem?_eq_getElem hmiddle, Option.any_some]
        cases htest : test items[first + len / 2]
        · rw [htest] at hcount
          have hlt := hcount.mp rfl
          exact ih (by omega) (by omega) (by omega) (by omega)
        · rw [htest] at hcount
          have hge := mt hcount.mpr (by simp)
          exact ih (by omega) (by omega) (by omega) (by omega)

theorem upperBound_eq
    (hsorted : items.Pairwise fun a b => test a = true → test b = true) :
    upperBound test items = items.countP (!test ·) :=
  upperBoundLoop_eq hsorted (Nat.le_refl _) (Nat.zero_le _)
    (by simpa using List.countP_le_length) (by omega)

/-- The item before a position, unless the position is the first. -/
def itemBefore (items : List A) (position : ℕ) : Option A :=
  if position = 0 then none else items[position - 1]?

theorem itemBefore_append (more : List A) {position : ℕ}
    (hposition : position ≤ items.length) :
    itemBefore (items ++ more) position = itemBefore items position := by
  simp only [itemBefore]
  split
  next => rfl
  next hpos => exact List.getElem?_append_left (by omega)

/-- The item before the searched position is the last one that fails the
test. -/
theorem itemBefore_upperBound
    (hsorted : items.Pairwise fun a b => test a = true → test b = true) :
    itemBefore items (upperBound test items) =
      (items.filter (!test ·)).getLast? := by
  rw [upperBound_eq hsorted]
  induction items using List.reverseRecOn with
  | nil => rfl
  | append_singleton items last ih =>
      obtain ⟨hinit, -, hlast⟩ := List.pairwise_append.mp hsorted
      cases htest : test last with
      | false =>
          have hall : ∀ item ∈ items, (!test item) = true := by
            intro item hitem
            cases hitem' : test item
            · rfl
            · rw [hlast item hitem last (List.mem_singleton_self last) hitem'] at htest
              cases htest
          have hcount : items.countP (!test ·) = items.length :=
            List.countP_eq_length.mpr hall
          simp [itemBefore, List.countP_append, htest, hcount]
      | true =>
          have hcount : (items ++ [last]).countP (!test ·) = items.countP (!test ·) := by
            simp [List.countP_append, htest]
          have hfilter : (items ++ [last]).filter (!test ·) = items.filter (!test ·) := by
            simp [htest]
          rw [hcount, hfilter, itemBefore_append _ List.countP_le_length]
          exact ih hinit

/-- A scan over all items for one with the greatest key up to a bound, the last
one of several. -/
def greatestBelow (key : A → ℕ) (bound : ℕ) (items : List A) : Option A :=
  items.foldl
    (fun best item =>
      if key item ≤ bound ∧ best.all (fun other => key other ≤ key item) then some item
      else best)
    none

theorem greatestBelow_append_singleton (key : A → ℕ) (bound : ℕ) (items : List A)
    (item : A) :
    greatestBelow key bound (items ++ [item]) =
      if key item ≤ bound ∧
          (greatestBelow key bound items).all (fun other => key other ≤ key item) then
        some item
      else greatestBelow key bound items := by
  rw [greatestBelow, List.foldl_append]
  rfl

theorem mem_of_greatestBelow {key : A → ℕ} {bound : ℕ} {items : List A} {best : A}
    (hbest : greatestBelow key bound items = some best) :
    best ∈ items ∧ key best ≤ bound := by
  induction items using List.reverseRecOn with
  | nil => cases hbest
  | append_singleton items last ih =>
      rw [greatestBelow_append_singleton] at hbest
      split at hbest
      next htake =>
        cases hbest
        exact ⟨by simp, htake.1⟩
      next =>
        obtain ⟨hmem, hle⟩ := ih hbest
        exact ⟨List.mem_append_left _ hmem, hle⟩

theorem exists_greatestBelow {key : A → ℕ} {bound : ℕ} {items : List A} {item : A}
    (hitem : item ∈ items) (hle : key item ≤ bound) :
    ∃ best, greatestBelow key bound items = some best ∧ key item ≤ key best := by
  induction items using List.reverseRecOn with
  | nil => cases hitem
  | append_singleton items last ih =>
      rw [greatestBelow_append_singleton]
      rcases List.mem_append.mp hitem with hitem | hitem
      · obtain ⟨best, hbest, hkey⟩ := ih hitem
        rw [hbest]
        split
        next htake => exact ⟨last, rfl, hkey.trans (of_decide_eq_true htake.2)⟩
        next => exact ⟨best, rfl, hkey⟩
      · obtain rfl := List.mem_singleton.mp hitem
        split
        next => exact ⟨item, rfl, Nat.le_refl _⟩
        next hkeep =>
          cases hbest : greatestBelow key bound items with
          | none => exact absurd ⟨hle, by rw [hbest]; rfl⟩ hkeep
          | some best =>
              rw [hbest] at hkeep
              refine ⟨best, rfl, ?_⟩
              by_contra hlt
              exact hkeep ⟨hle, decide_eq_true (Nat.le_of_lt (Nat.not_le.mp hlt))⟩

theorem greatestBelow_eq_getLast? {key : A → ℕ} {bound : ℕ} {items : List A}
    (hsorted : items.Pairwise fun a b => key a ≤ key b) :
    greatestBelow key bound items =
      (items.filter fun item => key item ≤ bound).getLast? := by
  induction items using List.reverseRecOn with
  | nil => rfl
  | append_singleton items last ih =>
      obtain ⟨hinit, -, hlast⟩ := List.pairwise_append.mp hsorted
      rw [greatestBelow_append_singleton, List.filter_append]
      by_cases hle : key last ≤ bound
      · have hall : (greatestBelow key bound items).all
            (fun other => key other ≤ key last) = true := by
          rw [Option.all_eq_true]
          intro other hother
          exact decide_eq_true
            (hlast other (mem_of_greatestBelow hother).1 last (by simp))
        rw [if_pos ⟨hle, hall⟩]
        simp [hle]
      · rw [if_neg fun h => hle h.1, ih hinit]
        simp [hle]

/-- On a sorted sequence the item before the searched position is the one the
scan finds. -/
theorem itemBefore_upperBound_eq_greatestBelow {key : A → ℕ} {bound : ℕ}
    (hsorted : items.Pairwise fun a b => key a ≤ key b)
    (htest : ∀ item, test item = true ↔ bound < key item) :
    itemBefore items (upperBound test items) = greatestBelow key bound items := by
  have hfail : (fun item => !test item) = fun item => decide (key item ≤ bound) := by
    funext item
    rw [Bool.eq_iff_iff, Bool.not_eq_true', ← Bool.not_eq_true, htest,
      decide_eq_true_iff, Nat.not_lt]
  rw [itemBefore_upperBound, hfail, greatestBelow_eq_getLast? hsorted]
  · refine hsorted.imp fun {a b} hab ha => ?_
    exact (htest b).mpr (((htest a).mp ha).trans_le hab)

/-- The same for keys that are machine words. -/
theorem itemBefore_upperBound_word (key : A → UInt64)
    (hsorted : items.Pairwise fun a b => (key a).toNat ≤ (key b).toNat) (q : UInt64) :
    itemBefore items (upperBound (fun item => q < key item) items) =
      greatestBelow (fun item => (key item).toNat) q.toNat items := by
  apply itemBefore_upperBound_eq_greatestBelow hsorted
  intro item
  rw [decide_eq_true_iff, UInt64.lt_iff_toNat_lt]

end Search

end KernelScope.Sorting
