import Mathlib.Algebra.BigOperators.Group.Finset.Piecewise
import Mathlib.Algebra.BigOperators.Group.List.Basic
import Mathlib.Data.Finmap

/-!
# Folding a stream into a keyed map

A stream of items is folded into a finite map by updating, for each item, the
entry under the item's key; an absent entry starts from a fresh value.  The
entry under a key is then the fold of the items carrying that key, and an
additive field of the entries, summed over any set of keys, is the sum of the
items' weights.  The map is extensional: iteration order is not observable.
-/

namespace KernelScope.KeyedFold

variable {K V E M : Type*} [DecidableEq K]

abbrev KeyedMap (K V : Type*) := Finmap fun _ : K => V

/-- Update the entry under `key`, inserting `fresh` first when it is absent. -/
def upsert (fresh : V) (key : K) (change : V → V) (map : KeyedMap K V) :
    KeyedMap K V :=
  map.insert key (change ((map.lookup key).getD fresh))

@[simp]
theorem lookup_upsert_self (fresh : V) (key : K) (change : V → V)
    (map : KeyedMap K V) :
    (upsert fresh key change map).lookup key =
      some (change ((map.lookup key).getD fresh)) :=
  Finmap.lookup_insert map

theorem lookup_upsert_of_ne (fresh : V) {key other : K} (change : V → V)
    (map : KeyedMap K V) (hne : other ≠ key) :
    (upsert fresh key change map).lookup other = map.lookup other :=
  Finmap.lookup_insert_of_ne map hne

/-- Deleting an entry adds none. -/
theorem lookup_of_lookup_erase {map : KeyedMap K V} {key other : K} {value : V}
    (hlookup : (map.erase other).lookup key = some value) :
    map.lookup key = some value := by
  by_cases hkey : key = other
  · subst hkey
    rw [Finmap.lookup_erase] at hlookup
    cases hlookup
  · rwa [Finmap.lookup_erase_ne hkey] at hlookup

/-- Storing what a function answers keeps a map that holds its answers. -/
theorem answers_insert {source : K → V} {map : KeyedMap K V}
    (hmap : ∀ key value, map.lookup key = some value → value = source key)
    (fetched key : K) (value : V)
    (hlookup : (map.insert fetched (source fetched)).lookup key = some value) :
    value = source key := by
  by_cases heq : key = fetched
  · subst heq
    rw [Finmap.lookup_insert] at hlookup
    exact (Option.some.inj hlookup).symm
  · rw [Finmap.lookup_insert_of_ne _ heq] at hlookup
    exact hmap key value hlookup

/-! ## Iteration -/

/-- An order in which the entries of a map are visited. -/
structure Enumeration (map : KeyedMap K V) where
  entries : List (Σ _ : K, V)
  complete : (entries : Multiset (Σ _ : K, V)) = map.entries

section Enumeration

variable {map : KeyedMap K V} (order : Enumeration map)

instance nonemptyEnumeration : Nonempty (Enumeration map) :=
  ⟨⟨map.entries.toList, map.entries.coe_toList⟩⟩

omit [DecidableEq K] in
theorem Enumeration.nodup_keys : (order.entries.map Sigma.fst).Nodup :=
  Multiset.coe_nodupKeys.mp (order.complete ▸ map.nodupKeys)

theorem Enumeration.mem_entries {key : K} {value : V} :
    ⟨key, value⟩ ∈ order.entries ↔ map.lookup key = some value := by
  rw [Finmap.lookup_eq_some_iff, ← order.complete, Multiset.mem_coe]

omit [DecidableEq K] in
theorem Enumeration.length_entries : order.entries.length = map.keys.card := by
  rw [← Multiset.coe_card, order.complete]
  exact (Multiset.card_map Sigma.fst map.entries).symm

omit [DecidableEq K] in
/-- What tells the keys apart tells the visited entries apart. -/
theorem Enumeration.nodup_map {W : Type*} {observe : (Σ _ : K, V) → W}
    (hobserve : ∀ one ∈ order.entries, ∀ other ∈ order.entries,
      observe one = observe other → one.1 = other.1) :
    (order.entries.map observe).Nodup := by
  have hkeys := order.nodup_keys
  rw [List.Nodup, List.pairwise_map] at hkeys ⊢
  exact hkeys.imp_of_mem fun hone hother hne heq =>
    hne (hobserve _ hone _ hother heq)

end Enumeration

/-! ## Entries are folds of their groups -/

/-- The items that carry `key`, in stream order. -/
def group (keyOf : E → K) (key : K) (items : List E) : List E :=
  items.filter fun item => keyOf item = key

/-- Fold a stream of items into a map. -/
def collect (fresh : V) (keyOf : E → K) (change : E → V → V)
    (items : List E) (map : KeyedMap K V) : KeyedMap K V :=
  items.foldl (fun map item => upsert fresh (keyOf item) (change item) map) map

theorem collect_append (fresh : V) (keyOf : E → K) (change : E → V → V)
    (left right : List E) (map : KeyedMap K V) :
    collect fresh keyOf change (left ++ right) map =
      collect fresh keyOf change right
        (collect fresh keyOf change left map) :=
  List.foldl_append

@[simp]
theorem mem_group {keyOf : E → K} {key : K} {items : List E} {item : E} :
    item ∈ group keyOf key items ↔ item ∈ items ∧ keyOf item = key := by
  simp [group]

theorem group_map {F : Type*} (f : E → F) (keyOf : F → K) (key : K) (items : List E) :
    group keyOf key (items.map f) = (group (keyOf ∘ f) key items).map f := by
  rw [group, group, List.filter_map]
  rfl

theorem group_filter (keyOf : E → K) (key : K) (keep : E → Bool) (items : List E) :
    group keyOf key (items.filter keep) = (group keyOf key items).filter keep := by
  rw [group, group, List.filter_filter, List.filter_filter]
  congr 1
  funext item
  exact Bool.and_comm _ _

theorem group_perm {keyOf : E → K} {key : K} {left right : List E}
    (hperm : left.Perm right) :
    (group keyOf key left).Perm (group keyOf key right) :=
  hperm.filter _

/-- The entry of a collected map is absent exactly when no item carries its
key, and is otherwise the fold of the items that do. -/
theorem lookup_collect (fresh : V) (keyOf : E → K) (change : E → V → V)
    (items : List E) (map : KeyedMap K V) (key : K) :
    (collect fresh keyOf change items map).lookup key =
      if group keyOf key items = [] then map.lookup key
      else some ((group keyOf key items).foldl
        (fun value item => change item value)
        ((map.lookup key).getD fresh)) := by
  induction items generalizing map with
  | nil => simp [collect, group]
  | cons item items ih =>
      have hstep : collect fresh keyOf change (item :: items) map =
          collect fresh keyOf change items
            (upsert fresh (keyOf item) (change item) map) := rfl
      rw [hstep, ih]
      by_cases hkey : keyOf item = key
      · subst hkey
        have hgroup : group keyOf (keyOf item) (item :: items) =
            item :: group keyOf (keyOf item) items := by simp [group]
        rw [hgroup, lookup_upsert_self]
        split <;> simp_all
      · have hgroup : group keyOf key (item :: items) =
            group keyOf key items := by simp [group, hkey]
        rw [hgroup, lookup_upsert_of_ne _ _ _ (Ne.symm hkey)]

theorem lookup_collect_empty (fresh : V) (keyOf : E → K)
    (change : E → V → V) (items : List E) (key : K) :
    (collect fresh keyOf change items ∅).lookup key =
      if group keyOf key items = [] then none
      else some ((group keyOf key items).foldl
        (fun value item => change item value) fresh) := by
  simp [lookup_collect]

theorem lookup_collect_eq_some {fresh : V} {keyOf : E → K}
    {change : E → V → V} {items : List E} {key : K} {value : V} :
    (collect fresh keyOf change items ∅).lookup key = some value ↔
      group keyOf key items ≠ [] ∧
        (group keyOf key items).foldl (fun value item => change item value)
          fresh = value := by
  rw [lookup_collect_empty]
  split
  next hgroup => simp [hgroup]
  next hgroup => simp [hgroup]

/-- What holds of a fresh entry and is kept by every change holds of every
entry. -/
theorem of_lookup_collect (property : V → Prop) {fresh : V} {keyOf : E → K}
    {change : E → V → V} (hfresh : property fresh)
    (hchange : ∀ item value, property value → property (change item value))
    {items : List E} {key : K} {value : V}
    (hlookup : (collect fresh keyOf change items ∅).lookup key = some value) :
    property value := by
  obtain ⟨-, rfl⟩ := lookup_collect_eq_some.mp hlookup
  exact List.foldlRecOn _ _ hfresh fun value hvalue item _ => hchange item value hvalue

/-- An entry was last written by the last item that carries its key. -/
theorem exists_last_of_lookup_collect {fresh : V} {keyOf : E → K}
    {change : E → V → V} {items : List E} {key : K} {value : V}
    (hlookup : (collect fresh keyOf change items ∅).lookup key = some value) :
    ∃ item before, (group keyOf key items).getLast? = some item ∧
      value = change item before := by
  obtain ⟨hgroup, rfl⟩ := lookup_collect_eq_some.mp hlookup
  obtain hnil | ⟨first, last, hsplit⟩ := List.eq_nil_or_concat' (group keyOf key items)
  · exact absurd hnil hgroup
  · refine ⟨last, first.foldl (fun value item => change item value) fresh, ?_, ?_⟩
    · rw [hsplit, List.getLast?_concat]
    · rw [hsplit, List.foldl_append, List.foldl_cons, List.foldl_nil]

theorem exists_change_of_lookup_collect {fresh : V} {keyOf : E → K}
    {change : E → V → V} {items : List E} {key : K} {value : V}
    (hlookup : (collect fresh keyOf change items ∅).lookup key = some value) :
    ∃ item before, keyOf item = key ∧ value = change item before := by
  obtain ⟨item, before, hlast, hvalue⟩ := exists_last_of_lookup_collect hlookup
  exact ⟨item, before, (mem_group.mp (List.mem_of_getLast? hlast)).2, hvalue⟩

theorem mem_collect_empty {fresh : V} {keyOf : E → K} {change : E → V → V}
    {items : List E} {key : K} :
    key ∈ collect fresh keyOf change items ∅ ↔
      ∃ item ∈ items, keyOf item = key := by
  rw [← Finmap.lookup_isSome, lookup_collect_empty]
  by_cases hgroup : group keyOf key items = []
  · have hnone : ∀ item ∈ items, keyOf item ≠ key := by
      simpa [group, List.filter_eq_nil_iff] using hgroup
    simpa [hgroup] using hnone
  · obtain ⟨item, hitem⟩ := List.exists_mem_of_ne_nil _ hgroup
    simpa [hgroup] using ⟨item, mem_group.mp hitem⟩

/-! ## Reordering the stream -/

section Reordering

variable {W : Type*} {change : E → V → V} {observe : V → W}

omit [DecidableEq K] in
/-- Folds over permuted items of one group agree on what `observe` sees, when it
sees no difference between two changes made in either order. -/
theorem observe_foldl_perm {keyOf : E → K}
    (hcongr : ∀ item first second, observe first = observe second →
      observe (change item first) = observe (change item second))
    (hswap : ∀ one other value, keyOf one = keyOf other →
      observe (change one (change other value)) =
        observe (change other (change one value)))
    {left right : List E} (hperm : left.Perm right) {key : K}
    (hkey : ∀ item ∈ left, keyOf item = key) {first second : V}
    (hstart : observe first = observe second) :
    observe (left.foldl (fun value item => change item value) first) =
      observe (right.foldl (fun value item => change item value) second) := by
  have hsame : ∀ (items : List E) {first second : V},
      observe first = observe second →
        observe (items.foldl (fun value item => change item value) first) =
          observe
            (items.foldl (fun value item => change item value) second) := by
    intro items
    induction items with
    | nil => exact id
    | cons item items ih => exact fun h => ih (hcongr item _ _ h)
  induction hperm generalizing first second with
  | nil => exact hstart
  | cons item _ ih =>
      exact ih (fun other hother => hkey other (List.mem_cons_of_mem _ hother))
        (hcongr item _ _ hstart)
  | swap one other items =>
      have hone : keyOf one = key := hkey one (by simp)
      have hother : keyOf other = key := hkey other (by simp)
      rw [List.foldl_cons, List.foldl_cons, List.foldl_cons, List.foldl_cons]
      apply hsame
      rw [hswap one other _ (hone.trans hother.symm)]
      exact hcongr _ _ _ (hcongr _ _ _ hstart)
  | trans hleft _ ihleft ihright =>
      exact (ihleft hkey hstart).trans
        (ihright (fun item hitem => hkey item (hleft.mem_iff.mpr hitem)) rfl)

/-- Maps collected from permuted streams have the same keys, and entries that
look the same to `observe`. -/
theorem lookup_collect_perm {fresh : V} {keyOf : E → K}
    (hcongr : ∀ item first second, observe first = observe second →
      observe (change item first) = observe (change item second))
    (hswap : ∀ one other value, keyOf one = keyOf other →
      observe (change one (change other value)) =
        observe (change other (change one value)))
    {left right : List E} (hperm : left.Perm right) (key : K) :
    ((collect fresh keyOf change left ∅).lookup key).map observe =
      ((collect fresh keyOf change right ∅).lookup key).map observe := by
  have hgroup : (group keyOf key left).Perm (group keyOf key right) :=
    group_perm hperm
  have hkey : ∀ item ∈ group keyOf key left, keyOf item = key :=
    fun item hitem => (mem_group.mp hitem).2
  rw [lookup_collect_empty, lookup_collect_empty]
  by_cases hempty : group keyOf key left = []
  · have hempty' : group keyOf key right = [] :=
      (hempty ▸ hgroup).nil_eq.symm
    rw [if_pos hempty, if_pos hempty']
  · have hempty' : group keyOf key right ≠ [] := by
      intro h
      exact hempty (h ▸ hgroup).eq_nil
    rw [if_neg hempty, if_neg hempty', Option.map_some, Option.map_some,
      observe_foldl_perm hcongr hswap hgroup hkey rfl]

/-- Changes that commute within a group make the whole map independent of the
order of the stream. -/
theorem collect_perm {fresh : V} {keyOf : E → K}
    (hswap : ∀ one other value, keyOf one = keyOf other →
      change one (change other value) = change other (change one value))
    {left right : List E} (hperm : left.Perm right) :
    collect fresh keyOf change left ∅ = collect fresh keyOf change right ∅ := by
  apply Finmap.ext_lookup
  intro key
  have hlookup :
      ((collect fresh keyOf change left ∅).lookup key).map id =
        ((collect fresh keyOf change right ∅).lookup key).map id :=
    lookup_collect_perm (fun item _ _ h => congrArg (change item) h) hswap
      hperm key
  simpa using hlookup

end Reordering

/-! ## Additive fields -/

section Additive

variable [AddCommMonoid M]

/-- A field of the entry under `key`, read as zero when there is no entry. -/
def fieldAt (field : V → M) (map : KeyedMap K V) (key : K) : M :=
  ((map.lookup key).map field).getD 0

/-- A field summed over the entries of a set of keys. -/
def sumOver (field : V → M) (map : KeyedMap K V) (keys : Finset K) : M :=
  ∑ key ∈ keys, fieldAt field map key

/-- The items' total weight. -/
def weigh (weight : E → M) (items : List E) : M :=
  (items.map weight).sum

@[simp]
theorem weigh_nil (weight : E → M) : weigh weight [] = 0 := rfl

@[simp]
theorem weigh_cons (weight : E → M) (item : E) (items : List E) :
    weigh weight (item :: items) = weight item + weigh weight items := by
  simp [weigh]

omit [DecidableEq K] in
/-- Items that all weigh one are counted, in whatever way `M` represents
numbers. -/
theorem weigh_const {one : M} {ofNat : ℕ → M} (hzero : ofNat 0 = 0)
    (hsucc : ∀ count, ofNat (count + 1) = ofNat count + one) (items : List E) :
    weigh (fun _ => one) items = ofNat items.length := by
  induction items with
  | nil => exact hzero.symm
  | cons item items ih =>
      rw [weigh_cons, ih, List.length_cons, hsucc, add_comm]

/-- A field that each change increases by the item's weight accumulates the
total weight. -/
theorem field_foldl {field : V → M} {weight : E → M} {change : E → V → V}
    (hchange : ∀ item value,
      field (change item value) = field value + weight item)
    (items : List E) (value : V) :
    field (items.foldl (fun value item => change item value) value) =
      field value + weigh weight items := by
  induction items generalizing value with
  | nil => simp
  | cons item items ih =>
      rw [List.foldl_cons, ih, hchange, weigh_cons, add_assoc]

/-- The field of an entry is the total weight of its items. -/
theorem field_of_lookup_collect (field : V → M) (weight : E → M) {fresh : V}
    {keyOf : E → K} {change : E → V → V} (hfresh : field fresh = 0)
    (hchange : ∀ item value,
      field (change item value) = field value + weight item)
    {items : List E} {key : K} {value : V}
    (hlookup : (collect fresh keyOf change items ∅).lookup key = some value) :
    field value = weigh weight (group keyOf key items) := by
  obtain ⟨-, rfl⟩ := lookup_collect_eq_some.mp hlookup
  rw [field_foldl hchange, hfresh, zero_add]

/-- A field that every change increments counts the items of its entry. -/
theorem counter_of_lookup_collect (counter : V → M) {one : M} {ofNat : ℕ → M}
    (hzero : ofNat 0 = 0)
    (hsucc : ∀ count, ofNat (count + 1) = ofNat count + one) {fresh : V}
    {keyOf : E → K} {change : E → V → V} (hfresh : counter fresh = 0)
    (hchange : ∀ item value, counter (change item value) = counter value + one)
    {items : List E} {key : K} {value : V}
    (hlookup : (collect fresh keyOf change items ∅).lookup key = some value) :
    counter value = ofNat (group keyOf key items).length := by
  rw [field_of_lookup_collect counter _ hfresh hchange hlookup,
    weigh_const hzero hsucc]

theorem fieldAt_collect (field : V → M) {fresh : V} {weight : E → M}
    {change : E → V → V} (hfresh : field fresh = 0)
    (hchange : ∀ item value,
      field (change item value) = field value + weight item)
    (keyOf : E → K) (items : List E) (key : K) :
    fieldAt field (collect fresh keyOf change items ∅) key =
      weigh weight (group keyOf key items) := by
  rw [fieldAt, lookup_collect_empty]
  split
  next hgroup => simp [hgroup]
  next =>
    simp [field_foldl hchange, hfresh]

/-- Group sums over a set of keys add up to the weight of all items whose key
belongs to the set. -/
theorem sum_weigh_group (weight : E → M) (keyOf : E → K) (keys : Finset K)
    (items : List E) :
    ∑ key ∈ keys, weigh weight (group keyOf key items) =
      weigh weight (items.filter fun item => keyOf item ∈ keys) := by
  induction items with
  | nil => simp [group]
  | cons item items ih =>
      have hsplit : ∀ key, weigh weight (group keyOf key (item :: items)) =
          (if key = keyOf item then weight item else 0) +
            weigh weight (group keyOf key items) := by
        intro key
        by_cases hkey : keyOf item = key
        · simp [group, hkey]
        · simp [group, hkey, Ne.symm hkey]
      rw [Finset.sum_congr rfl fun key _ => hsplit key,
        Finset.sum_add_distrib, Finset.sum_ite_eq', ih]
      by_cases hmem : keyOf item ∈ keys <;> simp [hmem]

theorem sumOver_collect (field : V → M) {fresh : V} {weight : E → M}
    {change : E → V → V} (hfresh : field fresh = 0)
    (hchange : ∀ item value,
      field (change item value) = field value + weight item)
    (keyOf : E → K) (items : List E) (keys : Finset K) :
    sumOver field (collect fresh keyOf change items ∅) keys =
      weigh weight (items.filter fun item => keyOf item ∈ keys) := by
  rw [sumOver, ← sum_weigh_group]
  exact Finset.sum_congr rfl fun key _ =>
    fieldAt_collect field hfresh hchange keyOf items key

/-- Summed over all of its entries, an additive field counts every item. -/
theorem sumOver_collect_keys (field : V → M) {fresh : V} {weight : E → M}
    {change : E → V → V} (hfresh : field fresh = 0)
    (hchange : ∀ item value,
      field (change item value) = field value + weight item)
    (keyOf : E → K) (items : List E) :
    sumOver field (collect fresh keyOf change items ∅)
        (collect fresh keyOf change items ∅).keys = weigh weight items := by
  rw [sumOver_collect field hfresh hchange, List.filter_eq_self.mpr]
  intro item hitem
  simpa [Finmap.mem_keys, mem_collect_empty] using ⟨item, hitem, rfl⟩

end Additive

end KernelScope.KeyedFold
