import KernelScope.Bpf.SkeletonBridge

/-!
# Walking a table that changes

The kernel visits a hash map bucket by bucket, and a key that is gone sends
`bpf_map_get_next_key` back to the first bucket.  That an update links its element at
the head of the bucket is assumed of the kernel, in `LinksAtHead`.  Then a walk may be
set back by what happens between two calls, but it never passes an entry that nobody
touches.
-/

namespace KernelScope.ChangingTable

open KernelScope.SkeletonBridge

variable {K : Type*}

/-- What `bpf_map_update_elem` and `bpf_map_delete_elem` do to a key. -/
inductive Change (K : Type*) where
  | file (key : K)
  | drop (key : K)
  deriving DecidableEq

def Change.key : Change K → K
  | .file key => key
  | .drop key => key

section Order

variable (bucket : K → ℕ)

/-- Bucket by bucket, and each key once. -/
structure InOrder (keys : List K) : Prop where
  nodup : keys.Nodup
  buckets : keys.Pairwise fun front behind => bucket front ≤ bucket behind

/-- What a walk rests on in the kernel.  `relink` is the order of the keys after a
change: a key that is filed comes to the head of its bucket, and the others stay where
they are. -/
structure LinksAtHead (relink : List K → Change K → List K) : Prop where
  inOrder : ∀ {keys}, InOrder bucket keys → ∀ change, InOrder bucket (relink keys change)
  mem_file : ∀ {keys filed key}, key ∈ relink keys (.file filed) ↔ key = filed ∨ key ∈ keys
  mem_drop : ∀ {keys dropped key},
    key ∈ relink keys (.drop dropped) ↔ key ≠ dropped ∧ key ∈ keys
  inPlace : ∀ {keys change front behind}, InOrder bucket keys →
    front ≠ change.key → behind ≠ change.key →
      [front, behind].Sublist keys → [front, behind].Sublist (relink keys change)
  head : ∀ {keys filed key}, key ∈ keys → key ≠ filed → bucket key = bucket filed →
    [filed, key].Sublist (relink keys (.file filed))

end Order

section Loop

variable [DecidableEq K] (relink : List K → Change K → List K)

/-- The keys that a walk is given, one after the other.  Each batch is what happens
before the next call of `bpf_map_get_next_key`; with no batch left the walk has not
ended. -/
def visits : List (List (Change K)) → List K → K → Option (List K)
  | [], _, _ => none
  | batch :: batches, keys, key =>
      let keys := batch.foldl relink keys
      match getNextKey keys key with
      | none => some []
      | some nextKey => (visits batches keys nextKey).map (nextKey :: ·)

/-- The loop of the counting functions. -/
def countWhile : List (List (Change K)) → List K → K → UInt32 → Option UInt32
  | [], _, _, _ => none
  | batch :: batches, keys, key, count =>
      let keys := batch.foldl relink keys
      match getNextKey keys key with
      | none => some count
      | some nextKey => countWhile batches keys nextKey (count + 1)

variable {relink}

theorem countWhile_eq (batches : List (List (Change K))) (keys : List K) (key : K)
    (count : UInt32) :
    countWhile relink batches keys key count =
      (visits relink batches keys key).map fun visited =>
        count + UInt32.ofNat visited.length := by
  induction batches generalizing keys key count with
  | nil => rfl
  | cons batch batches ih =>
      rw [countWhile, visits]
      cases getNextKey (batch.foldl relink keys) key with
      | none => exact congrArg some (UInt32.add_zero count).symm
      | some nextKey =>
          dsimp only
          rw [ih, Option.map_map]
          congr 1
          funext visited
          exact add_one_add_length count nextKey visited

theorem visits_cons {batch : List (Change K)} {batches : List (List (Change K))} {keys : List K}
    {cursor nextKey : K} {visited : List K}
    (hnext : getNextKey (batch.foldl relink keys) cursor = some nextKey)
    (hvisits : visits relink (batch :: batches) keys cursor = some visited) :
    ∃ rest, visits relink batches (batch.foldl relink keys) nextKey = some rest ∧
      nextKey :: rest = visited := by
  rw [visits, hnext] at hvisits
  exact Option.map_eq_some_iff.mp hvisits

theorem length_visits {batches : List (List (Change K))} {keys : List K} {cursor : K}
    {visited : List K} (hvisits : visits relink batches keys cursor = some visited) :
    visited.length < batches.length := by
  induction batches generalizing keys cursor visited with
  | nil => cases hvisits
  | cons batch batches ih =>
      cases hnext : getNextKey (batch.foldl relink keys) cursor with
      | none =>
          rw [visits, hnext] at hvisits
          cases hvisits
          exact Nat.succ_pos _
      | some nextKey =>
          obtain ⟨rest, hrest, rfl⟩ := visits_cons hnext hvisits
          exact Nat.succ_lt_succ (ih hrest)

end Loop

section InOrder

variable {bucket : K → ℕ} {keys : List K}

theorem InOrder.sublist_of_lt (horder : InOrder bucket keys) {front behind : K}
    (hfront : front ∈ keys) (hbehind : behind ∈ keys) (hlt : bucket front < bucket behind) :
    [front, behind].Sublist keys := by
  obtain ⟨left, right, rfl⟩ := List.append_of_mem hfront
  obtain ⟨-, -, hleft⟩ := List.pairwise_append.mp horder.buckets
  have hright : behind ∈ right := by
    rcases List.mem_append.mp hbehind with hmem | hmem
    · exact absurd (hleft behind hmem front List.mem_cons_self) (not_le.mpr hlt)
    · rcases List.mem_cons.mp hmem with rfl | hmem
      · exact absurd hlt (lt_irrefl _)
      · exact hmem
  exact ((List.singleton_sublist.mpr hright).cons_cons front).trans
    (List.sublist_append_right _ _)

/-- Where no two keys share a bucket, there is one order. -/
theorem InOrder.eq_of_mem_iff (horder : InOrder bucket keys) {other : List K}
    (hother : InOrder bucket other) (hapart : ∀ first ∈ other, ∀ second ∈ other,
      bucket first = bucket second → first = second)
    (hmem : ∀ key, key ∈ keys ↔ key ∈ other) : keys = other := by
  have hperm : keys.Perm other :=
    (List.perm_ext_iff_of_nodup horder.nodup hother.nodup).mpr hmem
  refine List.Perm.eq_of_pairwise ?_ horder.buckets hother.buckets hperm
  intro first second hfirst hsecond hle hge
  exact hapart first ((hmem first).mp hfirst) second hsecond (le_antisymm hle hge)

theorem pair_sublist_filter {front behind : K} (hpair : [front, behind].Sublist keys)
    {p : K → Bool} (hfront : p front = true) (hbehind : p behind = true) :
    [front, behind].Sublist (keys.filter p) := by
  have hfiltered := hpair.filter p
  rwa [List.filter_cons_of_pos hfront, List.filter_cons_of_pos hbehind, List.filter_nil]
    at hfiltered

end InOrder

/-! ## A table that links at the head -/

section RelinkAtHead

variable [DecidableEq K] {bucket : K → ℕ} {keys : List K}

/-- The order after a change, with the filed key in front of its bucket. -/
def relinkAtHead (bucket : K → ℕ) (keys : List K) : Change K → List K
  | .file key =>
      keys.filter (fun other => other ≠ key ∧ bucket other < bucket key) ++
        key :: keys.filter (fun other => other ≠ key ∧ bucket key ≤ bucket other)
  | .drop key => keys.filter fun other => other ≠ key

theorem mem_relinkAtHead_file {filed key : K} :
    key ∈ relinkAtHead bucket keys (.file filed) ↔ key = filed ∨ key ∈ keys := by
  by_cases hkey : key = filed
  · simp [relinkAtHead, hkey]
  · simp only [relinkAtHead, List.mem_append, List.mem_cons, List.mem_filter, decide_eq_true_eq,
      hkey, false_or, ne_eq, not_false_eq_true, true_and, ← and_or_left]
    exact and_iff_left (lt_or_ge _ _)

theorem inOrder_relinkAtHead (horder : InOrder bucket keys) (change : Change K) :
    InOrder bucket (relinkAtHead bucket keys change) := by
  cases change with
  | drop key => exact ⟨horder.nodup.filter _, horder.buckets.filter _⟩
  | file key =>
      constructor
      · rw [relinkAtHead, List.nodup_append, List.nodup_cons]
        refine ⟨horder.nodup.filter _, ⟨?_, horder.nodup.filter _⟩, ?_⟩
        · simp
        · intro front hfront behind hbehind
          simp only [List.mem_filter, decide_eq_true_eq] at hfront
          rcases List.mem_cons.mp hbehind with rfl | hbehind
          · exact hfront.2.1
          · simp only [List.mem_filter, decide_eq_true_eq] at hbehind
            rintro rfl
            exact absurd hfront.2.2 (not_lt.mpr hbehind.2.2)
      · rw [relinkAtHead, List.pairwise_append, List.pairwise_cons]
        refine ⟨horder.buckets.filter _, ⟨?_, horder.buckets.filter _⟩, ?_⟩
        · intro behind hbehind
          simp only [List.mem_filter, decide_eq_true_eq] at hbehind
          exact hbehind.2.2
        · intro front hfront behind hbehind
          simp only [List.mem_filter, decide_eq_true_eq] at hfront
          rcases List.mem_cons.mp hbehind with rfl | hbehind
          · exact le_of_lt hfront.2.2
          · simp only [List.mem_filter, decide_eq_true_eq] at hbehind
            exact le_trans (le_of_lt hfront.2.2) hbehind.2.2

theorem inPlace_relinkAtHead (horder : InOrder bucket keys) {change : Change K}
    {front behind : K} (hfront : front ≠ change.key) (hbehind : behind ≠ change.key)
    (hpair : [front, behind].Sublist keys) :
    [front, behind].Sublist (relinkAtHead bucket keys change) := by
  cases change with
  | drop dropped =>
      exact pair_sublist_filter hpair (decide_eq_true hfront) (decide_eq_true hbehind)
  | file filed =>
      have hle : bucket front ≤ bucket behind :=
        List.pairwise_iff_forall_sublist.mp horder.buckets hpair
      rcases lt_or_ge (bucket behind) (bucket filed) with hlt | hge
      · exact (pair_sublist_filter hpair (decide_eq_true ⟨hfront, lt_of_le_of_lt hle hlt⟩)
          (decide_eq_true ⟨hbehind, hlt⟩)).trans (List.sublist_append_left _ _)
      · rcases lt_or_ge (bucket front) (bucket filed) with hleft | hright
        · have hfrontMem : front ∈ keys.filter fun other =>
              decide (other ≠ filed ∧ bucket other < bucket filed) :=
            List.mem_filter.mpr
              ⟨hpair.subset List.mem_cons_self, decide_eq_true ⟨hfront, hleft⟩⟩
          have hbehindMem : behind ∈ keys.filter fun other =>
              decide (other ≠ filed ∧ bucket filed ≤ bucket other) :=
            List.mem_filter.mpr
              ⟨hpair.subset (List.mem_cons_of_mem _ List.mem_cons_self),
                decide_eq_true ⟨hbehind, hge⟩⟩
          exact (List.singleton_sublist.mpr hfrontMem).append
            ((List.singleton_sublist.mpr hbehindMem).cons filed)
        · exact ((pair_sublist_filter hpair (decide_eq_true ⟨hfront, hright⟩)
            (decide_eq_true ⟨hbehind, hge⟩)).cons filed).trans (List.sublist_append_right _ _)

theorem linksAtHead_relinkAtHead (bucket : K → ℕ) :
    LinksAtHead bucket (relinkAtHead bucket) where
  inOrder := inOrder_relinkAtHead
  mem_file := mem_relinkAtHead_file
  mem_drop := by simp [relinkAtHead, and_comm]
  inPlace horder hfront hbehind hpair := inPlace_relinkAtHead horder hfront hbehind hpair
  head hkey hne hsame :=
    ((List.singleton_sublist.mpr (List.mem_filter.mpr
      ⟨hkey, decide_eq_true ⟨hne, hsame.ge⟩⟩)).cons_cons _).trans (List.sublist_append_right _ _)

end RelinkAtHead

/-! ## Walks -/

section Walks

variable {bucket : K → ℕ} {relink : List K → Change K → List K}

theorem LinksAtHead.mem_of_ne (hlinked : LinksAtHead bucket relink) {keys : List K}
    {change : Change K} {key : K} (hne : key ≠ change.key) :
    key ∈ relink keys change ↔ key ∈ keys := by
  cases change with
  | file filed => exact hlinked.mem_file.trans (or_iff_right hne)
  | drop dropped => exact hlinked.mem_drop.trans (and_iff_right hne)

theorem LinksAtHead.inOrder_foldl (hlinked : LinksAtHead bucket relink) {keys : List K}
    (horder : InOrder bucket keys) (batch : List (Change K)) :
    InOrder bucket (batch.foldl relink keys) := by
  induction batch generalizing keys with
  | nil => exact horder
  | cons change batch ih => exact ih (hlinked.inOrder horder change)

theorem LinksAtHead.notMem_foldl (hlinked : LinksAtHead bucket relink)
    {batch : List (Change K)} {keys : List K} {cursor : K} (hcursor : cursor ∉ keys)
    (hunfiled : ∀ change ∈ batch, change ≠ .file cursor) :
    cursor ∉ batch.foldl relink keys := by
  induction batch generalizing keys with
  | nil => exact hcursor
  | cons change batch ih =>
      refine ih ?_ fun other hother => hunfiled other (List.mem_cons_of_mem _ hother)
      have hchange := hunfiled change List.mem_cons_self
      cases change with
      | file filed =>
          have hne : cursor ≠ filed := fun hsame => hchange (hsame ▸ rfl)
          exact fun hmem => (hlinked.mem_file.mp hmem).elim hne hcursor
      | drop dropped => exact fun hmem => hcursor (hlinked.mem_drop.mp hmem).2

theorem LinksAtHead.mem_foldl (hlinked : LinksAtHead bucket relink) {batch : List (Change K)}
    {keys : List K} {key : K} (hkey : key ∈ keys)
    (huntouched : ∀ change ∈ batch, key ≠ change.key) : key ∈ batch.foldl relink keys := by
  induction batch generalizing keys with
  | nil => exact hkey
  | cons change batch ih =>
      exact ih ((hlinked.mem_of_ne (huntouched change List.mem_cons_self)).mpr hkey)
        fun other hother => huntouched other (List.mem_cons_of_mem _ hother)

/-- The walk, now at `cursor`, still has the key before it. -/
structure Ahead (bucket : K → ℕ) (keys : List K) (cursor key : K) : Prop where
  mem : key ∈ keys
  later : bucket cursor ≤ bucket key
  behind : cursor ∈ keys → [cursor, key].Sublist keys

/-- A change of another key leaves it there: a cursor that is filed anew comes to the
head of its bucket, in front of all that was behind it. -/
theorem Ahead.change (hlinked : LinksAtHead bucket relink) {keys : List K} {cursor key : K}
    (horder : InOrder bucket keys) (hahead : Ahead bucket keys cursor key) {change : Change K}
    (hne : key ≠ change.key) : Ahead bucket (relink keys change) cursor key := by
  have hmem : key ∈ relink keys change := (hlinked.mem_of_ne hne).mpr hahead.mem
  refine ⟨hmem, hahead.later, ?_⟩
  intro hcursor
  by_cases hsame : cursor = change.key
  · rcases hahead.later.lt_or_eq with hlt | heq
    · exact (hlinked.inOrder horder change).sublist_of_lt hcursor hmem hlt
    · cases change with
      | file filed =>
          have hfiled : cursor = filed := hsame
          subst hfiled
          exact hlinked.head hahead.mem hne heq.symm
      | drop dropped => exact absurd hsame (hlinked.mem_drop.mp hcursor).1
  · exact hlinked.inPlace horder hsame hne
      (hahead.behind ((hlinked.mem_of_ne hsame).mp hcursor))

theorem Ahead.foldl (hlinked : LinksAtHead bucket relink) {keys : List K} {cursor key : K}
    (horder : InOrder bucket keys) (hahead : Ahead bucket keys cursor key)
    {batch : List (Change K)} (huntouched : ∀ change ∈ batch, key ≠ change.key) :
    Ahead bucket (batch.foldl relink keys) cursor key := by
  induction batch generalizing keys with
  | nil => exact hahead
  | cons change batch ih =>
      exact ih (hlinked.inOrder horder change)
        (hahead.change hlinked horder (huntouched change List.mem_cons_self))
        fun other hother => huntouched other (List.mem_cons_of_mem _ hother)

/-- From the first key of a table everything else is ahead. -/
theorem InOrder.ahead_of_cons {first : K} {rest front : List K}
    (horder : InOrder bucket (front ++ first :: rest)) {key : K} (hkey : key ∈ rest) :
    Ahead bucket (front ++ first :: rest) first key where
  mem := List.mem_append_right _ (List.mem_cons_of_mem _ hkey)
  later := (List.pairwise_cons.mp (List.pairwise_append.mp horder.buckets).2.1).1 key hkey
  behind _ := ((List.singleton_sublist.mpr hkey).cons_cons first).trans
    (List.sublist_append_right _ _)

variable [DecidableEq K]

/-- A walk from a key that is not there starts at the front. -/
theorem InOrder.next_of_notMem {keys : List K} (horder : InOrder bucket keys) {cursor key : K}
    (hcursor : cursor ∉ keys) (hkey : key ∈ keys) :
    ∃ nextKey, getNextKey keys cursor = some nextKey ∧
      (key = nextKey ∨ Ahead bucket keys nextKey key) := by
  rw [getNextKey_of_notMem hcursor]
  cases keys with
  | nil => cases hkey
  | cons first rest =>
      have hbehind : ∀ key ∈ rest, Ahead bucket ([] ++ first :: rest) first key :=
        fun key hrest => InOrder.ahead_of_cons horder hrest
      exact ⟨first, rfl, (List.mem_cons.mp hkey).imp_right (hbehind key)⟩

/-- The next key is the one that is ahead, or does not pass it. -/
theorem Ahead.next {keys : List K} (horder : InOrder bucket keys) {cursor key : K}
    (hahead : Ahead bucket keys cursor key) :
    ∃ nextKey, getNextKey keys cursor = some nextKey ∧
      (key = nextKey ∨ Ahead bucket keys nextKey key) := by
  by_cases hcursor : cursor ∈ keys
  · obtain ⟨left, right, rfl, hleft, hright⟩ :=
      List.cons_sublist_iff.mp (hahead.behind hcursor)
    obtain ⟨front, between, rfl⟩ := List.append_of_mem hleft
    rw [List.append_assoc, List.cons_append] at horder ⊢
    have hkey : key ∈ between ++ right :=
      List.mem_append_right _ (List.singleton_sublist.mp hright)
    rw [getNextKey_append horder.nodup]
    cases hrest : between ++ right with
    | nil =>
        rw [hrest] at hkey
        cases hkey
    | cons nextKey rest =>
        rw [hrest] at horder hkey
        refine ⟨nextKey, rfl, ?_⟩
        rw [← List.singleton_append, ← List.append_assoc] at horder ⊢
        exact (List.mem_cons.mp hkey).imp_right fun hmem => horder.ahead_of_cons hmem
  · exact horder.next_of_notMem hcursor hahead.mem

/-- A key that is ahead and that nobody touches is visited before the walk ends. -/
theorem mem_visits_of_ahead (hlinked : LinksAtHead bucket relink)
    {batches : List (List (Change K))} {keys : List K} (horder : InOrder bucket keys)
    {cursor key : K} (hahead : Ahead bucket keys cursor key)
    (huntouched : ∀ batch ∈ batches, ∀ change ∈ batch, key ≠ change.key)
    {visited : List K} (hvisits : visits relink batches keys cursor = some visited) :
    key ∈ visited := by
  induction batches generalizing keys cursor visited with
  | nil => cases hvisits
  | cons batch batches ih =>
      have horder' := hlinked.inOrder_foldl horder batch
      obtain ⟨nextKey, hnext, hplace⟩ :=
        (hahead.foldl hlinked horder (huntouched batch List.mem_cons_self)).next horder'
      obtain ⟨rest, hrest, rfl⟩ := visits_cons hnext hvisits
      rcases hplace with rfl | hahead'
      · exact List.mem_cons_self
      · apply List.mem_cons_of_mem
        exact ih horder' hahead' (fun other hother =>
          huntouched other (List.mem_cons_of_mem _ hother)) hrest

/-- So is every untouched key of a walk that starts at a key which is never there. -/
theorem mem_visits_of_notMem (hlinked : LinksAtHead bucket relink)
    {batches : List (List (Change K))} {keys : List K} (horder : InOrder bucket keys)
    {cursor key : K} (hcursor : cursor ∉ keys)
    (hunfiled : ∀ batch ∈ batches, ∀ change ∈ batch, change ≠ .file cursor) (hkey : key ∈ keys)
    (huntouched : ∀ batch ∈ batches, ∀ change ∈ batch, key ≠ change.key)
    {visited : List K} (hvisits : visits relink batches keys cursor = some visited) :
    key ∈ visited := by
  cases batches with
  | nil => cases hvisits
  | cons batch batches =>
      have horder' := hlinked.inOrder_foldl horder batch
      obtain ⟨nextKey, hnext, hplace⟩ := horder'.next_of_notMem
        (hlinked.notMem_foldl hcursor (hunfiled batch List.mem_cons_self))
        (hlinked.mem_foldl hkey (huntouched batch List.mem_cons_self))
      obtain ⟨rest, hrest, rfl⟩ := visits_cons hnext hvisits
      rcases hplace with rfl | hahead
      · exact List.mem_cons_self
      · apply List.mem_cons_of_mem
        exact mem_visits_of_ahead hlinked horder' hahead (fun other hother =>
          huntouched other (List.mem_cons_of_mem _ hother)) hrest

end Walks

end KernelScope.ChangingTable
