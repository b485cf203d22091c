import KernelScope.Library.StepRun
import Mathlib.Data.Finset.Basic
import Mathlib.Logic.Function.Basic

/-!
# The lifecycle of the skeletons

`BpfLoader` of `bpf/loader.cpp` owns a skeleton through a raw pointer and can be
moved.  The world holds the loader objects that exist, each with its `skel_`, and
the skeletons that libbpf has handed out, numbered in that order.  The clients
call the members in any order and on any number of loaders.
-/

namespace KernelScope.LoaderLifecycle

open KernelScope.StepRun

/-- `loader object` is the `skel_` of the object, if the object exists.
`misused` says that libbpf was given a skeleton that no longer exists. -/
structure World (Object : Type*) where
  loader : Object → Option (Option ℕ)
  live : Finset ℕ
  next : ℕ
  destroyed : List ℕ
  misused : Bool

/-- The members of `BpfLoader` that pass `skel_` to libbpf and keep it. -/
inductive Member where
  | configure
  | load
  | attach
  | detach
  | ringbufFd
  | stackTraceFd

inductive Label (Object : Type*) where
  | construct (object : Object)
  | destruct (object : Object)
  | moveConstruct (object other : Object)
  | moveAssign (object other : Object)
  | openSkeleton (object : Object) (opened : Bool)
  | call (member : Member) (object : Object)
  | destroy (object : Object)

section Loaders

variable {Object : Type*}

def World.initial (Object : Type*) : World Object where
  loader := fun _ => none
  live := ∅
  next := 0
  destroyed := []
  misused := false

/-- The skeleton behind `skel_`. -/
def World.held (w : World Object) (object : Object) : Option ℕ :=
  (w.loader object).join

/-- libbpf is given a skeleton. -/
def World.use (skeleton : ℕ) (w : World Object) : World Object :=
  { w with misused := w.misused || decide (skeleton ∉ w.live) }

variable [DecidableEq Object]

/-- `skel_ = value` -/
def World.setSkel (object : Object) (value : Option ℕ) (w : World Object) :
    World Object :=
  { w with loader := Function.update w.loader object (some value) }

/-- `BpfLoader::destroy` -/
def World.destroy (object : Object) (w : World Object) : World Object :=
  match w.held object with
  | none => w
  | some skeleton =>
      let used := w.use skeleton
      { used with
        live := used.live.erase skeleton
        destroyed := used.destroyed ++ [skeleton] }.setSkel object none

/-- `BpfLoader::open`; `opened` says whether `kscope_bpf__open` succeeds. -/
def World.openSkeleton (object : Object) (opened : Bool) (w : World Object) : World Object :=
  if opened then
    { w with
      live := insert w.next w.live
      next := w.next + 1 }.setSkel object (some w.next)
  else w.setSkel object none

/-- `skel_ = other.skel_; other.skel_ = nullptr` -/
def World.take (object other : Object) (w : World Object) : World Object :=
  (w.setSkel object (w.held other)).setSkel other none

def exec (w : World Object) : Label Object → World Object
  | .construct object => w.setSkel object none
  | .destruct object =>
      { w.destroy object with
        loader := Function.update (w.destroy object).loader object none }
  | .moveConstruct object other => w.take object other
  | .moveAssign object other =>
      if object = other then w else (w.destroy object).take object other
  | .openSkeleton object opened => w.openSkeleton object opened
  | .call _ object =>
      match w.held object with
      | none => w
      | some skeleton => w.use skeleton
  | .destroy object => w.destroy object

omit [DecidableEq Object] in
/-- A member is called on an object that exists, and an object is constructed
where there is none. -/
def Allowed (w : World Object) : Label Object → Prop
  | .construct object => w.loader object = none
  | .destruct object => w.loader object ≠ none
  | .moveConstruct object other => w.loader object = none ∧ w.loader other ≠ none
  | .moveAssign object other => w.loader object ≠ none ∧ w.loader other ≠ none
  | .openSkeleton object _ => w.loader object ≠ none
  | .call _ object => w.loader object ≠ none
  | .destroy object => w.loader object ≠ none

/-! ## Ownership -/

omit [DecidableEq Object] in
/-- A skeleton has at most one owner, and exists as long as it has one. -/
structure Owned (w : World Object) : Prop where
  held_live : ∀ object skeleton, w.held object = some skeleton → skeleton ∈ w.live
  unique : ∀ object other skeleton, w.held object = some skeleton →
    w.held other = some skeleton → object = other
  live_lt : ∀ skeleton ∈ w.live, skeleton < w.next
  destroyed_dead : ∀ skeleton ∈ w.destroyed, skeleton ∉ w.live
  destroyed_lt : ∀ skeleton ∈ w.destroyed, skeleton < w.next
  accounted : ∀ skeleton < w.next, skeleton ∈ w.live ∨ skeleton ∈ w.destroyed
  once : w.destroyed.Nodup
  unused : w.misused = false

omit [DecidableEq Object] in
theorem owned_initial : Owned (World.initial Object) := by
  constructor <;> simp [World.initial, World.held]

@[simp]
theorem held_setSkel (object : Object) (value : Option ℕ) (w : World Object)
    (other : Object) :
    (w.setSkel object value).held other = if other = object then value else w.held other := by
  by_cases heq : other = object
  · subst heq
    simp [World.held, World.setSkel]
  · simp [World.held, World.setSkel, heq]

omit [DecidableEq Object] in
/-- The pointers are passed around: each one that is held was held by an object
that gave it up for this. -/
theorem Owned.rearrange {w w' : World Object} (howned : Owned w)
    (hlive : w'.live = w.live) (hnext : w'.next = w.next)
    (hdestroyed : w'.destroyed = w.destroyed) (hmisused : w'.misused = w.misused)
    (giver : Object → Object)
    (hgiver : ∀ object skeleton, w'.held object = some skeleton →
      w.held (giver object) = some skeleton)
    (hinjective : ∀ object other skeleton, w'.held object = some skeleton →
      w'.held other = some skeleton → giver object = giver other → object = other) :
    Owned w' where
  held_live object skeleton hheld := by
    rw [hlive]
    exact howned.held_live _ _ (hgiver object skeleton hheld)
  unique object other skeleton hobject hother :=
    hinjective object other skeleton hobject hother
      (howned.unique _ _ skeleton (hgiver object skeleton hobject)
        (hgiver other skeleton hother))
  live_lt := by
    rw [hlive, hnext]
    exact howned.live_lt
  destroyed_dead := by
    rw [hdestroyed, hlive]
    exact howned.destroyed_dead
  destroyed_lt := by
    rw [hdestroyed, hnext]
    exact howned.destroyed_lt
  accounted := by
    rw [hnext, hlive, hdestroyed]
    exact howned.accounted
  once := by
    rw [hdestroyed]
    exact howned.once
  unused := by
    rw [hmisused]
    exact howned.unused

theorem Owned.setSkel_none {w : World Object} (howned : Owned w) (object : Object) :
    Owned (w.setSkel object none) := by
  have hkept : ∀ other skeleton, (w.setSkel object none).held other = some skeleton →
      w.held other = some skeleton := by
    intro other skeleton hheld
    rw [held_setSkel] at hheld
    split at hheld
    · cases hheld
    · exact hheld
  exact howned.rearrange rfl rfl rfl rfl id hkept fun _ _ _ _ _ heq => heq

/-- What `destroy` does: nothing without a skeleton, otherwise it takes the
skeleton out of the world. -/
theorem World.destroy_cases (object : Object) (w : World Object) :
    w.held object = none ∧ w.destroy object = w ∨
      ∃ skeleton, w.held object = some skeleton ∧
        w.destroy object = World.setSkel object none
          { w with
            live := w.live.erase skeleton
            destroyed := w.destroyed ++ [skeleton]
            misused := w.misused || decide (skeleton ∉ w.live) } := by
  unfold World.destroy
  cases hheld : w.held object with
  | none => exact .inl ⟨rfl, rfl⟩
  | some skeleton => exact .inr ⟨skeleton, rfl, rfl⟩

theorem held_destroy (object : Object) (w : World Object) (other : Object) :
    (w.destroy object).held other = if other = object then none else w.held other := by
  rcases w.destroy_cases object with ⟨hheld, heq⟩ | ⟨skeleton, hheld, heq⟩
  · rw [heq]
    split
    next hother => rw [hother, hheld]
    next => rfl
  · rw [heq, held_setSkel]
    rfl

theorem Owned.destroy {w : World Object} (howned : Owned w) (object : Object) :
    Owned (w.destroy object) := by
  rcases w.destroy_cases object with ⟨hheld, heq⟩ | ⟨skeleton, hheld, heq⟩
  · rw [heq]
    exact howned
  · have hlive := howned.held_live object skeleton hheld
    have hothers : ∀ other, other ≠ object → w.held other ≠ some skeleton :=
      fun other hne hother => hne (howned.unique other object skeleton hother hheld)
    rw [heq]
    constructor
    case held_live =>
      intro other kept hkept
      rw [held_setSkel] at hkept
      split at hkept
      · cases hkept
      next hne =>
        refine Finset.mem_erase.mpr ⟨fun hsame => ?_, howned.held_live other kept hkept⟩
        exact hothers other hne (hsame ▸ hkept)
    case unique =>
      intro left right kept hleft hright
      rw [held_setSkel] at hleft hright
      split at hleft
      · cases hleft
      · split at hright
        · cases hright
        · exact howned.unique left right kept hleft hright
    case live_lt =>
      intro kept hkept
      exact howned.live_lt kept (Finset.mem_of_mem_erase hkept)
    case destroyed_dead =>
      intro dead hdead
      rcases List.mem_append.mp hdead with hold | hnew
      · exact fun hkept => howned.destroyed_dead dead hold (Finset.mem_of_mem_erase hkept)
      · rw [List.mem_singleton.mp hnew]
        exact Finset.notMem_erase skeleton w.live
    case destroyed_lt =>
      intro dead hdead
      rcases List.mem_append.mp hdead with hold | hnew
      · exact howned.destroyed_lt dead hold
      · rw [List.mem_singleton.mp hnew]
        exact howned.live_lt skeleton hlive
    case accounted =>
      intro any hany
      rcases howned.accounted any hany with hkept | hdead
      · by_cases hsame : any = skeleton
        · exact .inr (List.mem_append_right _ (List.mem_singleton.mpr hsame))
        · exact .inl (Finset.mem_erase.mpr ⟨hsame, hkept⟩)
      · exact .inr (List.mem_append_left _ hdead)
    case once =>
      refine List.Nodup.append howned.once (List.nodup_singleton skeleton) ?_
      intro dead hdead hsame
      rw [List.mem_singleton.mp hsame] at hdead
      exact howned.destroyed_dead skeleton hdead hlive
    case unused =>
      simp [World.setSkel, howned.unused, hlive]

theorem held_take {object other : Object} (hne : object ≠ other) (w : World Object)
    (any : Object) :
    (w.take object other).held any =
      if any = object then w.held other else if any = other then none else w.held any := by
  rw [World.take, held_setSkel, held_setSkel]
  by_cases hobject : any = object
  · rw [if_neg fun hother => hne (hobject.symm.trans hother), if_pos hobject, if_pos hobject]
  · rw [if_neg hobject, if_neg hobject]

/-- A pointer changes hands. -/
theorem Owned.take {w : World Object} (howned : Owned w) {object other : Object}
    (hne : object ≠ other) : Owned (w.take object other) := by
  have hheld := held_take hne w
  refine howned.rearrange rfl rfl rfl rfl (fun any => if any = object then other else any)
    ?_ ?_
  · intro any skeleton hany
    rw [hheld] at hany
    split_ifs at hany ⊢
    · exact hany
    · exact hany
  · intro left right skeleton hleft hright heq
    -- nobody else keeps the pointer of `other`
    have hgaveUp : ∀ any, (w.take object other).held any = some skeleton → any ≠ other := by
      intro any hany hother
      rw [hheld, if_neg fun hobject => hne (hobject.symm.trans hother), if_pos hother] at hany
      cases hany
    have hleftOther := hgaveUp left hleft
    have hrightOther := hgaveUp right hright
    split_ifs at heq with hleftObject hrightObject hrightObject
    · rw [hleftObject, hrightObject]
    · exact absurd heq.symm hrightOther
    · exact absurd heq hleftOther
    · exact heq

theorem held_openSkeleton (object : Object) (opened : Bool) (w : World Object)
    (other : Object) :
    (w.openSkeleton object opened).held other =
      if other = object then (if opened then some w.next else none) else w.held other := by
  cases opened <;> exact held_setSkel object _ _ other

theorem Owned.openSkeleton {w : World Object} (howned : Owned w) (object : Object) (opened : Bool) :
    Owned (w.openSkeleton object opened) := by
  cases opened with
  | false => exact howned.setSkel_none object
  | true =>
      have hnew : w.next ∉ w.live := fun hmem =>
        Nat.lt_irrefl _ (howned.live_lt w.next hmem)
      have hnobody : ∀ other, w.held other ≠ some w.next := fun other hother =>
        hnew (howned.held_live other w.next hother)
      have hheld : ∀ other, (w.openSkeleton object true).held other =
          if other = object then some w.next else w.held other :=
        held_openSkeleton object true w
      constructor
      case held_live =>
        intro other skeleton hother
        rw [hheld] at hother
        split at hother
        · cases hother
          exact Finset.mem_insert_self _ _
        · exact Finset.mem_insert_of_mem (howned.held_live other skeleton hother)
      case unique =>
        intro left right skeleton hleft hright
        rw [hheld] at hleft hright
        split_ifs at hleft hright with hl hr hr
        · rw [hl, hr]
        · exact absurd (hright.trans hleft.symm) (hnobody right)
        · exact absurd (hleft.trans hright.symm) (hnobody left)
        · exact howned.unique left right skeleton hleft hright
      case live_lt =>
        intro skeleton hmem
        rcases Finset.mem_insert.mp hmem with rfl | hold
        · exact Nat.lt_succ_self _
        · exact Nat.lt_succ_of_lt (howned.live_lt skeleton hold)
      case destroyed_dead =>
        intro skeleton hdead hmem
        rcases Finset.mem_insert.mp hmem with rfl | hold
        · exact Nat.lt_irrefl _ (howned.destroyed_lt _ hdead)
        · exact howned.destroyed_dead skeleton hdead hold
      case destroyed_lt =>
        intro skeleton hdead
        exact Nat.lt_succ_of_lt (howned.destroyed_lt skeleton hdead)
      case accounted =>
        intro skeleton hlt
        rcases Nat.lt_succ_iff_lt_or_eq.mp hlt with hold | rfl
        · exact (howned.accounted skeleton hold).imp_left (Finset.mem_insert_of_mem)
        · exact .inl (Finset.mem_insert_self _ _)
      case once => exact howned.once
      case unused => exact howned.unused

omit [DecidableEq Object] in
theorem Owned.use {w : World Object} (howned : Owned w) {object : Object} {skeleton : ℕ}
    (hheld : w.held object = some skeleton) : w.use skeleton = w := by
  have hlive := howned.held_live object skeleton hheld
  simp [World.use, hlive]

theorem Owned.exec {w : World Object} (howned : Owned w) {label : Label Object}
    (hallowed : Allowed w label) : Owned (exec w label) := by
  cases label with
  | construct object => exact howned.setSkel_none object
  | destruct object =>
      refine (howned.destroy object).rearrange rfl rfl rfl rfl id ?_ fun _ _ _ _ _ heq => heq
      intro other skeleton hother
      by_cases heq : other = object
      · subst heq
        simp [LoaderLifecycle.exec, World.held] at hother
      · simpa [LoaderLifecycle.exec, World.held, heq] using hother
  | moveConstruct object other =>
      have hne : object ≠ other := fun heq => hallowed.2 (heq ▸ hallowed.1)
      exact howned.take hne
  | moveAssign object other =>
      rw [LoaderLifecycle.exec]
      split
      · exact howned
      next hne => exact (howned.destroy object).take hne
  | openSkeleton object opened => exact howned.openSkeleton object opened
  | call member object =>
      rw [LoaderLifecycle.exec]
      cases hheld : w.held object with
      | none => exact howned
      | some skeleton =>
          dsimp only
          rw [howned.use hheld]
          exact howned
  | destroy object => exact howned.destroy object

/-! ## Leaks -/

omit [DecidableEq Object] in
/-- Every skeleton that exists has an owner. -/
def Covered (w : World Object) : Prop :=
  ∀ skeleton ∈ w.live, ∃ object, w.held object = some skeleton

omit [DecidableEq Object] in
/-- `open` is called on a loader that has a skeleton. -/
def Reopens (w : World Object) : Label Object → Prop
  | .openSkeleton object _ => ∃ skeleton, w.held object = some skeleton
  | _ => False

omit [DecidableEq Object] in
theorem covered_congr {w w' : World Object} (hlive : w'.live = w.live)
    (hheld : ∀ object, w'.held object = w.held object) : Covered w' ↔ Covered w := by
  simp only [Covered, hlive, hheld]

theorem covered_setSkel_none {w : World Object} {object : Object}
    (hfree : w.held object = none) : Covered (w.setSkel object none) ↔ Covered w := by
  refine covered_congr rfl fun other => ?_
  rw [held_setSkel]
  split
  next heq => rw [heq, hfree]
  next => rfl

theorem covered_destroy (w : World Object) (object : Object) :
    Covered (w.destroy object) ↔ Covered w := by
  rcases w.destroy_cases object with ⟨-, heq⟩ | ⟨skeleton, hheld, heq⟩
  · rw [heq]
  · have hlive : (w.destroy object).live = w.live.erase skeleton := by
      rw [heq]
      rfl
    constructor
    · intro hcovered other hother
      by_cases hsame : other = skeleton
      · exact ⟨object, hsame ▸ hheld⟩
      · obtain ⟨owner, howner⟩ := hcovered other
          (hlive ▸ Finset.mem_erase.mpr ⟨hsame, hother⟩)
        rw [held_destroy] at howner
        split at howner
        · cases howner
        · exact ⟨owner, howner⟩
    · intro hcovered other hother
      rw [hlive, Finset.mem_erase] at hother
      obtain ⟨owner, howner⟩ := hcovered other hother.2
      refine ⟨owner, ?_⟩
      rw [held_destroy, if_neg, howner]
      intro hsame
      rw [hsame, hheld, Option.some.injEq] at howner
      exact hother.1 howner.symm

theorem covered_take {w : World Object} {object other : Object} (hne : object ≠ other)
    (hfree : w.held object = none) : Covered (w.take object other) ↔ Covered w := by
  have hheld := held_take hne w
  constructor
  · intro hcovered skeleton hlive
    obtain ⟨owner, howner⟩ := hcovered skeleton hlive
    rw [hheld] at howner
    split_ifs at howner
    · exact ⟨other, howner⟩
    · exact ⟨owner, howner⟩
  · intro hcovered skeleton hlive
    obtain ⟨owner, howner⟩ := hcovered skeleton hlive
    by_cases hother : owner = other
    · refine ⟨object, ?_⟩
      rw [hheld, if_pos rfl, ← hother, howner]
    · refine ⟨owner, ?_⟩
      rw [hheld, if_neg, if_neg hother, howner]
      intro hobject
      rw [hobject, hfree] at howner
      cases howner

theorem covered_openSkeleton {w : World Object} (howned : Owned w) (object : Object)
    (opened : Bool) :
    Covered (w.openSkeleton object opened) ↔
      Covered w ∧ ¬∃ skeleton, w.held object = some skeleton := by
  have hheld : ∀ other, other ≠ object →
      (w.openSkeleton object opened).held other = w.held other := by
    intro other hne
    rw [held_openSkeleton, if_neg hne]
  have hlive : ∀ skeleton ∈ w.live, skeleton ∈ (w.openSkeleton object opened).live := by
    intro skeleton hmem
    cases opened
    · exact hmem
    · exact Finset.mem_insert_of_mem hmem
  have hself : ∀ skeleton ∈ w.live,
      (w.openSkeleton object opened).held object ≠ some skeleton := by
    intro skeleton hmem hsome
    rw [held_openSkeleton, if_pos rfl] at hsome
    split at hsome
    · rw [← Option.some.inj hsome] at hmem
      exact Nat.lt_irrefl _ (howned.live_lt _ hmem)
    · cases hsome
  constructor
  · intro hcovered
    -- an old skeleton has an owner other than `object`
    have howner : ∀ skeleton ∈ w.live,
        ∃ other, other ≠ object ∧ w.held other = some skeleton := by
      intro skeleton hmem
      obtain ⟨other, hother⟩ := hcovered skeleton (hlive skeleton hmem)
      have hne : other ≠ object := fun heq => hself skeleton hmem (heq ▸ hother)
      exact ⟨other, hne, hheld other hne ▸ hother⟩
    refine ⟨fun skeleton hmem => (howner skeleton hmem).imp fun _ hother => hother.2, ?_⟩
    rintro ⟨skeleton, hskeleton⟩
    obtain ⟨other, hne, hother⟩ :=
      howner skeleton (howned.held_live object skeleton hskeleton)
    exact hne (howned.unique other object skeleton hother hskeleton)
  · rintro ⟨hcovered, hfree⟩ skeleton hmem
    by_cases hold : skeleton ∈ w.live
    · obtain ⟨other, hother⟩ := hcovered skeleton hold
      refine ⟨other, ?_⟩
      rw [hheld other fun heq => hfree ⟨skeleton, heq ▸ hother⟩, hother]
    · cases opened with
      | false => exact absurd hmem hold
      | true =>
          obtain rfl := (Finset.mem_insert.mp hmem).resolve_right hold
          exact ⟨object, (held_openSkeleton object true w object).trans (if_pos rfl)⟩

/-- A step leaves a skeleton without an owner only when it opens a loader again. -/
theorem covered_exec {w : World Object} (howned : Owned w) {label : Label Object}
    (hallowed : Allowed w label) :
    Covered (exec w label) ↔ Covered w ∧ ¬Reopens w label := by
  have hnone : ∀ object, w.loader object = none → w.held object = none := by
    intro object hloader
    rw [World.held, hloader]
    rfl
  cases label with
  | construct object => simp [exec, Reopens, covered_setSkel_none (hnone object hallowed)]
  | destruct object =>
      have hkept : ¬Reopens w (.destruct object) := id
      rw [← covered_destroy w object, and_iff_left hkept]
      refine covered_congr rfl fun other => ?_
      by_cases heq : other = object
      · rw [held_destroy, if_pos heq, heq]
        simp [exec, World.held]
      · simp [exec, World.held, heq]
  | moveConstruct object other =>
      have hne : object ≠ other := fun heq => hallowed.2 (heq ▸ hallowed.1)
      simp [exec, Reopens, covered_take hne (hnone object hallowed.1)]
  | moveAssign object other =>
      rw [exec]
      split
      · simp [Reopens]
      next hne =>
        have hfree : (w.destroy object).held object = none := by
          rw [held_destroy, if_pos rfl]
        simp [Reopens, covered_take hne hfree, covered_destroy]
  | openSkeleton object opened => exact covered_openSkeleton howned object opened
  | call member object =>
      rw [exec]
      cases hheld : w.held object with
      | none => simp [Reopens]
      | some skeleton => simp [Reopens, howned.use hheld]
  | destroy object => simp [exec, Reopens, covered_destroy]

/-- Whatever the clients do, libbpf is never given a skeleton that no longer
exists, and none is destroyed twice.  When all loaders are gone, every skeleton
has been destroyed, exactly if no loader was opened while it had one. -/
theorem skeletons_destroyed_once {labels : List (Label Object)}
    (hrun : Along exec Allowed (World.initial Object) labels) :
    let w := run exec (World.initial Object) labels
    w.misused = false ∧ w.destroyed.Nodup ∧
      ((∀ object, w.loader object = none) →
        ((∀ skeleton < w.next, skeleton ∈ w.destroyed) ↔
          Along exec (fun w label => ¬Reopens w label) (World.initial Object) labels)) := by
  intro w
  have howned : Owned w := run_invariant Owned
    (fun _ _ howned hallowed => howned.exec hallowed) owned_initial hrun
  refine ⟨howned.unused, howned.once, fun hgone => ?_⟩
  have hcovered : Covered w ↔ Covered (World.initial Object) ∧ _ := run_iff_along Owned
    (fun _ _ howned hallowed => howned.exec hallowed)
    (fun _ _ howned hallowed => covered_exec howned hallowed) owned_initial hrun
  have hstart : Covered (World.initial Object) := by
    intro skeleton hmem
    cases hmem
  rw [and_iff_right hstart] at hcovered
  rw [← hcovered]
  constructor
  · intro hdestroyed skeleton hlive
    exact absurd hlive
      (howned.destroyed_dead skeleton (hdestroyed skeleton (howned.live_lt skeleton hlive)))
  · intro hall skeleton hlt
    refine (howned.accounted skeleton hlt).resolve_left fun hlive => ?_
    obtain ⟨object, hheld⟩ := hall skeleton hlive
    rw [World.held, hgone object] at hheld
    cases hheld

end Loaders

/-- A loader is opened, moved into another one that has a skeleton of its own, and
both go out of scope. -/
theorem skeletons_destroyed_once_moved :
    let labels : List (Label Bool) :=
      [.construct false, .construct true, .openSkeleton false true, .openSkeleton true true,
        .call .attach false, .moveAssign true false, .destruct true, .destruct false]
    let w := run exec (World.initial Bool) labels
    w.destroyed = [1, 0] ∧ w.misused = false ∧ w.destroyed.Nodup := by
  intro labels w
  have hrun : Along exec Allowed (World.initial Bool) labels := by
    refine ⟨rfl, rfl, ?_, ?_, ?_, ⟨?_, ?_⟩, ?_, ?_, trivial⟩ <;> exact Option.some_ne_none _
  obtain ⟨hsound, honce, -⟩ := skeletons_destroyed_once hrun
  exact ⟨rfl, hsound, honce⟩

end KernelScope.LoaderLifecycle
