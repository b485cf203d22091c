import KernelScope.Library.ReadThrough
import KernelScope.Symbolization.AddressResolution

/-!
# Answers in a changing system

Processes map and unmap files, exit and give their pids to others, and files are
replaced while a command runs.  The symbolizer reads the mappings of a process, a
file and `/proc/kallsyms` once and keeps them until its caches are cleared, so that
its answers are about one system, put together from what it read first.
-/

namespace KernelScope.FrozenAnswers

open KernelScope.AddressResolution
open KernelScope.ElfSymbols
open KernelScope.ReadThrough
open KernelScope.Sorting
open KernelScope.StepRun

/-! ## What is read -/

/-- What the symbolizer reads from outside. -/
inductive Resource where
  | maps (pid : UInt32)
  | file (path : Path)
  | kallsyms

abbrev Resource.Content : Resource → Type
  | .maps _ => List MemoryMapping
  | .file _ => Option ElfFile
  | .kallsyms => Option (List (Option KallsymsLine))

def toSystem (env : ∀ r : Resource, r.Content) : System where
  files path := env (.file path)
  maps pid := env (.maps pid)
  kallsyms := env .kallsyms

/-- What the symbolizer has read since its caches were empty. -/
def known (sym : Symbolizer) : Set Resource
  | .maps pid => pid ∈ sym.procCache
  | .file path => path ∈ sym.elfCache.cache
  | .kallsyms => sym.kallsymsLoaded = true

inductive Query where
  | resolveUser (pid : UInt32) (addr : UInt64)
  | resolveKernel (addr : UInt64)
  | resolveStack (pid : UInt32) (addrs : List UInt64) (isKernel : Bool)

/-- The frames that a query is answered with. -/
def ask (std : StdSort) (query : Query) (env : ∀ r : Resource, r.Content) (sym : Symbolizer) :
    List ResolvedFrame × Symbolizer :=
  match query with
  | .resolveUser pid addr =>
      let frame := resolveUser std (toSystem env) pid addr sym
      ([frame.1], frame.2)
  | .resolveKernel addr =>
      let frame := resolveKernel std (toSystem env) addr sym
      ([frame.1], frame.2)
  | .resolveStack pid addrs isKernel =>
      resolveStack std (toSystem env) pid isKernel addrs sym

/-! ## Each function reads through its cache -/

section Reading

variable (std : StdSort)

theorem readsThrough_getProcMaps (pid : UInt32) :
    ReadsThrough known fun env sym => getProcMaps (toSystem env) pid sym where
  keeps env sym := by
    rw [getProcMaps]
    split
    · exact subset_rfl
    · intro r hr
      cases r with
      | maps other => exact Finmap.mem_insert.mpr (.inr hr)
      | file path => exact hr
      | kallsyms => exact hr
  reads env env' sym hagree := by
    simp only [getProcMaps] at hagree ⊢
    cases hlookup : sym.procCache.lookup pid with
    | some maps => rfl
    | none =>
        rw [hlookup] at hagree
        have hsame : env' (.maps pid) = env (.maps pid) := by
          apply hagree
          · exact Finmap.mem_insert.mpr (.inl rfl)
          · exact Finmap.lookup_eq_none.mp hlookup
        simp only [toSystem, hsame]

/-- `ensure_loaded`, `get_info` and `resolve` change the ELF cache only. -/
def onElfCache {A : Type} (f : Files → ElfCache → A × ElfCache)
    (env : ∀ r : Resource, r.Content) (sym : Symbolizer) : A × Symbolizer :=
  let result := f (toSystem env).files sym.elfCache
  (result.1, { sym with elfCache := result.2 })

theorem readsThrough_ensureLoaded (path : Path) :
    ReadsThrough known (onElfCache fun files c => ensureLoaded std files path c) where
  keeps env sym := by
    simp only [onElfCache, ensureLoaded]
    split
    · exact subset_rfl
    · intro r hr
      cases r with
      | maps pid => exact hr
      | file other => exact Finmap.mem_insert.mpr (.inr hr)
      | kallsyms => exact hr
  reads env env' sym hagree := by
    simp only [onElfCache, ensureLoaded] at hagree ⊢
    cases hlookup : sym.elfCache.cache.lookup path with
    | some info => rfl
    | none =>
        rw [hlookup] at hagree
        have hsame : env' (.file path) = env (.file path) := by
          apply hagree
          · exact Finmap.mem_insert.mpr (.inl rfl)
          · exact Finmap.lookup_eq_none.mp hlookup
        simp only [toSystem, hsame]

/-- A path that is turned away is not read. -/
theorem readsThrough_unlessFull {A : Type} (path : Path) (refused : A) (use : ElfInfo → A) :
    ReadsThrough known (onElfCache fun files c =>
      if c.Full path then (refused, c)
      else (use (ensureLoaded std files path c).1, (ensureLoaded std files path c).2)) := by
  have hread := ReadsThrough.ite (fun sym : Symbolizer => sym.elfCache.Full path)
    (readsThrough_pure fun _ => refused)
    ((readsThrough_ensureLoaded std path).map use)
  have heq : (onElfCache fun files c =>
      if c.Full path then (refused, c)
      else (use (ensureLoaded std files path c).1, (ensureLoaded std files path c).2)) =
      fun env sym =>
        if sym.elfCache.Full path then (refused, sym)
        else
          (use (onElfCache (fun files c => ensureLoaded std files path c) env sym).1,
            (onElfCache (fun files c => ensureLoaded std files path c) env sym).2) := by
    funext env sym
    simp only [onElfCache]
    split <;> rfl
  rw [heq]
  exact hread

theorem readsThrough_getInfo (path : Path) :
    ReadsThrough known (onElfCache fun files c => getInfo std files path c) :=
  readsThrough_unlessFull std path none some

theorem readsThrough_resolve (path : Path) (addrOffset : UInt64) :
    ReadsThrough known (onElfCache fun files c => resolve std files path addrOffset c) :=
  readsThrough_unlessFull std path none fun info => lookupSymbol info.symbols addrOffset

/-- The part of `translate` behind the mappings. -/
def translateIn (addr : UInt64) (maps : List MemoryMapping)
    (env : ∀ r : Resource, r.Content) (sym : Symbolizer) :
    Option (MemoryMapping × UInt64) × Symbolizer :=
  match find addr maps with
  | none => (none, sym)
  | some mapping =>
      let info := onElfCache (fun files c => getInfo std files mapping.pathname c) env sym
      (some (mapping, elfVaddr mapping info.1 addr), info.2)

theorem readsThrough_translateIn (addr : UInt64) (maps : List MemoryMapping) :
    ReadsThrough known (translateIn std addr maps) := by
  unfold translateIn
  split
  · exact readsThrough_pure fun _ => none
  next mapping _ =>
    exact (readsThrough_getInfo std mapping.pathname).map fun info =>
      some (mapping, elfVaddr mapping info addr)

theorem readsThrough_translate (pid : UInt32) (addr : UInt64) :
    ReadsThrough known fun env sym =>
      AddressResolution.translate std (toSystem env) pid addr sym := by
  have hread := ReadsThrough.ite (fun _ : Symbolizer => addr = 0)
    (readsThrough_pure fun _ => none)
    ((readsThrough_getProcMaps pid).bind (readsThrough_translateIn std addr))
  exact hread

/-- The part of `resolve_user` behind the translation. -/
def frameIn (addr : UInt64) (translated : Option (MemoryMapping × UInt64))
    (env : ∀ r : Resource, r.Content) (sym : Symbolizer) : ResolvedFrame × Symbolizer :=
  match translated with
  | none => (unmappedFrame addr, sym)
  | some (mapping, vaddr) =>
      let found := onElfCache (fun files c => resolve std files mapping.pathname vaddr c) env sym
      (userFrame addr mapping vaddr found.1, found.2)

theorem readsThrough_frameIn (addr : UInt64) (translated : Option (MemoryMapping × UInt64)) :
    ReadsThrough known (frameIn std addr translated) := by
  unfold frameIn
  split
  · exact readsThrough_pure fun _ => unmappedFrame addr
  next mapping vaddr =>
    exact (readsThrough_resolve std mapping.pathname vaddr).map (userFrame addr mapping vaddr)

theorem readsThrough_resolveUser (pid : UInt32) (addr : UInt64) :
    ReadsThrough known fun env sym => resolveUser std (toSystem env) pid addr sym := by
  have hread := ReadsThrough.ite (fun _ : Symbolizer => addr = 0)
    (readsThrough_pure fun _ => ⟨0, Decimal.ascii "[unknown]", [], 0, false⟩)
    ((readsThrough_translate std pid addr).bind (readsThrough_frameIn std addr))
  exact hread

theorem readsThrough_loadKallsyms :
    ReadsThrough known fun env sym => ((), loadKallsyms std (toSystem env) sym) where
  keeps env sym := by
    simp only [loadKallsyms]
    split
    · exact subset_rfl
    next hloaded =>
      intro r hr
      cases r with
      | maps pid => split <;> exact hr
      | file path => split <;> exact hr
      | kallsyms => exact absurd hr hloaded
  reads env env' sym hagree := by
    simp only [loadKallsyms] at hagree ⊢
    by_cases hloaded : sym.kallsymsLoaded = true
    · rw [if_pos hloaded, if_pos hloaded]
    · rw [if_neg hloaded] at hagree
      have hsame : env' .kallsyms = env .kallsyms := by
        apply hagree
        · split <;> rfl
        · exact hloaded
      simp only [toSystem, hsame]

theorem readsThrough_resolveKernel (addr : UInt64) :
    ReadsThrough known fun env sym => resolveKernel std (toSystem env) addr sym := by
  have hread := ReadsThrough.ite (fun _ : Symbolizer => addr = 0)
    (readsThrough_pure fun _ =>
      ⟨0, Decimal.ascii "[unknown]", Decimal.ascii "[kernel]", 0, false⟩)
    ((readsThrough_loadKallsyms std).bind fun _ =>
      readsThrough_pure fun sym => kernelFrame addr sym.kallsyms)
  exact hread

theorem readsThrough_resolveStack (pid : UInt32) (isKernel : Bool) (addrs : List UInt64) :
    ReadsThrough known fun env sym =>
      resolveStack std (toSystem env) pid isKernel addrs sym := by
  induction addrs with
  | nil => exact readsThrough_pure fun _ => []
  | cons addr addrs ih =>
      have hframe : ReadsThrough known fun env sym =>
          if isKernel then resolveKernel std (toSystem env) addr sym
          else resolveUser std (toSystem env) pid addr sym :=
        ReadsThrough.ite (fun _ : Symbolizer => isKernel = true)
          (readsThrough_resolveKernel std addr) (readsThrough_resolveUser std pid addr)
      exact hframe.bind fun frame => ih.map fun frames => frame :: frames

theorem readsThrough_ask (query : Query) : ReadsThrough known (ask std query) := by
  cases query with
  | resolveUser pid addr => exact (readsThrough_resolveUser std pid addr).map fun frame => [frame]
  | resolveKernel addr => exact (readsThrough_resolveKernel std addr).map fun frame => [frame]
  | resolveStack pid addrs isKernel => exact readsThrough_resolveStack std pid isKernel addrs

end Reading

/-! ## One system -/

theorem known_clearCache (sym : Symbolizer) : known (clearCache sym) = ∅ := by
  apply Set.eq_empty_of_forall_notMem
  intro r hr
  cases r with
  | maps pid => exact Finmap.notMem_empty hr
  | file path => exact Finmap.notMem_empty hr
  | kallsyms => cases hr

/-- However the system changes between the queries, from one clearing of the caches
to the next all answers are those in one system that does not change.  In it every
process's mappings, every file and the kernel's symbols are as they were when the
symbolizer first read them. -/
theorem answers_of_one_system (std : StdSort) (sym : Symbolizer)
    (history : List ((∀ r : Resource, r.Content) × Query)) :
    let start := clearCache sym
    known start = ∅ ∧ ∃ frozen : ∀ r : Resource, r.Content,
      Along (exec (ask std)) (FirstRead (ask std) known frozen) start history ∧
        answers (ask std) start history = answers (ask std) start (always frozen history) := by
  intro start
  refine ⟨known_clearCache sym, ?_⟩
  apply exists_frozen (readsThrough_ask std)
  intro r
  cases r with
  | maps pid => exact []
  | file path => exact none
  | kallsyms => exact none

end KernelScope.FrozenAnswers
