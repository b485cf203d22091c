import KernelScope.Library.Decimal
import KernelScope.Symbolization.ElfSymbols
import Mathlib.Data.UInt

/-!
# Resolving addresses

`Symbolizer` turns addresses into function names: user addresses through the
memory mappings of the process and the symbols of the mapped file, kernel
addresses through `/proc/kallsyms`.
-/

namespace KernelScope.AddressResolution

open KernelScope.Decimal (ascii)
open KernelScope.ElfSymbols
open KernelScope.KeyedFold
open KernelScope.Sorting

/-! ## The files that are read -/

structure MemoryMapping where
  start : UInt64
  endAddr : UInt64
  offset : UInt64
  pathname : Path
  deriving DecidableEq

structure KernelSymbol where
  addr : UInt64
  name : List UInt8
  deriving DecidableEq

/-- The fields that `sscanf` reads from a line of `/proc/kallsyms`. -/
structure KallsymsLine where
  addr : UInt64
  type : UInt8
  name : List UInt8
  deriving DecidableEq

/-- What the symbolizer finds outside: the ELF files, the mappings that
`ProcMaps::load` keeps for each process, and the lines of `/proc/kallsyms`,
where a line with fewer than three fields is none. -/
structure System where
  files : Files
  maps : UInt32 → List MemoryMapping
  kallsyms : Option (List (Option KallsymsLine))

/-! ## The operations -/

structure ResolvedFrame where
  addr : UInt64
  symbol : List UInt8
  binary : List UInt8
  offset : UInt64
  resolved : Bool
  deriving DecidableEq

structure Symbolizer where
  elfCache : ElfCache
  procCache : KeyedMap UInt32 (List MemoryMapping)
  kallsyms : List KernelSymbol
  kallsymsLoaded : Bool

/-- `Symbolizer::Symbolizer` -/
def create : Symbolizer where
  elfCache := ElfCache.create 10000
  procCache := ∅
  kallsyms := []
  kallsymsLoaded := false

/-- `ProcMaps::find` -/
def find (addr : UInt64) (mappings : List MemoryMapping) : Option MemoryMapping :=
  mappings.find? fun m => addr ≥ m.start ∧ addr < m.endAddr

/-- `std::format("0x{:x}", value)` -/
def hex (value : UInt64) : List UInt8 :=
  ascii "0x" ++ ascii (String.ofList (Nat.toDigits 16 value.toNat))

/-- `std::filesystem::path::filename` -/
def filename (path : Path) : List UInt8 :=
  (path.reverse.takeWhile (· ≠ 47)).reverse

/-- The lines that become symbols. -/
def kernelSymbol (line : Option KallsymsLine) : Option KernelSymbol :=
  match line with
  | none => none
  | some line =>
      -- the types `T` and `t`
      if line.addr ≠ 0 ∧ (line.type = 84 ∨ line.type = 116) then
        some ⟨line.addr, line.name⟩
      else none

def kernelLess (a b : KernelSymbol) : Bool :=
  a.addr < b.addr

section Operations

variable (std : StdSort) (sys : System)

/-- `Symbolizer::get_proc_maps` -/
def getProcMaps (pid : UInt32) (sym : Symbolizer) : List MemoryMapping × Symbolizer :=
  match sym.procCache.lookup pid with
  | some maps => (maps, sym)
  | none =>
      (sys.maps pid, { sym with procCache := sym.procCache.insert pid (sys.maps pid) })

/-- `Symbolizer::load_kallsyms` -/
def loadKallsyms (sym : Symbolizer) : Symbolizer :=
  if sym.kallsymsLoaded then sym
  else
    match sys.kallsyms with
    | none => { sym with kallsymsLoaded := true }
    | some lines =>
        { sym with
          kallsymsLoaded := true
          kallsyms := std.sort kernelLess
            (sym.kallsyms ++ lines.filterMap kernelSymbol) }

/-- The address that `resolve_user` looks up in the mapped file. -/
def elfVaddr (mapping : MemoryMapping) (info : Option ElfInfo) (addr : UInt64) :
    UInt64 :=
  match info with
  | some info => addr - mapping.start + mapping.offset + info.loadBase
  | none => addr - mapping.start + mapping.offset

/-- The first part of `resolve_user`: the mapping of an address and its
`elf_vaddr`. -/
def translate (pid : UInt32) (addr : UInt64) (sym : Symbolizer) :
    Option (MemoryMapping × UInt64) × Symbolizer :=
  if addr = 0 then (none, sym)
  else
    let maps := getProcMaps sys pid sym
    match find addr maps.1 with
    | none => (none, maps.2)
    | some mapping =>
        let info := getInfo std sys.files mapping.pathname maps.2.elfCache
        (some (mapping, elfVaddr mapping info.1 addr),
          { maps.2 with elfCache := info.2 })

/-- The frame of an address whose mapping is known. -/
def userFrame (addr : UInt64) (mapping : MemoryMapping) (vaddr : UInt64)
    (found : Option ElfSymbol) : ResolvedFrame :=
  match found with
  | some s => ⟨addr, s.name, filename mapping.pathname, vaddr - s.addr, true⟩
  | none => ⟨addr, hex vaddr, filename mapping.pathname, vaddr, false⟩

/-- The frame of an address without a mapping. -/
def unmappedFrame (addr : UInt64) : ResolvedFrame :=
  ⟨addr, hex addr, [], 0, false⟩

/-- `Symbolizer::resolve_user` -/
def resolveUser (pid : UInt32) (addr : UInt64) (sym : Symbolizer) :
    ResolvedFrame × Symbolizer :=
  if addr = 0 then (⟨0, ascii "[unknown]", [], 0, false⟩, sym)
  else
    let translated := translate std sys pid addr sym
    match translated.1 with
    | none => (unmappedFrame addr, translated.2)
    | some (mapping, vaddr) =>
        let found := resolve std sys.files mapping.pathname vaddr translated.2.elfCache
        (userFrame addr mapping vaddr found.1,
          { translated.2 with elfCache := found.2 })

/-- The frame of a kernel address, once the symbols are loaded. -/
def kernelFrame (addr : UInt64) (kallsyms : List KernelSymbol) : ResolvedFrame :=
  if kallsyms = [] then ⟨addr, hex addr, ascii "[kernel]", 0, false⟩
  else
    match itemBefore kallsyms (upperBound (fun s => addr < s.addr) kallsyms) with
    | some it => ⟨addr, it.name, ascii "[kernel]", addr - it.addr, true⟩
    | none => ⟨addr, hex addr, ascii "[kernel]", 0, false⟩

/-- `Symbolizer::resolve_kernel` -/
def resolveKernel (addr : UInt64) (sym : Symbolizer) : ResolvedFrame × Symbolizer :=
  if addr = 0 then (⟨0, ascii "[unknown]", ascii "[kernel]", 0, false⟩, sym)
  else
    let sym := loadKallsyms std sys sym
    (kernelFrame addr sym.kallsyms, sym)

/-- `Symbolizer::resolve_stack` -/
def resolveStack (pid : UInt32) (isKernel : Bool) :
    List UInt64 → Symbolizer → List ResolvedFrame × Symbolizer
  | [], sym => ([], sym)
  | addr :: addrs, sym =>
      let frame :=
        if isKernel then resolveKernel std sys addr sym
        else resolveUser std sys pid addr sym
      let rest := resolveStack pid isKernel addrs frame.2
      (frame.1 :: rest.1, rest.2)

/-- `Symbolizer::clear_cache` -/
def clearCache (sym : Symbolizer) : Symbolizer where
  elfCache := ElfSymbols.clear sym.elfCache
  procCache := ∅
  kallsyms := []
  kallsymsLoaded := false

inductive Op where
  | resolveUser (pid : UInt32) (addr : UInt64)
  | resolveKernel (addr : UInt64)
  | resolveStack (pid : UInt32) (addrs : List UInt64) (isKernel : Bool)
  | clearCache

def exec (sym : Symbolizer) : Op → Symbolizer
  | .resolveUser pid addr => (resolveUser std sys pid addr sym).2
  | .resolveKernel addr => (resolveKernel std sys addr sym).2
  | .resolveStack pid addrs isKernel => (resolveStack std sys pid isKernel addrs sym).2
  | .clearCache => clearCache sym

end Operations

/-! ## Reachable states -/

/-- The symbols that `/proc/kallsyms` has. -/
def kernelSymbols (sys : System) : List KernelSymbol :=
  (sys.kallsyms.getD []).filterMap kernelSymbol

/-- What is cached is what the files contain. -/
structure Consistent (std : StdSort) (sys : System) (sym : Symbolizer) : Prop where
  files : Faithful std sys.files sym.elfCache
  maps : ∀ pid mappings, sym.procCache.lookup pid = some mappings →
    mappings = sys.maps pid
  kallsyms : sym.kallsyms =
    if sym.kallsymsLoaded then std.sort kernelLess (kernelSymbols sys) else []

theorem kernelLess_iff (a b : KernelSymbol) :
    kernelLess a b = true ↔ a.addr.toNat < b.addr.toNat := by
  rw [kernelLess, decide_eq_true_iff, UInt64.lt_iff_toNat_lt]

section Reachable

variable {std : StdSort} {sys : System} {sym : Symbolizer}

theorem consistent_create : Consistent std sys create where
  files := faithful_create 10000
  maps pid mappings hlookup := by simp [create] at hlookup
  kallsyms := rfl

theorem Consistent.getProcMaps_fst (hsym : Consistent std sys sym) (pid : UInt32) :
    (getProcMaps sys pid sym).1 = sys.maps pid := by
  rw [getProcMaps]
  cases hlookup : sym.procCache.lookup pid with
  | none => rfl
  | some mappings => exact hsym.maps pid mappings hlookup

theorem Consistent.getProcMaps_snd (hsym : Consistent std sys sym) (pid : UInt32) :
    Consistent std sys (getProcMaps sys pid sym).2 := by
  rw [getProcMaps]
  cases hlookup : sym.procCache.lookup pid with
  | some mappings => exact hsym
  | none => exact ⟨hsym.files, answers_insert hsym.maps pid, hsym.kallsyms⟩

theorem elfCache_getProcMaps (pid : UInt32) :
    (getProcMaps sys pid sym).2.elfCache = sym.elfCache := by
  rw [getProcMaps]
  split <;> rfl

theorem Consistent.withCache (hsym : Consistent std sys sym) {cache : ElfCache}
    (hcache : Faithful std sys.files cache) :
    Consistent std sys { sym with elfCache := cache } :=
  ⟨hcache, hsym.maps, hsym.kallsyms⟩

theorem Consistent.translate (hsym : Consistent std sys sym) (pid : UInt32)
    (addr : UInt64) : Consistent std sys (translate std sys pid addr sym).2 := by
  have hmaps := hsym.getProcMaps_snd pid
  simp only [AddressResolution.translate]
  split
  · exact hsym
  · split
    · exact hmaps
    · exact hmaps.withCache (hmaps.files.exec (.getInfo _))

theorem Consistent.resolveUser (hsym : Consistent std sys sym) (pid : UInt32)
    (addr : UInt64) : Consistent std sys (resolveUser std sys pid addr sym).2 := by
  have htranslate := hsym.translate pid addr
  simp only [AddressResolution.resolveUser]
  split
  · exact hsym
  · split
    · exact htranslate
    · exact htranslate.withCache (htranslate.files.exec (.resolve _ _))

/-- Sorting nothing leaves nothing. -/
theorem sort_kernel_nil (std : StdSort) : std.sort kernelLess [] = [] :=
  (std.perm_key (fun s => s.addr.toNat) kernelLess_iff []).eq_nil

theorem Consistent.kallsyms_loadKallsyms (hsym : Consistent std sys sym) :
    (loadKallsyms std sys sym).kallsyms = std.sort kernelLess (kernelSymbols sys) := by
  have hkallsyms := hsym.kallsyms
  rw [loadKallsyms]
  cases hloaded : sym.kallsymsLoaded with
  | true =>
      rw [hloaded] at hkallsyms
      exact hkallsyms
  | false =>
      rw [hloaded] at hkallsyms
      cases hlines : sys.kallsyms with
      | none => simpa [kernelSymbols, hlines, sort_kernel_nil] using hkallsyms
      | some lines => simp [kernelSymbols, hlines, hkallsyms]

/-- Loading changes nothing but the symbols of the kernel. -/
theorem loadKallsyms_eq :
    loadKallsyms std sys sym =
      { sym with
        kallsyms := (loadKallsyms std sys sym).kallsyms
        kallsymsLoaded := true } := by
  rw [loadKallsyms]
  split
  next hloaded => rw [← hloaded]
  next => split <;> rfl

theorem Consistent.loadKallsyms (hsym : Consistent std sys sym) :
    Consistent std sys (loadKallsyms std sys sym) := by
  rw [loadKallsyms_eq]
  exact ⟨hsym.files, hsym.maps, hsym.kallsyms_loadKallsyms⟩

theorem Consistent.resolveKernel (hsym : Consistent std sys sym) (addr : UInt64) :
    Consistent std sys (resolveKernel std sys addr sym).2 := by
  simp only [AddressResolution.resolveKernel]
  split
  · exact hsym
  · exact hsym.loadKallsyms

theorem Consistent.resolveStack (hsym : Consistent std sys sym) (pid : UInt32)
    (isKernel : Bool) (addrs : List UInt64) :
    Consistent std sys (resolveStack std sys pid isKernel addrs sym).2 := by
  induction addrs generalizing sym with
  | nil => exact hsym
  | cons addr addrs ih =>
      apply ih
      split
      · exact hsym.resolveKernel addr
      · exact hsym.resolveUser pid addr

theorem Consistent.exec (hsym : Consistent std sys sym) (op : Op) :
    Consistent std sys (exec std sys sym op) := by
  cases op with
  | resolveUser pid addr => exact hsym.resolveUser pid addr
  | resolveKernel addr => exact hsym.resolveKernel addr
  | resolveStack pid addrs isKernel => exact hsym.resolveStack pid isKernel addrs
  | clearCache =>
      refine ⟨hsym.files.exec .clear, fun pid mappings hlookup => ?_, rfl⟩
      simp [AddressResolution.exec, clearCache] at hlookup

theorem consistent_run (ops : List Op) :
    Consistent std sys (StepRun.run (exec std sys) create ops) :=
  (StepRun.always_of_step (Consistent std sys) (fun _ op hsym => hsym.exec op)
    consistent_create ops).last

end Reachable

/-! ## Symbol lookup -/

/-- An address rounded down to a page. -/
def pageFloor (page : ℕ) (addr : UInt64) : UInt64 :=
  UInt64.ofNat (addr.toNat - addr.toNat % page)

/-- The mapping that the loader creates for a segment of a file which it places
at `bias`. -/
structure LoadedSegment (page : ℕ) (bias : UInt64) (file : ElfFile) (segment : Phdr)
    (mapping : MemoryMapping) : Prop where
  page_dvd : page ∣ 2 ^ 64
  bias_aligned : page ∣ bias.toNat
  segment_mem : segment ∈ loadSegments file
  congruent : segment.vaddr.toNat % page = segment.offset.toNat % page
  start_eq : mapping.start = pageFloor page (bias + segment.vaddr)
  offset_eq : mapping.offset = pageFloor page segment.offset

theorem pageFloor_eq (page : ℕ) (addr : UInt64) :
    pageFloor page addr = addr - UInt64.ofNat (addr.toNat % page) := by
  have hle := Nat.mod_le addr.toNat page
  rw [pageFloor, UInt64.ofNat_sub hle, UInt64.ofNat_toNat]

theorem add_mod_page {page : ℕ} {bias : UInt64} (hpage : page ∣ 2 ^ 64)
    (hbias : page ∣ bias.toNat) (addr : UInt64) :
    (bias + addr).toNat % page = addr.toNat % page := by
  rw [UInt64.toNat_add, Nat.mod_mod_of_dvd _ hpage, Nat.add_mod,
    Nat.mod_eq_zero_of_dvd hbias, Nat.zero_add, Nat.mod_mod]

theorem LoadedSegment.elfVaddr_eq_iff {page : ℕ} {bias : UInt64} {file : ElfFile}
    {segment : Phdr} {mapping : MemoryMapping}
    (hloaded : LoadedSegment page bias file segment mapping) (info : ElfInfo)
    (addr : UInt64) :
    elfVaddr mapping (some info) addr = addr - bias ↔
      segment.vaddr - segment.offset = info.loadBase := by
  have hstart := hloaded.start_eq
  have hoffset := hloaded.offset_eq
  rw [pageFloor_eq, add_mod_page hloaded.page_dvd hloaded.bias_aligned,
    hloaded.congruent] at hstart
  rw [pageFloor_eq] at hoffset
  rw [elfVaddr, hstart, hoffset]
  generalize UInt64.ofNat (segment.offset.toNat % page) = rest
  grind

/-- The mappings of a process do not overlap. -/
def Disjoint (mappings : List MemoryMapping) : Prop :=
  mappings.Pairwise fun a b => a.endAddr ≤ b.start ∨ b.endAddr ≤ a.start

theorem find_eq_some {mappings : List MemoryMapping} {mapping : MemoryMapping}
    {addr : UInt64} (hdisjoint : Disjoint mappings) (hmapping : mapping ∈ mappings)
    (haddr : mapping.start ≤ addr ∧ addr < mapping.endAddr) :
    find addr mappings = some mapping := by
  induction mappings with
  | nil => cases hmapping
  | cons head tail ih =>
      obtain ⟨hhead, htail⟩ := List.pairwise_cons.mp hdisjoint
      by_cases hin : addr ≥ head.start ∧ addr < head.endAddr
      · have heq : head = mapping := by
          rcases List.mem_cons.mp hmapping with rfl | hmem
          · rfl
          -- no other mapping contains the address as well
          · rcases hhead mapping hmem with hle | hle
            · exact absurd (UInt64.le_trans hle haddr.1) (UInt64.not_le.mpr hin.2)
            · exact absurd (UInt64.le_trans hle hin.1) (UInt64.not_le.mpr haddr.2)
        rw [find, List.find?_cons_of_pos (by simpa using hin), heq]
      · have hne : mapping ≠ head := by
          rintro rfl
          exact hin haddr
        rw [find, List.find?_cons_of_neg (by simpa using hin)]
        exact ih htail ((List.mem_cons.mp hmapping).resolve_left hne)

theorem loadBase_parseElf (std : StdSort) {file : ElfFile}
    (hheader : file.ehdrType.isSome) :
    (parseElf std (some file)).loadBase = loadBase file := by
  obtain ⟨type, htype⟩ := Option.isSome_iff_exists.mp hheader
  rw [parseElf, htype]

/-- Where an address that is not null is looked up. -/
theorem Consistent.translate_fst {std : StdSort} {sys : System} {sym : Symbolizer}
    (hsym : Consistent std sys sym) {pid : UInt32} {addr : UInt64}
    {mapping : MemoryMapping} (haddr : addr ≠ 0)
    (hfind : find addr (sys.maps pid) = some mapping)
    (hfull : ¬sym.elfCache.Full mapping.pathname) :
    (AddressResolution.translate std sys pid addr sym).1 =
      some (mapping, elfVaddr mapping
        (some (parseElf std (sys.files mapping.pathname))) addr) := by
  simp only [AddressResolution.translate, if_neg haddr, hsym.getProcMaps_fst, hfind,
    elfCache_getProcMaps, getInfo, if_neg hfull, hsym.files.ensureLoaded_fst]

section Frames

variable {std : StdSort} {sys : System} {sym : Symbolizer} {pid : UInt32} {addr : UInt64}

theorem Consistent.resolveUser_of_unmapped (hsym : Consistent std sys sym) (haddr : addr ≠ 0)
    (hfind : find addr (sys.maps pid) = none) :
    (AddressResolution.resolveUser std sys pid addr sym).1 = unmappedFrame addr := by
  simp only [AddressResolution.resolveUser, AddressResolution.translate, if_neg haddr,
    hsym.getProcMaps_fst, hfind]

/-- A mapped address in a file that the cache takes. -/
theorem Consistent.resolveUser_of_mapped (hsym : Consistent std sys sym) (haddr : addr ≠ 0)
    {mapping : MemoryMapping} (hfind : find addr (sys.maps pid) = some mapping)
    (hfull : ¬sym.elfCache.Full mapping.pathname) :
    let vaddr := elfVaddr mapping (some (parseElf std (sys.files mapping.pathname))) addr
    (AddressResolution.resolveUser std sys pid addr sym).1 =
      userFrame addr mapping vaddr
        (scanSymbol vaddr (sortByAddr std (functionSymbols (sys.files mapping.pathname)))) := by
  intro vaddr
  have hloaded := hsym.files.ensureLoaded_snd mapping.pathname
  simp only [AddressResolution.resolveUser, AddressResolution.translate, if_neg haddr,
    hsym.getProcMaps_fst, hfind, elfCache_getProcMaps, getInfo, if_neg hfull,
    hsym.files.ensureLoaded_fst, hloaded.resolve_eq_scan (not_full_ensureLoaded _ _)]
  rfl

/-- One in a file that the cache turns away. -/
theorem Consistent.resolveUser_of_full (hsym : Consistent std sys sym) (haddr : addr ≠ 0)
    {mapping : MemoryMapping} (hfind : find addr (sys.maps pid) = some mapping)
    (hfull : sym.elfCache.Full mapping.pathname) :
    (AddressResolution.resolveUser std sys pid addr sym).1 =
      userFrame addr mapping (elfVaddr mapping none addr) none := by
  simp only [AddressResolution.resolveUser, AddressResolution.translate, if_neg haddr,
    hsym.getProcMaps_fst, hfind, elfCache_getProcMaps, getInfo, if_pos hfull, resolve]

end Frames

/-- The translation of a runtime address is right exactly when the mapped segment
lies as far from its file offset as the lowest segment of the file lies from
zero. -/
theorem elf_vaddr_eq_iff (std : StdSort) (sys : System) (ops : List Op) (pid : UInt32)
    (mapping : MemoryMapping) (file : ElfFile) (segment : Phdr) (page : ℕ)
    (bias addr : UInt64) (hmapping : mapping ∈ sys.maps pid)
    (hdisjoint : Disjoint (sys.maps pid))
    (haddr : mapping.start ≤ addr ∧ addr < mapping.endAddr)
    (hfile : sys.files mapping.pathname = some file)
    (hheader : file.ehdrType.isSome)
    (hloaded : LoadedSegment page bias file segment mapping)
    (hfull : ¬(StepRun.run (exec std sys) create ops).elfCache.Full mapping.pathname) :
    let translated := translate std sys pid addr (StepRun.run (exec std sys) create ops)
    (addr ≠ 0 → ∃ vaddr, translated.1 = some (mapping, vaddr)) ∧
    ∀ vaddr, translated.1 = some (mapping, vaddr) →
      (vaddr = addr - bias ↔ segment.vaddr - segment.offset = loadBase file) := by
  intro translated
  have hfind := find_eq_some hdisjoint hmapping haddr
  have hsym : Consistent std sys (StepRun.run (exec std sys) create ops) :=
    consistent_run ops
  refine ⟨fun hne => ⟨_, hsym.translate_fst hne hfind hfull⟩, fun vaddr hvaddr => ?_⟩
  have hne : addr ≠ 0 := by
    rintro rfl
    simp [translated, translate] at hvaddr
  have htranslate := hsym.translate_fst hne hfind hfull
  rw [hfile] at htranslate
  have hvalue := (Prod.mk.inj (Option.some.inj (hvaddr.symm.trans htranslate))).2
  rw [hvalue, hloaded.elfVaddr_eq_iff, loadBase_parseElf std hheader]

/-- A file with two segments, of which the second lies a page further from its
file offset than the first. -/
def twoSegments : ElfFile where
  ehdrType := some etDyn
  phnum := 2
  phdr i := if i = 0 then some ⟨ptLoad, 0, 0⟩ else some ⟨ptLoad, 0x600, 0x1600⟩
  sections := []

/-- A process with both segments mapped at the bias `0x10000`. -/
def twoMappings : System where
  files _ := some twoSegments
  maps _ := [⟨0x10000, 0x11000, 0, [97]⟩, ⟨0x11000, 0x12000, 0, [97]⟩]
  kallsyms := none

/-- The address of byte `0x1700` of the loaded file is looked up as `0x700`. -/
theorem elf_vaddr_of_second_segment :
    LoadedSegment 4096 0x10000 twoSegments ⟨ptLoad, 0x600, 0x1600⟩
        ⟨0x11000, 0x12000, 0, [97]⟩ ∧
      (translate StdSort.mergeSort twoMappings 7 0x11700 create).1 =
        some (⟨0x11000, 0x12000, 0, [97]⟩, 0x700) ∧
      (0x11700 : UInt64) - 0x10000 = 0x1700 := by
  refine ⟨⟨by decide, by decide, by decide, by decide, by decide, by decide⟩, ?_,
    by decide⟩
  have hfind : find 0x11700 (twoMappings.maps 7) =
      some ⟨0x11000, 0x12000, 0, [97]⟩ := by
    decide
  rw [consistent_create.translate_fst (by decide) hfind (by decide)]
  decide +kernel

theorem elf_vaddr_of_first_segment :
    ∃ vaddr, (translate StdSort.mergeSort twoMappings 7 0x10700 create).1 =
      some (⟨0x10000, 0x11000, 0, [97]⟩, vaddr) ∧ vaddr = 0x10700 - 0x10000 := by
  obtain ⟨hexists, hiff⟩ := elf_vaddr_eq_iff StdSort.mergeSort twoMappings [] 7
    ⟨0x10000, 0x11000, 0, [97]⟩ twoSegments ⟨ptLoad, 0, 0⟩ 4096 0x10000 0x10700
    (by decide) (by simp [Disjoint, twoMappings]) (by decide) rfl rfl
    ⟨by decide, by decide, by decide, by decide, by decide, by decide⟩ (by decide)
  obtain ⟨vaddr, hvaddr⟩ := hexists (by decide)
  exact ⟨vaddr, hvaddr, (hiff vaddr hvaddr).mpr (by decide)⟩

end KernelScope.AddressResolution
