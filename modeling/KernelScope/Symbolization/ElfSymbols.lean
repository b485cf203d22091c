import KernelScope.Library.KeyedFold
import KernelScope.Library.Sorting
import KernelScope.Library.StepRun

/-!
# The ELF symbol cache

`ElfCache` keeps the function symbols of the files it has read, sorted by
address, and looks an address up by binary search.  A file is seen through the
answers of libelf: its headers, its sections and the entries of its symbol
tables.
-/

namespace KernelScope.ElfSymbols

open KernelScope.KeyedFold
open KernelScope.Sorting

/-! ## Files -/

/-- The fields of a program header that are read. -/
structure Phdr where
  type : UInt32
  offset : UInt64
  vaddr : UInt64
  deriving DecidableEq

/-- An entry of a symbol table; `name` is what `elf_strptr` finds. -/
structure Sym where
  info : UInt8
  value : UInt64
  size : UInt64
  name : Option (List UInt8)
  deriving DecidableEq

/-- A section; `data` is none if `elf_getdata` fails, and gives the answers of
`gelf_getsym` otherwise. -/
structure Section where
  type : UInt32
  size : UInt64
  entsize : UInt64
  data : Option (Int32 → Option Sym)

/-- A file that libelf has opened.  A header that cannot be read is none. -/
structure ElfFile where
  ehdrType : Option UInt16
  phnum : ℕ
  phdr : Int32 → Option Phdr
  sections : List (Option Section)

abbrev Path := List UInt8

/-- What `open` and `elf_begin` find at each path. -/
abbrev Files := Path → Option ElfFile

def ptLoad : UInt32 := 1
def shtSymtab : UInt32 := 2
def shtDynsym : UInt32 := 11
def sttFunc : UInt8 := 2
def etDyn : UInt16 := 3

/-! ## Parsing -/

structure ElfSymbol where
  name : List UInt8
  addr : UInt64
  size : UInt64
  deriving DecidableEq

structure ElfInfo where
  symbols : List ElfSymbol
  loadBase : UInt64
  isPie : Bool
  deriving DecidableEq

/-- The loop over the program headers. -/
def minVaddr (file : ElfFile) : UInt64 :=
  (List.range file.phnum).foldl
    (fun lowest i =>
      match file.phdr (Int32.ofNat i) with
      | none => lowest
      | some phdr =>
          if phdr.type = ptLoad ∧ phdr.vaddr < lowest then phdr.vaddr else lowest)
    (UInt64.ofNat (2 ^ 64 - 1))

def loadBase (file : ElfFile) : UInt64 :=
  if minVaddr file = UInt64.ofNat (2 ^ 64 - 1) then 0 else minVaddr file

/-- One entry of a symbol table, if it is kept. -/
def keepSymbol (sym : Sym) : Option ElfSymbol :=
  -- `GELF_ST_TYPE`
  if sym.info &&& 0xf ≠ sttFunc then none
  else if sym.value = 0 then none
  else
    match sym.name with
    | none => none
    | some name =>
        if name = [] then none
        else some ⟨name, sym.value, if sym.size = 0 then 1 else sym.size⟩

/-- The symbols of one section.  An entry size of zero is not defined by the
source. -/
def sectionSymbols : Option Section → List ElfSymbol
  | none => []
  | some shdr =>
      if shdr.type ≠ shtSymtab ∧ shdr.type ≠ shtDynsym then []
      else
        match shdr.data with
        | none => []
        | some getsym =>
            (List.range (shdr.size / shdr.entsize).toNat).filterMap fun i =>
              (getsym (Int32.ofNat i)).bind keepSymbol

/-- The symbols of a file in the order in which they are found. -/
def functionSymbols (opened : Option ElfFile) : List ElfSymbol :=
  match opened with
  | none => []
  | some file =>
      match file.ehdrType with
      | none => []
      | some _ => file.sections.flatMap sectionSymbols

def addrLess (a b : ElfSymbol) : Bool :=
  a.addr < b.addr

/-- The table as it is left by sorting. -/
def sortByAddr (std : StdSort) (symbols : List ElfSymbol) : List ElfSymbol :=
  std.sort addrLess symbols

/-- `parse_elf` -/
def parseElf (std : StdSort) (opened : Option ElfFile) : ElfInfo :=
  match opened with
  | none => ⟨[], 0, false⟩
  | some file =>
      match file.ehdrType with
      | none => ⟨[], 0, false⟩
      | some type =>
          ⟨sortByAddr std (file.sections.flatMap sectionSymbols), loadBase file,
            type = etDyn⟩

/-! ## The cache -/

structure ElfCache where
  maxEntries : ℕ
  cache : KeyedMap Path ElfInfo

/-- `ElfCache::ElfCache` -/
def ElfCache.create (maxEntries : ℕ) : ElfCache where
  maxEntries := maxEntries
  cache := ∅

/-- The test that turns a path away. -/
def ElfCache.Full (path : Path) (c : ElfCache) : Prop :=
  c.cache.keys.card ≥ c.maxEntries ∧ path ∉ c.cache

instance decidableFull (path : Path) (c : ElfCache) : Decidable (c.Full path) :=
  inferInstanceAs (Decidable (_ ∧ _))

section Operations

variable (std : StdSort) (files : Files)

def ensureLoaded (path : Path) (c : ElfCache) : ElfInfo × ElfCache :=
  match c.cache.lookup path with
  | some info => (info, c)
  | none =>
      let info := parseElf std (files path)
      (info, { c with cache := c.cache.insert path info })

/-- The search of `ElfCache::resolve` in one table. -/
def lookupSymbol (syms : List ElfSymbol) (addrOffset : UInt64) : Option ElfSymbol :=
  if syms = [] then none
  else
    match itemBefore syms (upperBound (fun s => addrOffset < s.addr) syms) with
    | none => none
    | some it =>
        if addrOffset ≥ it.addr ∧ addrOffset < it.addr + it.size then some it
        else if addrOffset ≥ it.addr ∧ addrOffset - it.addr < 0x10000 then
          some ⟨it.name, it.addr, it.size⟩
        else none

/-- `ElfCache::resolve` -/
def resolve (path : Path) (addrOffset : UInt64) (c : ElfCache) :
    Option ElfSymbol × ElfCache :=
  if c.Full path then (none, c)
  else
    let loaded := ensureLoaded std files path c
    (lookupSymbol loaded.1.symbols addrOffset, loaded.2)

/-- `ElfCache::get_info` -/
def getInfo (path : Path) (c : ElfCache) : Option ElfInfo × ElfCache :=
  if c.Full path then (none, c)
  else
    let loaded := ensureLoaded std files path c
    (some loaded.1, loaded.2)

/-- `ElfCache::clear` -/
def clear (c : ElfCache) : ElfCache :=
  { c with cache := ∅ }

inductive Op where
  | resolve (path : Path) (addrOffset : UInt64)
  | getInfo (path : Path)
  | clear

def exec (c : ElfCache) : Op → ElfCache
  | .resolve path addrOffset => (resolve std files path addrOffset c).2
  | .getInfo path => (getInfo std files path c).2
  | .clear => clear c

end Operations

/-! ## Segments -/

/-- The `PT_LOAD` headers of a file. -/
def loadSegments (file : ElfFile) : List Phdr :=
  ((List.range file.phnum).filterMap fun i => file.phdr (Int32.ofNat i)).filter
    fun phdr => phdr.type = ptLoad

/-! ## Tables -/

theorem addrLess_iff (a b : ElfSymbol) :
    addrLess a b = true ↔ a.addr.toNat < b.addr.toNat := by
  rw [addrLess, decide_eq_true_iff, UInt64.lt_iff_toNat_lt]

theorem sortByAddr_perm (std : StdSort) (symbols : List ElfSymbol) :
    (sortByAddr std symbols).Perm symbols :=
  std.perm_key (fun s => s.addr.toNat) addrLess_iff symbols

theorem pairwise_sortByAddr (std : StdSort) (symbols : List ElfSymbol) :
    (sortByAddr std symbols).Pairwise fun a b => a.addr.toNat ≤ b.addr.toNat :=
  std.sorted_key (fun s => s.addr.toNat) addrLess_iff symbols

/-- The symbol of greatest address up to `q`, the last one in table order. -/
def nearestSymbol (q : UInt64) (table : List ElfSymbol) : Option ElfSymbol :=
  greatestBelow (fun s => s.addr.toNat) q.toNat table

/-- The lookup as a scan over the whole table. -/
def scanSymbol (q : UInt64) (table : List ElfSymbol) : Option ElfSymbol :=
  (nearestSymbol q table).filter fun s =>
    q < s.addr + s.size ∨ q - s.addr < 0x10000

theorem nearestSymbol_le {q : UInt64} {table : List ElfSymbol} {s : ElfSymbol}
    (hs : nearestSymbol q table = some s) : s ∈ table ∧ s.addr ≤ q := by
  obtain ⟨hmem, hle⟩ := mem_of_greatestBelow hs
  exact ⟨hmem, UInt64.le_iff_toNat_le.mpr hle⟩

/-- Binary search in a sorted table finds what the scan finds. -/
theorem lookupSymbol_eq_scanSymbol {table : List ElfSymbol}
    (hsorted : table.Pairwise fun a b => a.addr.toNat ≤ b.addr.toNat) (q : UInt64) :
    lookupSymbol table q = scanSymbol q table := by
  have hnearest : itemBefore table (upperBound (fun s => q < s.addr) table) =
      nearestSymbol q table :=
    itemBefore_upperBound_word ElfSymbol.addr hsorted q
  rw [lookupSymbol, hnearest, scanSymbol]
  split
  next hnil =>
    subst hnil
    rfl
  next =>
    cases hs : nearestSymbol q table with
    | none => rfl
    | some s =>
        have hle := (nearestSymbol_le hs).2
        by_cases hrange : q < s.addr + s.size
        · simp [hle, hrange, Option.filter]
        · by_cases hdistance : q - s.addr < 0x10000
          · simp [hle, hrange, hdistance, Option.filter]
          · simp [hrange, hdistance, Option.filter]

/-! ## Lookups in the cache -/

section Cache

variable {std : StdSort} {files : Files}

theorem resolve_fst {path : Path} {c : ElfCache} (hfull : ¬c.Full path) (q : UInt64) :
    (resolve std files path q c).1 =
      lookupSymbol (ensureLoaded std files path c).1.symbols q := by
  rw [resolve, if_neg hfull]

theorem symbols_parseElf (opened : Option ElfFile) :
    (parseElf std opened).symbols = sortByAddr std (functionSymbols opened) := by
  have hnil : sortByAddr std [] = [] := (sortByAddr_perm std []).eq_nil
  cases opened with
  | none => exact hnil.symm
  | some file =>
      cases htype : file.ehdrType with
      | none => simp [parseElf, functionSymbols, htype, hnil]
      | some type => simp [parseElf, functionSymbols, htype]

/-- Every cached entry is what the file parses to. -/
def Faithful (std : StdSort) (files : Files) (c : ElfCache) : Prop :=
  ∀ path info, c.cache.lookup path = some info → info = parseElf std (files path)

theorem Faithful.ensureLoaded_fst {c : ElfCache} (hc : Faithful std files c)
    (path : Path) : (ensureLoaded std files path c).1 = parseElf std (files path) := by
  rw [ensureLoaded]
  cases hlookup : c.cache.lookup path with
  | none => rfl
  | some info => exact hc path info hlookup

theorem Faithful.ensureLoaded_snd {c : ElfCache} (hc : Faithful std files c)
    (path : Path) : Faithful std files (ensureLoaded std files path c).2 := by
  rw [ensureLoaded]
  cases hlookup : c.cache.lookup path with
  | some info => exact hc
  | none => exact answers_insert hc path

theorem faithful_create (maxEntries : ℕ) :
    Faithful std files (ElfCache.create maxEntries) := by
  intro path info hlookup
  simp [ElfCache.create] at hlookup

theorem Faithful.exec {c : ElfCache} (hc : Faithful std files c) (op : Op) :
    Faithful std files (exec std files c op) := by
  cases op with
  | resolve path q =>
      simp only [ElfSymbols.exec, ElfSymbols.resolve]
      split
      · exact hc
      · exact hc.ensureLoaded_snd path
  | getInfo path =>
      simp only [ElfSymbols.exec, ElfSymbols.getInfo]
      split
      · exact hc
      · exact hc.ensureLoaded_snd path
  | clear => exact faithful_create c.maxEntries

/-- Whatever was looked up before, the cached entries are the parsed files. -/
theorem faithful_run (maxEntries : ℕ) (ops : List Op) :
    Faithful std files
      (StepRun.run (exec std files) (ElfCache.create maxEntries) ops) :=
  (StepRun.always_of_step (Faithful std files) (fun _ op hc => hc.exec op)
    (faithful_create maxEntries) ops).last

theorem keys_ensureLoaded (c : ElfCache) (path : Path) :
    (ensureLoaded std files path c).2.cache.keys = insert path c.cache.keys := by
  ext other
  rw [ensureLoaded, Finset.mem_insert, Finmap.mem_keys]
  cases hlookup : c.cache.lookup path with
  | none => rw [Finmap.mem_insert, Finmap.mem_keys]
  | some info =>
      have hmem : path ∈ c.cache := Finmap.mem_of_lookup_eq_some hlookup
      rw [Finmap.mem_keys]
      exact ⟨.inr, fun hother => hother.elim (fun heq => heq ▸ hmem) id⟩

/-- A file that was looked up is there. -/
theorem not_full_ensureLoaded (c : ElfCache) (path : Path) :
    ¬(ensureLoaded std files path c).2.Full path := by
  intro hfull
  apply hfull.2
  rw [← Finmap.mem_keys, keys_ensureLoaded]
  exact Finset.mem_insert_self path c.cache.keys

/-- A faithful cache that takes the path finds what a scan of the file finds. -/
theorem Faithful.resolve_eq_scan {c : ElfCache} (hc : Faithful std files c) {path : Path}
    (hfull : ¬c.Full path) (q : UInt64) :
    (resolve std files path q c).1 =
      scanSymbol q (sortByAddr std (functionSymbols (files path))) := by
  rw [resolve_fst hfull, hc.ensureLoaded_fst, symbols_parseElf,
    lookupSymbol_eq_scanSymbol (pairwise_sortByAddr std _)]

end Cache

/-! ## Covering symbols -/

/-- The range of the symbol contains the address. -/
def ElfSymbol.Covers (q : UInt64) (s : ElfSymbol) : Prop :=
  s.addr.toNat ≤ q.toNat ∧ q.toNat < s.addr.toNat + s.size.toNat

instance decidableCovers (q : UInt64) (s : ElfSymbol) : Decidable (s.Covers q) :=
  inferInstanceAs (Decidable (_ ∧ _))

/-- A symbol that starts inside another one ends no earlier than that one. -/
def NoneNested (symbols : List ElfSymbol) : Prop :=
  ∀ outer ∈ symbols, ∀ inner ∈ symbols, outer.Covers inner.addr →
    outer.addr.toNat + outer.size.toNat ≤ inner.addr.toNat + inner.size.toNat

theorem lt_end_iff {q : UInt64} {s : ElfSymbol}
    (hsize : s.addr.toNat + s.size.toNat < 2 ^ 64) :
    q < s.addr + s.size ↔ q.toNat < s.addr.toNat + s.size.toNat := by
  rw [UInt64.lt_iff_toNat_lt, UInt64.toNat_add, Nat.mod_eq_of_lt hsize]

theorem scanSymbol_covers_iff {q : UInt64} {table : List ElfSymbol}
    (hsize : ∀ s ∈ table, s.addr.toNat + s.size.toNat < 2 ^ 64) :
    (∃ s, scanSymbol q table = some s ∧ s.Covers q) ↔
      ∃ s, nearestSymbol q table = some s ∧ s.Covers q := by
  refine exists_congr fun s => and_congr_left fun hcovers => ?_
  rw [scanSymbol, Option.filter_eq_some_iff]
  constructor
  · exact fun h => h.1
  · intro hs
    refine ⟨hs, ?_⟩
    have hlt := (lt_end_iff (hsize s (nearestSymbol_le hs).1)).mpr hcovers.2
    simp [hlt]

/-- Without nested symbols the nearest symbol covers what any symbol covers. -/
theorem nearestSymbol_covers {q : UInt64} {table : List ElfSymbol}
    (hnested : NoneNested table) {t : ElfSymbol} (ht : t ∈ table)
    (hcovers : t.Covers q) : ∃ s, nearestSymbol q table = some s ∧ s.Covers q := by
  have hexists : ∃ s, nearestSymbol q table = some s ∧ t.addr.toNat ≤ s.addr.toNat :=
    exists_greatestBelow ht hcovers.1
  obtain ⟨s, hs, hle⟩ := hexists
  obtain ⟨hmem, hbound⟩ := mem_of_greatestBelow hs
  have hinside : t.Covers s.addr := ⟨hle, hbound.trans_lt hcovers.2⟩
  exact ⟨s, hs, hbound, hcovers.2.trans_le (hnested t ht s hmem hinside)⟩

/-- Whatever the cache was asked before, as long as it takes the file, a covering
symbol is found exactly when the nearest symbol covers the address, and always if no
symbol is nested in another. -/
theorem covering_symbol_found_iff (std : StdSort) (files : Files) (maxEntries : ℕ)
    (ops : List Op) (path : Path) (q : UInt64)
    (hfull : ¬(StepRun.run (exec std files) (ElfCache.create maxEntries) ops).Full path)
    (hsize : ∀ s ∈ functionSymbols (files path), s.addr.toNat + s.size.toNat < 2 ^ 64) :
    let c := StepRun.run (exec std files) (ElfCache.create maxEntries) ops
    let symbols := functionSymbols (files path)
    ((∃ s, (resolve std files path q c).1 = some s ∧ s.Covers q) ↔
      ∃ s, nearestSymbol q (sortByAddr std symbols) = some s ∧ s.Covers q) ∧
    (NoneNested symbols → (∃ t ∈ symbols, t.Covers q) →
      ∃ s, (resolve std files path q c).1 = some s ∧ s.Covers q) := by
  intro c symbols
  have hmem : ∀ s, s ∈ sortByAddr std symbols ↔ s ∈ symbols :=
    fun s => (sortByAddr_perm std symbols).mem_iff
  have hfound : (∃ s, (resolve std files path q c).1 = some s ∧ s.Covers q) ↔
      ∃ s, nearestSymbol q (sortByAddr std symbols) = some s ∧ s.Covers q := by
    rw [(faithful_run maxEntries ops).resolve_eq_scan hfull]
    exact scanSymbol_covers_iff fun s hs => hsize s ((hmem s).mp hs)
  refine ⟨hfound, fun hnested ⟨t, ht, hcovers⟩ => hfound.mpr ?_⟩
  apply nearestSymbol_covers _ ((hmem t).mpr ht) hcovers
  intro outer houter inner hinner
  exact hnested outer ((hmem outer).mp houter) inner ((hmem inner).mp hinner)

/-- A file whose only section is a symbol table with these function symbols. -/
def fileWith (symbols : List ElfSymbol) : ElfFile where
  ehdrType := some etDyn
  phnum := 0
  phdr := fun _ => none
  sections := [some
    { type := shtSymtab
      size := UInt64.ofNat (24 * symbols.length)
      entsize := 24
      data := some fun i =>
        symbols[i.toNatClampNeg]?.map fun s => ⟨sttFunc, s.addr, s.size, some s.name⟩ }]

/-- The second symbol lies inside the first. -/
def nestedSymbols : List ElfSymbol :=
  [⟨[97], 0x1000, 0x1000⟩, ⟨[98], 0x1100, 0x10⟩]

theorem functionSymbols_nestedSymbols :
    functionSymbols (some (fileWith nestedSymbols)) = nestedSymbols := by
  decide +kernel

theorem sortByAddr_nestedSymbols (std : StdSort) :
    sortByAddr std nestedSymbols = nestedSymbols :=
  std.sort_eq_self (fun s => s.addr.toNat) addrLess_iff (by decide)

/-- The address behind a nested symbol is still inside the outer one, which is
not found. -/
theorem covering_symbol_missed :
    ¬(ElfCache.create 10000).Full [] ∧ (∃ t ∈ nestedSymbols, t.Covers 0x1200) ∧
      ∃ s, (resolve StdSort.mergeSort (fun _ => some (fileWith nestedSymbols)) []
        0x1200 (ElfCache.create 10000)).1 = some s ∧ ¬s.Covers 0x1200 := by
  refine ⟨by decide, by decide, ⟨[98], 0x1100, 0x10⟩, ?_, by decide⟩
  rw [(faithful_create 10000).resolve_eq_scan (by decide), functionSymbols_nestedSymbols,
    sortByAddr_nestedSymbols]
  decide +kernel

theorem covering_symbol_found_inner :
    ∃ s, (resolve StdSort.mergeSort (fun _ => some (fileWith nestedSymbols)) []
      0x1108 (ElfCache.create 10000)).1 = some s ∧ s.Covers 0x1108 := by
  have hsize : ∀ s ∈ functionSymbols (some (fileWith nestedSymbols)),
      s.addr.toNat + s.size.toNat < 2 ^ 64 := by
    rw [functionSymbols_nestedSymbols]
    decide
  apply (covering_symbol_found_iff StdSort.mergeSort _ 10000 [] [] 0x1108 (by decide)
    hsize).1.mpr
  rw [functionSymbols_nestedSymbols, sortByAddr_nestedSymbols]
  exact ⟨⟨[98], 0x1100, 0x10⟩, by decide, by decide⟩

end KernelScope.ElfSymbols
