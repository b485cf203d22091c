import KernelScope.Symbolization.CacheTransparency
import KernelScope.Symbolization.ProcMaps
import Mathlib.Data.Bool.AllAny

/-!
# Naming the frames of a user stack

The kernel prints the mappings of a process, the loader has placed segments of files
in them, and the files have symbols for their functions.  From these three a stack of
addresses is turned into the functions that are on it: the text of the mappings is
taken apart, an address is translated back into its file, and a symbol is searched
there, while the caches of the symbolizer grow from frame to frame.
-/

namespace KernelScope.UserFrames

open KernelScope.AddressResolution
open KernelScope.CacheTransparency
open KernelScope.Decimal (ascii)
open KernelScope.ElfSymbols hiding Op exec
open KernelScope.ProcMaps
open KernelScope.Sorting

/-! ## Addresses in functions -/

/-- The mappings of a process as the kernel prints them: in the order of their
addresses, and the executable files among them under names without white space. -/
structure AddressSpace where
  mappings : List PrintedMapping
  ordered : mappings.Pairwise fun lower upper => lower.endAddr ≤ upper.start
  oneWord : ∀ m ∈ mappings, Wanted m → OneWord m

/-- What `ProcMaps::load` makes of them. -/
def AddressSpace.loaded (space : AddressSpace) : List MemoryMapping :=
  (load (some (printMaps space.mappings))).1

/-- What `ProcMaps::load` keeps of a mapping. -/
def kept (m : PrintedMapping) : MemoryMapping :=
  ⟨m.start, m.endAddr, m.offset, m.pathname⟩

/-- An address in a function.  The loader has placed a segment of the file at `bias`,
and this segment lies as far from its file offset as the lowest one lies from zero.
No other function of the file starts between the entry of the function and the
address; a second symbol of the same function is allowed. -/
structure CodeAddress (files : Files) (space : AddressSpace) where
  addr : UInt64
  mapping : PrintedMapping
  file : ElfFile
  segment : Phdr
  page : ℕ
  bias : UInt64
  function : ElfSymbol
  nonzero : addr ≠ 0
  mapped : mapping ∈ space.mappings
  wanted : Wanted mapping
  within : mapping.start ≤ addr ∧ addr < mapping.endAddr
  opened : files mapping.pathname = some file
  header : file.ehdrType.isSome
  placed : LoadedSegment page bias file segment (kept mapping)
  evenly : segment.vaddr - segment.offset = loadBase file
  symbol : function ∈ functionSymbols (some file)
  covers : function.Covers (addr - bias)
  fits : function.addr.toNat + function.size.toNat < 2 ^ 64
  alone : ∀ other ∈ functionSymbols (some file),
    function.addr ≤ other.addr → other.addr ≤ addr - bias → other = function

section Addresses

variable {files : Files} {space : AddressSpace}

/-- The file that the address lies in. -/
def CodeAddress.path (code : CodeAddress files space) : Path :=
  code.mapping.pathname

/-- The function with the distance from its entry. -/
def CodeAddress.frame (code : CodeAddress files space) : ResolvedFrame :=
  ⟨code.addr, code.function.name, filename code.path,
    code.addr - code.bias - code.function.addr, true⟩

end Addresses

/-! ## One frame -/

section Frames

variable {std : StdSort} {sys : System} {sym : Symbolizer} {pid : UInt32}
  {space : AddressSpace}

end Frames

/-! ## Whole stacks -/

section Runs

variable {std : StdSort} {sys : System} {sym : Symbolizer} {pid : UInt32}
  {space : AddressSpace}

end Runs

/-- A program that is loaded at any address, with its code in a segment of its own. -/
def program : ElfFile :=
  { fileWith [⟨ascii "main", 0x1139, 0x20⟩] with
    phnum := 2
    phdr := fun i => if i = 0 then some ⟨ptLoad, 0, 0⟩ else some ⟨ptLoad, 0x1000, 0x1000⟩ }

end KernelScope.UserFrames
