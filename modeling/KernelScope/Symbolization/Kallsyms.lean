import KernelScope.Symbolization.ProcMaps
import Mathlib.Data.Bool.AllAny

/-!
# Reading the symbols of the kernel

`Symbolizer::load_kallsyms` takes the lines of `/proc/kallsyms` apart with `sscanf`
and keeps the functions.  From the table that the kernel prints to the name of a
kernel address nothing is lost but what stands behind the first 255 bytes of a name.
-/

namespace KernelScope.Kallsyms

open KernelScope.AddressResolution
open KernelScope.Decimal (ascii)
open KernelScope.Exposition (newline terminate)
open KernelScope.ProcMaps (cString getLines getLines_flatMap_terminate hexPadded
  readNumeral_hexPadded)
open KernelScope.Scanf
open KernelScope.Sorting

/-! ## Loading -/

/-- `"%lx %c %255s"`; behind a blank, the character of `%c` is a word of width one. -/
def lineFormat : List Directive :=
  [.unsigned 16 64, .blank, .word 1, .blank, .word 255]

end KernelScope.Kallsyms
