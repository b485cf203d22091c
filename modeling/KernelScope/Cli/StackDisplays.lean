import KernelScope.Bpf.SkeletonBridge
import KernelScope.Core.TopQueries
import KernelScope.Symbolization.ProcMaps

/-!
# Two displays of the hot stacks

`run_hot_stacks` and `render_hot_stacks` show the top stacks with their first
eight frames, each as `format_frame` prints it.  The command resolves a user stack
in the process of its entry, the screen in process 0, which has no mappings.  The
screen therefore shows a bare address wherever the command names a function.
-/

namespace KernelScope.StackDisplays

open KernelScope.AddressResolution
open KernelScope.Aggregation
open KernelScope.Decimal (ascii decimal isNumeric_decimal)
open KernelScope.ElfSymbols
open KernelScope.Events (Event sampleRead)
open KernelScope.KeyedFold
open KernelScope.Numerals
open KernelScope.SkeletonBridge
open KernelScope.Sorting
open KernelScope.TopQueries

/-! ## The displays -/

/-- The contents of `/proc/<pid>/maps`.  There is no process 0. -/
structure Procfs where
  maps : UInt32 → Option (List UInt8)
  zero : maps 0 = none

/-- What a symbolizer finds outside. -/
def systemOf (files : Files) (proc : Procfs)
    (kallsyms : Option (List (Option KallsymsLine))) : System where
  files := files
  maps pid := (ProcMaps.load (proc.maps pid)).1
  kallsyms := kallsyms

/-- `format_frame` -/
def formatFrame (frame : ResolvedFrame) (index : ℕ) : List UInt8 :=
  if frame.resolved then
    ascii "  #" ++ decimal index ++ ascii " " ++ frame.symbol ++ ascii " (" ++ frame.binary ++
      ascii "+" ++ hex frame.offset ++ ascii ")"
  else ascii "  #" ++ decimal index ++ ascii " " ++ hex frame.addr

/-- The lines of frames that are numbered from `start`. -/
def linesFrom (start : ℕ) (frames : List ResolvedFrame) : List (List UInt8) :=
  frames.mapIdx fun f frame => formatFrame frame (start + f)

section Displays

variable (std : StdSort) (sys : System) (skel : Option Skeleton)

/-- The lines of an entry, resolved in a process.  Both displays indent them, the
command by six blanks and the screen by four. -/
def entryLines (pid : UInt32) (st : StackStats) (sym : Symbolizer) :
    List (List UInt8) × Symbolizer :=
  let addrs := readStack skel st.stackId.toInt32
  let frames := resolveStack std sys pid st.isKernel addrs sym
  (linesFrom 0 (frames.1.take 8), frames.2)

/-- The loop of both displays, up to the process. -/
def showStacks (pidOf : StackStats → UInt32) :
    List StackStats → Symbolizer → List (List (List UInt8)) × Symbolizer
  | [], sym => ([], sym)
  | st :: hot, sym =>
      let entry := entryLines std sys skel (pidOf st) st sym
      let rest := showStacks pidOf hot entry.2
      (entry.1 :: rest.1, rest.2)

def runHotStacks :
    List StackStats → Symbolizer → List (List (List UInt8)) × Symbolizer :=
  showStacks std sys skel StackStats.pid

def renderHotStacks :
    List StackStats → Symbolizer → List (List (List UInt8)) × Symbolizer :=
  showStacks std sys skel fun _ => 0

end Displays

/-! ## The text of a frame -/

theorem notMem_hex {c : UInt8} (hletter : c ∉ ascii "0x") (hdigit : isDigit 16 c = false)
    (value : UInt64) : c ∉ hex value := by
  rw [hex, List.mem_append, not_or]
  exact ⟨hletter, notMem_numeral (by decide) (by decide) hdigit _⟩

theorem linesFrom_cons (start : ℕ) (frame : ResolvedFrame) (frames : List ResolvedFrame) :
    linesFrom start (frame :: frames) =
      formatFrame frame start :: linesFrom (start + 1) frames := by
  simp [linesFrom, List.mapIdx_cons, Nat.add_assoc, Nat.add_comm 1]

/-- A frame looks like an unresolved one at the same address only if it is not
resolved either. -/
theorem formatFrame_eq_iff {frame bare : ResolvedFrame} (hbare : bare.resolved = false)
    (haddr : frame.addr = bare.addr) (index : ℕ) :
    formatFrame frame index = formatFrame bare index ↔ frame.resolved = false := by
  constructor
  · intro heq
    rw [← Bool.not_eq_true]
    intro hresolved
    -- the line of a resolved frame ends with a parenthesis
    have hmem : (41 : UInt8) ∈ formatFrame frame index := by
      rw [formatFrame, if_pos hresolved]
      exact List.mem_append_right _ (by decide)
    rw [heq, formatFrame, hbare, if_neg (by decide), List.mem_append, List.mem_append,
      List.mem_append, decimal_eq_numeral] at hmem
    rcases hmem with ((hmark | hindex) | hblank) | haddress
    · exact absurd hmark (by decide)
    · exact notMem_numeral (by decide) (by decide) (by decide) _ hindex
    · exact absurd hblank (by decide)
    · exact notMem_hex (by decide) (by decide) _ haddress
  · intro hresolved
    simp only [formatFrame, hresolved, hbare, haddr, Bool.false_eq_true, if_false]

/-! ## One frame -/

/-- The address is named in a process: it lies in a mapped file that the cache has or
has room for, and the nearest function of the file up to it covers it or starts less
than 64 KiB before it. -/
def Named (std : StdSort) (sys : System) (pid : UInt32) (addr : UInt64) (sym : Symbolizer) :
    Prop :=
  addr ≠ 0 ∧ ∃ mapping, find addr (sys.maps pid) = some mapping ∧
    ¬sym.elfCache.Full mapping.pathname ∧
    (scanSymbol
      (elfVaddr mapping (some (parseElf std (sys.files mapping.pathname))) addr)
      (sortByAddr std (functionSymbols (sys.files mapping.pathname)))).isSome

section Frames

variable {std : StdSort} {sys : System} {sym other : Symbolizer}

theorem addr_userFrame (addr : UInt64) (mapping : MemoryMapping) (vaddr : UInt64)
    (found : Option ElfSymbol) : (userFrame addr mapping vaddr found).addr = addr := by
  cases found <;> rfl

theorem resolved_userFrame (addr : UInt64) (mapping : MemoryMapping) (vaddr : UInt64)
    (found : Option ElfSymbol) :
    (userFrame addr mapping vaddr found).resolved = found.isSome := by
  cases found <;> rfl

/-- The frame of an address is resolved exactly when the address is named. -/
theorem resolveUser_spec (hsym : Consistent std sys sym) (pid : UInt32) (addr : UInt64) :
    (resolveUser std sys pid addr sym).1.addr = addr ∧
      ((resolveUser std sys pid addr sym).1.resolved = true ↔ Named std sys pid addr sym) := by
  by_cases haddr : addr = 0
  · simp [resolveUser, Named, haddr]
  · cases hfind : find addr (sys.maps pid) with
    | none =>
        rw [hsym.resolveUser_of_unmapped haddr hfind]
        simp [Named, hfind, unmappedFrame]
    | some mapping =>
        by_cases hfull : sym.elfCache.Full mapping.pathname
        · rw [hsym.resolveUser_of_full haddr hfind hfull, addr_userFrame, resolved_userFrame]
          simp [Named, hfind, hfull]
        · rw [hsym.resolveUser_of_mapped haddr hfind hfull, addr_userFrame,
            resolved_userFrame]
          simp [Named, hfind, hfull, haddr]

/-- The two displays agree on a user address when the command cannot name it. -/
theorem formatFrame_resolveUser_eq_iff (hsym : Consistent std sys sym)
    (hother : Consistent std sys other) (hzero : sys.maps 0 = []) (pid : UInt32)
    (addr : UInt64) (index : ℕ) :
    formatFrame (resolveUser std sys pid addr sym).1 index =
        formatFrame (resolveUser std sys 0 addr other).1 index ↔
      ¬Named std sys pid addr sym := by
  obtain ⟨hcli, hnamed⟩ := resolveUser_spec hsym pid addr
  obtain ⟨htui, hbare⟩ := resolveUser_spec hother 0 addr
  have hunnamed : ¬Named std sys 0 addr other := by
    rintro ⟨-, mapping, hfind, -⟩
    rw [hzero] at hfind
    cases hfind
  rw [formatFrame_eq_iff (Bool.eq_false_iff.mpr fun h => hunnamed (hbare.mp h))
    (hcli.trans htui.symm), Bool.eq_false_iff, ne_eq, hnamed]

/-- A kernel address is resolved alike whatever was resolved before. -/
theorem resolveKernel_eq (hsym : Consistent std sys sym)
    (hother : Consistent std sys other) (addr : UInt64) :
    (resolveKernel std sys addr sym).1 = (resolveKernel std sys addr other).1 := by
  simp only [resolveKernel, hsym.kallsyms_loadKallsyms, hother.kallsyms_loadKallsyms]
  split <;> rfl

/-! ## One stack -/

theorem resolveStack_kernel_eq (hsym : Consistent std sys sym)
    (hother : Consistent std sys other) (pid pid' : UInt32) (addrs : List UInt64) :
    (resolveStack std sys pid true addrs sym).1 =
      (resolveStack std sys pid' true addrs other).1 := by
  induction addrs generalizing sym other with
  | nil => rfl
  | cons addr addrs ih =>
      simp only [resolveStack, if_true]
      rw [resolveKernel_eq hsym hother addr,
        ih (hsym.resolveKernel addr) (hother.resolveKernel addr)]

/-- None of the first addresses of a user stack is named, in the symbolizer as it is
when the address is resolved. -/
def Unnamed (std : StdSort) (sys : System) (pid : UInt32) :
    ℕ → List UInt64 → Symbolizer → Prop
  | 0, _, _ => True
  | _, [], _ => True
  | count + 1, addr :: addrs, sym =>
      ¬Named std sys pid addr sym ∧
        Unnamed std sys pid count addrs (resolveUser std sys pid addr sym).2

/-- The displays agree on the first frames of a user stack exactly when none of
their addresses is named. -/
theorem lines_resolveStack_eq_iff (hsym : Consistent std sys sym)
    (hother : Consistent std sys other) (hzero : sys.maps 0 = []) (pid : UInt32)
    (start count : ℕ) (addrs : List UInt64) :
    linesFrom start ((resolveStack std sys pid false addrs sym).1.take count) =
        linesFrom start ((resolveStack std sys 0 false addrs other).1.take count) ↔
      Unnamed std sys pid count addrs sym := by
  induction addrs generalizing sym other start count with
  | nil => cases count <;> simp [resolveStack, Unnamed]
  | cons addr addrs ih =>
      cases count with
      | zero => simp [Unnamed]
      | succ count =>
          simp only [resolveStack, Bool.false_eq_true, if_false, List.take_succ_cons,
            linesFrom_cons, List.cons.injEq, Unnamed]
          rw [formatFrame_resolveUser_eq_iff hsym hother hzero,
            ih (hsym.resolveUser pid addr) (hother.resolveUser 0 addr)]

/-- The entry is a kernel stack, or the command can name none of its first eight
addresses. -/
def Nameless (std : StdSort) (sys : System) (skel : Option Skeleton) (st : StackStats)
    (sym : Symbolizer) : Prop :=
  st.isKernel = true ∨ Unnamed std sys st.pid 8 (readStack skel st.stackId.toInt32) sym

theorem entryLines_eq_iff (hsym : Consistent std sys sym) (hother : Consistent std sys other)
    (hzero : sys.maps 0 = []) (skel : Option Skeleton) (st : StackStats) :
    (entryLines std sys skel st.pid st sym).1 = (entryLines std sys skel 0 st other).1 ↔
      Nameless std sys skel st sym := by
  rw [entryLines, entryLines, Nameless]
  cases hkernel : st.isKernel with
  | true => simp [resolveStack_kernel_eq hsym hother st.pid 0]
  | false => simpa using lines_resolveStack_eq_iff hsym hother hzero st.pid 0 8 _

/-! ## The whole display -/

theorem showStacks_eq_iff (hsym : Consistent std sys sym)
    (hother : Consistent std sys other) (hzero : sys.maps 0 = [])
    (skel : Option Skeleton) {hot : List StackStats} {index : ℕ} {st : StackStats}
    (hst : hot[index]? = some st) :
    (runHotStacks std sys skel hot sym).1.getD index [] =
        (renderHotStacks std sys skel hot other).1.getD index [] ↔
      Nameless std sys skel st (runHotStacks std sys skel (hot.take index) sym).2 := by
  induction hot generalizing sym other index with
  | nil => simp at hst
  | cons first hot ih =>
      cases index with
      | zero =>
          obtain rfl : first = st := by simpa using hst
          exact entryLines_eq_iff hsym hother hzero skel first
      | succ index =>
          exact ih (hsym.resolveStack _ _ _) (hother.resolveStack _ _ _) (by simpa using hst)

end Frames

/-- Whatever the two symbolizers have resolved before, the first eight frames of
an entry of `top_stacks` are shown alike exactly when it is a kernel stack or the
command can name none of their addresses. -/
theorem stack_displays_agree_iff (std : StdSort) (files : Files) (proc : Procfs)
    (kallsyms : Option (List (Option KallsymsLine))) (skel : Option Skeleton)
    (agg : Aggregator) (entries : Enumeration agg.stackStats) (n : ℕ)
    (cliOps tuiOps : List AddressResolution.Op) :
    let sys := systemOf files proc kallsyms
    let hot := topStacks std n entries
    let sym := StepRun.run (AddressResolution.exec std sys) create cliOps
    let cli := runHotStacks std sys skel hot sym
    let tui := renderHotStacks std sys skel hot
      (StepRun.run (AddressResolution.exec std sys) create tuiOps)
    ∀ index : Fin hot.length,
      cli.1.getD index [] = tui.1.getD index [] ↔
        Nameless std sys skel (hot.get index)
          (runHotStacks std sys skel (hot.take index) sym).2 := by
  intro sys hot sym cli tui index
  have hzero : sys.maps 0 = [] := by
    simp only [sys, systemOf, proc.zero]
    rfl
  exact showStacks_eq_iff (consistent_run cliOps) (consistent_run tuiOps) hzero skel
    (List.getElem?_eq_getElem index.isLt)

/-- A read of process 7 that waited in a known user stack. -/
def waitingRead : Event :=
  { sampleRead 7 with userStackId := 5, flags := 1 }

def oneEntry : Enumeration (processEvent waitingRead Aggregator.fresh).stackStats where
  entries := [⟨5, StackStats.add ⟨waitingRead, 5, false⟩ StackStats.fresh⟩]
  complete := rfl

/-- The program that process 7 runs. -/
def nestMapping : ProcMaps.PrintedMapping where
  start := 0x400000
  endAddr := 0x500000
  read := true
  write := false
  exec := true
  shared := false
  offset := 0
  major := 8
  minor := 1
  inode := 77
  blanks := 1
  pathname := ascii "/bin/nest"
  oneLine := by decide
  bounded := by decide
  separated := by decide

def nestMaps : Procfs where
  maps pid := if pid = 7 then some (ProcMaps.printMaps [nestMapping]) else none
  zero := rfl

/-- Under id 5 there is a stack of one address. -/
def oneStack : Skeleton :=
  { afterIdle with
    stackTraces := ⟨6, fun id =>
      if id = 5 then some (Vector.ofFn fun i => if i.val = 0 then 0x401108 else 0)
      else none⟩ }

theorem topStacks_oneEntry :
    topStacks StdSort.mergeSort 10 oneEntry =
      [StackStats.add ⟨waitingRead, 5, false⟩ StackStats.fresh] := by
  have hsort : StdSort.mergeSort.sort (fun a b : StackStats => decide (a.totalNs > b.totalNs))
      [StackStats.add ⟨waitingRead, 5, false⟩ StackStats.fresh] =
        [StackStats.add ⟨waitingRead, 5, false⟩ StackStats.fresh] := by
    apply StdSort.sort_eq_self _ fun st => OrderDual.toDual st.totalNs.toNat
    · intro a b
      rw [decide_eq_true_iff, gt_iff_lt, UInt64.lt_iff_toNat_lt]
      rfl
    · simp
  simp [topStacks, topEntries, oneEntry, hsort]

/-- The file of the program: two functions, one inside the other. -/
def nestFiles : Files := fun path =>
  if path = ascii "/bin/nest" then some (fileWith nestedSymbols) else none

/-- The address lies eight bytes behind the entry of the inner function. -/
theorem resolveUser_nest :
    (resolveUser StdSort.mergeSort (systemOf nestFiles nestMaps none) 7 0x401108 create).1 =
      ⟨0x401108, [98], ascii "nest", 8, true⟩ := by
  have hfind : find 0x401108 ((systemOf nestFiles nestMaps none).maps 7) =
      some ⟨0x400000, 0x500000, 0, ascii "/bin/nest"⟩ := by
    decide +kernel
  have hfile : (systemOf nestFiles nestMaps none).files (ascii "/bin/nest") =
      some (fileWith nestedSymbols) := by
    simp only [systemOf, nestFiles, if_true]
  have hvaddr : elfVaddr ⟨0x400000, 0x500000, 0, ascii "/bin/nest"⟩
      (some (parseElf StdSort.mergeSort (some (fileWith nestedSymbols)))) 0x401108 = 0x1108 := by
    decide +kernel
  have hscan : scanSymbol 0x1108 nestedSymbols = some ⟨[98], 0x1100, 0x10⟩ := by decide
  rw [consistent_create.resolveUser_of_mapped (by decide) hfind (by decide), hfile, hvaddr,
    functionSymbols_nestedSymbols, sortByAddr_nestedSymbols, hscan]
  decide +kernel

theorem showStacks_oneEntry (sys : System) (pidOf : StackStats → UInt32) :
    let st := StackStats.add ⟨waitingRead, 5, false⟩ StackStats.fresh
    (showStacks StdSort.mergeSort sys (some oneStack) pidOf [st] create).1 =
      [linesFrom 0 [(resolveUser StdSort.mergeSort sys (pidOf st) 0x401108 create).1]] := by
  intro st
  have hstack : readStack (some oneStack) st.stackId.toInt32 = [0x401108] := by decide +kernel
  have huser : st.isKernel = false := rfl
  simp [showStacks, entryLines, hstack, huser, resolveStack]

/-- The command names the function, the screen shows the address. -/
theorem screen_loses_function :
    let sys := systemOf nestFiles nestMaps none
    let hot := topStacks StdSort.mergeSort 10 oneEntry
    let cli := runHotStacks StdSort.mergeSort sys (some oneStack) hot create
    let tui := renderHotStacks StdSort.mergeSort sys (some oneStack) hot create
    hot.length = 1 ∧
      cli.1 = [[ascii "  #0 b (nest+0x8)"]] ∧ tui.1 = [[ascii "  #0 0x401108"]] := by
  intro sys hot cli tui
  have hbare : (resolveUser StdSort.mergeSort sys 0 0x401108 create).1 =
      unmappedFrame 0x401108 :=
    consistent_create.resolveUser_of_unmapped (by decide) rfl
  simp only [cli, tui, hot, topStacks_oneEntry, runHotStacks, renderHotStacks,
    showStacks_oneEntry, hbare]
  refine ⟨rfl, ?_, by decide +kernel⟩
  have hpid : (StackStats.add ⟨waitingRead, 5, false⟩ StackStats.fresh).pid = 7 := rfl
  rw [hpid, resolveUser_nest]
  decide +kernel

end KernelScope.StackDisplays
