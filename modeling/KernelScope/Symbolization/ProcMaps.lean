import KernelScope.Library.Exposition
import KernelScope.Library.Scanf
import KernelScope.Symbolization.AddressResolution

/-!
# Reading the memory mappings of a process

`ProcMaps::load` takes the lines of `/proc/<pid>/maps` apart with `sscanf`.  The
pathname is read as a word, so it ends at the first white space, and the line as
a C string ends at the first NUL.  A mapping is read back as the kernel prints it
exactly when its pathname has neither.
-/

namespace KernelScope.ProcMaps

open KernelScope.AddressResolution
open KernelScope.Decimal
open KernelScope.Exposition (newline terminate splitOn_flatMap_terminate)
open KernelScope.Numerals
open KernelScope.Scanf

/-! ## Loading -/

/-- `"%lx-%lx %4s %lx %x:%x %lu %4095s"` -/
def lineFormat : List Directive :=
  [.unsigned 16 64, .literal 45, .unsigned 16 64, .blank, .word 4, .blank,
    .unsigned 16 64, .blank, .unsigned 16 32, .literal 58, .unsigned 16 32, .blank,
    .unsigned 10 64, .blank, .word 4095]

/-- The string that `c_str` shows. -/
def cString (line : List UInt8) : List UInt8 :=
  line.takeWhile (· ≠ 0)

/-- The body of the loop: the mapping that a line adds, if any. -/
def loadLine (line : List UInt8) : Option MemoryMapping :=
  match scan lineFormat (cString line) with
  | .number start :: .number endAddr :: .text perms :: .number offset ::
      .number _ :: .number _ :: .number _ :: rest =>
      if perms.getD 2 0 ≠ 120 then none
      else
        let pathname :=
          match rest with
          | .text pathname :: _ => pathname
          | _ => []
        if pathname.head? = some 91 then none
        else some ⟨UInt64.ofNat start, UInt64.ofNat endAddr, UInt64.ofNat offset, pathname⟩
  | _ => none

/-- `std::getline` until it fails: a last line need not be terminated. -/
def getLines (text : List UInt8) : List (List UInt8) :=
  let parts := text.splitOn newline
  if parts.getLast? = some [] then parts.dropLast else parts

/-- `ProcMaps::load`: the mappings, and what it returns.  The file is none if it
cannot be opened. -/
def load (file : Option (List UInt8)) : List MemoryMapping × Bool :=
  match file with
  | none => ([], false)
  | some text =>
      let mappings := (getLines text).filterMap loadLine
      (mappings, mappings ≠ [])

/-! ## The kernel's lines -/

/-- A mapping as the kernel prints it; `blanks` is the padding in front of the
pathname. -/
structure PrintedMapping where
  start : UInt64
  endAddr : UInt64
  read : Bool
  write : Bool
  exec : Bool
  shared : Bool
  offset : UInt64
  major : UInt32
  minor : UInt32
  inode : UInt64
  blanks : ℕ
  pathname : List UInt8
  oneLine : newline ∉ pathname
  bounded : pathname.length ≤ 4095
  separated : pathname ≠ [] → 0 < blanks

/-- A hexadecimal number with leading zeros. -/
def hexPadded (width n : ℕ) : List UInt8 :=
  (numeral 16 n).leftpad width 48

/-- `rwxp` -/
def permissions (m : PrintedMapping) : List UInt8 :=
  [if m.read then 114 else 45, if m.write then 119 else 45,
    if m.exec then 120 else 45, if m.shared then 115 else 112]

/-- The fields in front of the padding. -/
def printFields (m : PrintedMapping) : List UInt8 :=
  hexPadded 8 m.start.toNat ++ 45 :: (hexPadded 8 m.endAddr.toNat ++
    32 :: (permissions m ++ 32 :: (hexPadded 8 m.offset.toNat ++
      32 :: (hexPadded 2 m.major.toNat ++ 58 :: (hexPadded 2 m.minor.toNat ++
        32 :: decimal m.inode.toNat)))))

/-- A line of `/proc/<pid>/maps`. -/
def printLine (m : PrintedMapping) : List UInt8 :=
  printFields m ++ (List.replicate m.blanks 32 ++ m.pathname)

/-- The file that the kernel prints. -/
def printMaps (mappings : List PrintedMapping) : List UInt8 :=
  (mappings.map printLine).flatMap terminate

/-- The executable mappings of files, and those without a name. -/
def Wanted (m : PrintedMapping) : Prop :=
  m.exec = true ∧ m.pathname.head? ≠ some 91

instance decidableWanted (m : PrintedMapping) : Decidable (Wanted m) :=
  inferInstanceAs (Decidable (_ ∧ _))

def wantedMapping (m : PrintedMapping) : Option MemoryMapping :=
  if Wanted m then some ⟨m.start, m.endAddr, m.offset, m.pathname⟩ else none

/-- The pathname is one word of a C string. -/
def OneWord (m : PrintedMapping) : Prop :=
  ∀ c ∈ m.pathname, c ≠ 0 ∧ isSpace c = false

/-! ## Scanning a line -/

theorem readNumeral_hexPadded (width n : ℕ) :
    readNumeral 16 (hexPadded width n) = some n :=
  readNumeral_leftpad (by decide) width (readNumeral_numeral (by decide) (by decide) n)

theorem permissions_subset (m : PrintedMapping) :
    permissions m ⊆ [45, 114, 119, 120, 115, 112] := by
  have hletters : ∀ read write exec shared : Bool,
      ([if read then 114 else 45, if write then 119 else 45,
        if exec then 120 else 45, if shared then 115 else 112] : List UInt8) ⊆
          [45, 114, 119, 120, 115, 112] := by decide
  exact hletters m.read m.write m.exec m.shared

theorem isSpace_permissions (m : PrintedMapping) :
    ∀ c ∈ permissions m, isSpace c = false := by
  have hletters : ([45, 114, 119, 120, 115, 112].all fun c => !isSpace c) = true := by decide
  intro c hc
  simpa using List.all_eq_true.mp hletters c (permissions_subset m hc)

/-- In front of the pathname stand digits, separators and the letters of the
permissions only. -/
theorem notMem_printFields {b : UInt8} (hdigit : digitValue b = none)
    (hother : b ∉ ([32, 58, 45, 114, 119, 120, 115, 112] : List UInt8))
    (m : PrintedMapping) : b ∉ printFields m := by
  have hhex : ∀ width n, b ∉ hexPadded width n := fun width n =>
    notMem_of_readNumeral (readNumeral_hexPadded width n) hdigit
  have hdecimal : b ∉ decimal m.inode.toNat :=
    notMem_of_readNumeral (readNumeral_decimal _) hdigit
  have hpermissions : b ∉ permissions m := fun hmem =>
    hother (List.mem_cons_of_mem _ (List.mem_cons_of_mem _ (permissions_subset m hmem)))
  have hseparators : b ≠ 32 ∧ b ≠ 58 ∧ b ≠ 45 := by
    simp only [List.mem_cons, not_or] at hother
    exact ⟨hother.1, hother.2.1, hother.2.2.1⟩
  obtain ⟨hblank, hcolon, hdash⟩ := hseparators
  simp only [printFields, List.mem_append, List.mem_cons, not_or]
  exact ⟨hhex _ _, hdash, hhex _ _, hblank, hpermissions, hblank, hhex _ _, hblank,
    hhex _ _, hcolon, hhex _ _, hblank, hdecimal⟩

/-- What `sscanf` makes of a line. -/
theorem scan_printLine (m : PrintedMapping) :
    scan lineFormat (cString (printLine m)) =
      .number m.start.toNat :: .number m.endAddr.toNat :: .text (permissions m) ::
        .number m.offset.toNat :: .number m.major.toNat :: .number m.minor.toNat ::
          .number m.inode.toNat ::
            if firstWord (cString m.pathname) = [] then []
            else [.text (firstWord (cString m.pathname))] := by
  have hstring : cString (printLine m) =
      printFields m ++ (List.replicate m.blanks 32 ++ cString m.pathname) := by
    rw [printLine, cString, List.takeWhile_append_of_pos, List.takeWhile_append_of_pos,
      cString]
    · intro c hc
      rw [List.eq_of_mem_replicate hc]
      rfl
    · intro c hc
      rw [decide_eq_true_eq]
      rintro rfl
      exact notMem_printFields (by decide) (by decide) m hc
  have hend : Stops 10 (List.replicate m.blanks 32 ++ cString m.pathname) := by
    cases hblanks : m.blanks with
    | zero =>
        have hnil : m.pathname = [] := by
          by_contra hne
          exact absurd hblanks (Nat.ne_of_gt (m.separated hne))
        rw [hnil]
        exact stops_nil
    | succ blanks => exact stops_cons (by decide) (by decide) (by decide) _
  have hlength : (cString m.pathname).length ≤ 4095 :=
    ((List.takeWhile_sublist _).length_le).trans m.bounded
  have hword : ∀ n : UInt64, n.toNat < 2 ^ 64 := UInt64.toNat_lt
  have hunsigned : ∀ n : UInt32, n.toNat < 2 ^ 32 := UInt32.toNat_lt
  have hlong : ∀ n : UInt32, n.toNat < 2 ^ 64 := fun n =>
    (hunsigned n).trans (by decide)
  have hpermissions : (permissions m).length = 4 := rfl
  have hstops : ∀ c ∈ ([45, 32, 58] : List UInt8), ∀ rest, Stops 16 (c :: rest) := by
    simp only [List.forall_mem_cons]
    exact ⟨stops_cons (by decide) (by decide) (by decide),
      stops_cons (by decide) (by decide) (by decide),
      stops_cons (by decide) (by decide) (by decide), by simp⟩
  rw [hstring, lineFormat, printFields]
  simp only [List.append_assoc, List.cons_append]
  rw [scan_unsigned (readNumeral_hexPadded _ _) (hstops 45 (by simp) _) (hword _) (hword _),
    scan_literal,
    scan_unsigned (readNumeral_hexPadded _ _) (hstops 32 (by simp) _) (hword _) (hword _),
    scan_blank (skipSpace_text (isSpace_permissions m) (by simp [permissions]) _),
    ← hpermissions, scan_word (isSpace_permissions m) (by simp [permissions]),
    scan_blank (skipSpace_numeral (readNumeral_hexPadded _ _)),
    scan_unsigned (readNumeral_hexPadded _ _) (hstops 32 (by simp) _) (hword _) (hword _),
    scan_blank (skipSpace_numeral (readNumeral_hexPadded _ _)),
    scan_unsigned (readNumeral_hexPadded _ _) (hstops 58 (by simp) _) (hlong _) (hunsigned _),
    scan_literal,
    scan_unsigned (readNumeral_hexPadded _ _) (hstops 32 (by simp) _) (hlong _) (hunsigned _),
    scan_blank (skipSpace_numeral (readNumeral_decimal _)),
    scan_unsigned (readNumeral_decimal _) hend (hword _) (hword _),
    scan_last_word hlength]

/-- The mapping that a printed line adds. -/
theorem loadLine_printLine (m : PrintedMapping) :
    loadLine (printLine m) =
      if m.exec = true ∧ (firstWord (cString m.pathname)).head? ≠ some 91 then
        some ⟨m.start, m.endAddr, m.offset, firstWord (cString m.pathname)⟩
      else none := by
  have hpathname : ∀ word : List UInt8,
      (match if word = [] then [] else [Item.text word] with
        | .text pathname :: _ => pathname
        | _ => []) = word := by
    intro word
    cases word <;> rfl
  rw [loadLine, scan_printLine]
  simp only [hpathname, UInt64.ofNat_toNat]
  cases hexec : m.exec <;> simp [permissions, hexec]

/-- A line adds nothing that is not wanted. -/
theorem loadLine_eq_none {m : PrintedMapping} (hwanted : ¬Wanted m) :
    loadLine (printLine m) = none := by
  rw [loadLine_printLine, if_neg]
  rintro ⟨hexec, hword⟩
  apply hwanted ⟨hexec, fun hhead => hword ?_⟩
  cases hpathname : m.pathname with
  | nil => simp [hpathname] at hhead
  | cons c rest =>
      have hbracket : c = 91 := by simpa [hpathname] using hhead
      subst hbracket
      rfl

theorem firstWord_cString_of_oneWord {m : PrintedMapping} (hword : OneWord m) :
    firstWord (cString m.pathname) = m.pathname := by
  have hstring : cString m.pathname = m.pathname := by
    rw [cString, List.takeWhile_eq_self_iff]
    exact fun c hc => decide_eq_true (hword c hc).1
  rw [hstring]
  exact firstWord_eq_self fun c hc => (hword c hc).2

theorem oneWord_of_firstWord_cString {m : PrintedMapping}
    (hword : firstWord (cString m.pathname) = m.pathname) : OneWord m := by
  intro c hc
  rw [← hword] at hc
  have hmem : c ∈ cString m.pathname :=
    (List.dropWhile_sublist _).mem ((List.takeWhile_sublist _).mem hc)
  exact ⟨by simpa using List.mem_takeWhile_imp hmem, isSpace_of_mem_firstWord hc⟩

/-- A line adds what is wanted exactly when the pathname is one word. -/
theorem loadLine_eq_wanted_iff (m : PrintedMapping) :
    loadLine (printLine m) = wantedMapping m ↔ (Wanted m → OneWord m) := by
  by_cases hwanted : Wanted m
  · rw [wantedMapping, if_pos hwanted]
    constructor
    · intro hload _
      rw [loadLine_printLine, Option.ite_none_right_eq_some, Option.some.injEq,
        MemoryMapping.mk.injEq] at hload
      exact oneWord_of_firstWord_cString hload.2.2.2.2
    · intro hword
      rw [loadLine_printLine, firstWord_cString_of_oneWord (hword hwanted)]
      exact if_pos hwanted
  · rw [wantedMapping, if_neg hwanted, loadLine_eq_none hwanted]
    exact iff_of_true rfl fun hcontra => absurd hcontra hwanted

/-! ## The whole file -/

theorem newline_notMem_printLine (m : PrintedMapping) : newline ∉ printLine m := by
  have hfields := notMem_printFields (by decide) (by decide) m (b := newline)
  have hblanks : newline ∉ List.replicate m.blanks (32 : UInt8) := fun hmem =>
    absurd (List.eq_of_mem_replicate hmem) (by decide)
  simp only [printLine, List.mem_append, not_or]
  exact ⟨hfields, hblanks, m.oneLine⟩

theorem getLines_flatMap_terminate {lines : List (List UInt8)}
    (hlines : ∀ line ∈ lines, newline ∉ line) : getLines (lines.flatMap terminate) = lines := by
  rw [getLines, splitOn_flatMap_terminate hlines]
  simp

theorem getLines_printMaps (mappings : List PrintedMapping) :
    getLines (printMaps mappings) = mappings.map printLine := by
  have hlines : ∀ line ∈ mappings.map printLine, newline ∉ line := by
    intro line hline
    obtain ⟨m, -, rfl⟩ := List.mem_map.mp hline
    exact newline_notMem_printLine m
  exact getLines_flatMap_terminate hlines

/-- Two selections from a list, one of which takes nothing that the other leaves,
give the same items exactly when they agree on each. -/
theorem filterMap_eq_iff {A B : Type*} {left right : A → Option B} {items : List A}
    (hnone : ∀ item ∈ items, right item = none → left item = none) :
    items.filterMap left = items.filterMap right ↔ ∀ item ∈ items, left item = right item := by
  constructor
  · intro heq
    induction items with
    | nil => exact fun item hitem => absurd hitem List.not_mem_nil
    | cons item items ih =>
        rw [List.forall_mem_cons] at hnone ⊢
        have hle : (items.filterMap left).length ≤ (items.filterMap right).length := by
          rw [List.length_filterMap_eq_countP, List.length_filterMap_eq_countP]
          apply List.countP_mono_left
          intro other hother hsome
          rw [Option.isSome_iff_ne_none] at hsome ⊢
          exact mt (hnone.2 other hother) hsome
        cases hright : right item with
        | none =>
            have hleft := hnone.1 hright
            rw [List.filterMap_cons_none hleft, List.filterMap_cons_none hright] at heq
            exact ⟨hleft, ih hnone.2 heq⟩
        | some value =>
            cases hleft : left item with
            | none =>
                rw [List.filterMap_cons_none hleft, List.filterMap_cons_some hright] at heq
                rw [heq, List.length_cons] at hle
                omega
            | some other =>
                rw [List.filterMap_cons_some hleft, List.filterMap_cons_some hright,
                  List.cons.injEq] at heq
                exact ⟨congrArg some heq.1, ih hnone.2 heq.2⟩
  · exact List.filterMap_congr

/-- The mappings that are kept are the wanted ones exactly when the pathname of
each of these is one word. -/
theorem maps_read_back_iff (mappings : List PrintedMapping) :
    (load (some (printMaps mappings))).1 = mappings.filterMap wantedMapping ↔
      ∀ m ∈ mappings, Wanted m → OneWord m := by
  have hload : (load (some (printMaps mappings))).1 =
      mappings.filterMap fun m => loadLine (printLine m) := by
    simp only [load, getLines_printMaps, List.filterMap_map, Function.comp_def]
  have hnone : ∀ m ∈ mappings, wantedMapping m = none → loadLine (printLine m) = none := by
    intro m _ hwanted
    apply loadLine_eq_none
    simpa [wantedMapping] using hwanted
  rw [hload, filterMap_eq_iff hnone]
  exact forall₂_congr fun m _ => loadLine_eq_wanted_iff m

/-- A library whose name has a blank. -/
def blankInName : PrintedMapping where
  start := 0x7f0000001000
  endAddr := 0x7f0000002000
  read := true
  write := false
  exec := true
  shared := false
  offset := 0x1000
  major := 8
  minor := 1
  inode := 77
  blanks := 4
  pathname := ascii "/tmp/my lib.so"
  oneLine := by decide
  bounded := by decide
  separated := by decide

/-- The mapping is kept under the part of its name in front of the blank. -/
theorem pathname_cut_at_blank :
    (load (some (printMaps [blankInName]))).1 =
        [⟨0x7f0000001000, 0x7f0000002000, 0x1000, ascii "/tmp/my"⟩] ∧
      [blankInName].filterMap wantedMapping =
        [⟨0x7f0000001000, 0x7f0000002000, 0x1000, ascii "/tmp/my lib.so"⟩] := by
  decide +kernel

end KernelScope.ProcMaps
