import KernelScope.Core.EntryFields
import KernelScope.Core.Percentiles
import KernelScope.Core.SyscallNames
import KernelScope.Core.TopQueries
import KernelScope.Library.Exposition
import KernelScope.Util.TimeFormat

/-!
# The screen of the system calls

`run_top_syscalls` redraws a screen with one row for each of the system calls that
took longest.  Names and numbers that are wider than their column shift the rest of
the row.  The words of a row are its fields all the same, and the rows say what the
events since the last reset say.
-/

namespace KernelScope.SyscallScreen

open KernelScope.Aggregation
open KernelScope.Columns
open KernelScope.Decimal
open KernelScope.EntryFields
open KernelScope.Events
open KernelScope.Exposition
open KernelScope.KeyedFold
open KernelScope.Numerals
open KernelScope.Percentiles (percentile)
open KernelScope.Sorting
open KernelScope.SyscallNames
open KernelScope.TimeFormat
open KernelScope.TopQueries

/-! ## Printing -/

def averageNs (s : SyscallStats) : UInt64 :=
  if s.count > 0 then s.totalNs / s.count else 0

/-- The format `"  %-14s %10s %12s %12s %12s %12s %6s"`. -/
def printColumns (name count total average p95 max pids : List UInt8) : List UInt8 :=
  32 :: 32 :: (name.rightpad 14 32 ++ 32 :: (count.leftpad 10 32 ++ 32 ::
    (total.leftpad 12 32 ++ 32 :: (average.leftpad 12 32 ++ 32 :: (p95.leftpad 12 32 ++
      32 :: (max.leftpad 12 32 ++ 32 :: pids.leftpad 6 32))))))

/-- The row of a system call. -/
def printSyscall (s : SyscallStats) : List UInt8 :=
  printColumns (ascii (syscallName s.syscallId)) (decimal s.count.toNat)
    (formatDurationNs s.totalNs) (formatDurationNs (averageNs s))
    (formatDurationNs (percentile (Binary64.ofNat 95) s.latencyHist))
    (formatDurationNs s.maxNs) (decimal s.affectedPids.card)

/-- `"  [events: %lu received, %lu lost]"` -/
def printCounts (received lost : UInt64) : List UInt8 :=
  32 :: 32 :: (ascii "[events:" ++ 32 :: (decimal received.toNat ++ 32 :: (ascii "received," ++
    32 :: (decimal lost.toNat ++ 32 :: ascii "lost]"))))

/-- The lines above the rows; the first one clears the screen. -/
def heading : List (List UInt8) :=
  [ascii "\x1b[2J\x1b[H\x1b[1mKernelScope — Top Syscalls by Latency\x1b[0m", [],
    printColumns (ascii "SYSCALL") (ascii "COUNT") (ascii "TOTAL") (ascii "AVG") (ascii "P95")
      (ascii "MAX") (ascii "PIDS"),
    printColumns (ascii "───────") (ascii "─────") (ascii "─────") (ascii "───") (ascii "───")
      (ascii "───") (ascii "────")]

/-- `print_syscall_table` -/
def printSyscallTable (scs : List SyscallStats) (received lost : UInt64) : List UInt8 :=
  (heading ++ scs.map printSyscall ++ [[], printCounts received lost]).flatMap terminate

/-! ## Reading -/

structure SyscallRow where
  name : List UInt8
  count : ℕ
  totalNs : ℚ
  averageNs : ℚ
  p95Ns : ℚ
  maxNs : ℚ
  pids : ℕ

def readSyscall (line : List UInt8) : Option SyscallRow :=
  match words line with
  | [name, count, total, average, p95, max, pids] => do
      let count ← readNumeral 10 count
      let total ← readDuration total
      let average ← readDuration average
      let p95 ← readDuration p95
      let max ← readDuration max
      let pids ← readNumeral 10 pids
      some ⟨name, count, total, average, p95, max, pids⟩
  | _ => none

def readCounts (line : List UInt8) : Option (ℕ × ℕ) :=
  match words line with
  | [_, received, _, lost, _] => do
      let received ← readNumeral 10 received
      let lost ← readNumeral 10 lost
      some (received, lost)
  | _ => none

/-- The rows between the heading and the next empty line, and the numbers below. -/
def readScreen (text : List UInt8) : Option (List SyscallRow × ℕ × ℕ) :=
  let body := ((text.splitOn newline).drop 4)
  match body.dropWhile (· ≠ []) with
  | _ :: counts :: _ => do
      let rows ← (body.takeWhile (· ≠ [])).mapM readSyscall
      let counts ← readCounts counts
      some (rows, counts)
  | _ => none

/-- What the row of an entry says. -/
def syscallRow (s : SyscallStats) : SyscallRow where
  name := ascii (syscallName s.syscallId)
  count := s.count.toNat
  totalNs := shownNs s.totalNs
  averageNs := shownNs (averageNs s)
  p95Ns := shownNs (percentile (Binary64.ofNat 95) s.latencyHist)
  maxNs := shownNs s.maxNs
  pids := s.affectedPids.card

theorem words_printColumns {name count total average p95 max pids : List UInt8}
    (hname : IsWord name) (hcount : IsWord count) (htotal : IsWord total)
    (haverage : IsWord average) (hp95 : IsWord p95) (hmax : IsWord max) (hpids : IsWord pids) :
    words (printColumns name count total average p95 max pids) =
      [name, count, total, average, p95, max, pids] := by
  simp only [printColumns, words_cons_blank, words_append_blank, words_rightpad hname,
    words_leftpad hcount, words_leftpad htotal, words_leftpad haverage, words_leftpad hp95,
    words_leftpad hmax, words_leftpad hpids, List.singleton_append]

theorem readSyscall_printSyscall (s : SyscallStats) :
    readSyscall (printSyscall s) = some (syscallRow s) := by
  have hwords := words_printColumns (isWord_syscallName s.syscallId)
    (isWord_decimal s.count.toNat) (isWord_formatDurationNs s.totalNs)
    (isWord_formatDurationNs (averageNs s))
    (isWord_formatDurationNs (percentile (Binary64.ofNat 95) s.latencyHist))
    (isWord_formatDurationNs s.maxNs) (isWord_decimal s.affectedPids.card)
  simp only [readSyscall, printSyscall, hwords, readNumeral_decimal,
    readDuration_formatDurationNs, Option.bind_eq_bind, Option.bind_some]
  rfl

theorem readCounts_printCounts (received lost : UInt64) :
    readCounts (printCounts received lost) = some (received.toNat, lost.toNat) := by
  have hevents : IsWord (ascii "[events:") := ⟨by decide, by decide, by decide⟩
  have hreceived : IsWord (ascii "received,") := ⟨by decide, by decide, by decide⟩
  have hlost : IsWord (ascii "lost]") := ⟨by decide, by decide, by decide⟩
  have hwords : words (printCounts received lost) =
      [ascii "[events:", decimal received.toNat, ascii "received,", decimal lost.toNat,
        ascii "lost]"] := by
    simp only [printCounts, words_cons_blank, words_append_blank, words_word hevents,
      words_word (isWord_decimal received.toNat), words_word hreceived,
      words_word (isWord_decimal lost.toNat), words_word hlost, List.singleton_append]
  simp only [readCounts, hwords, readNumeral_decimal, Option.bind_eq_bind, Option.bind_some]

/-! ## Screens -/

theorem newline_notMem_printColumns {name count total average p95 max pids : List UInt8}
    (hname : newline ∉ name) (hcount : newline ∉ count) (htotal : newline ∉ total)
    (haverage : newline ∉ average) (hp95 : newline ∉ p95) (hmax : newline ∉ max)
    (hpids : newline ∉ pids) :
    newline ∉ printColumns name count total average p95 max pids := by
  have hblank : newline ≠ 32 := by decide
  simp only [printColumns, List.mem_cons, List.mem_append, not_or]
  exact ⟨hblank, hblank, notMem_rightpad hname hblank 14, hblank,
    notMem_leftpad hcount hblank 10, hblank, notMem_leftpad htotal hblank 12, hblank,
    notMem_leftpad haverage hblank 12, hblank, notMem_leftpad hp95 hblank 12, hblank,
    notMem_leftpad hmax hblank 12, hblank, notMem_leftpad hpids hblank 6⟩

theorem newline_notMem_printSyscall (s : SyscallStats) : newline ∉ printSyscall s :=
  newline_notMem_printColumns (isWord_syscallName _).oneLine (isWord_decimal _).oneLine
    (isWord_formatDurationNs _).oneLine (isWord_formatDurationNs _).oneLine
    (isWord_formatDurationNs _).oneLine (isWord_formatDurationNs _).oneLine
    (isWord_decimal _).oneLine

theorem newline_notMem_printCounts (received lost : UInt64) :
    newline ∉ printCounts received lost := by
  have hblank : newline ≠ 32 := by decide
  simp only [printCounts, List.mem_cons, List.mem_append, not_or]
  exact ⟨hblank, hblank, by decide, hblank, (isWord_decimal _).oneLine, hblank, by decide,
    hblank, (isWord_decimal _).oneLine, hblank, by decide⟩

/-- Every screen reads as the rows of its entries and the two numbers. -/
theorem readScreen_printSyscallTable (scs : List SyscallStats) (received lost : UInt64) :
    readScreen (printSyscallTable scs received lost) =
      some (scs.map syscallRow, received.toNat, lost.toNat) := by
  have hlines : ∀ line ∈ heading ++ scs.map printSyscall ++ [[], printCounts received lost],
      newline ∉ line := by
    have hheading : ∀ line ∈ heading, newline ∉ line := by decide +kernel
    simp only [List.forall_mem_append, List.forall_mem_map, List.forall_mem_cons]
    refine ⟨⟨hheading, fun s _ => newline_notMem_printSyscall s⟩, by simp,
      newline_notMem_printCounts received lost, by simp⟩
  have hbody : ((printSyscallTable scs received lost).splitOn newline).drop 4 =
      scs.map printSyscall ++ [[], printCounts received lost, []] := by
    have hheight : heading.length = 4 := rfl
    rw [printSyscallTable, splitOn_flatMap_terminate hlines, List.append_assoc,
      List.append_assoc, ← hheight, List.drop_left]
    rfl
  have hrows : ∀ line ∈ scs.map printSyscall, decide (line ≠ []) = true := by
    intro line hline
    obtain ⟨s, -, rfl⟩ := List.mem_map.mp hline
    rfl
  have htake : (scs.map printSyscall ++ [[], printCounts received lost, []]).takeWhile
      (fun line => decide (line ≠ [])) = scs.map printSyscall := by
    rw [List.takeWhile_append_of_pos hrows]
    simp
  have hdrop : (scs.map printSyscall ++ [[], printCounts received lost, []]).dropWhile
      (fun line => decide (line ≠ [])) = [[], printCounts received lost, []] := by
    rw [List.dropWhile_append_of_pos hrows]
    rfl
  simp only [readScreen, hbody, htake, hdrop, mapM_map_eq_some readSyscall_printSyscall,
    readCounts_printCounts, Option.bind_eq_bind, Option.bind_some]

/-! ## Entries -/

/-- The row says what the calls of a system call say. -/
structure RowOf (id : UInt64) (calls : List Event) (row : SyscallRow) : Prop where
  name : row.name = ascii (syscallName id)
  nonempty : calls ≠ []
  count : row.count = calls.length % 2 ^ 64
  total : row.totalNs = shownNs (UInt64.ofNat (totalNs calls))
  max : ∃ longest ∈ calls, (∀ ev ∈ calls, ev.durationNs ≤ longest.durationNs) ∧
    row.maxNs = shownNs longest.durationNs
  pids : row.pids = (calls.map Event.pid).toFinset.card
  average : calls.length < 2 ^ 64 → row.averageNs ≤ row.maxNs

theorem totalNs_le {calls : List Event} {longest : ℕ}
    (hlongest : ∀ ev ∈ calls, ev.durationNs.toNat ≤ longest) :
    totalNs calls ≤ calls.length * longest := by
  have hsum := List.sum_le_card_nsmul (calls.map fun ev => ev.durationNs.toNat) longest
  rw [List.forall_mem_map, List.length_map, Nat.nsmul_eq_mul] at hsum
  exact hsum hlongest

/-- The average is that of a sum which may have wrapped around. -/
theorem averageNs_le_maxNs {calls : List Event} {s : SyscallStats}
    (hfields : SyscallFields calls s) (hshort : calls.length < 2 ^ 64) :
    averageNs s ≤ s.maxNs := by
  have hcount : s.count.toNat = calls.length := by
    rw [hfields.count, UInt64.toNat_ofNat_of_lt' hshort]
  have htotal : s.totalNs.toNat ≤ calls.length * s.maxNs.toNat := by
    rw [hfields.totalNs, UInt64.toNat_ofNat']
    exact (Nat.mod_le _ _).trans (totalNs_le fun ev hev => hfields.maxNs.2 ⟨ev, hev, rfl⟩)
  rw [averageNs]
  split
  · rw [UInt64.le_iff_toNat_le, UInt64.toNat_div, hcount]
    exact Nat.div_le_of_le_mul htotal
  · exact UInt64.zero_le

theorem rowOf_of_lookup {events : List Event} {id : UInt64} {s : SyscallStats}
    (hlookup : (feed events).syscalls.lookup id = some s) :
    RowOf id ((group Event.syscallId id events).filter isSyscall) (syscallRow s) := by
  have hfields := syscallFields_of_lookup hlookup
  obtain ⟨longest, hmem, hlongest⟩ := hfields.maxNs.1
  have hmax : longest.durationNs = s.maxNs := UInt64.toNat_inj.mp hlongest
  constructor
  case name => rw [syscallRow, syscallId_eq_key hlookup]
  case nonempty => exact List.ne_nil_of_mem hmem
  case count => rw [syscallRow, hfields.count, UInt64.toNat_ofNat']
  case total => rw [syscallRow, hfields.totalNs]
  case max =>
    refine ⟨longest, hmem, fun ev hev => ?_, by rw [syscallRow, hmax]⟩
    rw [hmax, UInt64.le_iff_toNat_le]
    exact hfields.maxNs.2 ⟨ev, hev, rfl⟩
  case pids =>
    have hpids : s.affectedPids = (List.map Event.pid
        ((group Event.syscallId id events).filter isSyscall)).toFinset := by
      ext pid
      rw [hfields.affectedPids, List.mem_toFinset, List.mem_map]
    rw [syscallRow, hpids]
  case average =>
    intro hshort
    exact Nat.cast_le.mpr (shownNs_mono (averageNs_le_maxNs hfields hshort))

/-! ## The rows of a screen -/

/-- The rows are those of the `n` system calls with the largest totals. -/
structure OnScreen (n : ℕ) (events : List Event) (rows : List SyscallRow) : Prop where
  length : rows.length = min n ((events.filter isSyscall).map Event.syscallId).toFinset.card
  names : (rows.map SyscallRow.name).Nodup
  sorted : rows.Pairwise fun upper lower => lower.totalNs ≤ upper.totalNs
  calls : ∀ row ∈ rows, ∃ id, RowOf id ((group Event.syscallId id events).filter isSyscall) row
  rest : ∀ id, (group Event.syscallId id events).filter isSyscall ≠ [] →
    ascii (syscallName id) ∉ rows.map SyscallRow.name → ∀ row ∈ rows,
      (shownNs (UInt64.ofNat
        (totalNs ((group Event.syscallId id events).filter isSyscall))) : ℚ) ≤ row.totalNs

theorem keys_feed_syscalls (events : List Event) :
    (feed events).syscalls.keys = ((events.filter isSyscall).map Event.syscallId).toFinset := by
  ext id
  rw [feed_syscalls, Finmap.mem_keys, mem_collect_empty, List.mem_toFinset, List.mem_map]

theorem onScreen_of_isTopOf {events : List Event} {n : ℕ} {top : List SyscallStats}
    (htop : IsTopOf (feed events).syscalls SyscallStats.syscallId (fun s => s.totalNs.toNat) n
      top) : OnScreen n events (top.map syscallRow) := by
  constructor
  case length => rw [List.length_map, htop.length, keys_feed_syscalls]
  case names =>
    have hnames : (top.map syscallRow).map SyscallRow.name =
        (top.map SyscallStats.syscallId).map fun id => ascii (syscallName id) := by
      rw [List.map_map, List.map_map]
      rfl
    rw [hnames]
    exact htop.distinct.map (ascii_injective.comp syscallName_injective)
  case sorted =>
    rw [List.pairwise_map]
    apply htop.sorted.imp
    intro upper lower hle
    exact Nat.cast_le.mpr (shownNs_mono (UInt64.le_iff_toNat_le.mpr hle))
  case calls =>
    intro row hrow
    obtain ⟨s, hs, rfl⟩ := List.mem_map.mp hrow
    exact ⟨s.syscallId, rowOf_of_lookup (htop.entries s hs)⟩
  case rest =>
    intro id hcalls hmissing row hrow
    obtain ⟨other, hother, rfl⟩ := List.mem_map.mp hrow
    obtain ⟨s, hlookup⟩ : ∃ s, (feed events).syscalls.lookup id = some s := by
      rw [feed_syscalls]
      exact ⟨_, lookup_collect_eq_some.mpr ⟨group_filter Event.syscallId id _ events ▸ hcalls, rfl⟩⟩
    have hnot : s ∉ top := by
      intro hs
      apply hmissing
      rw [List.map_map, ← syscallId_eq_key hlookup]
      exact List.mem_map_of_mem hs
    rw [← (syscallFields_of_lookup hlookup).totalNs]
    exact Nat.cast_le.mpr (shownNs_mono (UInt64.le_iff_toNat_le.mpr
      (htop.rest id s hlookup hnot other hother)))

/-- After every sequence of calls, the screen of the system calls can be read, and its
rows are those of the events since the last reset: as many as there is room for, with
different names, the largest totals first, each with the number, the sum and the
longest of the calls, and an average that is not above the longest. -/
theorem syscall_screen_reads_back (ops : List Op) (std : StdSort) (n : ℕ)
    (received lost : UInt64) :
    let agg := StepRun.run exec Aggregator.fresh ops
    ∀ syscalls : Enumeration agg.syscalls, ∃ rows,
      readScreen (printSyscallTable (topSyscalls std n syscalls) received lost) =
        some (rows, received.toNat, lost.toNat) ∧ OnScreen n (ledger [] ops) rows := by
  intro agg
  have hagg : agg = feed (ledger [] ops) := run_exec [] ops
  rw [hagg]
  intro syscalls
  have htop : IsTopOf (feed (ledger [] ops)).syscalls SyscallStats.syscallId
      (fun s => s.totalNs.toNat) n (topSyscalls std n syscalls) :=
    isTopOf_topEntries syscalls (fun _ _ => syscallId_eq_key) std
      (fun a b => totalCmp_iff a.totalNs b.totalNs) n
  exact ⟨_, readScreen_printSyscallTable _ received lost, onScreen_of_isTopOf htop⟩

end KernelScope.SyscallScreen
