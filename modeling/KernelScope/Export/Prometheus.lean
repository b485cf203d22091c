import KernelScope.Core.Aggregation
import KernelScope.Core.SyscallNames
import KernelScope.Library.Exposition
import KernelScope.Library.Numerals

/-!
# The Prometheus exporter

`export/prometheus_export.cpp` prints four metrics of every process and two of
every system call.  The order in which a hash map is walked is not specified,
so the exporter is given one; the map does not change during a call, and the
loops over one map walk it in the same order.

Read back, the text has one sample for each entry of the map a metric is about,
and the labels of a metric's samples are pairwise different.
-/

namespace KernelScope.Prometheus

open KernelScope.Aggregation
open KernelScope.Decimal
open KernelScope.Exposition
open KernelScope.KeyedFold
open KernelScope.Numerals
open KernelScope.SyscallNames

/-! ## The exporter -/

/-- The loop body of `escape_label`. -/
def appendEscaped (out : List UInt8) (c : UInt8) : List UInt8 :=
  if c = backslash then out ++ ascii "\\\\"
  else if c = quote then out ++ ascii "\\\""
  else if c = newline then out ++ ascii "\\n"
  else out ++ [c]

def escapeLabel (s : List UInt8) : List UInt8 :=
  s.foldl appendEscaped []

/-- `static_cast<double>(ns) / 1e9` printed with `{:.9f}`. -/
def seconds (ns : UInt64) : List UInt8 :=
  let (num, den) := nearest ns.toNat 1
  let (num, den) := nearest num (den * 1000000000)
  fixed 9 num den

/-- The fixed texts of a metric, and what it prints of an entry. -/
structure Metric (Stats : Type) where
  name : String
  help : String
  type : String
  value : Stats → List UInt8

def eventsTotal : Metric ProcessStats where
  name := "kscope_events_total"
  help := "Total slow events per process."
  type := "counter"
  value ps := decimal ps.slowEventCount.toNat

def syscallSecondsTotal : Metric ProcessStats where
  name := "kscope_syscall_seconds_total"
  help := "Total syscall latency per process."
  type := "counter"
  value ps := seconds ps.totalSyscallNs

def offcpuSecondsTotal : Metric ProcessStats where
  name := "kscope_offcpu_seconds_total"
  help := "Total off-CPU time per process."
  type := "counter"
  value ps := seconds ps.totalOffcpuNs

def maxLatencySeconds : Metric ProcessStats where
  name := "kscope_max_latency_seconds"
  help := "Maximum single-event latency."
  type := "gauge"
  value ps := seconds ps.maxLatencyNs

def syscallCallsTotal : Metric SyscallStats where
  name := "kscope_syscall_calls_total"
  help := "Syscall invocation count."
  type := "counter"
  value sc := decimal sc.count.toNat

def syscallDurationSecondsTotal : Metric SyscallStats where
  name := "kscope_syscall_duration_seconds_total"
  help := "Total time in syscall."
  type := "counter"
  value sc := seconds sc.totalNs

section Metric

variable {Stats : Type} (metric : Metric Stats)

def Metric.header : List UInt8 :=
  ascii ("# HELP " ++ metric.name ++ " " ++ metric.help ++ "\n") ++
    ascii ("# TYPE " ++ metric.name ++ " " ++ metric.type ++ "\n")

/-- A header and a line for each entry. -/
def Metric.block (line : Stats → List UInt8) (entries : List Stats) :
    List UInt8 :=
  metric.header ++ entries.flatMap line

end Metric

def processLine (metric : Metric ProcessStats) (ps : ProcessStats) :
    List UInt8 :=
  ascii (metric.name ++ "\x7bpid=\"") ++ decimal ps.pid.toNat ++
    ascii "\",comm=\"" ++ escapeLabel ps.comm ++ ascii "\"\x7d " ++
      metric.value ps ++ ascii "\n"

def syscallLine (metric : Metric SyscallStats) (sc : SyscallStats) :
    List UInt8 :=
  ascii (metric.name ++ "\x7bsyscall=\"") ++ ascii (syscallName sc.syscallId) ++
    ascii "\"\x7d " ++ metric.value sc ++ ascii "\n"

def processMetrics : List (Metric ProcessStats) :=
  [eventsTotal, syscallSecondsTotal, offcpuSecondsTotal, maxLatencySeconds]

def syscallMetrics : List (Metric SyscallStats) :=
  [syscallCallsTotal, syscallDurationSecondsTotal]

def exportPrometheus (agg : Aggregator) (procs : Enumeration agg.procs)
    (syscalls : Enumeration agg.syscalls) : List UInt8 :=
  (processMetrics.flatMap fun metric =>
      metric.block (processLine metric) (procs.entries.map Sigma.snd)) ++
    syscallMetrics.flatMap fun metric =>
      metric.block (syscallLine metric) (syscalls.entries.map Sigma.snd)

/-! ## The document -/

theorem foldl_appendEscaped (s out : List UInt8) :
    s.foldl appendEscaped out = out ++ escape s := by
  induction s generalizing out with
  | nil => exact (List.append_nil out).symm
  | cons c s ih =>
      have hbyte : appendEscaped out c = out ++ escapeByte c := by
        unfold appendEscaped escapeByte
        split_ifs <;> rfl
      calc (c :: s).foldl appendEscaped out
          = s.foldl appendEscaped (out ++ escapeByte c) := by
            rw [List.foldl_cons, hbyte]
        _ = out ++ escapeByte c ++ escape s := ih _
        _ = out ++ escape (c :: s) := by
            rw [escape, escape, List.flatMap_cons, List.append_assoc]

theorem escapeLabel_eq (s : List UInt8) : escapeLabel s = escape s :=
  foldl_appendEscaped s []

/-- The family that a metric is printed as, given the labels of an entry. -/
def Metric.family {Stats K : Type} (metric : Metric Stats)
    (labels : (Σ _ : K, Stats) → List Label) (entries : List (Σ _ : K, Stats)) :
    Family where
  name := ascii metric.name
  help := ascii metric.help
  type := ascii metric.type
  rows := entries.map fun entry => (labels entry, metric.value entry.2)

theorem ascii_newline : ascii "\n" = [newline] := by decide

/-- The text between the last label value and the sample's value. -/
theorem ascii_labelsEnd : ascii "\"\x7d " = [quote, closeBrace, space] := by decide

theorem header_eq {Stats : Type} (metric : Metric Stats) :
    metric.header =
      terminate (numberSign :: (ascii " HELP " ++ ascii metric.name ++ ascii " " ++
        ascii metric.help)) ++
      terminate (numberSign :: (ascii " TYPE " ++ ascii metric.name ++ ascii " " ++
        ascii metric.type)) := by
  have hhelp : ascii "# HELP " = numberSign :: ascii " HELP " := by decide
  have htype : ascii "# TYPE " = numberSign :: ascii " TYPE " := by decide
  simp only [Metric.header, ascii_append, hhelp, htype, ascii_newline, terminate,
    List.cons_append]

theorem block_eq {Stats K : Type} {metric : Metric Stats}
    {line : Stats → List UInt8} {labels : (Σ _ : K, Stats) → List Label}
    {entries : List (Σ _ : K, Stats)}
    (hline : ∀ entry ∈ entries, line entry.2 =
      terminate (writeSample ⟨ascii metric.name, labels entry, metric.value entry.2⟩)) :
    metric.block line (entries.map Sigma.snd) =
      write (metric.family labels entries).lines := by
  have hlines : (entries.map Sigma.snd).flatMap line = entries.flatMap fun entry =>
      terminate (writeSample ⟨ascii metric.name, labels entry, metric.value entry.2⟩) := by
    rw [List.flatMap_map]
    exact List.flatMap_congr hline
  rw [Metric.block, header_eq, hlines]
  simp only [write, Family.lines, Family.samples, Metric.family, List.map_cons,
    List.map_map, List.flatMap_cons, List.flatMap_map, List.append_assoc]
  rfl

theorem isPlain_of_isNumeric {c : UInt8} (hc : IsNumeric c) : IsPlain c := by
  refine ⟨?_, ?_, ?_⟩ <;> rintro rfl <;> revert hc <;> decide

theorem escape_decimal (n : ℕ) : escape (decimal n) = decimal n :=
  escape_eq_self fun c hc => isPlain_of_isNumeric (isNumeric_decimal c hc)

theorem escape_syscallName (id : UInt64) :
    escape (ascii (syscallName id)) = ascii (syscallName id) := by
  apply escape_eq_self
  apply forall_mem_syscallName
  · decide +kernel
  · decide
  · exact fun number c hc => isPlain_of_isNumeric (isNumeric_decimal c hc)

def processLabels (entry : Σ _ : UInt32, ProcessStats) : List Label :=
  [(ascii "pid", decimal entry.1.toNat), (ascii "comm", entry.2.comm)]

def syscallLabels (entry : Σ _ : UInt64, SyscallStats) : List Label :=
  [(ascii "syscall", ascii (syscallName entry.1))]

/-- The families of a whole export. -/
def families {agg : Aggregator} (procs : Enumeration agg.procs)
    (syscalls : Enumeration agg.syscalls) : List Family :=
  processMetrics.map (fun metric => metric.family processLabels procs.entries) ++
    syscallMetrics.map fun metric => metric.family syscallLabels syscalls.entries

theorem processLine_eq (metric : Metric ProcessStats)
    {entry : Σ _ : UInt32, ProcessStats} (hpid : entry.2.pid = entry.1) :
    processLine metric entry.2 =
      terminate (writeSample
        ⟨ascii metric.name, processLabels entry, metric.value entry.2⟩) := by
  have hopen : ascii "\x7bpid=\"" = openBrace :: (ascii "pid" ++ [equals, quote]) := by
    decide
  have hmiddle : ascii "\",comm=\"" =
      quote :: comma :: (ascii "comm" ++ [equals, quote]) := by decide
  simp only [processLine, writeSample, processLabels, writeLabels, writeLabel,
    terminate, ascii_append, escapeLabel_eq, hpid, hopen, hmiddle, ascii_labelsEnd,
    ascii_newline, escape_decimal, List.append_assoc, List.cons_append, List.nil_append]

theorem syscallLine_eq (metric : Metric SyscallStats)
    {entry : Σ _ : UInt64, SyscallStats} (hid : entry.2.syscallId = entry.1) :
    syscallLine metric entry.2 =
      terminate (writeSample
        ⟨ascii metric.name, syscallLabels entry, metric.value entry.2⟩) := by
  have hopen : ascii "\x7bsyscall=\"" =
      openBrace :: (ascii "syscall" ++ [equals, quote]) := by decide
  simp only [syscallLine, writeSample, syscallLabels, writeLabels, writeLabel,
    terminate, ascii_append, hid, hopen, ascii_labelsEnd, ascii_newline,
    escape_syscallName, List.append_assoc, List.cons_append, List.nil_append]

theorem exportPrometheus_eq {agg : Aggregator} (procs : Enumeration agg.procs)
    (syscalls : Enumeration agg.syscalls)
    (hpids : ∀ entry ∈ procs.entries, entry.2.pid = entry.1)
    (hids : ∀ entry ∈ syscalls.entries, entry.2.syscallId = entry.1) :
    exportPrometheus agg procs syscalls = writeFamilies (families procs syscalls) := by
  rw [writeFamilies_eq, families, List.flatMap_append, List.flatMap_map,
    List.flatMap_map, exportPrometheus]
  refine congrArg₂ (· ++ ·) ?_ ?_
  · refine List.flatMap_congr fun metric _ => ?_
    exact block_eq fun entry hentry => processLine_eq metric (hpids entry hentry)
  · refine List.flatMap_congr fun metric _ => ?_
    exact block_eq fun entry hentry => syscallLine_eq metric (hids entry hentry)

/-! ## Reading it back -/

theorem isNumeric_seconds {ns : UInt64} : ∀ c ∈ seconds ns, IsNumeric c :=
  isNumeric_fixed

/-- The fixed texts of a metric keep to their lines, its name can be told from a
comment and from what follows, and its values are numbers. -/
structure Metric.Plain {Stats : Type} (metric : Metric Stats) : Prop where
  texts : newline ∉ ascii metric.name ∧ newline ∉ ascii metric.help ∧
    newline ∉ ascii metric.type
  name : openBrace ∉ ascii metric.name
  notComment : (ascii metric.name).head? ≠ some numberSign
  value : ∀ stats, ∀ c ∈ metric.value stats, IsNumeric c

theorem plain_processMetrics : ∀ metric ∈ processMetrics, metric.Plain := by
  simp only [processMetrics, List.forall_mem_cons]
  refine ⟨?_, ?_, ?_, ?_, fun _ hnil => absurd hnil List.not_mem_nil⟩
  · exact ⟨by decide, by decide, by decide, fun _ => isNumeric_decimal⟩
  · exact ⟨by decide, by decide, by decide, fun _ => isNumeric_seconds⟩
  · exact ⟨by decide, by decide, by decide, fun _ => isNumeric_seconds⟩
  · exact ⟨by decide, by decide, by decide, fun _ => isNumeric_seconds⟩

theorem plain_syscallMetrics : ∀ metric ∈ syscallMetrics, metric.Plain := by
  simp only [syscallMetrics, List.forall_mem_cons]
  refine ⟨?_, ?_, fun _ hnil => absurd hnil List.not_mem_nil⟩
  · exact ⟨by decide, by decide, by decide, fun _ => isNumeric_decimal⟩
  · exact ⟨by decide, by decide, by decide, fun _ => isNumeric_seconds⟩

/-- There is a label, and the names of the labels can be told from what
follows. -/
def LabelsPlain (labels : List Label) : Prop :=
  labels ≠ [] ∧ ∀ label ∈ labels, equals ∉ label.1 ∧ newline ∉ label.1

theorem labelsPlain_processLabels (entry : Σ _ : UInt32, ProcessStats) :
    LabelsPlain (processLabels entry) := by
  refine ⟨List.cons_ne_nil _ _, ?_⟩
  simp only [processLabels, List.forall_mem_cons, List.not_mem_nil]
  exact ⟨by decide, by decide, by simp⟩

theorem labelsPlain_syscallLabels (entry : Σ _ : UInt64, SyscallStats) :
    LabelsPlain (syscallLabels entry) := by
  refine ⟨List.cons_ne_nil _ _, ?_⟩
  simp only [syscallLabels, List.forall_mem_cons, List.not_mem_nil]
  exact ⟨by decide, by simp⟩

theorem sample_wellFormed {Stats : Type} {metric : Metric Stats}
    (hplain : metric.Plain) {labels : List Label} (hlabels : LabelsPlain labels)
    (stats : Stats) :
    Sample.WellFormed ⟨ascii metric.name, labels, metric.value stats⟩ where
  name := hplain.name
  notComment := hplain.notComment
  labels := hlabels.1
  labelNames label hlabel := (hlabels.2 label hlabel).1
  oneLine := ⟨hplain.texts.1, fun label hlabel => (hlabels.2 label hlabel).2,
    fun hmem => absurd (hplain.value _ _ hmem) (by decide)⟩

theorem family_wellFormed {Stats K : Type} {metric : Metric Stats}
    (hplain : metric.Plain) {labels : (Σ _ : K, Stats) → List Label}
    (hlabels : ∀ entry, LabelsPlain (labels entry))
    (entries : List (Σ _ : K, Stats)) :
    (metric.family labels entries).WellFormed := by
  refine ⟨hplain.texts.2.1, hplain.texts.2.2, ?_, hplain.texts.1⟩
  intro s hs
  obtain ⟨row, hrow, rfl⟩ := List.mem_map.mp hs
  obtain ⟨entry, -, rfl⟩ := List.mem_map.mp hrow
  exact sample_wellFormed hplain (hlabels entry) entry.2

theorem names_nodup {agg : Aggregator} (procs : Enumeration agg.procs)
    (syscalls : Enumeration agg.syscalls) :
    ((families procs syscalls).map Family.name).Nodup := by
  have hnames : (families procs syscalls).map Family.name =
      (processMetrics.map fun metric => ascii metric.name) ++
        syscallMetrics.map fun metric => ascii metric.name := by
    simp [families, Function.comp_def, Metric.family]
  rw [hnames]
  decide

theorem families_wellFormed {agg : Aggregator} (procs : Enumeration agg.procs)
    (syscalls : Enumeration agg.syscalls) :
    ∀ family ∈ families procs syscalls, family.WellFormed := by
  intro family hfamily
  rcases List.mem_append.mp hfamily with hfamily | hfamily
  · obtain ⟨metric, hmetric, rfl⟩ := List.mem_map.mp hfamily
    exact family_wellFormed (plain_processMetrics metric hmetric)
      labelsPlain_processLabels _
  · obtain ⟨metric, hmetric, rfl⟩ := List.mem_map.mp hfamily
    exact family_wellFormed (plain_syscallMetrics metric hmetric)
      labelsPlain_syscallLabels _

/-! ## Reachable states -/

/-- The document read back has exactly one sample of the metric for each entry,
and no two of them have the same label set. -/
structure HasSeries {Stats K : Type} (text : List UInt8) (name : String)
    (entries : List (Σ _ : K, Stats)) (labels : (Σ _ : K, Stats) → List Label)
    (value : Stats → List UInt8) : Prop where
  samples : samplesOf (ascii name) text =
    some (entries.map fun entry => ⟨ascii name, labels entry, value entry.2⟩)
  unique : (entries.map fun entry => (labels entry).toFinset).Nodup

theorem processLabels_nodup {agg : Aggregator} (procs : Enumeration agg.procs) :
    (procs.entries.map fun entry => (processLabels entry).toFinset).Nodup := by
  apply procs.nodup_map
  intro one _ other _ heq
  -- the pid label of one entry is among the labels of the other, and is not its comm
  have hmem : (ascii "pid", decimal one.1.toNat) ∈ (processLabels other).toFinset := by
    rw [← heq]
    simp [processLabels]
  have hnames : ascii "pid" ≠ ascii "comm" := by decide
  simp only [processLabels, List.mem_toFinset, List.mem_cons, Prod.mk.injEq, true_and,
    hnames, false_and, List.not_mem_nil, or_false] at hmem
  exact UInt32.toNat_inj.mp (decimal_injective hmem)

theorem syscallLabels_nodup {agg : Aggregator} (syscalls : Enumeration agg.syscalls) :
    (syscalls.entries.map fun entry => (syscallLabels entry).toFinset).Nodup := by
  apply syscalls.nodup_map
  intro one _ other _ heq
  have hmem : (ascii "syscall", ascii (syscallName one.1)) ∈
      (syscallLabels other).toFinset := by
    rw [← heq]
    simp [syscallLabels]
  simp only [syscallLabels, List.mem_toFinset, List.mem_singleton, Prod.mk.injEq,
    true_and] at hmem
  exact syscallName_injective (ascii_injective hmem)

/-- The samples of a family are its entries', in order. -/
theorem samples_family {Stats K : Type} (metric : Metric Stats)
    (labels : (Σ _ : K, Stats) → List Label) (entries : List (Σ _ : K, Stats)) :
    (metric.family labels entries).samples =
      entries.map fun entry => ⟨ascii metric.name, labels entry, metric.value entry.2⟩ := by
  rw [Family.samples, Metric.family, List.map_map]
  rfl

/-- Whatever calls led to an aggregator, and in whatever order its maps are
walked, the exported text has for each metric exactly one sample per entry, the
samples of a metric have pairwise different label sets, and the counters are
the counts of their entries. -/
theorem series_unique_complete (ops : List Op) :
    let agg := StepRun.run exec Aggregator.fresh ops
    ∀ (procs : Enumeration agg.procs) (syscalls : Enumeration agg.syscalls),
      let text := exportPrometheus agg procs syscalls
      (∀ metric ∈ processMetrics,
        HasSeries text metric.name procs.entries processLabels metric.value) ∧
      (∀ metric ∈ syscallMetrics,
        HasSeries text metric.name syscalls.entries syscallLabels metric.value) ∧
      HasSeries text "kscope_events_total" procs.entries processLabels
        (fun ps => decimal ps.slowEventCount.toNat) ∧
      HasSeries text "kscope_syscall_calls_total" syscalls.entries syscallLabels
        (fun sc => decimal sc.count.toNat) := by
  intro agg procs syscalls text
  have hagg : agg = feed (ledger [] ops) := run_exec [] ops
  have htext : text = writeFamilies (families procs syscalls) := by
    apply exportPrometheus_eq
    · intro entry hentry
      have hlookup := procs.mem_entries.mp hentry
      rw [hagg] at hlookup
      exact pid_eq_key hlookup
    · intro entry hentry
      have hlookup := syscalls.mem_entries.mp hentry
      rw [hagg] at hlookup
      exact syscallId_eq_key hlookup
  have hread : ∀ family ∈ families procs syscalls,
      samplesOf family.name text = some family.samples := by
    intro family hfamily
    rw [htext]
    exact samplesOf_writeFamilies (families_wellFormed procs syscalls)
      (names_nodup procs syscalls) hfamily
  have hprocess : ∀ metric ∈ processMetrics,
      HasSeries text metric.name procs.entries processLabels metric.value := by
    intro metric hmetric
    refine ⟨?_, processLabels_nodup procs⟩
    rw [← samples_family]
    exact hread (metric.family processLabels procs.entries)
      (List.mem_append_left _ (List.mem_map_of_mem hmetric))
  have hsyscall : ∀ metric ∈ syscallMetrics,
      HasSeries text metric.name syscalls.entries syscallLabels metric.value := by
    intro metric hmetric
    refine ⟨?_, syscallLabels_nodup syscalls⟩
    rw [← samples_family]
    exact hread (metric.family syscallLabels syscalls.entries)
      (List.mem_append_right _ (List.mem_map_of_mem hmetric))
  exact ⟨hprocess, hsyscall, hprocess eventsTotal (by simp [processMetrics]),
    hsyscall syscallCallsTotal (by simp [syscallMetrics])⟩

/-! ## Lines -/

/-- What a line of `kscope_events_total` says: pid, comm and count. -/
def readEventsTotal (line : List UInt8) : Option (ℕ × List UInt8 × ℕ) := do
  let s ← readSample line
  if s.name ≠ ascii "kscope_events_total" then none
  else
    match s.labels with
    | [(pidName, pid), (commName, comm)] =>
        if pidName = ascii "pid" ∧ commName = ascii "comm" then do
          let pid ← readNumeral 10 pid
          let count ← readNumeral 10 s.value
          some (pid, comm, count)
        else none
    | _ => none

/-- The texts that are appended to the output for a metric, one after the
other. -/
def Metric.pieces {Stats : Type} (metric : Metric Stats) (line : Stats → List UInt8)
    (entries : List Stats) : List (List UInt8) :=
  ascii ("# HELP " ++ metric.name ++ " " ++ metric.help ++ "\n") ::
    ascii ("# TYPE " ++ metric.name ++ " " ++ metric.type ++ "\n") ::
      entries.map line

/-- The texts of a whole export. -/
def exportPieces (agg : Aggregator) (procs : Enumeration agg.procs)
    (syscalls : Enumeration agg.syscalls) : List (List UInt8) :=
  (processMetrics.flatMap fun metric =>
      metric.pieces (processLine metric) (procs.entries.map Sigma.snd)) ++
    syscallMetrics.flatMap fun metric =>
      metric.pieces (syscallLine metric) (syscalls.entries.map Sigma.snd)

theorem flatten_pieces {Stats : Type} (metric : Metric Stats)
    (line : Stats → List UInt8) (entries : List Stats) :
    (metric.pieces line entries).flatten = metric.block line entries := by
  rw [Metric.pieces, List.flatten_cons, List.flatten_cons, ← List.append_assoc,
    ← List.flatMap_def]
  rfl

theorem flatten_exportPieces (agg : Aggregator) (procs : Enumeration agg.procs)
    (syscalls : Enumeration agg.syscalls) :
    (exportPieces agg procs syscalls).flatten = exportPrometheus agg procs syscalls := by
  have hflatten : ∀ {Stats : Type} (metrics : List (Metric Stats))
      (line : Metric Stats → Stats → List UInt8) (entries : List Stats),
      (metrics.flatMap fun metric => metric.pieces (line metric) entries).flatten =
        metrics.flatMap fun metric => metric.block (line metric) entries := by
    intro Stats metrics line entries
    rw [← List.flatMap_id, List.flatMap_assoc]
    simp only [List.flatMap_id, flatten_pieces]
  rw [exportPieces, List.flatten_append, hflatten, hflatten, exportPrometheus]

/-- Every text that is appended is one line. -/
theorem terminated_pieces {Stats : Type} {metric : Metric Stats} (hplain : metric.Plain)
    {line : Stats → List UInt8}
    (hline : ∀ stats, ∃ s : Sample, s.WellFormed ∧ line stats = terminate (writeSample s))
    (entries : List Stats) :
    ∀ piece ∈ metric.pieces line entries,
      ∃ text, newline ∉ text ∧ piece = terminate text := by
  have hcomment : ∀ head ∈ ["# HELP ", "# TYPE "], ∀ text, newline ∉ ascii text →
      ∃ line, newline ∉ line ∧
        ascii (head ++ metric.name ++ " " ++ text ++ "\n") = terminate line := by
    intro head hhead text htext
    have hfree : ∀ head ∈ ["# HELP ", "# TYPE "], newline ∉ ascii head := by decide
    refine ⟨ascii (head ++ metric.name ++ " " ++ text), ?_, ?_⟩
    · simp only [ascii_append, List.mem_append, not_or]
      exact ⟨⟨⟨hfree head hhead, hplain.texts.1⟩, by decide⟩, htext⟩
    · rw [ascii_append, ascii_newline, terminate]
  rw [Metric.pieces, List.forall_mem_cons, List.forall_mem_cons]
  refine ⟨hcomment _ (by simp) _ hplain.texts.2.1,
    hcomment _ (by simp) _ hplain.texts.2.2, ?_⟩
  intro piece hpiece
  obtain ⟨stats, -, rfl⟩ := List.mem_map.mp hpiece
  obtain ⟨s, hs, hwritten⟩ := hline stats
  exact ⟨writeSample s, newline_notMem_writeSample hs, hwritten⟩

theorem terminated_exportPieces (agg : Aggregator) (procs : Enumeration agg.procs)
    (syscalls : Enumeration agg.syscalls) :
    ∀ piece ∈ exportPieces agg procs syscalls,
      ∃ text, newline ∉ text ∧ piece = terminate text := by
  intro piece hpiece
  rcases List.mem_append.mp hpiece with hpiece | hpiece
  · obtain ⟨metric, hmetric, hpiece⟩ := List.mem_flatMap.mp hpiece
    have hplain := plain_processMetrics metric hmetric
    refine terminated_pieces hplain (fun ps => ?_) _ piece hpiece
    exact ⟨_, sample_wellFormed hplain (labelsPlain_processLabels ⟨ps.pid, ps⟩) ps,
      @processLine_eq metric ⟨ps.pid, ps⟩ rfl⟩
  · obtain ⟨metric, hmetric, hpiece⟩ := List.mem_flatMap.mp hpiece
    have hplain := plain_syscallMetrics metric hmetric
    refine terminated_pieces hplain (fun sc => ?_) _ piece hpiece
    exact ⟨_, sample_wellFormed hplain (labelsPlain_syscallLabels ⟨sc.syscallId, sc⟩) sc,
      @syscallLine_eq metric ⟨sc.syscallId, sc⟩ rfl⟩

theorem eventsTotal_line_read (ps : ProcessStats) :
    ∃ line, newline ∉ line ∧ processLine eventsTotal ps = terminate line ∧
      readEventsTotal line = some (ps.pid.toNat, ps.comm, ps.slowEventCount.toNat) := by
  have hplain := plain_processMetrics eventsTotal (by simp [processMetrics])
  have hsample := sample_wellFormed hplain (labelsPlain_processLabels ⟨ps.pid, ps⟩) ps
  refine ⟨_, newline_notMem_writeSample hsample,
    @processLine_eq eventsTotal ⟨ps.pid, ps⟩ rfl, ?_⟩
  rw [readEventsTotal, readSample_writeSample hsample]
  simp [processLabels, eventsTotal, readNumeral_decimal]

theorem lines_exportPrometheus (agg : Aggregator) (procs : Enumeration agg.procs)
    (syscalls : Enumeration agg.syscalls) :
    lines (exportPrometheus agg procs syscalls) =
      (exportPieces agg procs syscalls).map List.dropLast := by
  rw [← flatten_exportPieces, lines_flatten (terminated_exportPieces agg procs syscalls)]

theorem processLine_mem_exportPieces {agg : Aggregator} {procs : Enumeration agg.procs}
    (syscalls : Enumeration agg.syscalls) {metric : Metric ProcessStats}
    (hmetric : metric ∈ processMetrics) {entry : Σ _ : UInt32, ProcessStats}
    (hentry : entry ∈ procs.entries) :
    processLine metric entry.2 ∈ exportPieces agg procs syscalls := by
  refine List.mem_append_left _ (List.mem_flatMap.mpr ⟨metric, hmetric, ?_⟩)
  exact List.mem_cons_of_mem _ (List.mem_cons_of_mem _
    (List.mem_map_of_mem (List.mem_map_of_mem hentry)))

/-- The line of any process entry is read back as its pid, comm and count, the
lines of an export are the texts that it was put together from, and the line of
each of the entries is one of them. -/
theorem prometheus_lines_reversible :
    (∀ ps : ProcessStats, ∃ line, newline ∉ line ∧
      processLine eventsTotal ps = terminate line ∧
        readEventsTotal line = some (ps.pid.toNat, ps.comm, ps.slowEventCount.toNat)) ∧
    ∀ (agg : Aggregator) (procs : Enumeration agg.procs)
      (syscalls : Enumeration agg.syscalls),
      exportPrometheus agg procs syscalls = (exportPieces agg procs syscalls).flatten ∧
        lines (exportPrometheus agg procs syscalls) =
          (exportPieces agg procs syscalls).map List.dropLast ∧
        (∀ piece ∈ exportPieces agg procs syscalls, piece = terminate piece.dropLast) ∧
        ∀ entry ∈ procs.entries, ∃ line ∈ lines (exportPrometheus agg procs syscalls),
          processLine eventsTotal entry.2 = terminate line ∧
            readEventsTotal line =
              some (entry.2.pid.toNat, entry.2.comm, entry.2.slowEventCount.toNat) := by
  refine ⟨eventsTotal_line_read, ?_⟩
  intro agg procs syscalls
  refine ⟨(flatten_exportPieces agg procs syscalls).symm,
    lines_exportPrometheus agg procs syscalls, ?_, ?_⟩
  · intro piece hpiece
    obtain ⟨text, -, rfl⟩ := terminated_exportPieces agg procs syscalls piece hpiece
    simp [terminate]
  · intro entry hentry
    obtain ⟨line, -, hline, hread⟩ := eventsTotal_line_read entry.2
    refine ⟨line, ?_, hline, hread⟩
    rw [lines_exportPrometheus]
    refine List.mem_map.mpr ⟨processLine eventsTotal entry.2,
      processLine_mem_exportPieces syscalls (by simp [processMetrics]) hentry, ?_⟩
    rw [hline, terminate, List.dropLast_concat]

end KernelScope.Prometheus
