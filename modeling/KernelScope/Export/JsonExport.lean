import KernelScope.Core.Aggregation
import KernelScope.Core.EventDecoder
import KernelScope.Core.Percentiles
import KernelScope.Core.SyscallNames
import KernelScope.Library.Documents
import Mathlib.Data.Finset.Sort

/-!
# JSON and OpenTelemetry exports

`export_json` and `export_otel` build a document from the aggregator and write
it.  The only strings of a document that are not fixed texts or names of system
calls are the names of processes, which are arbitrary bytes.
-/

namespace KernelScope.JsonExport

open KernelScope.Aggregation
open KernelScope.Documents
open KernelScope.EventDecoder
open KernelScope.Events
open KernelScope.KeyedFold
open KernelScope.Percentiles
open KernelScope.SyscallNames

/-! ## The documents -/

/-- `Histogram::percentile` of an integer. -/
def percentileOf (p : ℕ) (hist : Histograms.Histogram) : Json :=
  .number (percentile (Binary64.ofNat p) hist)

/-- An element of `processes`. -/
def processEntry (ps : ProcessStats) : Json :=
  .object [
    ("pid", .number ps.pid.toUInt64),
    ("comm", .string ps.comm),
    ("total_syscall_ns", .number ps.totalSyscallNs),
    ("total_offcpu_ns", .number ps.totalOffcpuNs),
    ("max_latency_ns", .number ps.maxLatencyNs),
    ("slow_event_count", .number ps.slowEventCount.toUInt64),
    ("p50_ns", percentileOf 50 ps.latencyHist),
    ("p95_ns", percentileOf 95 ps.latencyHist),
    ("p99_ns", percentileOf 99 ps.latencyHist)]

/-- The members of a set of process ids in increasing order. -/
def affectedPids (pids : Finset UInt32) : Json :=
  .array (((pids.image UInt32.toNat).sort (· ≤ ·)).map fun pid =>
    .number (UInt64.ofNat pid))

/-- An element of `syscalls`. -/
def syscallEntry (sc : SyscallStats) : Json :=
  let avg := if sc.count > 0 then sc.totalNs / sc.count else 0
  .object [
    ("syscall", .text (syscallName sc.syscallId)),
    ("syscall_id", .number sc.syscallId),
    ("count", .number sc.count),
    ("total_ns", .number sc.totalNs),
    ("avg_ns", .number avg),
    ("max_ns", .number sc.maxNs),
    ("p95_ns", percentileOf 95 sc.latencyHist),
    ("affected_pids", affectedPids sc.affectedPids)]

section Exports

variable (writer : Writer) {agg : Aggregator} (procs : Enumeration agg.procs)
  (syscalls : Enumeration agg.syscalls)

/-- The document of `export_json`. -/
def snapshot : Json :=
  .object [
    ("version", .text "1.0.0"),
    ("format", .text "kscope-snapshot"),
    ("processes", .array (procs.entries.map fun entry => processEntry entry.2)),
    ("syscalls", .array (syscalls.entries.map fun entry => syscallEntry entry.2)),
    ("diagnostics", .object [("total_events", .number agg.total)])]

/-- `export_json` -/
def exportJson : Option (List UInt8) :=
  writer.dump 2 (snapshot procs syscalls)

/-- `{{"key", key}, {"value", {{kind, value}}}}` -/
def keyValue (key kind : String) (value : Json) : Json :=
  .object [("key", .text key), ("value", .object [(kind, value)])]

/-- An element of `resource_spans`. -/
def resourceSpan (ps : ProcessStats) : Json :=
  .object [
    ("resource", .object [
      ("attributes", .array [
        keyValue "service.name" "stringValue" (.string ps.comm),
        keyValue "service.instance.id" "intValue" (.number ps.pid.toUInt64)])]),
    ("scopeSpans", .array [
      .object [
        ("scope", .object [("name", .text "kscope"), ("version", .text "1.0.0")]),
        ("spans", .array [
          .object [
            ("name", .text "process.latency_summary"),
            ("kind", .text "SPAN_KIND_INTERNAL"),
            ("attributes", .array [
              keyValue "kscope.total_syscall_ns" "intValue" (.number ps.totalSyscallNs),
              keyValue "kscope.total_offcpu_ns" "intValue" (.number ps.totalOffcpuNs),
              keyValue "kscope.max_latency_ns" "intValue" (.number ps.maxLatencyNs),
              keyValue "kscope.event_count" "intValue"
                (.number ps.slowEventCount.toUInt64),
              keyValue "kscope.p95_ns" "intValue" (percentileOf 95 ps.latencyHist),
              keyValue "kscope.p99_ns" "intValue" (percentileOf 99 ps.latencyHist)])]])]])]

/-- The document of `export_otel`. -/
def otelSummary : Json :=
  .object [
    ("schema_url", .text "https://opentelemetry.io/schemas/1.21.0"),
    ("resource_spans", .array (procs.entries.map fun entry => resourceSpan entry.2))]

/-- `export_otel` -/
def exportOtel : Option (List UInt8) :=
  writer.dump 2 (otelSummary procs)

end Exports

/-! ## The strings of a document -/

theorem valid_percentileOf (p : ℕ) (hist : Histograms.Histogram) :
    (percentileOf p hist).Valid :=
  valid_number _

theorem valid_processEntry (ps : ProcessStats) :
    (processEntry ps).Valid ↔ ValidUtf8 ps.comm := by
  simp [processEntry, valid_percentileOf]

theorem valid_affectedPids (pids : Finset UInt32) : (affectedPids pids).Valid := by
  simp [affectedPids]

theorem valid_syscallEntry (sc : SyscallStats) : (syscallEntry sc).Valid := by
  simp [syscallEntry, valid_percentileOf, valid_affectedPids]

@[simp]
theorem valid_keyValue (key kind : String) (value : Json) :
    (keyValue key kind value).Valid ↔ value.Valid := by
  simp [keyValue]

theorem valid_resourceSpan (ps : ProcessStats) :
    (resourceSpan ps).Valid ↔ ValidUtf8 ps.comm := by
  simp [resourceSpan, valid_percentileOf]

section Exports

variable {agg : Aggregator} (procs : Enumeration agg.procs)
  (syscalls : Enumeration agg.syscalls)

theorem valid_snapshot :
    (snapshot procs syscalls).Valid ↔
      ∀ entry ∈ procs.entries, ValidUtf8 entry.2.comm := by
  simp [snapshot, valid_array_map, valid_processEntry, valid_syscallEntry, -valid_array]

theorem valid_otelSummary :
    (otelSummary procs).Valid ↔
      ∀ entry ∈ procs.entries, ValidUtf8 entry.2.comm := by
  simp [otelSummary, valid_array_map, valid_resourceSpan, -valid_array]

end Exports

/-! ## The names of the processes -/

/-- The last event that was added to the entry of `pid`. -/
def lastTimed (pid : UInt32) (events : List Event) : Option Event :=
  (group Event.pid pid (events.filter isTimed)).getLast?

/-- A process is named by the last event that was added to its entry. -/
theorem comm_of_lookup {events : List Event} {pid : UInt32} {ps : ProcessStats}
    (hlookup : (feed events).procs.lookup pid = some ps) :
    ∃ ev, lastTimed pid events = some ev ∧ ps.comm = ev.commStr := by
  rw [feed_procs] at hlookup
  obtain ⟨ev, before, hlast, rfl⟩ := exists_last_of_lookup_collect hlookup
  exact ⟨ev, hlast, rfl⟩

theorem exists_process_of_lastTimed {events : List Event} {pid : UInt32} {ev : Event}
    (hlast : lastTimed pid events = some ev) :
    ∃ ps, (feed events).procs.lookup pid = some ps ∧ ps.comm = ev.commStr := by
  have hgroup : group Event.pid pid (events.filter isTimed) ≠ [] :=
    List.ne_nil_of_mem (List.mem_of_getLast? hlast)
  obtain ⟨ps, hlookup⟩ : ∃ ps, (feed events).procs.lookup pid = some ps := by
    rw [feed_procs]
    exact ⟨_, lookup_collect_eq_some.mpr ⟨hgroup, rfl⟩⟩
  obtain ⟨other, hother, hcomm⟩ := comm_of_lookup hlookup
  obtain rfl : ev = other := Option.some.inj (hlast.symm.trans hother)
  exact ⟨ps, hlookup, hcomm⟩

/-- The name that each process is left with is text. -/
def NamesValid (events : List Event) : Prop :=
  ∀ pid ev, lastTimed pid events = some ev → ValidUtf8 ev.commStr

theorem forall_comm_iff {events : List Event} (procs : Enumeration (feed events).procs) :
    (∀ entry ∈ procs.entries, ValidUtf8 entry.2.comm) ↔ NamesValid events := by
  constructor
  · intro hcomm pid ev hlast
    obtain ⟨ps, hlookup, heq⟩ := exists_process_of_lastTimed hlast
    exact heq ▸ hcomm ⟨pid, ps⟩ (procs.mem_entries.mpr hlookup)
  · rintro hnames ⟨pid, ps⟩ hentry
    obtain ⟨ev, hlast, heq⟩ := comm_of_lookup (procs.mem_entries.mp hentry)
    exact heq ▸ hnames pid ev hlast

section Exports

variable (writer : Writer) {events : List Event} (procs : Enumeration (feed events).procs)
  (syscalls : Enumeration (feed events).syscalls)

theorem isSome_exportJson :
    (exportJson writer procs syscalls).isSome ↔ NamesValid events := by
  rw [exportJson, writer.isSome_dump_iff, valid_snapshot, forall_comm_iff]

theorem isSome_exportOtel : (exportOtel writer procs).isSome ↔ NamesValid events := by
  rw [exportOtel, writer.isSome_dump_iff, valid_otelSummary, forall_comm_iff]

end Exports

/-- Both exports of what was decoded from records return a document exactly
when the last name seen of each process is valid UTF-8. -/
theorem exports_return_iff (writer : Writer) (records : List (List UInt8)) :
    let events := records.filterMap decodeEvent
    ∀ (procs : Enumeration (feed events).procs)
      (syscalls : Enumeration (feed events).syscalls),
      ((exportJson writer procs syscalls).isSome ↔ NamesValid events) ∧
        ((exportOtel writer procs).isSome ↔ NamesValid events) := by
  intro events procs syscalls
  exact ⟨isSome_exportJson writer procs syscalls, isSome_exportOtel writer procs⟩

/-- A slow system call of a process whose name is the byte `0xff`. -/
def unnamable : WireFormat.WireEvent :=
  { WireFormat.WireEvent.zero with
    pid := 1
    type := 1
    comm := Vector.ofFn fun i => if i.val = 0 then 0xff else 0 }

theorem not_namesValid_unnamable : ¬NamesValid [fromWire unnamable] := by
  intro hnames
  have hvalid := hnames 1 (fromWire unnamable) (by decide +kernel)
  revert hvalid
  decide +kernel

/-- One process with a name that is not text loses the whole report. -/
theorem exports_throw_on_name :
    let record := WireFormat.wireLayout.encode unnamable
    let events := [record].filterMap decodeEvent
    record.length = 88 ∧
      ∃ (writer : Writer) (procs : Enumeration (feed events).procs)
        (syscalls : Enumeration (feed events).syscalls),
        exportJson writer procs syscalls = none ∧ exportOtel writer procs = none := by
  intro record events
  have hevents : events = [fromWire unnamable] := by
    simp [events, record]
  refine ⟨WireFormat.wireLayout.length_encode unnamable, ?_⟩
  rw [hevents]
  obtain ⟨procs⟩ : Nonempty (Enumeration (feed [fromWire unnamable]).procs) := inferInstance
  obtain ⟨syscalls⟩ : Nonempty (Enumeration (feed [fromWire unnamable]).syscalls) :=
    inferInstance
  refine ⟨Writer.checking, procs, syscalls, ?_, ?_⟩
  · rw [← Option.not_isSome_iff_eq_none, isSome_exportJson]
    exact not_namesValid_unnamable
  · rw [← Option.not_isSome_iff_eq_none, isSome_exportOtel]
    exact not_namesValid_unnamable

end KernelScope.JsonExport
