import KernelScope.Core.EntryFields
import KernelScope.Export.Prometheus
import KernelScope.Util.TimeFormat

/-!
# What a scraper reads

A scraper reads the exported text and takes, for a metric and a process or a system
call, the number of the sample that has its label.  That number is determined by
the events: a count, a sum of durations or the longest of them, in seconds.
Nanoseconds survive the way through a double and nine printed places exactly below
`2 ^ 52`, and in their order always.
-/

namespace KernelScope.ScrapedTotals

open KernelScope.Aggregation
open KernelScope.Binary64
open KernelScope.Decimal
open KernelScope.Dimensions
open KernelScope.EntryFields
open KernelScope.Events
open KernelScope.Exposition
open KernelScope.FixedPoint
open KernelScope.KeyedFold
open KernelScope.Prometheus
open KernelScope.SyscallNames
open KernelScope.TimeFormat

/-! ## The scraper -/

/-- A text that is a number and nothing else. -/
def readNumber (text : List UInt8) : Option ℚ := do
  let (number, rest) ← readDecimal text
  if rest = [] then some number else none

/-- The number of the metric's sample that has the label. -/
def scrape (text : List UInt8) (name : String) (label : Label) : Option ℚ := do
  let samples ← samplesOf (ascii name) text
  let s ← samples.find? fun s => label ∈ s.labels
  readNumber s.value

def pidLabel (pid : UInt32) : Label :=
  (ascii "pid", decimal pid.toNat)

def syscallLabel (id : UInt64) : Label :=
  (ascii "syscall", ascii (syscallName id))

/-! ## Numbers -/

theorem readNumber_decimal (n : ℕ) : readNumber (decimal n) = some (n : ℚ) := by
  have hread := readDecimal_decimal n (Scanf.stops_nil : Scanf.Stops 10 []) (by simp)
  rw [List.append_nil] at hread
  simp [readNumber, hread]

/-- The seconds that are printed for nanoseconds. -/
def shownSeconds (ns : UInt64) : ℚ :=
  inPlaces 9 (inUnit ns 1000000000) / 10 ^ 9

theorem readNumber_seconds (ns : UInt64) :
    readNumber (seconds ns) = some (shownSeconds ns) := by
  have htext : seconds ns = fixed 9 (inUnit ns 1000000000).1 (inUnit ns 1000000000).2 := rfl
  have hread := readDecimal_fixed (by decide : 0 < 9) (inUnit ns 1000000000)
    (Scanf.stops_nil : Scanf.Stops 10 [])
  rw [List.append_nil, ← htext] at hread
  simp [readNumber, hread, shownSeconds]

theorem shownSeconds_mono {ns ns' : UInt64} (hle : ns ≤ ns') :
    shownSeconds ns ≤ shownSeconds ns' := by
  have hplaces : inPlaces 9 (inUnit ns 1000000000) ≤ inPlaces 9 (inUnit ns' 1000000000) :=
    inPlaces_inUnit_mono 9 (by decide) (UInt64.le_iff_toNat_le.mp hle)
  rw [shownSeconds, shownSeconds]
  gcongr

theorem shownSeconds_eq {ns : UInt64} (hns : ns.toNat < 2 ^ 52) :
    shownSeconds ns = ns.toNat / 10 ^ 9 := by
  have hexact : inPlaces 9 (inUnit ns 1000000000) = ns.toNat := by
    rw [inUnit_eq]
    exact inPlaces_nearest_eq (Nat.mul_pos (nearest_den_pos _ _) (by decide))
      (nearest_mul_unit (hns.trans (by decide)) 1000000000) hns
  rw [shownSeconds, hexact]

/-! ## Samples -/

/-- In a list with one element that fits, this one is found. -/
theorem find?_eq_of_unique {α : Type*} {items : List α} {fits : α → Bool} {item : α}
    (hitem : item ∈ items) (hfits : fits item = true)
    (hunique : ∀ other ∈ items, fits other = true → other = item) :
    items.find? fits = some item := by
  obtain ⟨found, hfound⟩ := Option.isSome_iff_exists.mp
    (List.find?_isSome.mpr ⟨item, hitem, hfits⟩)
  rw [hfound, hunique found (List.mem_of_find?_eq_some hfound) (List.find?_some hfound)]

section Samples

variable {K Stats : Type} [DecidableEq K] {map : KeyedMap K Stats} (order : Enumeration map)
variable (name : List UInt8) (labels : (Σ _ : K, Stats) → List Label)
variable (value : Stats → List UInt8) {label : K → Label}
variable (hlabel : ∀ key entry, label key ∈ labels entry ↔ entry.1 = key)

include hlabel

/-- The sample with the label of a key is that of its entry. -/
theorem find?_samples (key : K) :
    ((order.entries.map fun entry => (⟨name, labels entry, value entry.2⟩ : Sample)).find?
        fun s => label key ∈ s.labels) =
      (map.lookup key).map fun stats => ⟨name, labels ⟨key, stats⟩, value stats⟩ := by
  cases hlookup : map.lookup key with
  | none =>
      rw [Option.map_none, List.find?_eq_none]
      intro s hs hmem
      obtain ⟨⟨other, stats⟩, hentry, rfl⟩ := List.mem_map.mp hs
      obtain rfl : other = key := (hlabel key ⟨other, stats⟩).mp (of_decide_eq_true hmem)
      rw [order.mem_entries.mp hentry] at hlookup
      cases hlookup
  | some stats =>
      apply find?_eq_of_unique
      · exact List.mem_map_of_mem (order.mem_entries.mpr hlookup)
      · exact decide_eq_true ((hlabel key ⟨key, stats⟩).mpr rfl)
      · intro s hs hmem
        obtain ⟨⟨other, stats'⟩, hentry, rfl⟩ := List.mem_map.mp hs
        obtain rfl : other = key := (hlabel key ⟨other, stats'⟩).mp (of_decide_eq_true hmem)
        obtain rfl : stats' = stats :=
          Option.some.inj ((order.mem_entries.mp hentry).symm.trans hlookup)
        rfl

end Samples

section Export

variable {events : List Event} (procs : Enumeration (feed events).procs)
  (syscalls : Enumeration (feed events).syscalls)

theorem samplesOf_exportPrometheus {family : Family}
    (hfamily : family ∈ families procs syscalls) :
    samplesOf family.name (exportPrometheus (feed events) procs syscalls) =
      some family.samples := by
  have htext : exportPrometheus (feed events) procs syscalls =
      writeFamilies (families procs syscalls) := by
    apply exportPrometheus_eq
    · intro entry hentry
      exact pid_eq_key (procs.mem_entries.mp hentry)
    · intro entry hentry
      exact syscallId_eq_key (syscalls.mem_entries.mp hentry)
  rw [htext]
  exact samplesOf_writeFamilies (families_wellFormed procs syscalls)
    (names_nodup procs syscalls) hfamily

theorem pidLabel_mem_iff (pid : UInt32) (entry : Σ _ : UInt32, ProcessStats) :
    pidLabel pid ∈ processLabels entry ↔ entry.1 = pid := by
  have hnames : ascii "pid" ≠ ascii "comm" := by decide
  simp only [pidLabel, processLabels, List.mem_cons, Prod.mk.injEq, true_and, hnames,
    false_and, List.not_mem_nil, or_false]
  rw [decimal_injective.eq_iff, UInt32.toNat_inj, eq_comm]

theorem syscallLabel_mem_iff (id : UInt64) (entry : Σ _ : UInt64, SyscallStats) :
    syscallLabel id ∈ syscallLabels entry ↔ entry.1 = id := by
  simp only [syscallLabel, syscallLabels, List.mem_singleton, Prod.mk.injEq, true_and]
  rw [ascii_injective.eq_iff, syscallName_injective.eq_iff, eq_comm]

/-- Scraping finds the entry of the key and reads what the metric prints of it. -/
theorem scrape_of_samples {K Stats : Type} [DecidableEq K] {map : KeyedMap K Stats}
    (order : Enumeration map) {labels : (Σ _ : K, Stats) → List Label} {label : K → Label}
    (hlabel : ∀ key entry, label key ∈ labels entry ↔ entry.1 = key) {metric : Metric Stats}
    (hfamily : metric.family labels order.entries ∈ families procs syscalls) (key : K) :
    scrape (exportPrometheus (feed events) procs syscalls) metric.name (label key) =
      (map.lookup key).bind fun stats => readNumber (metric.value stats) := by
  have hsamples := samplesOf_exportPrometheus procs syscalls hfamily
  rw [samples_family] at hsamples
  change samplesOf (ascii metric.name) _ = _ at hsamples
  rw [scrape, hsamples, Option.bind_eq_bind, Option.bind_some,
    find?_samples order (ascii metric.name) labels metric.value hlabel key,
    Option.bind_eq_bind, Option.bind_map]
  rfl

theorem scrape_process {metric : Metric ProcessStats} (hmetric : metric ∈ processMetrics)
    (pid : UInt32) :
    scrape (exportPrometheus (feed events) procs syscalls) metric.name (pidLabel pid) =
      ((feed events).procs.lookup pid).bind fun ps => readNumber (metric.value ps) :=
  scrape_of_samples procs syscalls procs pidLabel_mem_iff
    (List.mem_append_left _ (List.mem_map_of_mem hmetric)) pid

theorem scrape_syscall {metric : Metric SyscallStats} (hmetric : metric ∈ syscallMetrics)
    (id : UInt64) :
    scrape (exportPrometheus (feed events) procs syscalls) metric.name (syscallLabel id) =
      ((feed events).syscalls.lookup id).bind fun sc => readNumber (metric.value sc) :=
  scrape_of_samples procs syscalls syscalls syscallLabel_mem_iff
    (List.mem_append_right _ (List.mem_map_of_mem hmetric)) id

end Export

/-! ## Entries -/

/-- A number that is exported exactly if there are events for it. -/
def exported (events : List Event) (number : ℚ) : Option ℚ :=
  if events = [] then none else some number

/-- A metric of a collected map has a number for the keys that some event has. -/
theorem bind_lookup_collect {K Stats : Type} [DecidableEq K] {fresh : Stats}
    {keyOf : Event → K} {change : Event → Stats → Stats} {keep : Event → Bool}
    {events : List Event} {key : K} {read : Stats → Option ℚ} {number : ℚ}
    (hread : ∀ stats, (collect fresh keyOf change (events.filter keep) ∅).lookup key =
      some stats → read stats = some number) :
    ((collect fresh keyOf change (events.filter keep) ∅).lookup key).bind read =
      exported ((group keyOf key events).filter keep) number := by
  rw [exported, ← group_filter]
  split
  next hnone => rw [lookup_collect_empty, if_pos hnone, Option.bind_none]
  next hsome =>
    obtain ⟨stats, hlookup⟩ : ∃ stats,
        (collect fresh keyOf change (events.filter keep) ∅).lookup key = some stats :=
      ⟨_, lookup_collect_eq_some.mpr ⟨hsome, rfl⟩⟩
    rw [hlookup, Option.bind_some, hread stats hlookup]

/-! ## The numbers -/

/-- What a scraper reads from the text that is exported after `events`; `shown` says
what becomes of nanoseconds. -/
structure Scraped (shown : UInt64 → ℚ) (events : List Event) (text : List UInt8) : Prop where
  eventsTotal : ∀ pid,
    let timed := (group Event.pid pid events).filter isTimed
    scrape text "kscope_events_total" (pidLabel pid) =
      exported timed (timed.length % 2 ^ 32 : ℕ)
  syscallSecondsTotal : ∀ pid,
    let own := group Event.pid pid events
    scrape text "kscope_syscall_seconds_total" (pidLabel pid) =
      exported (own.filter isTimed) (shown (UInt64.ofNat (totalNs (own.filter isSyscall))))
  offcpuSecondsTotal : ∀ pid,
    let own := group Event.pid pid events
    scrape text "kscope_offcpu_seconds_total" (pidLabel pid) =
      exported (own.filter isTimed) (shown (UInt64.ofNat (totalNs (own.filter isOffcpu))))
  maxLatencySeconds : ∀ pid,
    let timed := (group Event.pid pid events).filter isTimed
    scrape text "kscope_max_latency_seconds" (pidLabel pid) =
      exported timed (shown (UInt64.ofNat (longestNs timed)))
  syscallCallsTotal : ∀ id,
    let calls := (group Event.syscallId id events).filter isSyscall
    scrape text "kscope_syscall_calls_total" (syscallLabel id) =
      exported calls (calls.length % 2 ^ 64 : ℕ)
  syscallDurationSecondsTotal : ∀ id,
    let calls := (group Event.syscallId id events).filter isSyscall
    scrape text "kscope_syscall_duration_seconds_total" (syscallLabel id) =
      exported calls (shown (UInt64.ofNat (totalNs calls)))

section Feed

variable {events : List Event} (procs : Enumeration (feed events).procs)
  (syscalls : Enumeration (feed events).syscalls)

theorem scrape_process_exported (metric : Metric ProcessStats)
    (hmetric : metric ∈ processMetrics) {pid : UInt32} {number : ℚ}
    (hvalue : ∀ ps, ProcessFields (group Event.pid pid events) ps →
      readNumber (metric.value ps) = some number) :
    scrape (exportPrometheus (feed events) procs syscalls) metric.name (pidLabel pid) =
      exported ((group Event.pid pid events).filter isTimed) number := by
  rw [scrape_process procs syscalls hmetric, feed_procs]
  apply bind_lookup_collect
  intro ps hlookup
  rw [← feed_procs] at hlookup
  exact hvalue ps (processFields_of_lookup hlookup)

theorem scrape_syscall_exported (metric : Metric SyscallStats)
    (hmetric : metric ∈ syscallMetrics) {id : UInt64} {number : ℚ}
    (hvalue : ∀ sc, SyscallFields ((group Event.syscallId id events).filter isSyscall) sc →
      readNumber (metric.value sc) = some number) :
    scrape (exportPrometheus (feed events) procs syscalls) metric.name (syscallLabel id) =
      exported ((group Event.syscallId id events).filter isSyscall) number := by
  rw [scrape_syscall procs syscalls hmetric, feed_syscalls]
  apply bind_lookup_collect
  intro sc hlookup
  rw [← feed_syscalls] at hlookup
  exact hvalue sc (syscallFields_of_lookup hlookup)

theorem scraped_feed :
    Scraped shownSeconds events (exportPrometheus (feed events) procs syscalls) where
  eventsTotal pid := by
    apply scrape_process_exported procs syscalls eventsTotal (by simp [processMetrics])
    intro ps hfields
    rw [eventsTotal, readNumber_decimal, hfields.slowEventCount]
  syscallSecondsTotal pid := by
    apply scrape_process_exported procs syscalls syscallSecondsTotal (by simp [processMetrics])
    intro ps hfields
    rw [syscallSecondsTotal, readNumber_seconds, hfields.totalSyscallNs]
  offcpuSecondsTotal pid := by
    apply scrape_process_exported procs syscalls offcpuSecondsTotal (by simp [processMetrics])
    intro ps hfields
    rw [offcpuSecondsTotal, readNumber_seconds, hfields.totalOffcpuNs]
  maxLatencySeconds pid := by
    apply scrape_process_exported procs syscalls maxLatencySeconds (by simp [processMetrics])
    intro ps hfields
    rw [maxLatencySeconds, readNumber_seconds, ← hfields.maxLatencyNs, UInt64.ofNat_toNat]
  syscallCallsTotal id := by
    apply scrape_syscall_exported procs syscalls syscallCallsTotal (by simp [syscallMetrics])
    intro sc hfields
    rw [syscallCallsTotal, readNumber_decimal, hfields.count, UInt64.toNat_ofNat']
  syscallDurationSecondsTotal id := by
    apply scrape_syscall_exported procs syscalls syscallDurationSecondsTotal
      (by simp [syscallMetrics])
    intro sc hfields
    rw [syscallDurationSecondsTotal, readNumber_seconds, hfields.totalNs]

end Feed

/-- After every sequence of calls, the text has for each metric a number for the
processes or system calls that had events since the last reset, and for no others:
the count, sum or maximum of these events.  Seconds are exact below `2 ^ 52`
nanoseconds and never change the order of two times. -/
theorem scraped_numbers_exact :
    ∃ shown : UInt64 → ℚ,
      (∀ ns, ns.toNat < 2 ^ 52 → shown ns = ns.toNat / 10 ^ 9) ∧
      (∀ ns ns', ns ≤ ns' → shown ns ≤ shown ns') ∧
      ∀ ops : List Op,
        let agg := StepRun.run exec Aggregator.fresh ops
        ∀ (procs : Enumeration agg.procs) (syscalls : Enumeration agg.syscalls),
          Scraped shown (ledger [] ops) (exportPrometheus agg procs syscalls) := by
  refine ⟨shownSeconds, fun ns hns => shownSeconds_eq hns,
    fun ns ns' hle => shownSeconds_mono hle, fun ops => ?_⟩
  intro agg
  have hagg : agg = feed (ledger [] ops) := run_exec [] ops
  rw [hagg]
  exact scraped_feed

end KernelScope.ScrapedTotals
