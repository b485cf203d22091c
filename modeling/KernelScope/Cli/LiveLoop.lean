import KernelScope.Bpf.Collection
import KernelScope.Core.Classifications

/-!
# The live loops

`run_top`, `run_top_offcpu`, `run_top_syscalls` and `run_hot_stacks` of
`cli/commands.cpp` share one loop: poll the collector, redraw once a second,
clear the aggregator when the window is over, and leave when the run duration
is over.  The variable `t0` is the start of the window and the start of the run
at the same time.
-/

namespace KernelScope.LiveLoop

open KernelScope.Aggregation
open KernelScope.Classifications
open KernelScope.Collection
open KernelScope.Events

/-- The settings the loops read. -/
structure Config where
  durationSec : UInt32
  windowSec : UInt32
  topN : UInt32

/-- The initialisers of `Config`. -/
def Config.default : Config where
  durationSec := 0
  windowSec := 5
  topN := 20

/-- `time::sec_to_ns` -/
def secToNs (sec : UInt64) : UInt64 := sec * 1000000000

/-- `reading` is the clock reading taken inside `expired`. -/
def expired (reading startNs : UInt64) (durationSec : UInt32) : Bool :=
  if durationSec = 0 then false
  else reading - startNs ≥ secToNs durationSec.toUInt64

inductive SortBy where
  | totalLatency
  | offcpuTime
  | maxLatency
  | eventCount
  deriving DecidableEq

/-- What a loop shows of the aggregator. -/
inductive Table where
  | processes (title : String) (sort : SortBy)
  | syscalls
  | hotStacks

/-- One redraw: the table, how many rows, and what it is computed from. -/
structure Draw where
  table : Table
  topN : UInt32
  agg : Aggregator
  received : UInt64
  lost : UInt64

/-- What one iteration is given: the answer of `shutdown_requested` at the loop
head, the records `poll` hands to the collector, and the two clock readings. -/
structure Iteration where
  shutdown : Bool
  records : List (List UInt8)
  now : UInt64
  reading : UInt64

structure Live where
  t0 : UInt64
  lastDraw : UInt64
  collector : Collector Aggregator
  draws : List Draw

/-- The callback the commands install. -/
def liveCallback (ev : Event) (agg : Aggregator) : Aggregator :=
  processEvent (classified ev) agg

/-- The state before the loop; `t0` is the reading taken there. -/
def Live.start (t0 : UInt64) : Live where
  t0 := t0
  lastDraw := t0
  collector := Collector.new (some liveCallback) Aggregator.fresh
  draws := []

/-- `Collector::poll`: the records are handled in order. -/
def poll (records : List (List UInt8)) (collector : Collector Aggregator) :
    Collector Aggregator :=
  records.foldl (fun collector raw => handleEvent raw collector) collector

/-- Redraw when a second has passed since the last time. -/
def redraw (table : Table) (cfg : Config) (now : UInt64) (live : Live) : Live :=
  if now - live.lastDraw ≥ 1000000000 then
    { live with
      draws := live.draws ++
        [⟨table, cfg.topN, live.collector.app,
          live.collector.eventsReceived, live.collector.eventsLost⟩]
      lastDraw := now }
  else live

/-- The test for the end of the window. -/
def WindowOver (cfg : Config) (t0 now : UInt64) : Prop :=
  secToNs cfg.windowSec.toUInt64 > 0 ∧
    now - t0 ≥ secToNs cfg.windowSec.toUInt64

instance (cfg : Config) (t0 now : UInt64) : Decidable (WindowOver cfg t0 now) :=
  inferInstanceAs (Decidable (_ ∧ _))

/-- Clear the aggregator when the window is over. -/
def rollWindow (cfg : Config) (now : UInt64) (live : Live) : Live :=
  if WindowOver cfg live.t0 now then
    { live with
      collector := { live.collector with app := reset live.collector.app }
      t0 := now }
  else live

/-- The loop body up to the final check. -/
def iterate (table : Table) (cfg : Config) (it : Iteration) (live : Live) :
    Live :=
  rollWindow cfg it.now
    (redraw table cfg it.now
      { live with collector := poll it.records live.collector })

/-- The loop: the final state and the iterations that were not begun. -/
def liveLoop (table : Table) (cfg : Config) :
    Live → List Iteration → Live × List Iteration
  | live, [] => (live, [])
  | live, it :: its =>
      if it.shutdown then (live, it :: its)
      else
        let live' := iterate table cfg it live
        if expired it.reading live'.t0 cfg.durationSec then (live', its)
        else liveLoop table cfg live' its

def runTop (cfg : Config) (start : UInt64) (its : List Iteration) :
    Live × List Iteration :=
  liveLoop (.processes "Top Latency Processes" .totalLatency) cfg
    (Live.start start) its

def runTopOffcpu (cfg : Config) (start : UInt64) (its : List Iteration) :
    Live × List Iteration :=
  liveLoop (.processes "Top Off-CPU Processes" .offcpuTime) cfg
    (Live.start start) its

def runTopSyscalls (cfg : Config) (start : UInt64) (its : List Iteration) :
    Live × List Iteration :=
  liveLoop .syscalls cfg (Live.start start) its

def runHotStacks (cfg : Config) (start : UInt64) (its : List Iteration) :
    Live × List Iteration :=
  liveLoop .hotStacks cfg (Live.start start) its

/-- The four commands differ in the table only. -/
theorem exists_table_of_mem
    {loop : Config → UInt64 → List Iteration → Live × List Iteration}
    (hloop : loop ∈ [runTop, runTopOffcpu, runTopSyscalls, runHotStacks]) :
    ∃ table, loop = fun cfg start => liveLoop table cfg (Live.start start) := by
  simp only [List.mem_cons, List.not_mem_nil, or_false] at hloop
  rcases hloop with rfl | rfl | rfl | rfl
  · exact ⟨.processes "Top Latency Processes" .totalLatency, rfl⟩
  · exact ⟨.processes "Top Off-CPU Processes" .offcpuTime, rfl⟩
  · exact ⟨.syscalls, rfl⟩
  · exact ⟨.hotStacks, rfl⟩

/-! ## Run duration -/

/-- All clock readings of a run, in the order they are taken. -/
def readings (start : UInt64) (its : List Iteration) : List UInt64 :=
  start :: its.flatMap fun it => [it.now, it.reading]

/-- The run begins at `start` and its clock does not go back. -/
def Monotonic (start : UInt64) (its : List Iteration) : Prop :=
  (readings start its).Pairwise (· ≤ ·)

/-- Both readings of the iteration are past the end of the run. -/
def Late (cfg : Config) (start : UInt64) (it : Iteration) : Prop :=
  start.toNat + cfg.durationSec.toNat * 1000000000 ≤ it.now.toNat ∧
    start.toNat + cfg.durationSec.toNat * 1000000000 ≤ it.reading.toNat

/-- The loop has exited at the latest in the first late iteration: nothing that
follows a late iteration is begun. -/
def DurationHonoured
    (loop : Config → UInt64 → List Iteration → Live × List Iteration)
    (cfg : Config) : Prop :=
  ∀ start before late after,
    Monotonic start (before ++ late :: after) → Late cfg start late →
      after.length ≤ (loop cfg start (before ++ late :: after)).2.length

/-- A 32-bit number of seconds fits as nanoseconds. -/
theorem toNat_secToNs (sec : UInt32) :
    (secToNs sec.toUInt64).toNat = sec.toNat * 1000000000 := by
  have hsec := sec.toNat_lt
  simp only [secToNs, UInt64.toNat_mul, UInt32.toNat_toUInt64]
  exact Nat.mod_eq_of_lt (by simp; omega)

theorem secToNs_pos_iff (sec : UInt32) :
    secToNs sec.toUInt64 > 0 ↔ sec ≠ 0 := by
  rw [gt_iff_lt, UInt64.lt_iff_toNat_lt, toNat_secToNs, Ne,
    ← UInt32.toNat_inj]
  simp
  omega

theorem expired_iff {reading startNs : UInt64} {durationSec : UInt32}
    (hle : startNs ≤ reading) :
    expired reading startNs durationSec = true ↔
      durationSec ≠ 0 ∧
        startNs.toNat + durationSec.toNat * 1000000000 ≤ reading.toNat := by
  have hle' := UInt64.le_iff_toNat_le.mp hle
  unfold expired
  split
  next hzero => simp [hzero]
  next hpos =>
    simp only [ge_iff_le, decide_eq_true_eq, UInt64.le_iff_toNat_le,
      toNat_secToNs, UInt64.toNat_sub_of_le _ _ hle]
    constructor
    · exact fun h => ⟨hpos, by omega⟩
    · exact fun h => by omega

/-- An iteration polls, and then redraws and resets by two tests that read one
clock value. -/
theorem iterate_eq (table : Table) (cfg : Config) (it : Iteration) (live : Live) :
    let polled := poll it.records live.collector
    iterate table cfg it live =
      { t0 := if WindowOver cfg live.t0 it.now then it.now else live.t0
        lastDraw :=
          if it.now - live.lastDraw ≥ 1000000000 then it.now else live.lastDraw
        collector :=
          if WindowOver cfg live.t0 it.now then
            { polled with app := reset polled.app }
          else polled
        draws :=
          if it.now - live.lastDraw ≥ 1000000000 then
            live.draws ++
              [⟨table, cfg.topN, polled.app, polled.eventsReceived,
                polled.eventsLost⟩]
          else live.draws } := by
  intro polled
  by_cases hover : WindowOver cfg live.t0 it.now <;>
    by_cases hdraws : it.now - live.lastDraw ≥ 1000000000 <;>
      simp only [iterate, redraw, rollWindow, hover, hdraws, polled, if_true, if_false]

/-- An iteration moves `t0` exactly when the window is over. -/
theorem iterate_t0 (table : Table) (cfg : Config) (it : Iteration)
    (live : Live) :
    (iterate table cfg it live).t0 =
      if WindowOver cfg live.t0 it.now then it.now else live.t0 := by
  rw [iterate_eq]

/-- While no window ends, `t0` stays the start of the run, and the first late
iteration leaves the loop. -/
theorem liveLoop_exits {table : Table} {cfg : Config} {late : Iteration}
    {live : Live} {before : List Iteration} (after : List Iteration)
    (hbefore : ∀ it ∈ before, ¬WindowOver cfg live.t0 it.now)
    (hlate : ¬WindowOver cfg live.t0 late.now)
    (hexpired : expired late.reading live.t0 cfg.durationSec = true) :
    after.length ≤
      (liveLoop table cfg live (before ++ late :: after)).2.length := by
  induction before generalizing live with
  | nil =>
      have ht0 : (iterate table cfg late live).t0 = live.t0 := by
        rw [iterate_t0, if_neg hlate]
      rw [List.nil_append, liveLoop]
      split
      · simp
      · simp [ht0, hexpired]
  | cons it before ih =>
      have ht0 : (iterate table cfg it live).t0 = live.t0 := by
        rw [iterate_t0, if_neg (hbefore it (List.mem_cons_self ..))]
      rw [List.cons_append, liveLoop]
      split
      · simp
        omega
      · dsimp only
        split
        · simp
          omega
        · apply ih
          · rw [ht0]
            exact fun other hother =>
              hbefore other (List.mem_cons_of_mem _ hother)
          · rw [ht0]
            exact hlate
          · rw [ht0]
            exact hexpired

theorem Monotonic.start_le {start : UInt64} {its : List Iteration}
    (hmono : Monotonic start its) {it : Iteration} (hit : it ∈ its) :
    start ≤ it.now ∧ start ≤ it.reading := by
  rw [Monotonic, readings, List.pairwise_cons] at hmono
  constructor
  · apply hmono.1
    exact List.mem_flatMap.mpr ⟨it, hit, by simp⟩
  · apply hmono.1
    exact List.mem_flatMap.mpr ⟨it, hit, by simp⟩

theorem Monotonic.before_le {start : UInt64} {before after : List Iteration}
    {late it : Iteration} (hmono : Monotonic start (before ++ late :: after))
    (hit : it ∈ before) : it.now ≤ late.now := by
  rw [Monotonic, readings, List.pairwise_cons, List.flatMap_append,
    List.pairwise_append] at hmono
  apply hmono.2.2.2
  · exact List.mem_flatMap.mpr ⟨it, hit, by simp⟩
  · simp

/-- A late iteration that begins within the first window leaves the loop. -/
theorem honoured_within_window {table : Table} {cfg : Config}
    (hduration : cfg.durationSec ≠ 0) {start : UInt64}
    {before after : List Iteration} {late : Iteration}
    (hmono : Monotonic start (before ++ late :: after))
    (hlate : Late cfg start late)
    (hwindow : cfg.windowSec = 0 ∨
      late.now.toNat < start.toNat + cfg.windowSec.toNat * 1000000000) :
    after.length ≤ (liveLoop table cfg (Live.start start)
      (before ++ late :: after)).2.length := by
  have hopen : ∀ it : Iteration, start ≤ it.now → it.now ≤ late.now →
      ¬WindowOver cfg start it.now := by
    rintro it hstart hle ⟨hpos, hover⟩
    rcases hwindow with hzero | hwithin
    · exact (secToNs_pos_iff _).mp hpos hzero
    · rw [ge_iff_le, UInt64.le_iff_toNat_le, toNat_secToNs,
        UInt64.toNat_sub_of_le _ _ hstart] at hover
      have hle := UInt64.le_iff_toNat_le.mp hle
      have hstart := UInt64.le_iff_toNat_le.mp hstart
      omega
  have hstart := hmono.start_le (List.mem_append_right before
    (List.mem_cons_self : late ∈ late :: after))
  apply liveLoop_exits
  · intro it hit
    exact hopen it (hmono.start_le (List.mem_append_left _ hit)).1
      (hmono.before_le hit)
  · exact hopen late hstart.1 (UInt64.le_refl _)
  · exact (expired_iff hstart.2).mpr ⟨hduration, hlate.2⟩

/-- An iteration at one moment, with nothing to collect. -/
def quietIteration (time : UInt64) : Iteration where
  shutdown := false
  records := []
  now := time
  reading := time

/-- At the moment the window and the run are counted from, neither is over. -/
theorem not_expired_self (durationSec : UInt32) (time : UInt64) :
    expired time time durationSec = false := by
  rw [Bool.eq_false_iff]
  intro hexpired
  obtain ⟨hpos, hle⟩ := (expired_iff (UInt64.le_refl time)).mp hexpired
  have hzero : durationSec.toNat ≠ 0 := fun h =>
    hpos (UInt32.toNat_inj.mp h)
  omega

theorem not_windowOver_self {cfg : Config} (time : UInt64) :
    ¬WindowOver cfg time time := by
  rintro ⟨hpos, hover⟩
  rw [UInt64.sub_self] at hover
  exact UInt64.not_lt.mpr hover hpos

theorem liveLoop_continues {table : Table} {cfg : Config} {live : Live}
    {it : Iteration} {its : List Iteration} (hshutdown : it.shutdown = false)
    (hgoes : expired it.reading (iterate table cfg it live).t0
      cfg.durationSec = false) :
    liveLoop table cfg live (it :: its) =
      liveLoop table cfg (iterate table cfg it live) its := by
  simp [liveLoop, hshutdown, hgoes]

/-- An iteration that ends the window begins the run anew and goes on. -/
theorem liveLoop_of_windowOver (table : Table) {cfg : Config} (live : Live)
    {time : UInt64} (hover : WindowOver cfg live.t0 time) :
    (liveLoop table cfg live [quietIteration time, quietIteration time]).2 =
      [] := by
  have hfirst : (iterate table cfg (quietIteration time) live).t0 = time := by
    rw [iterate_t0]
    exact if_pos hover
  have hsecond : (iterate table cfg (quietIteration time)
      (iterate table cfg (quietIteration time) live)).t0 = time := by
    rw [iterate_t0, hfirst]
    exact if_neg (not_windowOver_self time)
  have hfresh := not_expired_self cfg.durationSec time
  rw [liveLoop_continues rfl (by rw [hfirst]; exact hfresh),
    liveLoop_continues rfl (by rw [hsecond]; exact hfresh), liveLoop]

/-- A loop honours the run duration exactly when it has no window. -/
theorem liveLoop_honoured_iff (table : Table) {cfg : Config}
    (hduration : cfg.durationSec ≠ 0) :
    DurationHonoured (fun cfg start => liveLoop table cfg (Live.start start))
      cfg ↔ cfg.windowSec = 0 := by
  constructor
  · intro hhonoured
    by_contra hwindow
    have hwindowPos := (secToNs_pos_iff cfg.windowSec).mpr hwindow
    have hdurationLt := cfg.durationSec.toNat_lt
    have hwindowLt := cfg.windowSec.toNat_lt
    -- the first iteration comes after both the window and the run are over
    obtain ⟨time, htime⟩ : ∃ time : UInt64, time.toNat =
        max cfg.windowSec.toNat cfg.durationSec.toNat * 1000000000 := by
      refine ⟨UInt64.ofNat _, UInt64.toNat_ofNat_of_lt' ?_⟩
      simp [UInt64.size]
      omega
    have hover : WindowOver cfg 0 time := by
      refine ⟨hwindowPos, ?_⟩
      rw [UInt64.sub_zero, ge_iff_le, UInt64.le_iff_toNat_le, toNat_secToNs,
        htime]
      exact Nat.mul_le_mul_right _ (Nat.le_max_left _ _)
    have hmono : Monotonic 0 [quietIteration time, quietIteration time] := by
      simp [Monotonic, readings, quietIteration]
    have hlate : Late cfg 0 (quietIteration time) := by
      have hle : cfg.durationSec.toNat * 1000000000 ≤ time.toNat := by
        rw [htime]
        exact Nat.mul_le_mul_right _ (Nat.le_max_right _ _)
      simpa [Late, quietIteration] using hle
    have hexits := hhonoured 0 [] (quietIteration time) [quietIteration time]
      hmono hlate
    have hall := liveLoop_of_windowOver table (Live.start 0) hover
    dsimp only [List.nil_append] at hexits
    rw [hall] at hexits
    exact absurd hexits (by simp)
  · intro hwindow start before late after hmono hlate
    exact honoured_within_window hduration hmono hlate (.inl hwindow)

/-- Each of the four live loops honours the run duration, on every clock,
exactly when it is run without a window; with one, a run still stops in time
if its first late iteration falls into the first window. -/
theorem duration_honoured_iff_no_window (cfg : Config)
    (hduration : 0 < cfg.durationSec) :
    (DurationHonoured runTop cfg ↔ cfg.windowSec = 0) ∧
    (DurationHonoured runTopOffcpu cfg ↔ cfg.windowSec = 0) ∧
    (DurationHonoured runTopSyscalls cfg ↔ cfg.windowSec = 0) ∧
    (DurationHonoured runHotStacks cfg ↔ cfg.windowSec = 0) ∧
    ∀ loop ∈ [runTop, runTopOffcpu, runTopSyscalls, runHotStacks],
      ∀ start before late after,
        Monotonic start (before ++ late :: after) → Late cfg start late →
          late.now.toNat <
              start.toNat + cfg.windowSec.toNat * 1000000000 →
            after.length ≤
              (loop cfg start (before ++ late :: after)).2.length := by
  have hpos : cfg.durationSec ≠ 0 := by
    rintro hzero
    rw [hzero] at hduration
    exact absurd hduration (by decide)
  refine ⟨liveLoop_honoured_iff _ hpos, liveLoop_honoured_iff _ hpos,
    liveLoop_honoured_iff _ hpos, liveLoop_honoured_iff _ hpos, ?_⟩
  intro loop hloop start before late after hmono hlate hwithin
  obtain ⟨table, rfl⟩ := exists_table_of_mem hloop
  exact honoured_within_window hpos hmono hlate (.inr hwithin)

/-- Ten seconds without a window. -/
theorem duration_honoured_without_window :
    DurationHonoured runTop ⟨10, 0, 20⟩ :=
  (duration_honoured_iff_no_window ⟨10, 0, 20⟩ (by decide)).1.mpr rfl

/-- With the default window of five seconds, a ten-second run whose iterations
come at 5, 10 and 15 seconds goes on beyond all of them. -/
theorem default_window_outlives_duration :
    let cfg : Config := { Config.default with durationSec := 10 }
    let its := [quietIteration 5000000000, quietIteration 10000000000,
      quietIteration 15000000000]
    Monotonic 0 its ∧ Late cfg 0 (quietIteration 10000000000) ∧
      (runTop cfg 0 its).2 = [] ∧ ¬DurationHonoured runTop cfg := by
  intro cfg its
  have hmono : Monotonic 0 its := by
    simp [Monotonic, readings, its, quietIteration]
  have hlate : Late cfg 0 (quietIteration 10000000000) := by
    constructor <;> decide
  have hall : (runTop cfg 0 its).2 = [] := by decide
  refine ⟨hmono, hlate, hall, ?_⟩
  intro hhonoured
  have hexits := hhonoured 0 [quietIteration 5000000000]
    (quietIteration 10000000000) [quietIteration 15000000000] hmono hlate
  simp only [List.cons_append, List.nil_append] at hexits
  rw [hall] at hexits
  exact absurd hexits (by simp)

end KernelScope.LiveLoop
