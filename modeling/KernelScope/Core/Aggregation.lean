import KernelScope.Core.Events
import KernelScope.Core.Histograms
import KernelScope.Library.StepRun

/-!
# The aggregator

`core/aggregator.cpp`: each event is added to a process, a thread, a system
call and up to two stack entries.  `operator[]` of the source's hash maps
inserts a default-constructed entry when the key is absent, which is `upsert`.
Every method holds the mutex, so calls are atomic steps.
-/

namespace KernelScope.Aggregation

open KernelScope.Events
open KernelScope.Histograms
open KernelScope.KeyedFold

/-! ## Entries -/

/-- The fields that `ProcessStats` and `ThreadStats` share. -/
structure TaskStats where
  comm : List UInt8
  totalSyscallNs : UInt64
  totalOffcpuNs : UInt64
  maxLatencyNs : UInt64
  slowEventCount : UInt32
  latencyHist : Histogram
  deriving DecidableEq

def TaskStats.fresh : TaskStats where
  comm := []
  totalSyscallNs := 0
  totalOffcpuNs := 0
  maxLatencyNs := 0
  slowEventCount := 0
  latencyHist := Histogram.empty

/-- The statements that `update_process` and `update_thread` have in common. -/
def TaskStats.add (ev : Event) (stats : TaskStats) : TaskStats where
  comm := ev.commStr
  slowEventCount := stats.slowEventCount + 1
  maxLatencyNs :=
    if ev.durationNs > stats.maxLatencyNs then ev.durationNs
    else stats.maxLatencyNs
  latencyHist := stats.latencyHist.record ev.durationNs
  totalOffcpuNs :=
    if ev.type = .offcpuSlice then stats.totalOffcpuNs + ev.durationNs
    else stats.totalOffcpuNs
  totalSyscallNs :=
    if ev.type = .offcpuSlice then stats.totalSyscallNs
    else stats.totalSyscallNs + ev.durationNs

structure ProcessStats extends TaskStats where
  pid : UInt32
  deriving DecidableEq

def ProcessStats.fresh : ProcessStats where
  toTaskStats := TaskStats.fresh
  pid := 0

def ProcessStats.add (ev : Event) (p : ProcessStats) : ProcessStats where
  toTaskStats := p.toTaskStats.add ev
  pid := ev.pid

structure ThreadStats extends TaskStats where
  pid : UInt32
  tid : UInt32
  deriving DecidableEq

def ThreadStats.fresh : ThreadStats where
  toTaskStats := TaskStats.fresh
  pid := 0
  tid := 0

def ThreadStats.add (ev : Event) (t : ThreadStats) : ThreadStats where
  toTaskStats := t.toTaskStats.add ev
  pid := ev.pid
  tid := ev.tid

structure SyscallStats where
  syscallId : UInt64
  count : UInt64
  totalNs : UInt64
  maxNs : UInt64
  latencyHist : Histogram
  affectedPids : Finset UInt32
  deriving DecidableEq

def SyscallStats.fresh : SyscallStats where
  syscallId := 0
  count := 0
  totalNs := 0
  maxNs := 0
  latencyHist := Histogram.empty
  affectedPids := ∅

def SyscallStats.add (ev : Event) (s : SyscallStats) : SyscallStats where
  syscallId := ev.syscallId
  count := s.count + 1
  totalNs := s.totalNs + ev.durationNs
  maxNs := if ev.durationNs > s.maxNs then ev.durationNs else s.maxNs
  latencyHist := s.latencyHist.record ev.durationNs
  affectedPids := insert ev.pid s.affectedPids

structure StackStats where
  stackId : Int64
  totalNs : UInt64
  count : UInt64
  pid : UInt32
  representativeType : EventType
  isKernel : Bool
  deriving DecidableEq

def StackStats.fresh : StackStats where
  stackId := 0
  totalNs := 0
  count := 0
  pid := 0
  representativeType := .none
  isKernel := false

/-- One call of the lambda in `update_stack` that is not cut short. -/
structure StackHit where
  ev : Event
  id : Int64
  kern : Bool

def StackStats.add (hit : StackHit) (st : StackStats) : StackStats where
  stackId := hit.id
  totalNs := st.totalNs + hit.ev.durationNs
  count := st.count + 1
  isKernel := hit.kern
  pid := if st.pid = 0 then hit.ev.pid else st.pid
  representativeType :=
    if st.representativeType = .none then hit.ev.type
    else st.representativeType

/-! ## The aggregator -/

structure Aggregator where
  procs : KeyedMap UInt32 ProcessStats
  threads : KeyedMap UInt64 ThreadStats
  syscalls : KeyedMap UInt64 SyscallStats
  stackStats : KeyedMap Int64 StackStats
  total : UInt64
  deriving DecidableEq

def Aggregator.fresh : Aggregator where
  procs := ∅
  threads := ∅
  syscalls := ∅
  stackStats := ∅
  total := 0

/-- `(pid << 32) | tid` -/
def threadKey (pid tid : UInt32) : UInt64 :=
  (pid.toUInt64 <<< 32) ||| tid.toUInt64

def threadKeyOf (ev : Event) : UInt64 :=
  threadKey ev.pid ev.tid

def updateProcess (ev : Event) (agg : Aggregator) : Aggregator :=
  { agg with
    procs := upsert ProcessStats.fresh ev.pid (ProcessStats.add ev) agg.procs }

def updateThread (ev : Event) (agg : Aggregator) : Aggregator :=
  { agg with
    threads := upsert ThreadStats.fresh (threadKeyOf ev)
      (ThreadStats.add ev) agg.threads }

def updateSyscall (ev : Event) (agg : Aggregator) : Aggregator :=
  { agg with
    syscalls := upsert SyscallStats.fresh ev.syscallId (SyscallStats.add ev)
      agg.syscalls }

/-- The lambda `add` of `update_stack`. -/
def addStack (ev : Event) (id : Int64) (kern : Bool) (agg : Aggregator) :
    Aggregator :=
  if id < 0 then agg
  else
    { agg with
      stackStats := upsert StackStats.fresh id (StackStats.add ⟨ev, id, kern⟩)
        agg.stackStats }

def updateStack (ev : Event) (agg : Aggregator) : Aggregator :=
  addStack ev ev.kernStackId true (addStack ev ev.userStackId false agg)

def processEvent (ev : Event) (agg : Aggregator) : Aggregator :=
  let agg := { agg with total := agg.total + 1 }
  match ev.type with
  | .syscallSlow | .ioWait | .lockWait =>
      updateStack ev (updateSyscall ev (updateThread ev (updateProcess ev agg)))
  | .offcpuSlice =>
      updateStack ev (updateThread ev (updateProcess ev agg))
  | _ => agg

/-- `Aggregator::reset` -/
def reset (agg : Aggregator) : Aggregator :=
  { agg with
    procs := ∅
    threads := ∅
    syscalls := ∅
    stackStats := ∅
    total := 0 }

/-! ## Call sequences -/

/-- A mutating call. -/
inductive Op where
  | process (ev : Event)
  | reset

def exec (agg : Aggregator) : Op → Aggregator
  | .process ev => processEvent ev agg
  | .reset => reset agg

/-- The events processed since the last reset. -/
def ledger : List Event → List Op → List Event
  | events, [] => events
  | events, .process ev :: ops => ledger (events ++ [ev]) ops
  | _, .reset :: ops => ledger [] ops

/-- A fresh aggregator fed with `events`. -/
def feed (events : List Event) : Aggregator :=
  events.foldl (fun agg ev => processEvent ev agg) Aggregator.fresh

/-- Only the events since the last reset are remembered. -/
theorem run_exec (events : List Event) (ops : List Op) :
    StepRun.run exec (feed events) ops = feed (ledger events ops) := by
  induction ops generalizing events with
  | nil => rfl
  | cons op ops ih =>
      cases op with
      | process ev =>
          rw [StepRun.run_cons, ledger, ← ih]
          simp [feed, exec]
      | reset =>
          rw [StepRun.run_cons, ledger, ← ih]
          rfl

/-! ## Each map is a fold of its own part of the stream -/

/-- The event types that reach `update_syscall`. -/
def isSyscall (ev : Event) : Bool :=
  match ev.type with
  | .syscallSlow | .ioWait | .lockWait => true
  | _ => false

/-- The event types that reach `update_process` and `update_thread`. -/
def isTimed (ev : Event) : Bool :=
  isSyscall ev || ev.type = .offcpuSlice

/-- The stack entries an event is added to. -/
def stackHits (ev : Event) : List StackHit :=
  (if ev.userStackId < 0 then [] else [⟨ev, ev.userStackId, false⟩]) ++
    (if ev.kernStackId < 0 then [] else [⟨ev, ev.kernStackId, true⟩])

/-! ### One event -/

section OneEvent

variable (ev : Event) (agg : Aggregator)

theorem addStack_eq (id : Int64) (kern : Bool) :
    addStack ev id kern agg =
      { agg with
        stackStats :=
          if id < 0 then agg.stackStats
          else upsert StackStats.fresh id (StackStats.add ⟨ev, id, kern⟩)
            agg.stackStats } := by
  unfold addStack
  split <;> rfl

theorem updateStack_eq :
    updateStack ev agg =
      { agg with
        stackStats := collect StackStats.fresh StackHit.id StackStats.add
          (stackHits ev) agg.stackStats } := by
  simp only [updateStack, addStack_eq, stackHits]
  by_cases huser : ev.userStackId < 0 <;>
    by_cases hkern : ev.kernStackId < 0 <;>
      simp [huser, hkern, collect]

theorem processEvent_procs :
    (processEvent ev agg).procs =
      collect ProcessStats.fresh Event.pid ProcessStats.add
        ([ev].filter isTimed) agg.procs := by
  cases htype : ev.type <;>
    simp [processEvent, updateStack_eq, updateSyscall, updateThread,
      updateProcess, isTimed, isSyscall, htype, collect]

theorem processEvent_threads :
    (processEvent ev agg).threads =
      collect ThreadStats.fresh threadKeyOf ThreadStats.add
        ([ev].filter isTimed) agg.threads := by
  cases htype : ev.type <;>
    simp [processEvent, updateStack_eq, updateSyscall, updateThread,
      updateProcess, isTimed, isSyscall, htype, collect]

theorem processEvent_syscalls :
    (processEvent ev agg).syscalls =
      collect SyscallStats.fresh Event.syscallId SyscallStats.add
        ([ev].filter isSyscall) agg.syscalls := by
  cases htype : ev.type <;>
    simp [processEvent, updateStack_eq, updateSyscall, updateThread,
      updateProcess, isSyscall, htype, collect]

theorem processEvent_stackStats :
    (processEvent ev agg).stackStats =
      collect StackStats.fresh StackHit.id StackStats.add
        (([ev].filter isTimed).flatMap stackHits) agg.stackStats := by
  cases htype : ev.type <;>
    simp [processEvent, updateStack_eq, updateSyscall, updateThread,
      updateProcess, isTimed, isSyscall, htype, collect]

theorem processEvent_total :
    (processEvent ev agg).total = agg.total + 1 := by
  cases htype : ev.type <;>
    simp [processEvent, updateStack_eq, updateSyscall, updateThread,
      updateProcess, htype]

end OneEvent

/-! ### The whole stream -/

/-- A map that every event extends by a fold is the fold of the stream. -/
theorem map_feed {K V E : Type*} [DecidableEq K] {fresh : V} {keyOf : E → K}
    {change : E → V → V} (map : Aggregator → KeyedMap K V)
    (items : Event → List E)
    (hstep : ∀ ev agg, map (processEvent ev agg) =
      collect fresh keyOf change (items ev) (map agg))
    (hfresh : map Aggregator.fresh = ∅) (events : List Event) :
    map (feed events) =
      collect fresh keyOf change (events.flatMap items) ∅ := by
  suffices ∀ agg, map (events.foldl (fun agg ev => processEvent ev agg) agg) =
      collect fresh keyOf change (events.flatMap items) (map agg) by
    rw [feed, this, hfresh]
  induction events with
  | nil => exact fun agg => rfl
  | cons ev events ih =>
      intro agg
      rw [List.foldl_cons, ih, hstep, List.flatMap_cons, collect_append]

theorem flatMap_filter_singleton {E : Type*} (keep : E → Bool)
    (items : List E) :
    (items.flatMap fun item => [item].filter keep) = items.filter keep := by
  rw [← List.filter_flatMap, List.flatMap_singleton']

theorem feed_procs (events : List Event) :
    (feed events).procs =
      collect ProcessStats.fresh Event.pid ProcessStats.add
        (events.filter isTimed) ∅ := by
  rw [← flatMap_filter_singleton]
  exact map_feed Aggregator.procs _ processEvent_procs rfl events

theorem feed_threads (events : List Event) :
    (feed events).threads =
      collect ThreadStats.fresh threadKeyOf ThreadStats.add
        (events.filter isTimed) ∅ := by
  rw [← flatMap_filter_singleton]
  exact map_feed Aggregator.threads _ processEvent_threads rfl events

theorem feed_syscalls (events : List Event) :
    (feed events).syscalls =
      collect SyscallStats.fresh Event.syscallId SyscallStats.add
        (events.filter isSyscall) ∅ := by
  rw [← flatMap_filter_singleton]
  exact map_feed Aggregator.syscalls _ processEvent_syscalls rfl events

theorem feed_stackStats (events : List Event) :
    (feed events).stackStats =
      collect StackStats.fresh StackHit.id StackStats.add
        ((events.filter isTimed).flatMap stackHits) ∅ := by
  rw [← flatMap_filter_singleton, List.flatMap_assoc]
  exact map_feed Aggregator.stackStats _ processEvent_stackStats rfl events

theorem feed_total (events : List Event) :
    (feed events).total = UInt64.ofNat events.length := by
  induction events using List.reverseRecOn with
  | nil => rfl
  | append_singleton events ev ih =>
      have hfeed : feed (events ++ [ev]) = processEvent ev (feed events) := by
        simp [feed]
      rw [hfeed, processEvent_total, ih, List.length_append, UInt64.ofNat_add]
      rfl

/-! ### Entries carry their keys -/

theorem pid_eq_key {events : List Event} {pid : UInt32} {ps : ProcessStats}
    (hlookup : (feed events).procs.lookup pid = some ps) : ps.pid = pid := by
  rw [feed_procs] at hlookup
  obtain ⟨ev, before, rfl, rfl⟩ := exists_change_of_lookup_collect hlookup
  rfl

theorem syscallId_eq_key {events : List Event} {id : UInt64} {sc : SyscallStats}
    (hlookup : (feed events).syscalls.lookup id = some sc) : sc.syscallId = id := by
  rw [feed_syscalls] at hlookup
  obtain ⟨ev, before, rfl, rfl⟩ := exists_change_of_lookup_collect hlookup
  rfl

theorem threadKey_eq_key {events : List Event} {key : UInt64} {t : ThreadStats}
    (hlookup : (feed events).threads.lookup key = some t) :
    threadKey t.pid t.tid = key := by
  rw [feed_threads] at hlookup
  obtain ⟨ev, before, rfl, rfl⟩ := exists_change_of_lookup_collect hlookup
  rfl

theorem stackId_eq_key {events : List Event} {id : Int64} {st : StackStats}
    (hlookup : (feed events).stackStats.lookup id = some st) : st.stackId = id := by
  rw [feed_stackStats] at hlookup
  obtain ⟨hit, before, rfl, rfl⟩ := exists_change_of_lookup_collect hlookup
  rfl

end KernelScope.Aggregation
