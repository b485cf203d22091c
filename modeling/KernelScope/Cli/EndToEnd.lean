import KernelScope.Bpf.SyscallPairing
import KernelScope.Cli.CaptureCommands
import KernelScope.Core.EntryFields

/-!
# From the tasks to the tables

The whole way of a system call: a task enters and leaves it, the handlers write
a record, the collector decodes it, and the aggregator adds it to its tables.
`observed` says what the tables should be about, in terms of the tasks alone: it
knows which entry a task is inside of, and neither maps nor records.
-/

namespace KernelScope.EndToEnd

open KernelScope.Aggregation
open KernelScope.CaptureCommands
open KernelScope.Collection
open KernelScope.EntryFields
open KernelScope.EventDecoder
open KernelScope.Events
open KernelScope.Filters
open KernelScope.Handlers
open KernelScope.KeyedFold
open KernelScope.LiveLoop (liveCallback)
open KernelScope.ReplayCommand (foldl_liveCallback)
open KernelScope.StepRun
open KernelScope.SyscallPairing
open KernelScope.WireFormat

/-- A system call that was long enough to be reported. -/
structure Latency where
  pid : UInt32
  id : UInt64
  elapsed : ℕ
  deriving DecidableEq

section Observation

variable {Task : Type*} [DecidableEq Task]

/-- The call that ends with the action, if it is to be reported: its entry passed
the filters and found room in the map, it took long enough, and there was room
in the ring buffer. -/
def observed (ro : Rodata) (key : Task → TaskKey) (world : World Task) :
    Action Task → Option Latency
  | .sysExit task _ input =>
      match world.live task with
      | some (.inside (some enter)) =>
          let elapsed := input.now.toNat - enter.input.startNs.toNat
          if (sysEnterAccepts ro enter.context = true ∧ enter.input.updateOk = true) ∧
              ro.minLatencyNs.toNat ≤ elapsed ∧ input.slot.isSome then
            some ⟨(key task).pid, enter.input.id, elapsed⟩
          else none
      | _ => none
  | _ => none

/-- The reported calls of a run. -/
def latencies (ro : Rodata) (key : Task → TaskKey) :
    World Task → List (Action Task) → List Latency
  | _, [] => []
  | world, action :: actions =>
      (observed ro key world action).toList ++
        latencies ro key (SyscallPairing.exec ro world action) actions

/-- What a record says about a call. -/
def latencyOf (e : WireEvent) : Latency where
  pid := e.pid
  id := e.syscallId
  elapsed := e.durationNs.toNat

variable {ro : Rodata} {key : Task → TaskKey} {world : World Task}

omit [DecidableEq Task] in
/-- The tracepoint that fires with the action. -/
def callOf : Action Task → Option Call
  | .start _ _ => none
  | .sysEnter _ context input => some (.sysEnter context input)
  | .sysExit _ context input => some (.sysExit context input)
  | .processExit _ context input => some (.processExit context input)
  | .schedSwitch input => some (.schedSwitch input)
  | .processExec context input => some (.processExec context input)

theorem events_exec (ro : Rodata) (world : World Task) (action : Action Task) :
    (SyscallPairing.exec ro world action).maps.events = world.maps.events ++
      ((callOf action).bind fun call => call.record ro world.maps).toList := by
  cases action with
  | start task insideSyscall => exact (List.append_nil _).symm
  | sysEnter task context input => exact events_handle ro (.sysEnter context input) _
  | sysExit task context input => exact events_handle ro (.sysExit context input) _
  | processExit task context input => exact events_handle ro (.processExit context input) _
  | schedSwitch input => exact events_handle ro (.schedSwitch input) _
  | processExec context input => exact events_handle ro (.processExec context input) _

omit [DecidableEq Task] in
/-- Without a stored entry of the task's own call, nothing is found. -/
theorem lookup_eq_none (hpaired : Paired ro key world) {task : Task}
    {context : TaskContext} {input : SysExitInput}
    (hallowed : SyscallPairing.Allowed ro key world (.sysExit task context input))
    (hnothing : ∀ enter, world.Pending task enter → ¬enter.Stored ro) :
    world.maps.activeSyscalls.lookup (fillTaskKey ro context) = none := by
  apply Option.eq_none_iff_forall_ne_some.mpr
  intro entry hentry
  obtain ⟨enter, hpending, hstored, -⟩ := (hpaired.lookup_exit hallowed).mp hentry
  exact hnothing enter hpending hstored

omit [DecidableEq Task] in
/-- The record of a `sys_exit` is about the observed call. -/
theorem record_observed (hpaired : Paired ro key world) {task : Task}
    {context : TaskContext} {input : SysExitInput}
    (hallowed : SyscallPairing.Allowed ro key world (.sysExit task context input)) :
    ((Call.sysExit context input).record ro world.maps).map latencyOf =
      observed ro key world (.sysExit task context input) := by
  obtain ⟨phase, hinside⟩ := hallowed.1
  rw [Call.record, Call.emission, observed, hinside]
  cases phase with
  | none =>
      have hother : ∀ other, world.Pending task other → ¬other.Stored ro := by
        intro other hpending
        rw [World.Pending, hinside] at hpending
        cases hpending
      rw [lookup_eq_none hpaired hallowed hother]
      rfl
  | some enter =>
      by_cases hstored : enter.Stored ro
      · have hle := hpaired.start_le_exit hallowed hinside
        have helapsed : (input.now - enter.input.startNs).toNat =
            input.now.toNat - enter.input.startNs.toNat := UInt64.toNat_sub_of_le _ _ hle
        have hpid : (key task).pid = (fillTaskKey ro context).pid := by rw [hallowed.2.1]
        have hstart : (sysEnterEntry ro enter.input).startNs = enter.input.startNs := rfl
        rw [(hpaired.lookup_exit hallowed).mpr ⟨enter, hinside, hstored, rfl⟩]
        dsimp only [Option.bind_some]
        rw [hstart]
        by_cases hlong : ro.minLatencyNs.toNat ≤
            input.now.toNat - enter.input.startNs.toNat
        · rw [if_pos ((elapsed_ge_iff hle).mpr hlong)]
          cases hslot : input.slot with
          | none => simp [Call.slot, hslot]
          | some slot =>
              rw [if_pos ⟨hstored, hlong, rfl⟩, hpid, ← helapsed]
              simp only [Call.slot, hslot]
              rfl
        · rw [if_neg fun h => hlong ((elapsed_ge_iff hle).mp h), if_neg fun h => hlong h.2.1]
          rfl
      · have hother : ∀ other, world.Pending task other → ¬other.Stored ro := by
          intro other hpending
          rw [World.Pending, hinside] at hpending
          cases hpending
          exact hstored
        rw [lookup_eq_none hpaired hallowed hother]
        exact (if_neg fun h => hstored h.1).symm

/-- The record of a `sys_exit`. -/
def exitRecord (ro : Rodata) (world : World Task) : Action Task → Option WireEvent
  | .sysExit _ context input => (Call.sysExit context input).record ro world.maps
  | _ => none

/-- No other step adds a slow event. -/
theorem slowEvents_exec_eq (ro : Rodata) (world : World Task) (action : Action Task) :
    (SyscallPairing.exec ro world action).slowEvents =
      world.slowEvents ++ (exitRecord ro world action).toList := by
  have hquiet : ∀ call : Call, call.evType ≠ .syscallSlow →
      World.slowEvents { world with maps := call.handle ro world.maps } =
        world.slowEvents ++ [] := by
    intro call hcall
    rw [slowEvents_handle ro world call hcall, List.append_nil]
  cases action with
  | start task insideSyscall => exact (List.append_nil _).symm
  | sysEnter task context input => exact hquiet (.sysEnter context input) (by simp [Call.evType])
  | processExit task context input =>
      exact hquiet (.processExit context input) (by simp [Call.evType])
  | schedSwitch input => exact hquiet (.schedSwitch input) (by simp [Call.evType])
  | processExec context input => exact hquiet (.processExec context input) (by simp [Call.evType])
  | sysExit task context input =>
      rw [World.slowEvents, World.slowEvents, events_exec, List.filter_append, callOf,
        Option.bind_some, exitRecord]
      cases hrecord : (Call.sysExit context input).record ro world.maps with
      | none => rfl
      | some e =>
          have htype : e.type = EvType.syscallSlow.code := record_type hrecord
          simp [htype]

/-- Each step adds the record of the observed call, and no other slow event. -/
theorem slowEvents_exec (hpaired : Paired ro key world) {action : Action Task}
    (hallowed : SyscallPairing.Allowed ro key world action) :
    (SyscallPairing.exec ro world action).slowEvents.map latencyOf =
      world.slowEvents.map latencyOf ++ (observed ro key world action).toList := by
  rw [slowEvents_exec_eq, List.map_append]
  cases action with
  | sysExit task context input =>
      rw [← record_observed hpaired hallowed, exitRecord, Option.toList_map]
  | _ => rfl

/-- The slow events of a run are the reports of the observed calls, in order. -/
theorem slowEvents_run {actions : List (Action Task)} (hpaired : Paired ro key world)
    (hrun : Along (SyscallPairing.exec ro) (SyscallPairing.Allowed ro key) world actions) :
    (run (SyscallPairing.exec ro) world actions).slowEvents.map latencyOf =
      world.slowEvents.map latencyOf ++ latencies ro key world actions := by
  induction actions generalizing world with
  | nil => exact (List.append_nil _).symm
  | cons action actions ih =>
      rw [run_cons, ih (hpaired.step hrun.1) hrun.2, slowEvents_exec hpaired hrun.1,
        List.append_assoc]
      rfl

/-- `process_event` takes none of the other events for a system call. -/
theorem isSyscall_of_record {call : Call} {m : Maps} {e : WireEvent}
    (hrecord : call.record ro m = some e) :
    isSyscall (fromWire e) = decide (e.type = EvType.syscallSlow.code) := by
  have htype := record_type hrecord
  have hevent : (fromWire e).type = EventType.ofCode call.evType.code := by rw [← htype]; rfl
  rw [isSyscall, hevent, htype]
  cases call with
  | sysEnter task input => cases hrecord
  | _ => rfl

/-- The events that reach the system-call table are the slow events. -/
theorem filter_isSyscall_run (actions : List (Action Task)) :
    let final := run (SyscallPairing.exec ro) (World.initial Task) actions
    (final.maps.events.map fromWire).filter isSyscall = final.slowEvents.map fromWire := by
  intro final
  have hall : ∀ e ∈ final.maps.events,
      isSyscall (fromWire e) = decide (e.type = EvType.syscallSlow.code) := by
    refine (always_of_step (fun world : World Task => ∀ e ∈ world.maps.events,
      isSyscall (fromWire e) = decide (e.type = EvType.syscallSlow.code)) ?_ ?_ actions).last
    · intro world action hold e he
      rw [events_exec, List.mem_append, Option.mem_toList] at he
      rcases he with hbefore | hnew
      · exact hold e hbefore
      · obtain ⟨call, -, hrecord⟩ := Option.bind_eq_some_iff.mp hnew
        exact isSyscall_of_record hrecord
    · intro e he
      cases he
  rw [List.filter_map, World.slowEvents]
  congr 1
  apply List.filter_congr
  intro e he
  exact hall e he

end Observation

/-! ## The tables -/

section Tables

/-- What an entry of the system-call table says about the calls. -/
structure Tells (stats : SyscallStats) (calls : List Latency) : Prop where
  count : stats.count = UInt64.ofNat calls.length
  total : stats.totalNs = UInt64.ofNat (calls.map Latency.elapsed).sum
  max : IsGreatest {elapsed | ∃ call ∈ calls, call.elapsed = elapsed} stats.maxNs.toNat
  pids : ∀ pid, pid ∈ stats.affectedPids ↔ ∃ call ∈ calls, call.pid = pid

/-- The entries that the slow events leave. -/
theorem tells_of_lookup {slow : List WireEvent} {id : UInt64} {stats : SyscallStats}
    (hlookup : (collect SyscallStats.fresh Event.syscallId SyscallStats.add
      (slow.map fromWire) ∅).lookup id = some stats) :
    Tells stats (group Latency.id id (slow.map latencyOf)) := by
  have hevents := group_map fromWire Event.syscallId id slow
  have hcalls := group_map latencyOf Latency.id id slow
  have hkeys : Latency.id ∘ latencyOf = Event.syscallId ∘ fromWire := rfl
  rw [hkeys] at hcalls
  have hfields := syscallFields_of_collect hlookup
  rw [hevents] at hfields
  rw [hcalls]
  constructor
  case count => rw [hfields.count, List.length_map, List.length_map]
  case total =>
    rw [hfields.totalNs, totalNs, List.map_map, List.map_map]
    rfl
  case max =>
    obtain ⟨⟨longest, hlongest, hmax⟩, hbound⟩ := hfields.maxNs
    constructor
    · obtain ⟨e, he, rfl⟩ := List.mem_map.mp hlongest
      exact ⟨latencyOf e, List.mem_map_of_mem he, hmax⟩
    · rintro _ ⟨call, hcall, rfl⟩
      obtain ⟨e, he, rfl⟩ := List.mem_map.mp hcall
      exact hbound ⟨fromWire e, List.mem_map_of_mem he, rfl⟩
  case pids =>
    intro pid
    rw [hfields.affectedPids]
    simp [fromWire, latencyOf]

theorem lookup_eq_none_iff {slow : List WireEvent} {id : UInt64} :
    (collect SyscallStats.fresh Event.syscallId SyscallStats.add
        (slow.map fromWire) ∅).lookup id = none ↔
      group Latency.id id (slow.map latencyOf) = [] := by
  have hkeys : Latency.id ∘ latencyOf = Event.syscallId ∘ fromWire := rfl
  rw [lookup_collect_empty, group_map, group_map, hkeys]
  split
  next hnil => simpa using hnil
  next hnil => simpa using hnil

end Tables

section Runs

variable {Task : Type*} [DecidableEq Task] {ro : Rodata} {key : Task → TaskKey}

/-- The aggregator of a live command that has consumed every record. -/
def consumed (records : List WireEvent) : Aggregator :=
  (poll (records.map wireLayout.encode)
    (Collector.new (some liveCallback) Aggregator.fresh)).app

theorem consumed_eq (records : List WireEvent) :
    consumed records = feed (records.map fromWire) := by
  have hdecoded : (records.map wireLayout.encode).filterMap decodeEvent =
      records.map fromWire := by
    rw [List.filterMap_map, ← List.filterMap_eq_map]
    congr 1
    funext e
    exact decodeEvent_encode e
  rw [consumed, (poll_spec _ rfl).2, hdecoded]
  exact foldl_liveCallback _

/-- In every run of tasks with keys of their own, the system-call table of a live
command is the table of the calls that were reported: there is an entry for each of
their ids and no other one, and it has their number, the sum of their true durations
modulo `2 ^ 64`, the longest of them, and the processes that made them. -/
theorem syscall_table_exact {actions : List (Action Task)}
    (hrun : Along (SyscallPairing.exec ro) (SyscallPairing.Allowed ro key)
      (World.initial Task) actions) :
    let agg := consumed (run (SyscallPairing.exec ro) (World.initial Task) actions).maps.events
    let calls := latencies ro key (World.initial Task) actions
    ∀ id, (agg.syscalls.lookup id = none ↔ group Latency.id id calls = []) ∧
      ∀ stats, agg.syscalls.lookup id = some stats →
        Tells stats (group Latency.id id calls) := by
  intro agg calls id
  have hnothing : Along (SyscallPairing.exec ro) (SyscallPairing.Allowed ro key)
      (World.initial Task) [] := trivial
  have hstart : Paired ro key (World.initial Task) := (paired_and_accounted hnothing).1
  have hslow : (run (SyscallPairing.exec ro) (World.initial Task) actions).slowEvents.map
      latencyOf = calls := by
    rw [slowEvents_run hstart hrun]
    rfl
  have htable : agg.syscalls = collect SyscallStats.fresh Event.syscallId SyscallStats.add
      ((run (SyscallPairing.exec ro) (World.initial Task) actions).slowEvents.map fromWire)
      ∅ := by
    rw [← filter_isSyscall_run, ← feed_syscalls]
    exact congrArg Aggregator.syscalls (consumed_eq _)
  rw [htable, ← hslow]
  exact ⟨lookup_eq_none_iff, fun stats hlookup => tells_of_lookup hlookup⟩

/-- A single task reads for one millisecond. -/
theorem syscall_table_exact_read :
    let ro := Rodata.default
    let key : Unit → TaskKey := fun _ => ⟨7, 8⟩
    let context := TaskContext.ofIds 7 8
    let actions : List (Action Unit) :=
      [.start () false, .sysEnter () context ⟨0, 1000, 0, 5, 6, true⟩,
        .sysExit () context ⟨1001000, 1001001, some WireEvent.zero⟩]
    let agg := consumed (run (SyscallPairing.exec ro) (World.initial Unit) actions).maps.events
    latencies ro key (World.initial Unit) actions = [⟨7, 0, 1000000⟩] ∧
      ∃ stats, agg.syscalls.lookup 0 = some stats ∧ stats.count = 1 ∧
        stats.totalNs = 1000000 := by
  intro ro key context actions agg
  have hrun : Along (SyscallPairing.exec ro) (SyscallPairing.Allowed ro key)
      (World.initial Unit) actions := by
    refine ⟨⟨rfl, fun other h => absurd rfl h⟩, ⟨rfl, ?_, ?_⟩, ⟨⟨_, rfl⟩, ?_, ?_⟩, trivial⟩
    all_goals decide
  have hcalls : latencies ro key (World.initial Unit) actions = [⟨7, 0, 1000000⟩] := by
    decide +kernel
  have hexact := syscall_table_exact hrun 0
  rw [hcalls] at hexact
  refine ⟨hcalls, ?_⟩
  cases hlookup : agg.syscalls.lookup 0 with
  | none => exact absurd (hexact.1.mp hlookup) (List.cons_ne_nil _ _)
  | some stats => exact ⟨stats, rfl, (hexact.2 stats hlookup).count, (hexact.2 stats hlookup).total⟩

end Runs

end KernelScope.EndToEnd
