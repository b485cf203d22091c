import KernelScope.Bpf.FilterSoundness
import KernelScope.Core.Aggregation
import KernelScope.Core.Classifications
import KernelScope.Core.EventDecoder
import KernelScope.Library.Decimal

/-!
# Stack flags and stack ids

An event says twice whether it has a stack: by a flag, which `print_trace_event`
looks at, and by the sign of the id, which `update_stack` looks at.  The flags
are computed at system-call entry and kept in `active_syscalls`; the other
programs write neither stack nor flag.  In every run the two agree.
-/

namespace KernelScope.StackFlags

open KernelScope.Aggregation
open KernelScope.Classifications
open KernelScope.Decimal
open KernelScope.EventDecoder
open KernelScope.Events
open KernelScope.FilterSoundness (fire)
open KernelScope.Filters
open KernelScope.Handlers
open KernelScope.KeyedFold
open KernelScope.StepRun
open KernelScope.WireFormat

/-! ## What is printed -/

/-- `printf` of `%ld` -/
def signedDecimal (value : Int64) : List UInt8 :=
  if value < 0 then ascii "-" ++ decimal value.toInt.natAbs
  else decimal value.toInt.natAbs

/-- The end of the line that `print_trace_event` prints. -/
def printStacks (ev : Event) : List UInt8 :=
  (if ev.hasUserStack then ascii " ustack=" ++ signedDecimal ev.userStackId else []) ++
    (if ev.hasKernStack then ascii " kstack=" ++ signedDecimal ev.kernStackId else [])

/-- The flag bits and the signs of the ids say the same. -/
structure FlagsAgree (flags : UInt32) (userStackId kernStackId : Int64) : Prop where
  user : flags &&& evfHasUserStack ≠ 0 ↔ userStackId ≥ 0
  kern : flags &&& evfHasKernStack ≠ 0 ↔ kernStackId ≥ 0

theorem flagsAgree_none : FlagsAgree 0 (-1) (-1) := by
  constructor <;> decide

theorem flagsAgree_or (userStackId kernStackId : Int64) :
    FlagsAgree
      ((if userStackId ≥ 0 then evfHasUserStack else 0) |||
        (if kernStackId ≥ 0 then evfHasKernStack else 0))
      userStackId kernStackId := by
  by_cases huser : userStackId ≥ 0 <;> by_cases hkern : kernStackId ≥ 0 <;>
    constructor <;> simp [huser, hkern] <;> decide

/-- The entry that `tp_sys_enter` stores. -/
theorem flagsAgree_sysEnterEntry (ro : Rodata) (input : SysEnterInput) :
    FlagsAgree (sysEnterEntry ro input).flags (sysEnterEntry ro input).userStackId
      (sysEnterEntry ro input).kernStackId := by
  cases hcapture : shouldCaptureStack ro input.rand with
  | true =>
      simp only [sysEnterEntry, hcapture, if_true]
      exact flagsAgree_or _ _
  | false =>
      simp only [sysEnterEntry, hcapture, Bool.false_eq_true, false_and, if_false]
      exact flagsAgree_none

/-- Flags and ids agree, and only the events that `process_event` adds to the
stack table have stacks. -/
structure EventAgrees (e : WireEvent) : Prop where
  flags : FlagsAgree e.flags e.userStackId e.kernStackId
  timed : isTimed (fromWire e) = false → stackHits (fromWire e) = []

/-- What every run keeps. -/
structure MapsAgree (m : Maps) : Prop where
  events : ∀ e ∈ m.events, EventAgrees e
  activeSyscalls : ∀ key entry, m.activeSyscalls.lookup key = some entry →
    FlagsAgree entry.flags entry.userStackId entry.kernStackId

section Run

variable {ro : Rodata} {m : Maps}

/-- A record without stacks. -/
theorem eventAgrees_none {e : WireEvent} (hflags : e.flags = 0)
    (huser : e.userStackId = -1) (hkern : e.kernStackId = -1) : EventAgrees e where
  flags := by
    rw [hflags, huser, hkern]
    exact flagsAgree_none
  timed _ := by
    have hneg : (-1 : Int64) < 0 := by decide
    simp [stackHits, fromWire, huser, hkern, hneg]

theorem MapsAgree.record (hm : MapsAgree m) {call : Call} {e : WireEvent}
    (hrecord : call.record ro m = some e) : EventAgrees e := by
  cases call with
  | sysEnter task input => cases hrecord
  | sysExit task input =>
      obtain ⟨entry, slot, hlookup, -, -, rfl⟩ := record_sysExit.mp hrecord
      refine ⟨hm.activeSyscalls _ entry hlookup, fun htimed => ?_⟩
      cases htimed
  | schedSwitch input =>
      obtain ⟨state, slot, -, -, -, -, rfl⟩ := record_schedSwitch.mp hrecord
      exact eventAgrees_none rfl rfl rfl
  | processExec task input =>
      obtain ⟨slot, -, -, rfl⟩ := record_processExec.mp hrecord
      exact eventAgrees_none rfl rfl rfl
  | processExit task input =>
      obtain ⟨slot, -, -, rfl⟩ := record_processExit.mp hrecord
      exact eventAgrees_none rfl rfl rfl

theorem MapsAgree.fire (hm : MapsAgree m) (call : Call) :
    MapsAgree (fire ro m call) where
  events e he := by
    rw [FilterSoundness.fire, events_handle, List.mem_append, Option.mem_toList] at he
    rcases he with hold | hnew
    · exact hm.events e hold
    · exact hm.record hnew
  activeSyscalls key entry hlookup := by
    rcases lookup_handle_activeSyscalls_cases hlookup with
      hold | ⟨-, input, -, -, -, rfl⟩
    · exact hm.activeSyscalls key entry hold
    · exact flagsAgree_sysEnterEntry ro input

end Run

/-- The entries an agreeing event is added to are those of its stacks, whatever
its type. -/
theorem EventAgrees.processEvent_stackStats {e : WireEvent} (he : EventAgrees e)
    (agg : Aggregator) :
    (processEvent (fromWire e) agg).stackStats =
      collect StackStats.fresh StackHit.id StackStats.add
        (stackHits (fromWire e)) agg.stackStats := by
  rw [Aggregation.processEvent_stackStats]
  cases htimed : isTimed (fromWire e) with
  | true => simp [htimed]
  | false => simp [htimed, he.timed htimed]

end KernelScope.StackFlags
