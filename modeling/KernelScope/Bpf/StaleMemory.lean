import KernelScope.Bpf.HandlerSpecs
import KernelScope.Core.Classifications
import KernelScope.Core.EventDecoder
import Mathlib.Data.List.TakeWhile

/-!
# Uninitialised ring-buffer slots

`bpf_ringbuf_reserve` returns memory that still holds what was there before.
No program fills all of it: the alignment gap is never written, `pad` only by
`tp_sched_switch`, and that one writes the name only up to its NUL.  What the
decoder and everything behind it reads is nevertheless the same for every prior
content of the slot.
-/

namespace KernelScope.StaleMemory

open KernelScope.Aggregation
open KernelScope.Classifications
open KernelScope.EventDecoder
open KernelScope.Events
open KernelScope.Filters
open KernelScope.Handlers
open KernelScope.WireFormat

/-! ## Copied names -/

/-- The value at which the longest accepted beginning ends is not accepted. -/
theorem takeWhile_stops {A : Type*} {p : A → Bool} {values accepted : List A}
    (haccepted : values.takeWhile p = accepted) {value : A}
    (hvalue : values[accepted.length]? = some value) : p value = false := by
  subst haccepted
  obtain ⟨hshort, rfl⟩ := List.getElem?_eq_some_iff.mp hvalue
  have hindex :
      (values.takeWhile p).length = values.findIdx fun value => !p value := by
    rw [List.takeWhile_eq_take_findIdx_not, List.length_take, Nat.min_eq_left]
    exact List.findIdx_le_length
  have hfails := List.findIdx_getElem (w := hindex ▸ hshort)
  simpa only [← hindex, Bool.not_eq_true'] using hfails

/-- A beginning that is accepted and followed by a value that is not is the
longest accepted one. -/
theorem takeWhile_eq_of_stop {A : Type*} {p : A → Bool} {values accepted : List A}
    (hbegins : accepted <+: values) (haccepted : ∀ value ∈ accepted, p value = true)
    {value : A} (hvalue : values[accepted.length]? = some value)
    (hstop : p value = false) : values.takeWhile p = accepted := by
  obtain ⟨rest, rfl⟩ := hbegins
  rw [List.getElem?_append_right le_rfl, Nat.sub_self] at hvalue
  obtain ⟨tail, rfl⟩ : ∃ tail, rest = value :: tail := by
    cases rest with
    | nil => cases hvalue
    | cons head tail => exact ⟨tail, by rw [Option.some.inj hvalue]⟩
  rw [List.takeWhile_append_of_pos haccepted, List.takeWhile_cons_of_neg (by simp [hstop]),
    List.append_nil]

/-- A byte is copied as long as there was no NUL before it. -/
theorem getElem_probeReadKernelStr (destination source : Comm) {index : ℕ}
    (hindex : index < 16) (hbefore : ∀ byte ∈ source.toList.take index, byte ≠ 0) :
    (probeReadKernelStr destination source)[index] =
      if index = 15 then 0 else source[index] := by
  have hcopied : (source.toList.take index).all (· ≠ 0) = true := by
    rw [List.all_eq_true]
    exact fun byte hbyte => decide_eq_true (hbefore byte hbyte)
  simp only [probeReadKernelStr, Vector.getElem_ofFn, if_pos hcopied, Fin.ext_iff]
  rfl

/-- Up to its NUL the copy does not depend on the destination. -/
theorem takeWhile_probeReadKernelStr (destination source : Comm) :
    (probeReadKernelStr destination source).toList.takeWhile (· ≠ 0) =
      (source.toList.take 15).takeWhile (· ≠ 0) := by
  generalize hname : (source.toList.take 15).takeWhile (· ≠ 0) = name
  have hfirst : name <+: source.toList.take 15 :=
    hname ▸ List.takeWhile_prefix _
  have hbegins : name <+: source.toList := hfirst.trans (List.take_prefix _ _)
  have hlength : name.length ≤ 15 := by simpa using hfirst.length_le
  have hnonzero : ∀ byte ∈ name, byte ≠ 0 := by
    intro byte hbyte
    rw [← hname] at hbyte
    simpa using List.mem_takeWhile_imp hbyte
  have hbyte : ∀ index (hindex : index ≤ name.length),
      (probeReadKernelStr destination source)[index] =
        if index = 15 then 0 else source[index] := by
    intro index hindex
    apply getElem_probeReadKernelStr
    have hearlier : source.toList.take index <+: name := by
      apply List.prefix_of_prefix_length_le (List.take_prefix _ _) hbegins
      rw [List.length_take]
      exact (Nat.min_le_left _ _).trans hindex
    exact fun byte hbyte => hnonzero byte (hearlier.subset hbyte)
  -- The byte after the name is a NUL, the source's or the one in the last place.
  have hnul : (probeReadKernelStr destination source)[name.length] = 0 := by
    rw [hbyte _ le_rfl]
    split
    · rfl
    next hshort =>
      have hlt : name.length < 15 := Nat.lt_of_le_of_ne hlength hshort
      have hget :
          (source.toList.take 15)[name.length]? = some source[name.length] := by
        rw [List.getElem?_take_of_lt hlt, Vector.getElem?_toList,
          Vector.getElem?_eq_getElem]
      simpa using takeWhile_stops hname hget
  generalize probeReadKernelStr destination source = copied at hbyte hnul
  have hcopied : name <+: copied.toList := by
    rw [List.prefix_iff_eq_take]
    apply List.ext_getElem
    · rw [List.length_take_of_le]
      rw [Vector.length_toList]
      omega
    · intro index hindex _
      rw [List.getElem_take, hbegins.getElem hindex, Vector.getElem_toList,
        Vector.getElem_toList, hbyte index hindex.le, if_neg (by omega)]
  have hlast : copied.toList[name.length]? = some 0 := by
    rw [Vector.getElem?_toList,
      Vector.getElem?_eq_getElem (Nat.lt_succ_of_le hlength), hnul]
  exact takeWhile_eq_of_stop hcopied (by simpa using hnonzero) hlast (by decide)

/-! ## Equal reports -/

/-- The events agree on everything that is read of them: of the name only the
part before the NUL. -/
structure SameReport (ev ev' : Event) : Prop where
  timestampNs : ev.timestampNs = ev'.timestampNs
  pid : ev.pid = ev'.pid
  tid : ev.tid = ev'.tid
  commStr : ev.commStr = ev'.commStr
  cpu : ev.cpu = ev'.cpu
  type : ev.type = ev'.type
  classification : ev.classification = ev'.classification
  durationNs : ev.durationNs = ev'.durationNs
  syscallId : ev.syscallId = ev'.syscallId
  userStackId : ev.userStackId = ev'.userStackId
  kernStackId : ev.kernStackId = ev'.kernStackId
  flags : ev.flags = ev'.flags

theorem SameReport.refl (ev : Event) : SameReport ev ev := by
  constructor <;> rfl

section Consumers

variable {ev ev' : Event}

theorem SameReport.classifyEvent (hsame : SameReport ev ev') :
    classifyEvent ev = classifyEvent ev' := by
  simp only [Classifications.classifyEvent, hsame.type, hsame.syscallId]

theorem SameReport.taskStats_add (hsame : SameReport ev ev') :
    TaskStats.add ev = TaskStats.add ev' := by
  funext stats
  simp only [TaskStats.add, hsame.commStr, hsame.durationNs, hsame.type]

theorem SameReport.addStack (hsame : SameReport ev ev') (id : Int64) (kern : Bool) :
    addStack ev id kern = addStack ev' id kern := by
  have hadd : StackStats.add ⟨ev, id, kern⟩ = StackStats.add ⟨ev', id, kern⟩ := by
    funext stats
    simp only [StackStats.add, hsame.durationNs, hsame.pid, hsame.type]
  funext agg
  simp only [Aggregation.addStack, hadd]

/-- The aggregator cannot tell such events apart. -/
theorem SameReport.processEvent (hsame : SameReport ev ev') :
    processEvent ev = processEvent ev' := by
  have hprocess : updateProcess ev = updateProcess ev' := by
    have hadd : ProcessStats.add ev = ProcessStats.add ev' := by
      funext stats
      simp only [ProcessStats.add, hsame.taskStats_add, hsame.pid]
    funext agg
    simp only [updateProcess, hadd, hsame.pid]
  have hthread : updateThread ev = updateThread ev' := by
    have hadd : ThreadStats.add ev = ThreadStats.add ev' := by
      funext stats
      simp only [ThreadStats.add, hsame.taskStats_add, hsame.pid, hsame.tid]
    funext agg
    simp only [updateThread, threadKeyOf, hadd, hsame.pid, hsame.tid]
  have hsyscall : updateSyscall ev = updateSyscall ev' := by
    have hadd : SyscallStats.add ev = SyscallStats.add ev' := by
      funext stats
      simp only [SyscallStats.add, hsame.syscallId, hsame.durationNs, hsame.pid]
    funext agg
    simp only [updateSyscall, hadd, hsame.syscallId]
  have hstack : updateStack ev = updateStack ev' := by
    funext agg
    simp only [updateStack, hsame.addStack, hsame.userStackId, hsame.kernStackId]
  funext agg
  simp only [Aggregation.processEvent, hsame.type, hprocess, hthread, hsyscall,
    hstack]

end Consumers

/-! ## The slot -/

/-- The same invocation, with a slot whose memory held `prior`. -/
def withSlot (prior : Vector UInt8 88) : Call → Call
  | .sysEnter task input => .sysEnter task input
  | .sysExit task input =>
      .sysExit task { input with slot := some (wireLayout.decode prior.toList) }
  | .schedSwitch input =>
      .schedSwitch { input with slot := some (wireLayout.decode prior.toList) }
  | .processExec task input =>
      .processExec task { input with slot := some (wireLayout.decode prior.toList) }
  | .processExit task input =>
      .processExit task { input with slot := some (wireLayout.decode prior.toList) }

/-- Whether a record is submitted, and how it is filled, is decided without
looking at the slot. -/
theorem record_withSlot (ro : Rodata) (call : Call) (m : Maps)
    (prior : Vector UInt8 88) :
    (withSlot prior call).record ro m =
      (call.emission ro m).map fun fill => fill (wireLayout.decode prior.toList) := by
  have hslot : ∀ emission : Option (WireEvent → WireEvent),
      (emission.bind fun fill =>
        (some (wireLayout.decode prior.toList)).map fill) =
          emission.map fun fill => fill (wireLayout.decode prior.toList) := by
    intro emission
    cases emission <;> rfl
  cases call with
  | sysEnter task input => rfl
  | _ => exact hslot _

theorem commStr_offcpuEvent (input : SchedSwitchInput) (offcpuNs : UInt64)
    (slot : WireEvent) :
    (fromWire (offcpuEvent input offcpuNs slot)).commStr =
      (input.nextComm.toList.take 15).takeWhile (· ≠ 0) :=
  takeWhile_probeReadKernelStr slot.comm input.nextComm

/-- The one program that leaves part of the name as it was. -/
theorem sameReport_offcpuEvent (input : SchedSwitchInput) (offcpuNs : UInt64)
    (slot slot' : WireEvent) :
    SameReport (fromWire (offcpuEvent input offcpuNs slot))
      (fromWire (offcpuEvent input offcpuNs slot')) := by
  constructor
  case commStr => rw [commStr_offcpuEvent, commStr_offcpuEvent]
  all_goals simp only [fromWire, offcpuEvent]

/-- The filled slots report the same. -/
theorem sameReport_of_emission {ro : Rodata} {call : Call} {m : Maps}
    {fill : WireEvent → WireEvent} (hfill : call.emission ro m = some fill)
    (slot slot' : WireEvent) :
    SameReport (fromWire (fill slot)) (fromWire (fill slot')) := by
  cases call with
  | sysEnter task input => cases hfill
  | sysExit task input =>
      obtain ⟨entry, -, -, rfl⟩ := emission_sysExit.mp hfill
      exact SameReport.refl _
  | schedSwitch input =>
      obtain ⟨state, -, -, -, rfl⟩ := emission_schedSwitch.mp hfill
      exact sameReport_offcpuEvent input _ slot slot'
  | processExec task input =>
      obtain ⟨-, rfl⟩ := emission_processExec.mp hfill
      exact SameReport.refl _
  | processExit task input =>
      obtain ⟨-, rfl⟩ := emission_processExit.mp hfill
      exact SameReport.refl _

/-- Whatever two slots held before, an invocation submits to neither or to both,
and then the submitted bytes decode to events that agree on all that is read of
them. -/
theorem decoded_independent_of_slot (ro : Rodata) (call : Call) (m : Maps)
    (prior prior' : Vector UInt8 88) :
    ((withSlot prior call).handle ro m).events = m.events ∧
        ((withSlot prior' call).handle ro m).events = m.events ∨
      ∃ e e' ev ev',
        ((withSlot prior call).handle ro m).events = m.events ++ [e] ∧
        ((withSlot prior' call).handle ro m).events = m.events ++ [e'] ∧
        decodeEvent (wireLayout.encode e) = some ev ∧
        decodeEvent (wireLayout.encode e') = some ev' ∧
        SameReport ev ev' ∧
        classifyEvent ev = classifyEvent ev' ∧
        ∀ agg, processEvent ev agg = processEvent ev' agg := by
  rw [events_handle, events_handle, record_withSlot, record_withSlot]
  cases hfill : call.emission ro m with
  | none => exact .inl ⟨List.append_nil _, List.append_nil _⟩
  | some fill =>
      right
      have hsame := sameReport_of_emission hfill (wireLayout.decode prior.toList)
        (wireLayout.decode prior'.toList)
      exact ⟨_, _, _, _, rfl, rfl, decodeEvent_encode _, decodeEvent_encode _, hsame,
        hsame.classifyEvent, congrFun hsame.processEvent⟩

end KernelScope.StaleMemory
