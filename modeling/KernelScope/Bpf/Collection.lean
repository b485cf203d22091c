import KernelScope.Bpf.HandlerSpecs
import KernelScope.Core.EventDecoder
import KernelScope.Library.StepRun

/-!
# Collection and loss accounting

The programs submit records to the ring buffer and `Collector::handle_event`
consumes them in order.  The collector counts the records it decodes and the
records it cannot decode; a reservation that fails in the kernel leaves no
record, and nothing counts it.
-/

namespace KernelScope.Collection

open KernelScope.EventDecoder
open KernelScope.Events
open KernelScope.Filters
open KernelScope.Handlers
open KernelScope.StepRun
open KernelScope.WireFormat

/-- The collector, with the state `App` its callback works on. -/
structure Collector (App : Type*) where
  received : UInt64
  decodeErrors : UInt64
  callback : Option (Event → App → App)
  app : App

section Collector

variable {App : Type*}

/-- A collector whose counters are zero. -/
def Collector.new (callback : Option (Event → App → App)) (app : App) :
    Collector App where
  received := 0
  decodeErrors := 0
  callback := callback
  app := app

def handleEvent (raw : List UInt8) (collector : Collector App) :
    Collector App :=
  match decodeEvent raw with
  | none => { collector with decodeErrors := collector.decodeErrors + 1 }
  | some event =>
      let counted := { collector with received := collector.received + 1 }
      match collector.callback with
      | some callback => { counted with app := callback event counted.app }
      | none => counted

def Collector.eventsReceived (collector : Collector App) : UInt64 :=
  collector.received

def Collector.eventsLost (collector : Collector App) : UInt64 :=
  collector.decodeErrors

/-- Records written by the programs decode, so each one counts as received. -/
theorem handleEvent_encode_received (e : WireEvent)
    (collector : Collector App) :
    (handleEvent (wireLayout.encode e) collector).received =
      collector.received + 1 := by
  simp only [handleEvent, decodeEvent_encode]
  cases collector.callback <;> rfl

theorem handleEvent_encode_decodeErrors (e : WireEvent)
    (collector : Collector App) :
    (handleEvent (wireLayout.encode e) collector).decodeErrors =
      collector.decodeErrors := by
  simp only [handleEvent, decodeEvent_encode]
  cases collector.callback <;> rfl

end Collector

/-! ## The pipeline -/

/-- The maps with the records not yet consumed, the collector, and two counts
that the program does not keep: how often a handler decided to emit, and how
often the reservation then failed. -/
structure Pipeline (App : Type*) where
  maps : Maps
  collector : Collector App
  decided : ℕ
  dropped : ℕ

inductive Label where
  | call (call : Call)
  | consume

section Pipeline

variable {App : Type*}

def Pipeline.start (collector : Collector App) : Pipeline App where
  maps := Maps.empty
  collector := collector
  decided := 0
  dropped := 0

/-- The call passed its thresholds and filters, but no slot was free. -/
def drops (ro : Rodata) (call : Call) (maps : Maps) : Bool :=
  (call.emission ro maps).isSome && call.slot.isNone

def exec (ro : Rodata) (p : Pipeline App) : Label → Pipeline App
  | .call call =>
      { p with
        maps := call.handle ro p.maps
        decided := p.decided + (call.emission ro p.maps).isSome.toNat
        dropped := p.dropped + (drops ro call p.maps).toNat }
  | .consume =>
      match p.maps.events with
      | [] => p
      | e :: rest =>
          { p with
            maps := { p.maps with events := rest }
            collector := handleEvent (wireLayout.encode e) p.collector }

/-- The collector's counters and the records in flight account for every
decision to emit, and an empty buffer with no loss reported means no loss. -/
structure Accounted (p : Pipeline App) : Prop where
  counters : UInt64.ofNat p.decided =
    p.collector.eventsReceived + p.collector.eventsLost +
      UInt64.ofNat p.maps.events.length
  lossless : p.maps.events = [] → p.collector.eventsLost = 0 → p.dropped = 0

/-- The step drops no event. -/
def DropsNothing (ro : Rodata) (p : Pipeline App) : Label → Prop
  | .call call => drops ro call p.maps = false
  | .consume => True

/-- What the counters really say: losses in the kernel are in none of them. -/
structure Counted (p : Pipeline App) : Prop where
  received : p.collector.received + UInt64.ofNat p.maps.events.length +
    UInt64.ofNat p.dropped = UInt64.ofNat p.decided
  noErrors : p.collector.decodeErrors = 0

/-- Each decision either becomes a record or is dropped. -/
theorem decision_cases (ro : Rodata) (call : Call) (maps : Maps) :
    (call.emission ro maps).isSome.toNat =
      (call.record ro maps).toList.length + (drops ro call maps).toNat := by
  unfold drops Call.record
  cases call.emission ro maps with
  | none => rfl
  | some fill => cases call.slot <;> rfl

theorem Counted.step {ro : Rodata} {p : Pipeline App} (label : Label)
    (hcounted : Counted p) : Counted (exec ro p label) := by
  cases label with
  | call call =>
      refine ⟨?_, hcounted.noErrors⟩
      simp only [exec, events_handle, List.length_append,
        decision_cases ro call p.maps, UInt64.ofNat_add, ← hcounted.received]
      ac_rfl
  | consume =>
      cases hevents : p.maps.events with
      | nil => simpa [exec, hevents] using hcounted
      | cons e rest =>
          have hreceived := hcounted.received
          rw [hevents, List.length_cons, UInt64.ofNat_add,
            show UInt64.ofNat 1 = 1 from rfl] at hreceived
          constructor
          · simp only [exec, hevents, handleEvent_encode_received,
              ← hreceived]
            ac_rfl
          · simp only [exec, hevents, handleEvent_encode_decodeErrors]
            exact hcounted.noErrors

theorem dropped_exec {ro : Rodata} {p : Pipeline App} {label : Label}
    (hdropped : p.dropped = 0) (hkeeps : DropsNothing ro p label) :
    (exec ro p label).dropped = 0 := by
  cases label with
  | call call =>
      have hkeeps : drops ro call p.maps = false := hkeeps
      simp [exec, hkeeps, hdropped]
  | consume =>
      cases hevents : p.maps.events <;> simp [exec, hevents, hdropped]

/-- As long as nothing was dropped the accounting is right. -/
theorem Counted.accounted {p : Pipeline App} (hcounted : Counted p)
    (hdropped : p.dropped = 0) : Accounted p where
  counters := by
    have hreceived := hcounted.received
    rw [hdropped] at hreceived
    simp [Collector.eventsReceived, Collector.eventsLost, hcounted.noErrors,
      ← hreceived]
  lossless _ _ := hdropped

/-- The first dropped event breaks the accounting. -/
theorem Counted.dropped_ne_one {p : Pipeline App} (hcounted : Counted p)
    (haccounted : Accounted p) : p.dropped ≠ 1 := by
  intro hdropped
  have hreceived := hcounted.received
  have hcounters := haccounted.counters
  simp only [Collector.eventsReceived, Collector.eventsLost,
    hcounted.noErrors, UInt64.add_zero, ← hreceived, hdropped] at hcounters
  exact absurd hcounters (by simp)

/-- For every run of the programs and the collector the loss accounting is
right in every state exactly when no reservation that a program asks for
fails. -/
theorem accounted_iff_dropsNothing (ro : Rodata)
    (callback : Option (Event → App → App)) (app : App)
    (labels : List Label) :
    Always (exec ro) Accounted
        (Pipeline.start (Collector.new callback app)) labels ↔
      Along (exec ro) (DropsNothing ro)
        (Pipeline.start (Collector.new callback app)) labels := by
  have hstart : Counted (Pipeline.start (Collector.new callback app)) := by
    constructor <;> rfl
  constructor
  · intro halways
    refine along_of_always (fun p => Counted p ∧ p.dropped = 0) ?_ ?_
      ⟨hstart, rfl⟩ (along_true _ labels) halways
    · rintro p label ⟨hcounted, hdropped⟩ - hkeeps
      exact ⟨hcounted.step label, dropped_exec hdropped hkeeps⟩
    · rintro p label ⟨hcounted, hdropped⟩ - haccounted
      cases label with
      | call call =>
          have hne := (hcounted.step (.call call)).dropped_ne_one haccounted
          cases hdrops : drops ro call p.maps with
          | false => exact hdrops
          | true => exact absurd (by simp [exec, hdrops, hdropped]) hne
      | consume => trivial
  · intro hkeeps
    have halways := always_of_invariant
      (fun p : Pipeline App => Counted p ∧ p.dropped = 0)
      (fun p label hboth hkeeps =>
        ⟨hboth.1.step label, dropped_exec hboth.2 hkeeps⟩)
      ⟨hstart, rfl⟩ hkeeps
    exact halways.imp fun p hboth => hboth.1.accounted hboth.2

/-- The buffer is full when a process calls exec: the event is gone, and the
drained collector reports no loss. -/
theorem full_buffer_unaccounted :
    let ro := Rodata.default
    let labels : List Label :=
      [.call (.processExec (TaskContext.ofIds 7 7) ⟨100, none⟩), .consume]
    let p := run (exec ro) (Pipeline.start (Collector.new none ())) labels
    p.decided = 1 ∧ p.dropped = 1 ∧ p.maps.events = [] ∧
      p.collector.eventsReceived = 0 ∧ p.collector.eventsLost = 0 ∧
      ¬Always (exec ro) Accounted
        (Pipeline.start (Collector.new none ())) labels := by
  intro ro labels p
  refine ⟨rfl, rfl, rfl, rfl, rfl, ?_⟩
  rintro ⟨-, hlast, -⟩
  exact absurd hlast.counters (by decide)

end Pipeline

end KernelScope.Collection
