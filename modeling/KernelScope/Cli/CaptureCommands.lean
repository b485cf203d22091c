import KernelScope.Cli.ReplayCommand
import KernelScope.Cli.Setup

/-!
# The capture commands

`run_trace`, `run_record` and `run_export` of `cli/commands.cpp`.  They share a
loop that polls the collector until a signal arrives or the duration is over;
the events go to the terminal, to a `.ksr` file, or into an aggregator that is
exported afterwards.  `run_export` without a duration takes the length of the
window instead.
-/

namespace KernelScope.CaptureCommands

open KernelScope.Aggregation
open KernelScope.Classifications
open KernelScope.Collection
open KernelScope.Errors
open KernelScope.EventDecoder
open KernelScope.Events
open KernelScope.Format
open KernelScope.LiveLoop (expired expired_iff liveCallback)
open KernelScope.Recording
open KernelScope.Replay
open KernelScope.ReplayCommand
open KernelScope.Setup

/-! ## The loop -/

/-- What one iteration is given: the answer of `shutdown_requested`, the records
that `poll` hands to the collector, and the clock reading inside `expired`. -/
structure Poll where
  shutdown : Bool
  records : List (List UInt8)
  reading : UInt64

section Loop

variable {App : Type*}

/-- `Collector::poll`; the commands do not look at its status. -/
def poll (records : List (List UInt8)) (collector : Collector App) : Collector App :=
  records.foldl (fun collector raw => handleEvent raw collector) collector

/-- The collector after the loop and the iterations that were not begun. -/
def captureLoop (durationSec : UInt32) (t0 : UInt64) :
    Collector App → List Poll → Collector App × List Poll
  | collector, [] => (collector, [])
  | collector, it :: its =>
      if it.shutdown then (collector, it :: its)
      else
        let collector' := poll it.records collector
        if expired it.reading t0 durationSec then (collector', its)
        else captureLoop durationSec t0 collector' its

/-- The iterations that the loop begins: a signal is noticed before the records
are polled, the end of the duration after. -/
def begun (durationSec : UInt32) (t0 : UInt64) : List Poll → List Poll
  | [] => []
  | it :: its =>
      if it.shutdown then []
      else if expired it.reading t0 durationSec then [it]
      else it :: begun durationSec t0 its

theorem captureLoop_fst (durationSec : UInt32) (t0 : UInt64) (collector : Collector App)
    (its : List Poll) :
    (captureLoop durationSec t0 collector its).1 =
      poll ((begun durationSec t0 its).flatMap Poll.records) collector := by
  induction its generalizing collector with
  | nil => rfl
  | cons it its ih =>
      rw [captureLoop, begun]
      split
      · rfl
      · dsimp only
        split
        · simp
        · rw [ih, List.flatMap_cons, poll, poll, poll, List.foldl_append]

theorem captureLoop_snd (durationSec : UInt32) (t0 : UInt64) (collector : Collector App)
    (its : List Poll) :
    begun durationSec t0 its ++ (captureLoop durationSec t0 collector its).2 = its := by
  induction its generalizing collector with
  | nil => rfl
  | cons it its ih =>
      rw [captureLoop, begun]
      split
      · rfl
      · dsimp only
        split
        · rfl
        · rw [List.cons_append, ih]

theorem poll_cons (raw : List UInt8) (records : List (List UInt8))
    (collector : Collector App) :
    poll (raw :: records) collector = poll records (handleEvent raw collector) := rfl

/-- Each record that decodes is counted and goes to the callback, in order. -/
theorem poll_spec {callback : Event → App → App} (records : List (List UInt8))
    {collector : Collector App} (hcallback : collector.callback = some callback) :
    (poll records collector).received =
        collector.received + UInt64.ofNat (records.filterMap decodeEvent).length ∧
      (poll records collector).app =
        (records.filterMap decodeEvent).foldl (fun app ev => callback ev app)
          collector.app := by
  induction records generalizing collector with
  | nil => simp [poll]
  | cons raw records ih =>
      rw [poll_cons]
      cases hdecoded : decodeEvent raw with
      | none =>
          have hstep : handleEvent raw collector =
              { collector with decodeErrors := collector.decodeErrors + 1 } := by
            simp only [handleEvent, hdecoded]
          rw [hstep, List.filterMap_cons_none hdecoded]
          exact ih hcallback
      | some ev =>
          have hstep : handleEvent raw collector =
              { collector with
                received := collector.received + 1
                app := callback ev collector.app } := by
            simp only [handleEvent, hdecoded, hcallback]
          rw [hstep, List.filterMap_cons_some hdecoded, List.foldl_cons,
            ← count_length_cons _ ev]
          exact ih hcallback

end Loop

/-! ## The commands -/

/-- What the system answers to a capture command: during the setup, the file
descriptor of the ring buffer, whether `ring_buffer__new` succeeds, the clock
reading before the loop, and the iterations. -/
structure Session where
  kernel : Kernel
  ringFd : Int
  created : Bool
  t0 : UInt64
  its : List Poll

/-- `Collector::start` after a successful setup -/
def startCollector (ringFd : Int) (created : Bool) : Status :=
  if ringFd < 0 then .error (makeError .bpfMapError "invalid ring buffer fd")
  else if created then .ok ()
  else .error (makeError .bpfMapError "ring_buffer__new() failed")

/-- `run_trace`: the events that are printed, in order. -/
def runTrace (sys : Session) (cfg : Config) : Except Error (List Event) := do
  (setupBpf sys.kernel cfg).2
  startCollector sys.ringFd sys.created
  return (captureLoop cfg.durationSec sys.t0
    (Collector.new (some fun ev printed => printed ++ [classified ev]) []) sys.its).1.app

/-- What the file system answers to one `write_event`, and the padding of the
event that is written. -/
structure Write where
  padding : EventPadding
  sizeLimit : Option ℕ
  dataLimit : Option ℕ

/-- The file system during a recording; the writes are numbered. -/
structure Device where
  failure : Option String
  clocks : Clocks
  headerLimit : Option ℕ
  write : ℕ → Write

/-- The device takes every write. -/
structure Device.Whole (device : Device) : Prop where
  opened : device.failure = none
  header : device.headerLimit = none
  writes : ∀ index, (device.write index).sizeLimit = none ∧
    (device.write index).dataLimit = none

/-- A device that takes every write. -/
def wholeDevice : Device where
  failure := none
  clocks := ⟨0, 0⟩
  headerLimit := none
  write := fun _ => ⟨⟨Vector.replicate 4 0, Vector.replicate 4 0⟩, none, none⟩

theorem whole_wholeDevice : wholeDevice.Whole := ⟨rfl, rfl, fun _ => ⟨rfl, rfl⟩⟩

/-- The callback of `run_record`; the number of writes is kept along. -/
def recordCallback (device : Device) (ev : Event) (state : Recorder × ℕ) : Recorder × ℕ :=
  let write := device.write state.2
  ((writeEvent (classified ev, write.padding) write.sizeLimit write.dataLimit state.1).1,
    state.2 + 1)

/-- `run_record`: the recorder at the end, and the number of events that is
printed. -/
def runRecord (sys : Session) (device : Device) (cfg : Config) :
    Recorder × Except Error UInt64 :=
  match (setupBpf sys.kernel cfg).2 with
  | .error error => (Recorder.new, .error error)
  | .ok () =>
      match openFile cfg.recordFile device.failure device.clocks device.headerLimit
          Recorder.new with
      | (recorder, .error error) => (close recorder, .error error)
      | (recorder, .ok ()) =>
          match startCollector sys.ringFd sys.created with
          | .error error => (close recorder, .error error)
          | .ok () =>
              let state := (captureLoop cfg.durationSec sys.t0
                (Collector.new (some (recordCallback device)) (recorder, 0)) sys.its).1.app
              (close state.1, .ok state.1.eventsWritten)

/-- The duration of `run_export` -/
def exportDuration (cfg : Config) : UInt32 :=
  if cfg.durationSec > 0 then cfg.durationSec else cfg.windowSec

/-- The aggregator that `run_export` exports. -/
def captureForExport (sys : Session) (cfg : Config) : Except Error Aggregator := do
  (setupBpf sys.kernel cfg).2
  startCollector sys.ringFd sys.created
  return (captureLoop (exportDuration cfg) sys.t0
    (Collector.new (some liveCallback) Aggregator.fresh) sys.its).1.app

/-! ## What a capture handles -/

/-- The events of the records that decode, in the iterations that the loop
begins. -/
def capturedEvents (durationSec : UInt32) (sys : Session) : List Event :=
  ((begun durationSec sys.t0 sys.its).flatMap Poll.records).filterMap decodeEvent

theorem app_captureLoop {App : Type*} (durationSec : UInt32) (sys : Session)
    (callback : Event → App → App) (app : App) :
    (captureLoop durationSec sys.t0 (Collector.new (some callback) app) sys.its).1.app =
      (capturedEvents durationSec sys).foldl (fun app ev => callback ev app) app := by
  rw [captureLoop_fst, (poll_spec _ rfl).2]
  rfl

/-- The commands fail alike before they capture anything. -/
def prepared (sys : Session) (cfg : Config) : Status := do
  (setupBpf sys.kernel cfg).2
  startCollector sys.ringFd sys.created

theorem runTrace_eq (sys : Session) (cfg : Config) :
    runTrace sys cfg =
      (prepared sys cfg).map fun _ => (capturedEvents cfg.durationSec sys).map classified := by
  have hprinted : ∀ (events printed : List Event),
      events.foldl (fun printed ev => printed ++ [classified ev]) printed =
        printed ++ events.map classified := by
    intro events
    induction events with
    | nil => simp
    | cons ev events ih =>
        intro printed
        rw [List.foldl_cons, ih, List.append_assoc, List.map_cons]
        rfl
  rw [runTrace, prepared, app_captureLoop, hprinted, List.nil_append]
  cases (setupBpf sys.kernel cfg).2 with
  | error error => rfl
  | ok _ => cases startCollector sys.ringFd sys.created <;> rfl

theorem captureForExport_eq (sys : Session) (cfg : Config) :
    captureForExport sys cfg =
      (prepared sys cfg).map fun _ => feed (capturedEvents (exportDuration cfg) sys) := by
  rw [captureForExport, prepared, app_captureLoop, foldl_liveCallback]
  cases (setupBpf sys.kernel cfg).2 with
  | error error => rfl
  | ok _ => cases startCollector sys.ringFd sys.created <;> rfl

/-- A file that opens takes what the callback writes for each of the events. -/
theorem runRecord_of_opened (sys : Session) {device : Device} {cfg : Config}
    {recorder : Recorder}
    (hopened : openFile cfg.recordFile device.failure device.clocks device.headerLimit
      Recorder.new = (recorder, .ok ())) :
    let written := ((capturedEvents cfg.durationSec sys).foldl
      (fun state ev => recordCallback device ev state) (recorder, 0)).1
    (runRecord sys device cfg).2 = ((prepared sys cfg).map fun _ => written.eventsWritten) ∧
      (prepared sys cfg = .ok () → (runRecord sys device cfg).1 = close written) := by
  intro written
  rw [runRecord, prepared, hopened]
  cases (setupBpf sys.kernel cfg).2 with
  | error error => exact ⟨rfl, fun hprepared => by cases hprepared⟩
  | ok _ =>
      cases startCollector sys.ringFd sys.created with
      | error error => exact ⟨rfl, fun hprepared => by cases hprepared⟩
      | ok _ =>
          dsimp only
          rw [app_captureLoop]
          exact ⟨rfl, fun _ => rfl⟩

/-! ## The end of a capture -/

/-- The commands that run the capture loop. -/
inductive Capture where
  | trace
  | record
  | export

/-- The duration that the command gives to the loop. -/
def Capture.duration (cfg : Config) : Capture → UInt32
  | .trace => cfg.durationSec
  | .record => cfg.durationSec
  | .export => exportDuration cfg

/-- The command does its work on these events: they are printed, written to the file
that was opened, or aggregated. -/
def Capture.Handles (sys : Session) (cfg : Config) (events : List Event) : Capture → Prop
  | .trace => runTrace sys cfg = (prepared sys cfg).map fun _ => events.map classified
  | .record => ∀ (device : Device) (recorder : Recorder),
      openFile cfg.recordFile device.failure device.clocks device.headerLimit Recorder.new =
        (recorder, .ok ()) →
      let written :=
        (events.foldl (fun state ev => recordCallback device ev state) (recorder, 0)).1
      (runRecord sys device cfg).2 = ((prepared sys cfg).map fun _ => written.eventsWritten) ∧
        (prepared sys cfg = .ok () → (runRecord sys device cfg).1 = close written)
  | .export => captureForExport sys cfg = (prepared sys cfg).map fun _ => feed events

theorem handles_capturedEvents (cfg : Config) (sys : Session) : ∀ capture : Capture,
    capture.Handles sys cfg (capturedEvents (capture.duration cfg) sys)
  | .trace => runTrace_eq sys cfg
  | .record => fun _ _ hopened => runRecord_of_opened sys hopened
  | .export => captureForExport_eq sys cfg

/-- An iteration is begun when there was no signal up to it and no earlier one
saw the end of the duration. -/
theorem length_begun_iff {durationSec : UInt32} {t0 : UInt64} {before : List Poll}
    (hclock : ∀ earlier ∈ before, t0 ≤ earlier.reading) (it : Poll) (after : List Poll) :
    before.length < (begun durationSec t0 (before ++ it :: after)).length ↔
      (∀ poll ∈ before ++ [it], poll.shutdown = false) ∧
        (durationSec = 0 ∨ ∀ earlier ∈ before,
          earlier.reading.toNat < t0.toNat + durationSec.toNat * 1000000000) := by
  induction before with
  | nil =>
      rw [List.nil_append, begun]
      cases hshutdown : it.shutdown with
      | true => simp [hshutdown]
      | false =>
          simp only [Bool.false_eq_true, if_false, List.length_nil, List.nil_append,
            List.mem_singleton, forall_eq, hshutdown, true_and, List.not_mem_nil,
            false_implies, implies_true, or_true, iff_true]
          split <;> simp
  | cons first before ih =>
      have hfirst : expired first.reading t0 durationSec = true ↔ _ :=
        expired_iff (hclock first (List.mem_cons_self ..))
      have hrest := ih fun earlier hearlier =>
        hclock earlier (List.mem_cons_of_mem _ hearlier)
      rw [List.cons_append, begun]
      cases hshutdown : first.shutdown with
      | true => simp [hshutdown]
      | false =>
          cases hexpired : expired first.reading t0 durationSec with
          | true =>
              -- the first iteration is the last one that is begun
              obtain ⟨hnonzero, hpast⟩ := hfirst.mp hexpired
              have hlate : ¬first.reading.toNat < t0.toNat + durationSec.toNat * 1000000000 :=
                Nat.not_lt.mpr hpast
              simp [hnonzero, hlate]
          | false =>
              have hearly : durationSec = 0 ∨
                  first.reading.toNat < t0.toNat + durationSec.toNat * 1000000000 := by
                by_cases hzero : durationSec = 0
                · exact .inl hzero
                · refine .inr (Nat.lt_of_not_le fun hpast => ?_)
                  rw [hfirst.mpr ⟨hzero, hpast⟩] at hexpired
                  cases hexpired
              rw [if_neg Bool.false_ne_true, if_neg Bool.false_ne_true, List.length_cons,
                List.length_cons, Nat.succ_lt_succ_iff, hrest]
              simp only [List.cons_append, List.forall_mem_cons, hshutdown, or_and_left,
                hearly, true_and]

/-- Each capture command handles the events of the iterations that its loop begins,
and it begins one exactly when there was no signal up to it and every earlier reading of
the clock was before the end of the duration. -/
theorem capture_stops_exactly {App : Type*} (capture : Capture) (cfg : Config)
    {sys : Session} {before : List Poll} (it : Poll) (after : List Poll)
    (hits : sys.its = before ++ it :: after)
    (hclock : ∀ earlier ∈ before, sys.t0 ≤ earlier.reading) (collector : Collector App) :
    let left := (captureLoop (capture.duration cfg) sys.t0 collector sys.its).2
    (∃ polled, polled ++ left = sys.its ∧
      capture.Handles sys cfg ((polled.flatMap Poll.records).filterMap decodeEvent)) ∧
    (left.length ≤ after.length ↔
      (∀ poll ∈ before ++ [it], poll.shutdown = false) ∧
        (capture.duration cfg = 0 ∨ ∀ earlier ∈ before,
          earlier.reading.toNat <
            sys.t0.toNat + (capture.duration cfg).toNat * 1000000000)) := by
  intro left
  have hsplit : begun (capture.duration cfg) sys.t0 sys.its ++ left = sys.its :=
    captureLoop_snd (capture.duration cfg) sys.t0 collector sys.its
  refine ⟨⟨_, hsplit, handles_capturedEvents cfg sys capture⟩, ?_⟩
  rw [← length_begun_iff hclock it after, ← hits]
  have hlength := congrArg List.length hsplit
  have hall := congrArg List.length hits
  rw [List.length_append] at hlength
  rw [List.length_append, List.length_cons] at hall
  omega

/-- A recording of two seconds, with a poll before its end and one after it. -/
theorem capture_stops_exactly_two_seconds :
    let cfg := { Config.default with durationSec := 2 }
    let before : List Poll := [⟨false, [], 1000000000⟩, ⟨false, [], 2500000000⟩]
    let sys : Session := ⟨⟨true, none, 0, 0⟩, 3, true, 0, before ++ [⟨false, [], 2600000000⟩]⟩
    let left := (captureLoop 2 0 (Collector.new (none : Option (Event → Unit → Unit)) ())
      sys.its).2
    (∃ polled, polled ++ left = sys.its ∧
      Capture.record.Handles sys cfg ((polled.flatMap Poll.records).filterMap decodeEvent)) ∧
    (left.length ≤ 0 ↔
      (∀ poll ∈ before ++ [⟨false, [], 2600000000⟩], poll.shutdown = false) ∧
        ((2 : UInt32) = 0 ∨ ∀ earlier ∈ before,
          earlier.reading.toNat < 0 + 2 * 1000000000)) := by
  intro cfg before sys left
  have hclock : ∀ earlier ∈ before, sys.t0 ≤ earlier.reading := by
    intro earlier _
    exact UInt64.zero_le
  exact capture_stops_exactly .record cfg ⟨false, [], 2600000000⟩ [] rfl hclock _

/-! ## Recording and replaying instead of exporting -/

/-- The objects that are written for the events, from write number `index` on. -/
def writtenObjects (device : Device) : ℕ → List Event → List EventObject
  | _, [] => []
  | index, ev :: events =>
      (classified ev, (device.write index).padding) ::
        writtenObjects device (index + 1) events

theorem map_fst_writtenObjects (device : Device) (index : ℕ) (events : List Event) :
    (writtenObjects device index events).map Prod.fst = events.map classified := by
  induction events generalizing index with
  | nil => rfl
  | cons ev events ih => rw [writtenObjects, List.map_cons, List.map_cons, ih]

theorem foldl_recordCallback {device : Device} (hwhole : device.Whole)
    (events : List Event) (recorder : Recorder) (index : ℕ) :
    (events.foldl (fun state ev => recordCallback device ev state) (recorder, index)).1 =
      writeAll (writtenObjects device index events) recorder := by
  induction events generalizing recorder index with
  | nil => rfl
  | cons ev events ih =>
      have hstep : recordCallback device ev (recorder, index) =
          ((writeEvent (classified ev, (device.write index).padding) none none recorder).1,
            index + 1) := by
        rw [recordCallback, (hwhole.writes index).1, (hwhole.writes index).2]
      rw [List.foldl_cons, hstep, ih]
      rfl

theorem recordSession_eventsWritten (path : String) (clocks : Clocks)
    (objects : List EventObject) :
    (recordSession path clocks objects).eventsWritten = UInt64.ofNat objects.length := by
  rw [recordSession, close, writeAll_eq objects rfl]
  exact zero_add _

/-- What `run_record` leaves when the device takes every write. -/
theorem runRecord_eq {device : Device} (hwhole : device.Whole) (sys : Session)
    (cfg : Config) :
    (runRecord sys device cfg).2 = ((prepared sys cfg).map fun _ =>
        UInt64.ofNat (capturedEvents cfg.durationSec sys).length) ∧
      (prepared sys cfg = .ok () →
        (runRecord sys device cfg).1 = recordSession cfg.recordFile device.clocks
          (writtenObjects device 0 (capturedEvents cfg.durationSec sys))) := by
  have hopened : openFile cfg.recordFile device.failure device.clocks device.headerLimit
      Recorder.new = ((openFile cfg.recordFile none device.clocks none Recorder.new).1,
        .ok ()) := by
    rw [hwhole.opened, hwhole.header]
    rfl
  have hcount : (writtenObjects device 0 (capturedEvents cfg.durationSec sys)).length =
      (capturedEvents cfg.durationSec sys).length := by
    rw [← List.length_map Prod.fst, map_fst_writtenObjects, List.length_map]
  obtain ⟨hcounted, hwritten⟩ := runRecord_of_opened sys hopened
  rw [foldl_recordCallback hwhole] at hcounted hwritten
  refine ⟨?_, hwritten⟩
  rw [hcounted, ← hcount]
  congr 1
  funext _
  exact recordSession_eventsWritten cfg.recordFile device.clocks _

/-- `run_record`, and `run_replay` on the file that it has written. -/
def recordThenReplay (sys : Session) (device : Device) (cfg : Config) :
    Except Error Report :=
  (runRecord sys device cfg).2.bind fun _ =>
    runReplay cfg.recordFile (.ok (runRecord sys device cfg).1.disk)

theorem feed_map_classified (events : List Event) :
    feed (events.map classified) = feed events := by
  simp only [feed, List.foldl_map, processEvent_classified]

theorem recordThenReplay_eq {device : Device} (hwhole : device.Whole) (sys : Session)
    (cfg : Config) :
    recordThenReplay sys device cfg =
      (prepared sys cfg).map fun _ =>
        ⟨feed (capturedEvents cfg.durationSec sys),
          UInt64.ofNat (capturedEvents cfg.durationSec sys).length⟩ := by
  obtain ⟨hcount, hfile⟩ := runRecord_eq hwhole sys cfg
  rw [recordThenReplay, hcount]
  cases hprepared : prepared sys cfg with
  | error error => rfl
  | ok _ =>
      have hreplayed := runReplay_recordSession cfg.recordFile device.clocks
        (writtenObjects device 0 (capturedEvents cfg.durationSec sys))
      rw [map_fst_writtenObjects, foldl_liveCallback, feed_map_classified,
        List.length_map] at hreplayed
      rw [hfile hprepared]
      exact hreplayed

/-- Without a duration, `run_export` stops after the window and `run_record` does
not. -/
theorem capturedEvents_differ {cfg : Config} (hduration : cfg.durationSec = 0)
    (hwindow : cfg.windowSec ≠ 0) :
    ∃ sys, prepared sys cfg = .ok () ∧
      (capturedEvents cfg.durationSec sys).length = 1 ∧
      (capturedEvents (exportDuration cfg) sys).length = 0 := by
  have hexport : exportDuration cfg = cfg.windowSec := by
    simp [exportDuration, hduration]
  have hexpired : expired (LiveLoop.secToNs cfg.windowSec.toUInt64) 0 cfg.windowSec = true := by
    simp [expired, hwindow]
  refine ⟨⟨⟨true, none, 0, 0⟩, 3, true, 0,
    [⟨false, [], LiveLoop.secToNs cfg.windowSec.toUInt64⟩,
      ⟨false, [WireFormat.wireLayout.encode WireFormat.WireEvent.zero], 0⟩]⟩, ?_, ?_, ?_⟩
  · rfl
  · simp [capturedEvents, begun, hduration, expired]
  · simp [capturedEvents, begun, hexport, hexpired]

/-- Recording and replaying gives the aggregator that an export of the same
session would have given, for every session, exactly when a duration is set or
there is no window. -/
theorem replay_of_record_is_export_iff (cfg : Config) :
    (∀ sys device, device.Whole →
      (recordThenReplay sys device cfg).map Report.agg = captureForExport sys cfg) ↔
      cfg.durationSec ≠ 0 ∨ cfg.windowSec = 0 := by
  constructor
  · intro hagree
    by_contra hneither
    rw [not_or, not_not] at hneither
    obtain ⟨sys, hprepared, hone, hzero⟩ := capturedEvents_differ hneither.1 hneither.2
    have hsame := hagree sys wholeDevice whole_wholeDevice
    rw [recordThenReplay_eq whole_wholeDevice, captureForExport_eq, hprepared] at hsame
    have hfeed : feed (capturedEvents cfg.durationSec sys) =
        feed (capturedEvents (exportDuration cfg) sys) := Except.ok.inj hsame
    have htotal := congrArg Aggregator.total hfeed
    rw [feed_total, feed_total, hone, hzero] at htotal
    exact absurd htotal (by decide)
  · intro hset sys device hwhole
    have hduration : exportDuration cfg = cfg.durationSec := by
      rw [exportDuration]
      split
      · rfl
      next hzero =>
        have hzero' : cfg.durationSec = 0 := by simpa using hzero
        rw [hzero']
        exact hset.resolve_left fun hne => hne hzero'
    rw [recordThenReplay_eq hwhole, captureForExport_eq, hduration]
    cases prepared sys cfg <;> rfl

/-! ## Recording and replaying instead of tracing -/

/-- A whole recording delivers its events. -/
theorem replay_recordSession {App : Type*} (path : String) (clocks : Clocks)
    (objects : List EventObject) (callback : Event → App → App) (app : App) :
    let opened := openSource path (.ok (recordSession path clocks objects).disk)
      ReplaySource.new
    opened.2 = .ok () ∧ (replay (some callback) opened.1 app).2 =
      ((objects.map Prod.fst).foldl (fun app ev => callback ev app) app, .ok ()) := by
  intro opened
  have hlength := length_recordSession path clocks objects
  have hheader : 64 ≤ (recordSession path clocks objects).disk.length := by omega
  have hcomplete : ((recordSession path clocks objects).disk.length - 64) / 92 =
      (objects.map Prod.fst).length := by
    rw [hlength, List.length_map]
    omega
  have hopened := openSource_cut path clocks objects hheader ReplaySource.new
  have hreplayed := replay_cut path clocks objects le_rfl callback app 0
  rw [List.take_length] at hopened
  rw [hcomplete, List.take_length] at hreplayed
  change openSource path _ _ = _ at hopened
  simp only [opened, hopened, ReplaySource.new, hreplayed, and_self]

/-- The events that a replay of the recording delivers are those that a trace of
the same session prints, in the same order and with the same classes. -/
theorem replay_delivers_trace {App : Type*} {device : Device} (hwhole : device.Whole)
    (sys : Session) (cfg : Config) {printed : List Event}
    (htrace : runTrace sys cfg = .ok printed) (callback : Event → App → App) (app : App) :
    let recorded := runRecord sys device cfg
    let opened := openSource cfg.recordFile (.ok recorded.1.disk) ReplaySource.new
    recorded.2 = .ok (UInt64.ofNat printed.length) ∧ opened.2 = .ok () ∧
      (replay (some callback) opened.1 app).2 =
        (printed.foldl (fun app ev => callback ev app) app, .ok ()) := by
  intro recorded opened
  obtain ⟨hcount, hfile⟩ := runRecord_eq hwhole sys cfg
  rw [runTrace_eq] at htrace
  cases hprepared : prepared sys cfg with
  | error error =>
      rw [hprepared] at htrace
      cases htrace
  | ok _ =>
      rw [hprepared] at htrace hcount
      obtain rfl : (capturedEvents cfg.durationSec sys).map classified = printed :=
        Except.ok.inj htrace
      have hreplayed := replay_recordSession cfg.recordFile device.clocks
        (writtenObjects device 0 (capturedEvents cfg.durationSec sys)) callback app
      rw [map_fst_writtenObjects, ← hfile hprepared] at hreplayed
      rw [List.length_map]
      exact ⟨hcount, hreplayed⟩

/-- A session with two records, the second one cut short. -/
theorem replay_delivers_trace_short_record :
    let sys : Session := ⟨⟨true, none, 0, 0⟩, 3, true, 0,
      [⟨false, [WireFormat.wireLayout.encode WireFormat.WireEvent.zero, [1, 2, 3]], 0⟩]⟩
    let cfg := { Config.default with recordFile := "run.ksr" }
    let recorded := runRecord sys wholeDevice cfg
    let opened := openSource cfg.recordFile (.ok recorded.1.disk) ReplaySource.new
    recorded.2 = .ok 1 ∧ (replay (some fun ev log => log ++ [ev]) opened.1 []).2 =
      ([classified (fromWire WireFormat.WireEvent.zero)], .ok ()) := by
  intro sys cfg recorded opened
  have htrace : runTrace sys cfg =
      .ok [classified (fromWire WireFormat.WireEvent.zero)] := by
    have hshort : decodeEvent [1, 2, 3] = none := by decide
    have hcaptured : capturedEvents 0 sys = [fromWire WireFormat.WireEvent.zero] := by
      simp [sys, capturedEvents, begun, expired, hshort]
    rw [runTrace_eq, show cfg.durationSec = 0 from rfl, hcaptured]
    rfl
  obtain ⟨hcount, -, hreplayed⟩ := replay_delivers_trace whole_wholeDevice sys cfg htrace
    (fun ev log => log ++ [ev]) []
  exact ⟨hcount, hreplayed⟩

end KernelScope.CaptureCommands
