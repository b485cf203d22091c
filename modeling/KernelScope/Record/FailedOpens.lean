import KernelScope.Record.FailedWrites

/-!
# Opens that fail

`ReplaySource::open` and `Recorder::open` return an error also after `fopen` has
given them a file, and the file stays in the object.  The later calls look at
the file only, so a source goes on reading behind a header it has rejected and a
recorder goes on writing without one.  A file is closed after a failed `open`
exactly when `fopen` failed or the caller closed it.
-/

namespace KernelScope.FailedOpens

open KernelScope.ByteStream
open KernelScope.Errors
open KernelScope.Events
open KernelScope.FailedWrites (Write writeEvent_cases)
open KernelScope.Format
open KernelScope.Recording
open KernelScope.Replay
open KernelScope.StepRun

/-- What the calls so far tell: whether the last `open` returned an error, and
whether it got a file that was not closed since. -/
structure History where
  failed : Bool
  held : Bool

/-- Before the first call. -/
def History.new : History where
  failed := false
  held := false

def History.opened (status : Status) (gotFile : Bool) : History where
  failed := !status.isOk
  held := gotFile

def History.closed (history : History) : History :=
  { history with held := false }

/-! ## Replaying -/

/-- A callback that writes down its events, or none. -/
def observer (given : Bool) : Option (Event → List Event → List Event) :=
  if given then some fun ev log => log ++ [ev] else none

/-- `replay` returns an error, calls nothing and counts nothing. -/
def ReplayRefused (given : Bool) (source : ReplaySource) : Prop :=
  let replayed := replay (observer given) source []
  (∃ error, replayed.2.2 = .error error) ∧ replayed.2.1 = [] ∧
    replayed.1.eventsReplayed = source.eventsReplayed

/-- The frames that have room for an event. -/
def eventFrames (frames : List Payload) : List Payload :=
  frames.filter fun payload => 88 ≤ payload.1.length

/-- No frame has room for an event, and the length behind the frames is over the
limit.  Without a callback only the counter can tell the frames, and it counts
modulo `2 ^ 64`. -/
def Unreadable (given : Bool) (body : List UInt8) : Prop :=
  ∃ frames tail, Splits frameBytes body frames tail ∧ Oversized tail ∧
    2 ^ 64 ∣ (eventFrames frames).length ∧ (given = true → eventFrames frames = [])

theorem foldl_observer (given : Bool) (events log : List Event) :
    events.foldl (fun log ev => deliver (observer given) ev log) log =
      if given then log ++ events else log := by
  induction events generalizing log with
  | nil => cases given <;> simp
  | cons ev events ih =>
      rw [List.foldl_cons, ih]
      cases given <;> simp [observer, deliver]

theorem length_payloadEvents (frames : List Payload) :
    (payloadEvents frames).length = (eventFrames frames).length := by
  rw [payloadEvents_eq, List.length_map, eventFrames]

theorem add_ofNat_eq_self_iff (count : UInt64) (n : ℕ) :
    count + UInt64.ofNat n = count ↔ 2 ^ 64 ∣ n := by
  rw [UInt64.add_eq_left, UInt64.ofNat_eq_iff_mod_eq_toNat]
  exact (Nat.dvd_iff_mod_eq_zero).symm

/-- A source with a file refuses to replay exactly the bodies without an event
that end in a length over the limit. -/
theorem replayRefused_iff {source : ReplaySource} {body : List UInt8}
    (hfile : source.file = some body) (given : Bool) :
    ReplayRefused given source ↔ Unreadable given body := by
  obtain ⟨frames, tail, hsplits⟩ := exists_splits length_frameBytes_pos body
  have hloop := replayLoop_payloads (observer given) frames tail source.eventsReplayed []
  rw [← hsplits.stream_eq, replayLoop_tail _ hsplits.none_ahead, foldl_observer] at hloop
  have hunique : Unreadable given body ↔ Oversized tail ∧
      2 ^ 64 ∣ (eventFrames frames).length ∧
        (given = true → eventFrames frames = []) := by
    constructor
    · rintro ⟨frames', tail', hother, hrest⟩
      obtain ⟨rfl, rfl⟩ := hother.unique prefixFree_frameBytes hsplits
      exact hrest
    · exact fun hrest => ⟨frames, tail, hsplits, hrest⟩
  have hlog : (if given = true then [] ++ payloadEvents frames else []) = [] ↔
      (given = true → eventFrames frames = []) := by
    rw [← List.length_eq_zero_iff (l := eventFrames frames), ← length_payloadEvents,
      List.length_eq_zero_iff]
    cases given <;> simp
  have hstatus : (∃ error, (lastOutcome tail (source.eventsReplayed +
      UInt64.ofNat (payloadEvents frames).length)
      (if given = true then [] ++ payloadEvents frames else [])).status =
        .error error) ↔ Oversized tail := by
    by_cases hover : Oversized tail <;> simp [lastOutcome, hover]
  rw [hunique, ReplayRefused]
  simp only [replay, hfile, hloop, lastOutcome_app, lastOutcome_eventsReplayed]
  rw [hstatus, hlog, add_ofNat_eq_self_iff, length_payloadEvents]
  tauto

/-- A file to be read: the bytes up to the first read error, and behind each read
error the bytes up to the next one.  The last of them end with the file. -/
structure Readable where
  bytes : List UInt8
  later : List (List UInt8)

/-- A source on a device on which reads may fail.  The source sees the bytes up
to the next read error. -/
structure Reader where
  source : ReplaySource
  later : List (List UInt8)
  history : History

def Reader.new : Reader where
  source := ReplaySource.new
  later := []
  history := History.new

/-- A read has come up short; the next one starts behind the read error. -/
def Reader.pastError (reader : Reader) : Reader where
  source := { reader.source with file := some (reader.later.headD []) }
  later := reader.later.tail
  history := reader.history

inductive ReadCall where
  | openSource (path : String) (found : Except String Readable)
  | replay (given : Bool)
  | close

def Reader.exec (reader : Reader) : ReadCall → Reader
  | .openSource path (.error strerror) =>
      let opened := openSource path (.error strerror) reader.source
      ⟨opened.1, [], History.opened opened.2 false⟩
  | .openSource path (.ok found) =>
      let opened := openSource path (.ok found.bytes) reader.source
      let next : Reader := ⟨opened.1, found.later, History.opened opened.2 true⟩
      if found.bytes.length < 64 then next.pastError else next
  | .replay given =>
      let replayed := replay (observer given) reader.source []
      let next := { reader with source := replayed.1 }
      -- the loop is left without an error only by a read that comes up short
      if replayed.2.2.isOk then next.pastError else next
  | .close =>
      { reader with
        source := closeSource reader.source
        history := reader.history.closed }

def ReadRefused (reader : Reader) : ReadCall → Prop
  | .replay given => ReplayRefused given reader.source
  | _ => True

/-- The file was closed or never there, or what is left of it is
unreadable. -/
def ReadEnds (reader : Reader) : ReadCall → Prop
  | .replay given =>
      reader.history.held = false ∨
        ∃ body, reader.source.file = some body ∧ Unreadable given body
  | _ => True

/-- The source has a file exactly when the history says so. -/
def Reader.Tracked (reader : Reader) : Prop :=
  reader.source.file.isSome = reader.history.held

theorem Reader.Tracked.exec {reader : Reader} (hreader : reader.Tracked)
    (call : ReadCall) : (reader.exec call).Tracked := by
  cases call with
  | openSource path found =>
      cases found with
      | error strerror => rfl
      | ok found =>
          rw [Reader.exec]
          split
          · rfl
          · simp only [Tracked, openSource, History.opened]
            split <;> rfl
  | replay given =>
      rw [Tracked] at hreader
      cases hfile : reader.source.file with
      | none =>
          have hexec : reader.exec (.replay given) = reader := by
            simp [Reader.exec, replay, hfile, Except.isOk, Except.toBool]
          rw [hexec, Tracked, hreader]
      | some body =>
          rw [hfile] at hreader
          simp only [Reader.exec, replay, hfile]
          split <;> exact hreader
  | close => rfl

theorem Reader.Tracked.readRefused_iff {reader : Reader} (hreader : reader.Tracked)
    (call : ReadCall) : ReadRefused reader call ↔ ReadEnds reader call := by
  cases call with
  | openSource path found => exact Iff.rfl
  | close => exact Iff.rfl
  | replay given =>
      rw [ReadRefused, ReadEnds, ← hreader]
      cases hfile : reader.source.file with
      | none => simp [ReplayRefused, replay, hfile]
      | some body => simp [replayRefused_iff hfile]

/-! ## Recording -/

/-- `write_event` returns an error, writes nothing and counts nothing. -/
def WriteEventRefused (write : Write) (recorder : Recorder) : Prop :=
  let written := writeEvent write.object write.sizeLimit write.dataLimit recorder
  (∃ error, written.2 = .error error) ∧ written.1.disk = recorder.disk ∧
    written.1.eventsWritten = recorder.eventsWritten

/-- A recorder with a file refuses an event exactly when the device takes no byte
of its length. -/
theorem writeEventRefused_iff {recorder : Recorder} (hopen : recorder.isOpen = true)
    (write : Write) :
    WriteEventRefused write recorder ↔ write.sizeLimit = some 0 := by
  rw [WriteEventRefused]
  rcases writeEvent_cases hopen write with
    ⟨hwrite, hsome⟩ | ⟨torn, error, hwrite, -, htorn⟩
  · simp [hwrite, hsome]
  · simp [hwrite, htorn]

theorem isOpen_writeEvent (write : Write) (recorder : Recorder) :
    (writeEvent write.object write.sizeLimit write.dataLimit recorder).1.isOpen =
      recorder.isOpen := by
  unfold writeEvent
  dsimp only
  split_ifs <;> rfl

structure Writer where
  recorder : Recorder
  history : History

def Writer.new : Writer where
  recorder := Recorder.new
  history := History.new

inductive WriteCall where
  | openFile (path : String) (failure : Option String) (clocks : Clocks)
      (limit : Option ℕ)
  | writeEvent (write : Write)
  | close

def Writer.exec (writer : Writer) : WriteCall → Writer
  | .openFile path failure clocks limit =>
      let opened := openFile path failure clocks limit writer.recorder
      ⟨opened.1, History.opened opened.2 failure.isNone⟩
  | .writeEvent write =>
      { writer with
        recorder :=
          (writeEvent write.object write.sizeLimit write.dataLimit writer.recorder).1 }
  | .close => ⟨close writer.recorder, writer.history.closed⟩

def WriteRefused (writer : Writer) : WriteCall → Prop
  | .writeEvent write => WriteEventRefused write writer.recorder
  | _ => True

/-- The file was closed or never there, or the device takes nothing. -/
def WriteEnds (writer : Writer) : WriteCall → Prop
  | .writeEvent write => writer.history.held = false ∨ write.sizeLimit = some 0
  | _ => True

def Writer.Tracked (writer : Writer) : Prop :=
  writer.recorder.isOpen = writer.history.held

theorem Writer.Tracked.exec {writer : Writer} (hwriter : writer.Tracked)
    (call : WriteCall) : (writer.exec call).Tracked := by
  cases call with
  | openFile path failure clocks limit =>
      cases failure <;> rfl
  | writeEvent write => exact (isOpen_writeEvent write writer.recorder).trans hwriter
  | close => rfl

theorem Writer.Tracked.writeRefused_iff {writer : Writer} (hwriter : writer.Tracked)
    (call : WriteCall) : WriteRefused writer call ↔ WriteEnds writer call := by
  cases call with
  | openFile path failure clocks limit => exact Iff.rfl
  | close => exact Iff.rfl
  | writeEvent write =>
      rw [WriteRefused, WriteEnds, ← hwriter]
      cases hopen : writer.recorder.isOpen with
      | false => simp [WriteEventRefused, writeEvent, hopen]
      | true => simp [writeEventRefused_iff hopen]

/-! ## Runs -/

/-- After a failed `open`, `replay` and `write_event` do nothing but return an
error exactly when each of these calls finds the file closed or never there, or
its bytes unreadable, or a device that takes nothing. -/
theorem failed_open_refuses_iff (reads : List ReadCall) (writes : List WriteCall) :
    (Along Reader.exec
        (fun reader call => reader.history.failed = true → ReadRefused reader call)
        Reader.new reads ↔
      Along Reader.exec
        (fun reader call => reader.history.failed = true → ReadEnds reader call)
        Reader.new reads) ∧
    (Along Writer.exec
        (fun writer call => writer.history.failed = true → WriteRefused writer call)
        Writer.new writes ↔
      Along Writer.exec
        (fun writer call => writer.history.failed = true → WriteEnds writer call)
        Writer.new writes) := by
  constructor
  · apply along_iff_of_invariant Reader.Tracked
    · exact fun reader call hreader _ => hreader.exec call
    · exact fun reader call hreader _ => imp_congr_right fun _ =>
        hreader.readRefused_iff call
    · exact (rfl : Reader.new.source.file.isSome = false)
    · exact along_true _ _
  · apply along_iff_of_invariant Writer.Tracked
    · exact fun writer call hwriter _ => hwriter.exec call
    · exact fun writer call hwriter _ => imp_congr_right fun _ =>
        hwriter.writeRefused_iff call
    · exact (rfl : Writer.new.recorder.isOpen = false)
    · exact along_true _ _

/-- The event behind a header of zeros is delivered although the header was
rejected, and an event is recorded although no header could be written. -/
theorem failed_open_leaves_file :
    let reader := run Reader.exec Reader.new
      [.openSource "run.ksr" (.ok ⟨List.replicate 64 0 ++ frame (sampleObject 7), []⟩)]
    let replayed := replay (observer true) reader.source []
    let writer := run Writer.exec Writer.new [.openFile "run.ksr" none ⟨7, 9⟩ (some 0)]
    let written := writeEvent (sampleObject 7) none none writer.recorder
    (reader.history.failed = true ∧ replayed.2.2 = .ok () ∧
        replayed.2.1 = [(sampleObject 7).1] ∧ replayed.1.eventsReplayed = 1) ∧
      writer.history.failed = true ∧ written.2 = .ok () ∧
        written.1.disk = frame (sampleObject 7) ∧ written.1.eventsWritten = 1 := by
  intro reader replayed writer written
  have hreader : reader.history.failed = true ∧
      reader.source = ⟨some ([sampleObject 7].flatMap frame ++ []), 0⟩ := by
    decide +kernel
  have hloop := replayLoop_frames (observer true) [sampleObject 7] [] 0 []
  rw [replayLoop_torn (observer true) (Or.inl rfl)] at hloop
  refine ⟨?_, by decide +kernel⟩
  simp only [replayed, replay, hreader.2, hloop]
  exact ⟨hreader.1, trivial, rfl, rfl⟩

end KernelScope.FailedOpens
