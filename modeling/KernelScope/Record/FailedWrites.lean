import KernelScope.Library.StepRun
import KernelScope.Record.Replay

/-!
# Recording on a device that fails

A session of `write_event` calls in which the device may stop any `fwrite`
after part of its bytes, and the caller goes on as `run_record` does.  A record
is written by two writes and nothing is taken back, so a call that fails partway
leaves a torn record.  The recording stays readable as long as no byte is put
behind one.
-/

namespace KernelScope.FailedWrites

open KernelScope.ByteCodec
open KernelScope.ByteStream
open KernelScope.Errors
open KernelScope.Events
open KernelScope.Format
open KernelScope.Recording
open KernelScope.Replay
open KernelScope.StepRun

/-- A call of `write_event`, with the number of bytes after which the device
stops each of its two writes. -/
structure Write where
  object : EventObject
  sizeLimit : Option ℕ
  dataLimit : Option ℕ

/-- The recorder, and the events whose `write_event` returned success. -/
structure Session where
  recorder : Recorder
  accepted : List EventObject

def exec (session : Session) (write : Write) : Session :=
  match writeEvent write.object write.sizeLimit write.dataLimit
      session.recorder with
  | (recorder, .ok ()) => ⟨recorder, session.accepted ++ [write.object]⟩
  | (recorder, .error _) => ⟨recorder, session.accepted⟩

/-- The session of a recorder after `open`. -/
def opened (path : String) (failure : Option String) (clocks : Clocks)
    (limit : Option ℕ) : Session where
  recorder := (openFile path failure clocks limit Recorder.new).1
  accepted := []

/-- Replaying the file succeeds and delivers the accepted events in order, and
the counter is their number. -/
def Faithful (path : String) (session : Session) : Prop :=
  let source := openSource path (.ok session.recorder.disk) ReplaySource.new
  let replayed := replay (some fun ev log => log ++ [ev]) source.1 []
  source.2 = .ok () ∧
    replayed.2.2 = .ok () ∧
    replayed.2.1 = session.accepted.map Prod.fst ∧
    session.recorder.eventsWritten = UInt64.ofNat session.accepted.length

/-- The call puts no byte into the file, or the file ends with a whole
record. -/
def StartsRecord (session : Session) (write : Write) : Prop :=
  write.sizeLimit = some 0 ∨ 92 ∣ session.recorder.disk.length - 64

instance decidableStartsRecord (session : Session) (write : Write) :
    Decidable (StartsRecord session write) :=
  inferInstanceAs (Decidable (_ ∨ _))

/-! ## One call -/

theorem length_lt_of_torn {torn : List UInt8} (htorn : Torn frame torn) :
    torn.length < 92 := by
  rcases htorn with rfl | ⟨object, -, hlength⟩
  · decide
  · rwa [length_frame] at hlength

/-- What a call does to an open recorder: the whole record and success, or part
of it and an error. -/
theorem writeEvent_cases {recorder : Recorder} (hopen : recorder.isOpen = true)
    (write : Write) :
    writeEvent write.object write.sizeLimit write.dataLimit recorder =
        ({ recorder with
            disk := recorder.disk ++ frame write.object
            eventsWritten := recorder.eventsWritten + 1 }, .ok ()) ∧
        write.sizeLimit ≠ some 0 ∨
      ∃ torn error,
        writeEvent write.object write.sizeLimit write.dataLimit recorder =
          ({ recorder with disk := recorder.disk ++ torn }, .error error) ∧
        Torn frame torn ∧ (torn = [] ↔ write.sizeLimit = some 0) := by
  have hlength : FixedCodec.word32.encode 88 ≠ [] := by decide
  rcases fwrite_cases write.sizeLimit (FixedCodec.word32.encode 88) recorder.disk with
    hfirst | ⟨taken, hlimit, htaken, hfirst⟩
  · -- The length is whole, so the device took at least one byte.
    have hsome : write.sizeLimit ≠ some 0 := by
      intro hlimit
      rw [hlimit] at hfirst
      exact absurd (congrArg Prod.snd hfirst) Bool.false_ne_true
    rcases fwrite_cases write.dataLimit (serializeEvent write.object)
        (recorder.disk ++ FixedCodec.word32.encode 88) with
      hsecond | ⟨taken, -, htaken, hsecond⟩
    · left
      refine ⟨?_, hsome⟩
      simp [writeEvent, hopen, hfirst, hsecond, frame]
    · right
      refine ⟨FixedCodec.word32.encode 88 ++ (serializeEvent write.object).take taken,
        makeError .ioError "fwrite failed during recording", ?_, ?_, ?_⟩
      · simp [writeEvent, hopen, hfirst, hsecond]
      · refine Or.inr ⟨write.object,
          (List.prefix_append_right_inj _).mpr (List.take_prefix _ _), ?_⟩
        rw [frame, List.length_append, List.length_append, List.length_take]
        omega
      · simp [hlength, hsome]
  · right
    refine ⟨(FixedCodec.word32.encode 88).take taken,
      makeError .ioError "fwrite failed during recording", ?_, ?_, ?_⟩
    · simp [writeEvent, hopen, hfirst]
    · refine Or.inr ⟨write.object, ?_, ?_⟩
      · exact (List.take_prefix _ _).trans (List.prefix_append _ _)
      · rw [frame, List.length_append, List.length_take]
        omega
    · rw [List.take_eq_nil_iff, hlimit, Option.some_inj]
      exact or_iff_left hlength

/-! ## The session -/

/-- The file is the header, the accepted records and at most one torn one. -/
structure Intact (clocks : Clocks) (session : Session) : Prop where
  isOpen : session.recorder.isOpen = true
  count : session.recorder.eventsWritten = UInt64.ofNat session.accepted.length
  disk : ∃ torn, Torn frame torn ∧
    session.recorder.disk =
      headerLayout.encode (makeHeader clocks) ++
        (session.accepted.flatMap frame ++ torn)

theorem count_concat {A : Type*} (values : List A) (value : A) :
    UInt64.ofNat (values ++ [value]).length = UInt64.ofNat values.length + 1 := by
  rw [List.length_append, List.length_singleton, UInt64.ofNat_add]
  rfl

/-- The counter and the open file need no condition on the calls. -/
theorem isOpen_count_exec {session : Session}
    (hopen : session.recorder.isOpen = true)
    (hcount :
      session.recorder.eventsWritten = UInt64.ofNat session.accepted.length)
    (write : Write) :
    (exec session write).recorder.isOpen = true ∧
      (exec session write).recorder.eventsWritten =
        UInt64.ofNat (exec session write).accepted.length := by
  rcases writeEvent_cases hopen write with ⟨hwrite, -⟩ | ⟨torn, error, hwrite, -⟩
  · simp only [exec, hwrite, hcount, count_concat, hopen, and_self]
  · simp only [exec, hwrite, hcount, hopen, and_self]

theorem intact_exec (clocks : Clocks) (session : Session) (write : Write)
    (hintact : Intact clocks session) (hstarts : StartsRecord session write) :
    Intact clocks (exec session write) := by
  obtain ⟨hopen, hcount⟩ := isOpen_count_exec hintact.isOpen hintact.count write
  refine ⟨hopen, hcount, ?_⟩
  obtain ⟨torn, htorn, hdisk⟩ := hintact.disk
  -- At a record boundary nothing torn is left.
  have hwhole : write.sizeLimit ≠ some 0 → torn = [] := by
    intro hsome
    have hboundary := hstarts.resolve_left hsome
    have hlength :
        session.recorder.disk.length - 64 =
          92 * session.accepted.length + torn.length := by
      rw [hdisk, List.length_append, List.length_append,
        FixedCodec.length_encode_eq, headerLayout_size, Nat.add_sub_cancel_left,
        length_flatMap_frame]
    have hlt := length_lt_of_torn htorn
    apply List.eq_nil_of_length_eq_zero
    omega
  rcases writeEvent_cases hintact.isOpen write with
    ⟨hwrite, hsome⟩ | ⟨added, error, hwrite, hadded, hnone⟩
  · refine ⟨[], Or.inl rfl, ?_⟩
    simp only [exec, hwrite, hdisk, hwhole hsome, List.flatMap_append,
      List.flatMap_singleton, List.append_nil, List.append_assoc]
  · by_cases hzero : write.sizeLimit = some 0
    · refine ⟨torn, htorn, ?_⟩
      simp only [exec, hwrite, hdisk, hnone.mpr hzero, List.append_nil]
    · refine ⟨added, hadded, ?_⟩
      simp only [exec, hwrite, hdisk, hwhole hzero, List.append_nil,
        List.append_assoc]

theorem faithful_of_intact (path : String) {clocks : Clocks} {session : Session}
    (hintact : Intact clocks session) : Faithful path session := by
  obtain ⟨torn, htorn, hdisk⟩ := hintact.disk
  have hlog :
      session.accepted.foldl (fun log object => log ++ [object.1]) [] =
        session.accepted.map Prod.fst := by
    rw [← List.flatMap_eq_foldl, List.map_eq_flatMap]
  simp only [Faithful, hdisk, openSource_makeHeader, replay, replayLoop_frames,
    replayLoop_torn _ htorn, deliver, hlog, true_and]
  exact hintact.count

theorem intact_opened {path : String} {failure : Option String} {clocks : Clocks}
    {limit : Option ℕ}
    (hopened : (openFile path failure clocks limit Recorder.new).2 = .ok ()) :
    Intact clocks (opened path failure clocks limit) := by
  cases failure with
  | some strerror => cases hopened
  | none =>
      rcases fwrite_cases limit (headerLayout.encode (makeHeader clocks)) [] with
        hwhole | ⟨taken, -, -, hcut⟩
      · refine ⟨rfl, rfl, [], Or.inl rfl, ?_⟩
        simp [opened, openFile, hwhole]
      · simp [openFile, hcut] at hopened

/-- The counter is the number of accepted events whatever fails, and a session
whose calls all start a record leaves a faithful recording after each of
them. -/
theorem recording_faithful {path : String} {failure : Option String}
    {clocks : Clocks} {limit : Option ℕ}
    (hopened : (openFile path failure clocks limit Recorder.new).2 = .ok ())
    (writes : List Write) :
    let start := opened path failure clocks limit
    Always exec
        (fun session =>
          session.recorder.eventsWritten =
            UInt64.ofNat session.accepted.length)
        start writes ∧
      (Along exec StartsRecord start writes →
        Always exec (Faithful path) start writes) := by
  intro start
  have hstart := intact_opened hopened
  constructor
  · refine (always_of_step
      (fun session => session.recorder.isOpen = true ∧
        session.recorder.eventsWritten = UInt64.ofNat session.accepted.length)
      ?_ ⟨hstart.isOpen, hstart.count⟩ writes).imp fun _ hsession => hsession.2
    intro session write hsession
    exact isOpen_count_exec hsession.1 hsession.2 write
  · intro hrun
    exact (always_of_invariant (Intact clocks) (intact_exec clocks) hstart hrun).imp
      fun _ => faithful_of_intact path

/-- A record, one that is cut in its payload, and a call that fails at once. -/
theorem recording_faithful_full_disk :
    let start := opened "run.ksr" none ⟨7, 9⟩ none
    let writes : List Write :=
      [⟨sampleObject 7, none, none⟩, ⟨sampleObject 7, none, some 16⟩,
        ⟨sampleObject 7, some 0, none⟩]
    (openFile "run.ksr" none ⟨7, 9⟩ none Recorder.new).2 = .ok () ∧
      Along exec StartsRecord start writes ∧
      Faithful "run.ksr" (run exec start writes) := by
  intro start writes
  have hopened : (openFile "run.ksr" none ⟨7, 9⟩ none Recorder.new).2 = .ok () := rfl
  have hrun : Along exec StartsRecord start writes := by decide +kernel
  have hfaithful := (recording_faithful hopened writes).2 hrun
  exact ⟨hopened, hrun, hfaithful.last⟩

/-- A length field that is cut after three bytes and the record after it: the
reader takes `88 0 0 88` for a length. -/
theorem cut_length_loses_recording :
    let start := opened "run.ksr" none ⟨7, 9⟩ none
    let session :=
      run exec start [⟨sampleObject 7, some 3, none⟩, ⟨sampleObject 7, none, none⟩]
    let source :=
      openSource "run.ksr" (.ok session.recorder.disk) ReplaySource.new
    let replayed := replay (some fun ev log => log ++ [ev]) source.1 []
    session.accepted = [sampleObject 7] ∧
      replayed.2.1 = [] ∧
      replayed.2.2 =
        .error (makeError .recordFormatError "event size exceeds 64KB limit") ∧
      ¬Faithful "run.ksr" session := by
  intro start session source replayed
  have hsession :
      session.accepted = [sampleObject 7] ∧
        session.recorder.disk =
          headerLayout.encode (makeHeader ⟨7, 9⟩) ++
            ([88, 0, 0] ++ frame (sampleObject 7)) := by
    decide +kernel
  have hover : Oversized ([88, 0, 0] ++ frame (sampleObject 7)) := by decide +kernel
  have hreplayed :
      replayed.2.1 = [] ∧
        replayed.2.2 =
          .error (makeError .recordFormatError "event size exceeds 64KB limit") := by
    simp only [replayed, source, hsession.2, openSource_makeHeader, replay,
      replayLoop_tail _ hover.none_ahead, lastOutcome, if_pos hover, and_self]
  refine ⟨hsession.1, hreplayed.1, hreplayed.2, ?_⟩
  simp only [Faithful, hsession.2, openSource_makeHeader, replay,
    replayLoop_tail _ hover.none_ahead, lastOutcome, if_pos hover, reduceCtorEq,
    false_and, and_false, not_false_eq_true]

end KernelScope.FailedWrites
