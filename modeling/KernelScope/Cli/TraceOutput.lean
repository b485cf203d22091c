import KernelScope.Bpf.StackFlags
import KernelScope.Cli.CaptureCommands
import KernelScope.Core.SyscallNames
import KernelScope.Util.TimeFormat

/-!
# The lines of a trace

`print_trace_event` prints one line for an event.  The name of the task is the only
field that can have any bytes, blanks and newlines included, and it is the one that
has a width of its own.  A reader who takes the columns off the front gets the events
of a whole trace back, with the digits that the times were printed with.
-/

namespace KernelScope.TraceOutput

open KernelScope.CaptureCommands
open KernelScope.Classifications
open KernelScope.Columns
open KernelScope.Decimal
open KernelScope.Errors (Error)
open KernelScope.Events
open KernelScope.FixedPoint
open KernelScope.Numerals
open KernelScope.Scanf (stops_cons)
open KernelScope.Setup (Config)
open KernelScope.StackFlags
open KernelScope.SyscallNames
open KernelScope.TimeFormat

/-! ## Printing -/

def latencyClassName : LatencyClass → String
  | .unknown => "unknown"
  | .onCpu => "on_cpu"
  | .offCpu => "off_cpu"
  | .syscallBlocked => "syscall_blocked"
  | .ioWait => "io_wait"
  | .lockWait => "lock_wait"
  | .unknownWait => "unknown_wait"
  | .unnamed _ => "unknown"

/-- `print_trace_event` -/
def printTraceEvent (ev : Event) : List UInt8 :=
  ascii "[" ++ (formatTimestampNs ev.timestampNs ++ (ascii "] pid=" ++
    ((decimal ev.pid.toNat).rightpad 6 32 ++ (ascii " tid=" ++
    ((decimal ev.tid.toNat).rightpad 6 32 ++ (ascii " " ++
    (ev.commStr.rightpad 16 32 ++ (ascii " " ++
    ((ascii (syscallName ev.syscallId)).rightpad 12 32 ++ (ascii " dur=" ++
    ((formatDurationNs ev.durationNs).rightpad 12 32 ++ (ascii " class=" ++
    ((ascii (latencyClassName ev.classification)).rightpad 16 32 ++
    (printStacks ev ++ ascii "\n"))))))))))))))

/-! ## Reading -/

/-- What a line says. -/
structure TraceLine where
  timestamp : ℚ
  pid : ℕ
  tid : ℕ
  comm : List UInt8
  syscall : List UInt8
  durationNs : ℚ
  latencyClass : List UInt8
  userStack : Option ℤ
  kernStack : Option ℤ

/-- A number with a minus sign in front, if it is negative. -/
def readSigned : List UInt8 → Option ℤ
  | 45 :: digits => (readNumeral 10 digits).map fun n : ℕ => -(n : ℤ)
  | digits => (readNumeral 10 digits).map fun n : ℕ => (n : ℤ)

/-- A stack id behind its mark, if the mark is there. -/
def readStack (mark : String) (text : List UInt8) : Option ℤ × List UInt8 :=
  match takeText (ascii mark) text with
  | none => (none, text)
  | some rest =>
      let (id, rest) := takeColumn 0 rest
      (readSigned id, rest)

/-- The columns of a line, and what follows the line. -/
def readTraceLine (text : List UInt8) : Option (TraceLine × List UInt8) := do
  let text ← takeText (ascii "[") text
  let (timestamp, text) ← readDecimal text
  let text ← takeText (ascii "] pid=") text
  let (pid, text) := takeColumn 6 text
  let text ← takeText (ascii " tid=") text
  let (tid, text) := takeColumn 6 text
  let text ← takeText (ascii " ") text
  let comm := stripRight (text.take 16)
  let text ← takeText (ascii " ") (text.drop 16)
  let (syscall, text) := takeColumn 12 text
  let text ← takeText (ascii " dur=") text
  let (duration, text) := takeColumn 12 text
  let text ← takeText (ascii " class=") text
  let (latencyClass, text) := takeColumn 16 text
  let (userStack, text) := readStack " ustack=" text
  let (kernStack, text) := readStack " kstack=" text
  let text ← takeText (ascii "\n") text
  let pid ← readNumeral 10 pid
  let tid ← readNumeral 10 tid
  let durationNs ← readDuration duration
  some (⟨timestamp, pid, tid, comm, syscall, durationNs, latencyClass, userStack, kernStack⟩,
    text)

/-- What the line of an event says: the time to the millisecond, the name up to
blanks at its end, the duration as it is printed, and the ids of the stacks that the
event has. -/
def traceLine (ev : Event) : TraceLine where
  timestamp := (ev.timestampNs.toNat / 1000000 : ℕ) / 1000
  pid := ev.pid.toNat
  tid := ev.tid.toNat
  comm := stripRight ev.commStr
  syscall := ascii (syscallName ev.syscallId)
  durationNs := shownNs ev.durationNs
  latencyClass := ascii (latencyClassName ev.classification)
  userStack := if ev.hasUserStack then some ev.userStackId.toInt else none
  kernStack := if ev.hasKernStack then some ev.kernStackId.toInt else none

/-! ## Fields -/

theorem isWord_latencyClassName (latencyClass : LatencyClass) :
    IsWord (ascii (latencyClassName latencyClass)) := by
  have hunknown : IsWord (ascii "unknown") := ⟨by decide, by decide, by decide⟩
  cases latencyClass with
  | unnamed code => exact hunknown
  | _ => exact ⟨by decide, by decide, by decide⟩

theorem isWord_signedDecimal (value : Int64) : IsWord (signedDecimal value) := by
  rw [signedDecimal]
  split
  · have hsign : IsWord (ascii "-") := ⟨by decide, by decide, by decide⟩
    exact hsign.append (isWord_decimal _).noBlank (isWord_decimal _).oneLine
  · exact isWord_decimal _

theorem readSigned_signedDecimal (value : Int64) :
    readSigned (signedDecimal value) = some value.toInt := by
  rw [signedDecimal]
  split
  next hneg =>
    have hsign : ascii "-" = [45] := by decide
    rw [hsign, List.singleton_append, readSigned, readNumeral_decimal]
    rw [Int64.lt_iff_toInt_lt, Int64.toInt_zero] at hneg
    simp only [Option.map_some, Option.some.injEq]
    omega
  next hpos =>
    obtain ⟨c, tail, hdigits, hc⟩ :=
      Scanf.exists_cons_of_readNumeral (readNumeral_decimal value.toInt.natAbs)
    have hread := readNumeral_decimal value.toInt.natAbs
    rw [Int64.lt_iff_toInt_lt, Int64.toInt_zero] at hpos
    rw [hdigits] at hread ⊢
    have hplain : c ≠ 45 := Scanf.isDigit_ne hc (by decide)
    rw [readSigned]
    · simp only [hread, Option.map_some, Option.some.injEq]
      omega
    · intro digits heq
      exact hplain (List.cons.inj heq).1

theorem readStack_present (mark : String) (id : Int64) {rest : List UInt8} (hrest : Ends rest) :
    readStack mark (ascii mark ++ (signedDecimal id ++ rest)) = (some id.toInt, rest) := by
  simp only [readStack, takeText_append, takeColumn_word (isWord_signedDecimal id) hrest,
    readSigned_signedDecimal]

theorem readStack_absent {mark : String} {text : List UInt8}
    (hmark : takeText (ascii mark) text = none) : readStack mark text = (none, text) := by
  simp only [readStack, hmark]

/-- What is printed for the stack of the kernel, with the end of the line. -/
def kernelPart (ev : Event) (rest : List UInt8) : List UInt8 :=
  (if ev.hasKernStack then ascii " kstack=" ++ signedDecimal ev.kernStackId else []) ++ 10 :: rest

theorem ends_kernelPart (ev : Event) (rest : List UInt8) : Ends (kernelPart ev rest) := by
  rw [kernelPart]
  split
  · exact ends_cons (.inl rfl) _
  · exact ends_cons (.inr rfl) rest

theorem readStack_kernelPart (ev : Event) (rest : List UInt8) :
    readStack " kstack=" (kernelPart ev rest) = ((traceLine ev).kernStack, 10 :: rest) := by
  rw [kernelPart, traceLine]
  split
  · rw [List.append_assoc]
    exact readStack_present " kstack=" ev.kernStackId (ends_cons (.inr rfl) rest)
  · exact readStack_absent (takeText_cons_ne (by decide) _ rest)

/-- The mark of a user stack is not found in front of a kernel stack. -/
theorem takeText_kernelPart (ev : Event) (rest : List UInt8) :
    takeText (ascii " ustack=") (kernelPart ev rest) = none := by
  rw [kernelPart]
  split
  · rw [List.append_assoc]
    exact takeText_append_ne (by decide) (by decide) _
  · exact takeText_cons_ne (by decide) _ rest

theorem printStacks_append (ev : Event) (rest : List UInt8) :
    printStacks ev ++ 10 :: rest =
      (if ev.hasUserStack then ascii " ustack=" ++ signedDecimal ev.userStackId else []) ++
        kernelPart ev rest := by
  rw [printStacks, List.append_assoc, kernelPart]

theorem readStack_printStacks (ev : Event) (rest : List UInt8) :
    readStack " ustack=" (printStacks ev ++ 10 :: rest) =
      ((traceLine ev).userStack, kernelPart ev rest) := by
  rw [printStacks_append, traceLine]
  split
  · rw [List.append_assoc]
    exact readStack_present " ustack=" ev.userStackId (ends_kernelPart ev rest)
  · exact readStack_absent (takeText_kernelPart ev rest)

theorem ends_printStacks (ev : Event) (rest : List UInt8) :
    Ends (printStacks ev ++ 10 :: rest) := by
  rw [printStacks_append]
  split
  · exact ends_cons (.inl rfl) _
  · exact ends_kernelPart ev rest

/-! ## Lines -/

theorem length_rightpad_commStr (ev : Event) : (ev.commStr.rightpad 16 32).length = 16 := by
  have hle : ev.commStr.length ≤ ev.comm.toList.length :=
    (List.takeWhile_sublist _).length_le
  rw [Vector.length_toList] at hle
  rw [List.rightpad, List.length_append, List.length_replicate]
  omega

theorem readTraceLine_printTraceEvent (ev : Event) (rest : List UInt8) :
    readTraceLine (printTraceEvent ev ++ rest) = some (traceLine ev, rest) := by
  have htimestamp : ∀ tail, readDecimal (formatTimestampNs ev.timestampNs ++
      (ascii "] pid=" ++ tail)) = _ := fun tail =>
    readDecimal_formatTimestampNs ev.timestampNs
      (stops_cons (by decide) (by decide) (by decide) _)
  have hpid : ∀ tail, takeColumn 6 ((decimal ev.pid.toNat).rightpad 6 32 ++
      (ascii " tid=" ++ tail)) = _ := fun tail =>
    takeColumn_rightpad (isWord_decimal _) 6 (ends_cons (.inl rfl) _)
  have htid : ∀ tail, takeColumn 6 ((decimal ev.tid.toNat).rightpad 6 32 ++
      (ascii " " ++ tail)) = _ := fun tail =>
    takeColumn_rightpad (isWord_decimal _) 6 (ends_cons (.inl rfl) _)
  have hcomm : ∀ tail, (ev.commStr.rightpad 16 32 ++ tail).take 16 = _ := fun tail =>
    List.take_left' (length_rightpad_commStr ev)
  have hbehind : ∀ tail, (ev.commStr.rightpad 16 32 ++ tail).drop 16 = tail := fun tail =>
    List.drop_left' (length_rightpad_commStr ev)
  have hsyscall : ∀ tail, takeColumn 12 ((ascii (syscallName ev.syscallId)).rightpad 12 32 ++
      (ascii " dur=" ++ tail)) = _ := fun tail =>
    takeColumn_rightpad (isWord_syscallName _) 12 (ends_cons (.inl rfl) _)
  have hduration : ∀ tail, takeColumn 12 ((formatDurationNs ev.durationNs).rightpad 12 32 ++
      (ascii " class=" ++ tail)) = _ := fun tail =>
    takeColumn_rightpad (isWord_formatDurationNs _) 12 (ends_cons (.inl rfl) _)
  have hclass := takeColumn_rightpad (isWord_latencyClassName ev.classification) 16
    (ends_printStacks ev rest)
  have hnewline : ascii "\n" ++ rest = 10 :: rest := rfl
  have hend : takeText (ascii "\n") (10 :: rest) = some rest := takeText_append (ascii "\n") rest
  simp only [readTraceLine, printTraceEvent, List.append_assoc, takeText_append, htimestamp, hpid,
    htid, hcomm, hbehind, hsyscall, hduration, hnewline, hclass, readStack_printStacks,
    readStack_kernelPart, hend, stripRight_rightpad, readNumeral_decimal,
    readDuration_formatDurationNs, Option.bind_eq_bind, Option.bind_some]
  rfl

theorem printTraceEvent_ne_nil (ev : Event) : printTraceEvent ev ≠ [] :=
  List.append_ne_nil_of_left_ne_nil (by decide) _

/-- What `run_trace` writes to the standard output. -/
def traceText (sys : Session) (cfg : Config) : Except Error (List UInt8) :=
  (runTrace sys cfg).map fun printed => printed.flatMap printTraceEvent

/-- In every session in which the trace starts, its text is read back, line by line, as
the events that were captured, each with its class, and in their order.  The names of
the tasks can have any bytes. -/
theorem trace_text_reads_back (sys : Session) (cfg : Config) :
    (traceText sys cfg).map (readAll readTraceLine) =
      (prepared sys cfg).map fun _ =>
        some ((capturedEvents cfg.durationSec sys).map fun ev => traceLine (classified ev)) := by
  have hread : ∀ events : List Event,
      readAll readTraceLine (events.flatMap printTraceEvent) = some (events.map traceLine) :=
    readAll_flatMap readTraceLine_printTraceEvent printTraceEvent_ne_nil
  rw [traceText, runTrace_eq]
  cases prepared sys cfg with
  | error error => rfl
  | ok _ =>
      simp only [Except.map, hread, List.map_map]
      rfl

end KernelScope.TraceOutput
