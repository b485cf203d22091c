import KernelScope.Library.ByteCodec
import Mathlib.Tactic.IntervalCases

/-!
# User-space events

The C++ `Event` of `core/event.hpp`, with the enumerations it is tagged by and
its memory layout under the x86_64 ABI.  The enumerations have a fixed 32-bit
underlying type, so a value outside the named list is representable; it keeps
its code.
-/

namespace KernelScope.Events

open KernelScope.ByteCodec

/-- `EventType` of `core/event.hpp`. -/
inductive EventType where
  | none
  | syscallSlow
  | offcpuSlice
  | lockWait
  | ioWait
  | procExec
  | procExit
  | lostSamples
  | diag
  | unnamed (code : {code : UInt32 // 9 ≤ code})
  deriving DecidableEq

def EventType.code : EventType → UInt32
  | .none => 0
  | .syscallSlow => 1
  | .offcpuSlice => 2
  | .lockWait => 3
  | .ioWait => 4
  | .procExec => 5
  | .procExit => 6
  | .lostSamples => 7
  | .diag => 8
  | .unnamed code => code.1

/-- `static_cast<EventType>` of a 32-bit value. -/
def EventType.ofCode (code : UInt32) : EventType :=
  if hcode : 9 ≤ code then .unnamed ⟨code, hcode⟩
  else match code.toNat with
    | 1 => .syscallSlow
    | 2 => .offcpuSlice
    | 3 => .lockWait
    | 4 => .ioWait
    | 5 => .procExec
    | 6 => .procExit
    | 7 => .lostSamples
    | 8 => .diag
    | _ => .none

@[simp]
theorem EventType.ofCode_code (type : EventType) :
    EventType.ofCode type.code = type := by
  cases type with
  | unnamed code => simp [EventType.code, EventType.ofCode, code.2]
  | _ => rfl

@[simp]
theorem EventType.code_ofCode (code : UInt32) :
    (EventType.ofCode code).code = code := by
  unfold EventType.ofCode
  split
  · rfl
  next hcode =>
    have hbound : code.toNat < 9 := by
      simpa [UInt32.le_iff_toNat_le] using hcode
    apply UInt32.toNat_inj.mp
    generalize code.toNat = value at hbound
    interval_cases value <;> rfl

def EventType.codeEquiv : EventType ≃ UInt32 where
  toFun := EventType.code
  invFun := EventType.ofCode
  left_inv := EventType.ofCode_code
  right_inv := EventType.code_ofCode

/-- `LatencyClass` of `core/event.hpp`. -/
inductive LatencyClass where
  | unknown
  | onCpu
  | offCpu
  | syscallBlocked
  | ioWait
  | lockWait
  | unknownWait
  | unnamed (code : {code : UInt32 // 7 ≤ code})
  deriving DecidableEq

def LatencyClass.code : LatencyClass → UInt32
  | .unknown => 0
  | .onCpu => 1
  | .offCpu => 2
  | .syscallBlocked => 3
  | .ioWait => 4
  | .lockWait => 5
  | .unknownWait => 6
  | .unnamed code => code.1

/-- `static_cast<LatencyClass>` of a 32-bit value. -/
def LatencyClass.ofCode (code : UInt32) : LatencyClass :=
  if hcode : 7 ≤ code then .unnamed ⟨code, hcode⟩
  else match code.toNat with
    | 1 => .onCpu
    | 2 => .offCpu
    | 3 => .syscallBlocked
    | 4 => .ioWait
    | 5 => .lockWait
    | 6 => .unknownWait
    | _ => .unknown

@[simp]
theorem LatencyClass.ofCode_code (latencyClass : LatencyClass) :
    LatencyClass.ofCode latencyClass.code = latencyClass := by
  cases latencyClass with
  | unnamed code => simp [LatencyClass.code, LatencyClass.ofCode, code.2]
  | _ => rfl

@[simp]
theorem LatencyClass.code_ofCode (code : UInt32) :
    (LatencyClass.ofCode code).code = code := by
  unfold LatencyClass.ofCode
  split
  · rfl
  next hcode =>
    have hbound : code.toNat < 7 := by
      simpa [UInt32.le_iff_toNat_le] using hcode
    apply UInt32.toNat_inj.mp
    generalize code.toNat = value at hbound
    interval_cases value <;> rfl

def LatencyClass.codeEquiv : LatencyClass ≃ UInt32 where
  toFun := LatencyClass.code
  invFun := LatencyClass.ofCode
  left_inv := LatencyClass.ofCode_code
  right_inv := LatencyClass.code_ofCode

/-- A task name buffer, `char[TASK_COMM_LEN]`. -/
abbrev Comm := Vector UInt8 16

structure Event where
  timestampNs : UInt64
  pid : UInt32
  tid : UInt32
  comm : Comm
  cpu : UInt32
  type : EventType
  classification : LatencyClass
  durationNs : UInt64
  syscallId : UInt64
  userStackId : Int64
  kernStackId : Int64
  flags : UInt32
  deriving DecidableEq

/-- The bytes before the first NUL, or all sixteen when there is none. -/
def Event.commStr (ev : Event) : List UInt8 :=
  ev.comm.toList.takeWhile (· ≠ 0)

def Event.hasUserStack (ev : Event) : Bool := ev.flags &&& 1 ≠ 0

def Event.hasKernStack (ev : Event) : Bool := ev.flags &&& 2 ≠ 0

/-- A `read` of 300 us, as a concrete input. -/
def sampleRead (pid : UInt32) : Event where
  timestampNs := 5000000
  pid := pid
  tid := pid
  comm := Vector.replicate 16 0
  cpu := 0
  type := .syscallSlow
  classification := .ioWait
  durationNs := 300000
  syscallId := 0
  userStackId := -1
  kernStackId := -1
  flags := 0

/-! ## Memory layout -/

/-- The bytes of an `Event` object that belong to no field: four after
`classification`, to align `duration_ns`, and four at the end. -/
structure EventPadding where
  inner : Vector UInt8 4
  tail : Vector UInt8 4
  deriving DecidableEq

/-- The fields and padding in address order. -/
def eventFields :
    Event × EventPadding ≃
      UInt64 × UInt32 × UInt32 × Comm × UInt32 × EventType × LatencyClass ×
        Vector UInt8 4 × UInt64 × UInt64 × Int64 × Int64 × UInt32 ×
          Vector UInt8 4 where
  toFun object :=
    (object.1.timestampNs, object.1.pid, object.1.tid, object.1.comm,
      object.1.cpu, object.1.type, object.1.classification, object.2.inner,
      object.1.durationNs, object.1.syscallId, object.1.userStackId,
      object.1.kernStackId, object.1.flags, object.2.tail)
  invFun fields :=
    match fields with
    | (timestampNs, pid, tid, comm, cpu, type, classification, inner,
        durationNs, syscallId, userStackId, kernStackId, flags, tail) =>
      ({ timestampNs, pid, tid, comm, cpu, type, classification, durationNs,
         syscallId, userStackId, kernStackId, flags }, { inner, tail })
  left_inv _ := rfl
  right_inv _ := rfl

open FixedCodec in
/-- The object representation of an `Event`. -/
def eventLayout : FixedCodec (Event × EventPadding) :=
  (word64.pair <| word32.pair <| word32.pair <| (bytes 16).pair <|
    word32.pair <| (word32.mapEquiv EventType.codeEquiv).pair <|
    (word32.mapEquiv LatencyClass.codeEquiv).pair <| (bytes 4).pair <|
    word64.pair <| word64.pair <| signed64.pair <| signed64.pair <|
    word32.pair <| bytes 4).mapEquiv eventFields

/-- `sizeof(Event)`. -/
@[simp]
theorem eventLayout_size : eventLayout.size = 88 := rfl

open FixedCodec in
theorem readsFront_eventLayout : eventLayout.ReadsFront :=
  (readsFront_word64.pair <| readsFront_word32.pair <| readsFront_word32.pair <|
    (readsFront_bytes 16).pair <| readsFront_word32.pair <|
    (readsFront_word32.mapEquiv _).pair <| (readsFront_word32.mapEquiv _).pair <|
    (readsFront_bytes 4).pair <| readsFront_word64.pair <|
    readsFront_word64.pair <| (readsFront_word64.mapEquiv _).pair <|
    (readsFront_word64.mapEquiv _).pair <| readsFront_word32.pair <|
    readsFront_bytes 4).mapEquiv eventFields

end KernelScope.Events
