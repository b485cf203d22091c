import KernelScope.Core.Events

/-!
# Ring-buffer wire format

The C side of the event format, `bpf/events.h`: the enumerations by their
numeric codes, `struct event` with its x86_64 layout, and the values stored in
the two hash maps.  A record is written into a reserved ring-buffer slot whose
previous contents are arbitrary, so `WireEvent` carries the alignment gap and
`pad` next to the named fields.
-/

namespace KernelScope.WireFormat

open KernelScope.ByteCodec
open KernelScope.Events

/-- `enum event_type`. -/
inductive EvType where
  | none
  | syscallSlow
  | offcpuSlice
  | lockWait
  | ioWait
  | procExec
  | procExit
  | lostSamples
  | diag
  deriving DecidableEq

def EvType.code : EvType → UInt32
  | .none => 0
  | .syscallSlow => 1
  | .offcpuSlice => 2
  | .lockWait => 3
  | .ioWait => 4
  | .procExec => 5
  | .procExit => 6
  | .lostSamples => 7
  | .diag => 8

theorem EvType.code_injective : Function.Injective EvType.code := by
  intro left right
  cases left <;> cases right <;> decide

/-- `enum latency_class`. -/
inductive LatClass where
  | unknown
  | onCpu
  | offCpu
  | syscallBlocked
  | ioWait
  | lockWait
  | unknownWait
  deriving DecidableEq

def LatClass.code : LatClass → UInt32
  | .unknown => 0
  | .onCpu => 1
  | .offCpu => 2
  | .syscallBlocked => 3
  | .ioWait => 4
  | .lockWait => 5
  | .unknownWait => 6

/-- `struct task_key`, the key of both hash maps. -/
structure TaskKey where
  pid : UInt32
  tid : UInt32
  deriving DecidableEq

/-- `struct active_syscall`. -/
structure ActiveSyscall where
  id : UInt64
  startNs : UInt64
  userStackId : Int64
  kernStackId : Int64
  flags : UInt32
  deriving DecidableEq

/-- `struct kscope_sched_state`. -/
structure SchedState where
  switchOutNs : UInt64
  switchInNs : UInt64
  accumulatedOffcpuNs : UInt64
  lastState : UInt32
  deriving DecidableEq

/-- A zero-initialised `struct kscope_sched_state`. -/
def SchedState.zero : SchedState where
  switchOutNs := 0
  switchInNs := 0
  accumulatedOffcpuNs := 0
  lastState := 0

/-- `struct event`. -/
structure WireEvent where
  timestampNs : UInt64
  pid : UInt32
  tid : UInt32
  comm : Comm
  cpu : UInt32
  type : UInt32
  classification : UInt32
  gap : Vector UInt8 4
  durationNs : UInt64
  syscallId : UInt64
  userStackId : Int64
  kernStackId : Int64
  flags : UInt32
  pad : UInt32
  deriving DecidableEq

/-- A ring-buffer slot that happens to hold zeros. -/
def WireEvent.zero : WireEvent where
  timestampNs := 0
  pid := 0
  tid := 0
  comm := Vector.replicate 16 0
  cpu := 0
  type := 0
  classification := 0
  gap := Vector.replicate 4 0
  durationNs := 0
  syscallId := 0
  userStackId := 0
  kernStackId := 0
  flags := 0
  pad := 0

def evfHasUserStack : UInt32 := 1

def evfHasKernStack : UInt32 := 2

/-- The fields of `struct event` in address order. -/
def wireFields :
    WireEvent ≃
      UInt64 × UInt32 × UInt32 × Comm × UInt32 × UInt32 × UInt32 ×
        Vector UInt8 4 × UInt64 × UInt64 × Int64 × Int64 × UInt32 ×
          UInt32 where
  toFun e :=
    (e.timestampNs, e.pid, e.tid, e.comm, e.cpu, e.type, e.classification,
      e.gap, e.durationNs, e.syscallId, e.userStackId, e.kernStackId, e.flags,
      e.pad)
  invFun fields :=
    match fields with
    | (timestampNs, pid, tid, comm, cpu, type, classification, gap,
        durationNs, syscallId, userStackId, kernStackId, flags, pad) =>
      { timestampNs, pid, tid, comm, cpu, type, classification, gap,
        durationNs, syscallId, userStackId, kernStackId, flags, pad }
  left_inv _ := rfl
  right_inv _ := rfl

open FixedCodec in
/-- The bytes of a `struct event`. -/
def wireLayout : FixedCodec WireEvent :=
  (word64.pair <| word32.pair <| word32.pair <| (bytes 16).pair <|
    word32.pair <| word32.pair <| word32.pair <| (bytes 4).pair <|
    word64.pair <| word64.pair <| signed64.pair <| signed64.pair <|
    word32.pair word32).mapEquiv wireFields

/-- `sizeof(struct event)`. -/
@[simp]
theorem wireLayout_size : wireLayout.size = 88 := rfl

end KernelScope.WireFormat
