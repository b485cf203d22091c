import KernelScope.Bpf.WireFormat

/-!
# BPF-side filters and identity

The inline helpers of `bpf/filters.h` over the read-only configuration of
`bpf/maps.h`.  What the kernel's own helpers answer about the current task is
an input, collected in `TaskContext`.
-/

namespace KernelScope.Filters

open KernelScope.Events
open KernelScope.WireFormat

/-- The `const volatile` globals of `bpf/maps.h`, fixed before loading. -/
structure Rodata where
  targetPid : UInt32
  minLatencyNs : UInt64
  minOffcpuNs : UInt64
  captureUserStacks : UInt32
  captureKernStacks : UInt32
  stackSamplingPct : UInt32
  pidnsDev : UInt32
  pidnsIno : UInt32
  targetComm : Comm
  deriving DecidableEq

/-- The initialisers of `bpf/maps.h`. -/
def Rodata.default : Rodata where
  targetPid := 0
  minLatencyNs := 100000
  minOffcpuNs := 1000000
  captureUserStacks := 1
  captureKernStacks := 0
  stackSamplingPct := 100
  pidnsDev := 0
  pidnsIno := 0
  targetComm := Vector.replicate 16 0

/-- `struct bpf_pidns_info`. -/
structure PidnsInfo where
  pid : UInt32
  tgid : UInt32
  deriving DecidableEq

/-- The answers of the kernel helpers for the task a program runs in. -/
structure TaskContext where
  /-- `bpf_get_current_pid_tgid`: thread group in the high word. -/
  pidTgid : UInt64
  /-- `bpf_get_ns_current_pid_tgid` for a device and inode, when it succeeds. -/
  nsPidTgid : UInt32 → UInt32 → Option PidnsInfo
  comm : Comm
  cpu : UInt32

/-- The answers for a nameless task on CPU 0 whose ids are the global ones. -/
def TaskContext.ofIds (tgid tid : UInt32) : TaskContext where
  pidTgid := (tgid.toUInt64 <<< 32) ||| tid.toUInt64
  nsPidTgid := fun _ _ => none
  comm := Vector.replicate 16 0
  cpu := 0

def filterPid (ro : Rodata) (pid : UInt32) : Bool :=
  if ro.targetPid = 0 then true else pid = ro.targetPid

/-- The comparison loop of `filter_comm` over the two buffers in step. -/
def compareComm : List (UInt8 × UInt8) → Bool
  | [] => true
  | (target, byte) :: rest =>
      if target ≠ byte then false
      else if target = 0 then true
      else compareComm rest

def filterComm (ro : Rodata) (comm : Comm) : Bool :=
  if ro.targetComm[0] = 0 then true
  else compareComm (ro.targetComm.toList.zip comm.toList)

/-- `rand` is the answer of `bpf_get_prandom_u32`. -/
def shouldCaptureStack (ro : Rodata) (rand : UInt32) : Bool :=
  if ro.stackSamplingPct ≥ 100 then true
  else if ro.stackSamplingPct = 0 then false
  else rand % 100 < ro.stackSamplingPct

/-- `pid_out` and `tid_out` of the current task in the global numbering. -/
def globalPidTgid (task : TaskContext) : UInt32 × UInt32 :=
  ((task.pidTgid >>> 32).toUInt32, task.pidTgid.toUInt32)

theorem globalPidTgid_ofIds (tgid tid : UInt32) :
    globalPidTgid (TaskContext.ofIds tgid tid) = (tgid, tid) := by
  have hhigh :
      ((tgid.toUInt64 <<< 32 ||| tid.toUInt64) >>> 32).toUInt32 = tgid := by
    apply UInt32.toBitVec_inj.mp
    ext index hindex
    have hword : 32 + index < 64 := by omega
    have hshifted : index < 64 := by omega
    simp [BitVec.getLsbD_eq_getElem, hindex, hword, hshifted]
  have hlow : (tgid.toUInt64 <<< 32 ||| tid.toUInt64).toUInt32 = tid := by
    apply UInt32.toBitVec_inj.mp
    ext index hindex
    simp
  exact Prod.ext hhigh hlow

def getNsPidTgid (ro : Rodata) (task : TaskContext) : UInt32 × UInt32 :=
  if ro.pidnsDev ≠ 0 ∧ ro.pidnsIno ≠ 0 then
    match task.nsPidTgid ro.pidnsDev ro.pidnsIno with
    | some ns => (ns.tgid, ns.pid)
    | none => globalPidTgid task
  else globalPidTgid task

def fillTaskKey (ro : Rodata) (task : TaskContext) : TaskKey where
  pid := (getNsPidTgid ro task).1
  tid := (getNsPidTgid ro task).2

/-- `ktime` is the clock reading taken inside `fill_event_common`. -/
def fillEventCommon (ro : Rodata) (task : TaskContext) (ktime : UInt64)
    (e : WireEvent) : WireEvent :=
  { e with
    pid := (getNsPidTgid ro task).1
    tid := (getNsPidTgid ro task).2
    timestampNs := ktime
    cpu := task.cpu
    comm := task.comm
    userStackId := -1
    kernStackId := -1
    flags := 0
    classification := LatClass.unknown.code }

end KernelScope.Filters
