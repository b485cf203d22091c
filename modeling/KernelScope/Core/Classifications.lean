import KernelScope.Core.Aggregation

/-!
# Latency classification

`core/classifications.cpp`: a fixed mapping from event type and system call
number to a latency class.  The aggregator does not read the class.
-/

namespace KernelScope.Classifications

open KernelScope.Aggregation
open KernelScope.Events

inductive SyscallGroup where
  | fileIo
  | sync
  | network
  | lock
  | process
  | memory
  | signal
  | other
  deriving DecidableEq

def syscallGroup (id : UInt64) : SyscallGroup :=
  if id ∈ [0, 1, 2, 3, 5, 8, 17, 18, 257, 262] then .fileIo
  else if id ∈ [74, 75] then .sync
  else if id ∈ [41, 42, 43, 44, 45, 46, 47, 49, 50, 288] then .network
  else if id = 202 then .lock
  else if id ∈ [56, 57, 59, 61] then .process
  else if id ∈ [9, 10, 11, 12] then .memory
  else .other

def classifyEvent (ev : Event) : LatencyClass :=
  if ev.type = .offcpuSlice then .offCpu
  else if ev.type = .syscallSlow then
    match syscallGroup ev.syscallId with
    | .lock => .lockWait
    | .fileIo | .sync | .network => .ioWait
    | _ => .syscallBlocked
  else .unknown

/-- The copy that the live commands pass on: the event with its class. -/
def classified (ev : Event) : Event :=
  { ev with classification := classifyEvent ev }

@[simp]
theorem processEvent_classified (ev : Event) (agg : Aggregator) :
    processEvent (classified ev) agg = processEvent ev agg := rfl

end KernelScope.Classifications
