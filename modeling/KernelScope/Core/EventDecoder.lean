import KernelScope.Bpf.WireFormat

/-!
# Event decoder

`decode_event` of `core/event_decoder.cpp`: a record of at least
`sizeof(struct event)` bytes is read through the wire layout and copied field
by field into an `Event`; the alignment gap, `pad` and any trailing bytes are
ignored.
-/

namespace KernelScope.EventDecoder

open KernelScope.Events
open KernelScope.WireFormat

/-- The field-by-field copy from `struct event` to `Event`. -/
def fromWire (src : WireEvent) : Event where
  timestampNs := src.timestampNs
  pid := src.pid
  tid := src.tid
  comm := src.comm
  cpu := src.cpu
  type := EventType.ofCode src.type
  classification := LatencyClass.ofCode src.classification
  durationNs := src.durationNs
  syscallId := src.syscallId
  userStackId := src.userStackId
  kernStackId := src.kernStackId
  flags := src.flags

def decodeEvent (raw : List UInt8) : Option Event :=
  if raw.length < wireLayout.size then none
  else some (fromWire (wireLayout.decode raw))

/-- A record that was written through the wire layout always decodes, whatever
follows it. -/
theorem decodeEvent_encode_append (e : WireEvent) (rest : List UInt8) :
    decodeEvent (wireLayout.encode e ++ rest) = some (fromWire e) := by
  have hlength :
      ¬(wireLayout.encode e ++ rest).length < wireLayout.size := by
    rw [List.length_append, wireLayout.length_encode]
    omega
  rw [decodeEvent, if_neg hlength, wireLayout.decode_encode_append]

@[simp]
theorem decodeEvent_encode (e : WireEvent) :
    decodeEvent (wireLayout.encode e) = some (fromWire e) := by
  simpa using decodeEvent_encode_append e []

end KernelScope.EventDecoder
