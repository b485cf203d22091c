import KernelScope.Core.EventDecoder
import KernelScope.Library.ByteStream

/-!
# The KSR format

The header and the event payload of a `.ksr` file, as `record/format.cpp`
writes and reads them.  Both are object representations: the bytes of the
struct, padding included.  The last section is the grammar of what follows the
header, as `record/format.hpp` draws it.
-/

namespace KernelScope.Format

open KernelScope.ByteCodec
open KernelScope.ByteStream
open KernelScope.EventDecoder
open KernelScope.Events
open KernelScope.WireFormat

/-- The eight bytes at `kKsrMagic.data()`: `KSCOPE`, 1, 0. -/
def kKsrMagic : Vector UInt8 8 := #v[75, 83, 67, 79, 80, 69, 1, 0]

def kKsrVersion : UInt32 := 1

structure KsrHeader where
  magic : Vector UInt8 8
  version : UInt32
  flags : UInt32
  timebaseNs : UInt64
  startTimeNs : UInt64
  reserved : Vector UInt8 32
  deriving DecidableEq

def headerFields :
    KsrHeader ≃
      Vector UInt8 8 × UInt32 × UInt32 × UInt64 × UInt64 × Vector UInt8 32 where
  toFun hdr :=
    (hdr.magic, hdr.version, hdr.flags, hdr.timebaseNs, hdr.startTimeNs,
      hdr.reserved)
  invFun fields :=
    match fields with
    | (magic, version, flags, timebaseNs, startTimeNs, reserved) =>
      { magic, version, flags, timebaseNs, startTimeNs, reserved }
  left_inv _ := rfl
  right_inv _ := rfl

open FixedCodec in
/-- The object representation of a `KsrHeader`; it has no padding. -/
def headerLayout : FixedCodec KsrHeader :=
  ((bytes 8).pair <| word32.pair <| word32.pair <| word64.pair <|
    word64.pair <| bytes 32).mapEquiv headerFields

@[simp]
theorem headerLayout_size : headerLayout.size = 64 := rfl

/-- The two clocks `make_header` reads. -/
structure Clocks where
  monotonic : UInt64
  wall : UInt64

def makeHeader (clocks : Clocks) : KsrHeader where
  magic := kKsrMagic
  version := kKsrVersion
  flags := 0
  timebaseNs := clocks.monotonic
  startTimeNs := clocks.wall
  reserved := Vector.replicate 32 0

def validateHeader (hdr : KsrHeader) : Bool :=
  hdr.magic = kKsrMagic && hdr.version ≤ kKsrVersion

@[simp]
theorem validateHeader_makeHeader (clocks : Clocks) :
    validateHeader (makeHeader clocks) = true := by
  simp [validateHeader, makeHeader, kKsrVersion]

/-- An `Event` object in memory: its fields, and whatever its padding holds. -/
abbrev EventObject := Event × EventPadding

/-- The object of the sample event, with zeros in its padding. -/
def sampleObject (pid : UInt32) : EventObject :=
  (sampleRead pid, ⟨Vector.replicate 4 0, Vector.replicate 4 0⟩)

/-- `serialize_event`: a copy of the object. -/
def serializeEvent (object : EventObject) : List UInt8 :=
  eventLayout.encode object

def deserializeEvent (data : List UInt8) : Option Event :=
  if data.length < eventLayout.size then none
  else some (eventLayout.decode data).1

@[simp]
theorem length_serializeEvent (object : EventObject) :
    (serializeEvent object).length = 88 :=
  eventLayout.length_encode object

@[simp]
theorem deserializeEvent_serializeEvent (object : EventObject) :
    deserializeEvent (serializeEvent object) = some object.1 := by
  have hlength : ¬(serializeEvent object).length < eventLayout.size := by simp
  rw [deserializeEvent, if_neg hlength, serializeEvent, eventLayout.decode_encode]

/-- A longer payload is read up to the size of an event. -/
theorem deserializeEvent_eq_some {data : List UInt8} (hlength : 88 ≤ data.length) :
    deserializeEvent data = some (eventLayout.decode (data.take 88)).1 := by
  have henough : ¬data.length < eventLayout.size := Nat.not_lt.mpr hlength
  rw [deserializeEvent, if_neg henough, ← readsFront_eventLayout data]
  rfl

theorem deserializeEvent_eq_none {data : List UInt8} (hlength : ¬88 ≤ data.length) :
    deserializeEvent data = none :=
  if_pos (Nat.lt_of_not_le hlength)

/-! ## Agreement with the wire format -/

/-- `struct event` and `Event` have the same fields at the same offsets. -/
theorem decode_eventLayout (raw : List UInt8) :
    (eventLayout.decode raw).1 = fromWire (wireLayout.decode raw) :=
  rfl

theorem decodeEvent_eq_deserializeEvent (raw : List UInt8) :
    decodeEvent raw = deserializeEvent raw := by
  rw [decodeEvent, deserializeEvent, decode_eventLayout, wireLayout_size, eventLayout_size]

/-- A ring-buffer record and a recorded payload are read alike: both readers
reject what is shorter than 88 bytes and otherwise give the same event, whatever
the bytes that belong to no field are, and the decoder reads back what the
recorder serializes. -/
theorem wire_and_recording_agree :
    (∀ raw, decodeEvent raw = deserializeEvent raw ∧
      (decodeEvent raw = none ↔ raw.length < 88)) ∧
    (∀ (e : WireEvent) (gap : Vector UInt8 4) (pad : UInt32) (rest : List UInt8),
      deserializeEvent (wireLayout.encode { e with gap, pad } ++ rest) =
        decodeEvent (wireLayout.encode e)) ∧
    ∀ object : EventObject, decodeEvent (serializeEvent object) = some object.1 := by
  refine ⟨fun raw => ⟨decodeEvent_eq_deserializeEvent raw, ?_⟩,
    fun e gap pad rest => ?_, fun object => ?_⟩
  · rw [decodeEvent, wireLayout_size]
    by_cases hshort : raw.length < 88 <;> simp [hshort]
  · rw [← decodeEvent_eq_deserializeEvent, decodeEvent_encode_append, decodeEvent_encode]
    rfl
  · rw [decodeEvent_eq_deserializeEvent, deserializeEvent_serializeEvent]

/-! ## Frames -/

/-- A payload within the limit that `ReplaySource::replay` puts on it. -/
abbrev Payload := {payload : List UInt8 // payload.length ≤ 65536}

/-- A frame of the file: the length of the payload and the payload. -/
def frameBytes (payload : Payload) : List UInt8 :=
  FixedCodec.word32.encode (UInt32.ofNat payload.1.length) ++ payload.1

theorem Payload.length_lt (payload : Payload) : payload.1.length < 2 ^ 32 :=
  Nat.lt_of_le_of_lt payload.2 (by decide)

theorem Payload.toNat_size (payload : Payload) :
    (UInt32.ofNat payload.1.length).toNat = payload.1.length :=
  UInt32.toNat_ofNat_of_lt' payload.length_lt

theorem length_frameBytes_pos (payload : Payload) :
    0 < (frameBytes payload).length := by
  rw [frameBytes, List.length_append, FixedCodec.length_encode_eq]
  exact Nat.add_pos_left (by decide) _

/-- The length field says where a frame ends, so no frame begins another. -/
theorem prefixFree_frameBytes : PrefixFree frameBytes := by
  rintro left right ⟨after, heq⟩
  have hsize : UInt32.ofNat left.1.length = UInt32.ofNat right.1.length := by
    have hdecode := congrArg FixedCodec.word32.decode heq
    rw [frameBytes, frameBytes, List.append_assoc,
      FixedCodec.decode_encode_append, FixedCodec.decode_encode_append] at hdecode
    exact hdecode
  have hlength : left.1.length = right.1.length := by
    rw [← left.toNat_size, hsize, right.toNat_size]
  rw [frameBytes, frameBytes, hsize, List.append_assoc] at heq
  have hpayload : left.1 <+: right.1 := ⟨after, List.append_cancel_left heq⟩
  exact Subtype.ext (hpayload.eq_of_length hlength)

/-- Four bytes and as many more as they say are a frame. -/
theorem append_eq_frameBytes {bytes : List UInt8} {payload : Payload}
    (hbytes : bytes.length = 4)
    (hsize : (FixedCodec.word32.decode bytes).toNat = payload.1.length) :
    bytes ++ payload.1 = frameBytes payload := by
  rw [frameBytes, ← hsize, UInt32.ofNat_toNat,
    FixedCodec.word32_encode_decode hbytes]

theorem exists_frameBytes_of_le {bytes : List UInt8} (hsize : 4 ≤ bytes.length)
    (hle : (FixedCodec.word32.decode (bytes.take 4)).toNat ≤ 65536)
    (henough :
      (FixedCodec.word32.decode (bytes.take 4)).toNat ≤ (bytes.drop 4).length) :
    ∃ payload, frameBytes payload <+: bytes := by
  have hlength := List.length_take_of_le henough
  apply Exists.intro ⟨_, hlength.trans_le hle⟩
  rw [← append_eq_frameBytes (List.length_take_of_le hsize) hlength.symm]
  apply Exists.intro ((bytes.drop 4).drop _)
  rw [List.append_assoc, List.take_append_drop, List.take_append_drop]

/-- The bytes begin with a length field that is over the limit. -/
def Oversized (bytes : List UInt8) : Prop :=
  4 ≤ bytes.length ∧ 65536 < decodeLE (bytes.take 4)

instance decidableOversized (bytes : List UInt8) : Decidable (Oversized bytes) :=
  inferInstanceAs (Decidable (_ ∧ _))

/-- No frame has a length over the limit. -/
theorem Oversized.none_ahead {bytes : List UInt8} (hover : Oversized bytes)
    (payload : Payload) : ¬frameBytes payload <+: bytes := by
  rintro ⟨after, rfl⟩
  have htake :
      (frameBytes payload ++ after).take 4 =
        FixedCodec.word32.encode (UInt32.ofNat payload.1.length) := by
    rw [frameBytes, List.append_assoc]
    exact FixedCodec.word32.take_encode_append _ _
  have hsize := hover.2
  rw [htake, ← FixedCodec.toNat_word32_decode (FixedCodec.word32.length_encode _),
    FixedCodec.decode_encode, payload.toNat_size] at hsize
  exact absurd payload.2 (Nat.not_le.mpr hsize)

end KernelScope.Format
