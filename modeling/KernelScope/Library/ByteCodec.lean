import Mathlib.Data.Nat.ModEq
import Mathlib.Logic.Equiv.Basic
import Mathlib.Tactic.Common

/-!
# Fixed-size byte codecs

A C struct with a fixed ABI layout is a sequence of fixed-size fields.  A
`FixedCodec` packages one such layout: the encoder always writes `size` bytes
and the decoder recovers the value from the front of any longer byte string.
Integer words are little-endian, and structs are assembled from their fields
with `pair` and `mapEquiv`.
-/

namespace KernelScope.ByteCodec

/-! ## Little-endian naturals -/

/-- The `width` little-endian bytes of a natural; higher bits are dropped. -/
def encodeLE : ℕ → ℕ → List UInt8
  | 0, _ => []
  | width + 1, value => UInt8.ofNat (value % 256) :: encodeLE width (value / 256)

/-- The natural denoted by a little-endian byte string. -/
def decodeLE : List UInt8 → ℕ
  | [] => 0
  | byte :: bytes => byte.toNat + 256 * decodeLE bytes

@[simp]
theorem length_encodeLE (width value : ℕ) :
    (encodeLE width value).length = width := by
  induction width generalizing value with
  | zero => rfl
  | succ width ih => simp [encodeLE, ih]

theorem decodeLE_encodeLE (width value : ℕ) :
    decodeLE (encodeLE width value) = value % 256 ^ width := by
  induction width generalizing value with
  | zero => simp [encodeLE, decodeLE, Nat.mod_one]
  | succ width ih =>
      have hbyte : (UInt8.ofNat (value % 256)).toNat = value % 256 := by
        simp
      rw [encodeLE, decodeLE, ih, hbyte, pow_succ', Nat.mod_mul]

theorem encodeLE_decodeLE (bytes : List UInt8) :
    encodeLE bytes.length (decodeLE bytes) = bytes := by
  induction bytes with
  | nil => rfl
  | cons byte bytes ih =>
      have hlow : (byte.toNat + 256 * decodeLE bytes) % 256 = byte.toNat := by
        rw [Nat.add_mul_mod_self_left, Nat.mod_eq_of_lt byte.toNat_lt]
      have hhigh : (byte.toNat + 256 * decodeLE bytes) / 256 = decodeLE bytes := by
        rw [Nat.add_mul_div_left _ _ (by decide), Nat.div_eq_of_lt byte.toNat_lt,
          Nat.zero_add]
      rw [List.length_cons, encodeLE, decodeLE, hlow, hhigh, ih, UInt8.ofNat_toNat]

theorem decodeLE_lt (bytes : List UInt8) :
    decodeLE bytes < 256 ^ bytes.length := by
  have hdecode := decodeLE_encodeLE bytes.length (decodeLE bytes)
  rw [encodeLE_decodeLE] at hdecode
  rw [hdecode]
  exact Nat.mod_lt _ (Nat.pow_pos (by decide))

/-! ## Layouts -/

/-- A fixed-size layout together with the proofs that it is one. -/
structure FixedCodec (A : Type*) where
  size : ℕ
  encode : A → List UInt8
  decode : List UInt8 → A
  length_encode : ∀ value, (encode value).length = size
  decode_encode_append : ∀ value rest, decode (encode value ++ rest) = value

namespace FixedCodec

variable {A B : Type*}

@[simp]
theorem length_encode_eq (codec : FixedCodec A) (value : A) :
    (codec.encode value).length = codec.size :=
  codec.length_encode value

@[simp]
theorem decode_encode (codec : FixedCodec A) (value : A) :
    codec.decode (codec.encode value) = value := by
  simpa using codec.decode_encode_append value []

theorem take_encode_append (codec : FixedCodec A) (value : A)
    (rest : List UInt8) :
    (codec.encode value ++ rest).take codec.size = codec.encode value := by
  rw [← codec.length_encode value, List.take_left]

theorem drop_encode_append (codec : FixedCodec A) (value : A)
    (rest : List UInt8) :
    (codec.encode value ++ rest).drop codec.size = rest := by
  rw [← codec.length_encode value, List.drop_left]

/-- A 32-bit little-endian word. -/
def word32 : FixedCodec UInt32 where
  size := 4
  encode value := encodeLE 4 value.toNat
  decode bytes := UInt32.ofNat (decodeLE (bytes.take 4))
  length_encode value := length_encodeLE 4 value.toNat
  decode_encode_append value rest := by
    rw [List.take_left' (length_encodeLE 4 value.toNat), decodeLE_encodeLE,
      Nat.mod_eq_of_lt (by simpa using value.toNat_lt), UInt32.ofNat_toNat]

theorem toNat_word32_decode {bytes : List UInt8} (hbytes : bytes.length = 4) :
    (word32.decode bytes).toNat = decodeLE bytes := by
  have hbound : decodeLE bytes < 2 ^ 32 := by
    simpa [hbytes] using decodeLE_lt bytes
  change (UInt32.ofNat (decodeLE (bytes.take 4))).toNat = _
  rw [List.take_of_length_le hbytes.le, UInt32.toNat_ofNat_of_lt' hbound]

theorem word32_encode_decode {bytes : List UInt8} (hbytes : bytes.length = 4) :
    word32.encode (word32.decode bytes) = bytes := by
  change encodeLE 4 (word32.decode bytes).toNat = bytes
  rw [toNat_word32_decode hbytes, ← hbytes, encodeLE_decodeLE]

/-- A 64-bit little-endian word. -/
def word64 : FixedCodec UInt64 where
  size := 8
  encode value := encodeLE 8 value.toNat
  decode bytes := UInt64.ofNat (decodeLE (bytes.take 8))
  length_encode value := length_encodeLE 8 value.toNat
  decode_encode_append value rest := by
    rw [List.take_left' (length_encodeLE 8 value.toNat), decodeLE_encodeLE,
      Nat.mod_eq_of_lt (by simpa using value.toNat_lt), UInt64.ofNat_toNat]

/-- A byte array of fixed length, stored verbatim. -/
def bytes (length : ℕ) : FixedCodec (Vector UInt8 length) where
  size := length
  encode value := value.toList
  decode input := Vector.ofFn fun index : Fin length => input.getD index 0
  length_encode value := by simp
  decode_encode_append value rest := by
    apply Vector.ext
    intro index hindex
    simp [List.getD_eq_getElem?_getD, List.getElem?_append]

/-- Two fields laid out one after the other. -/
def pair (first : FixedCodec A) (second : FixedCodec B) :
    FixedCodec (A × B) where
  size := first.size + second.size
  encode value := first.encode value.1 ++ second.encode value.2
  decode input := (first.decode input, second.decode (input.drop first.size))
  length_encode value := by simp
  decode_encode_append value rest := by
    rw [List.append_assoc, first.drop_encode_append]
    exact Prod.ext (first.decode_encode_append _ _)
      (second.decode_encode_append _ _)

/-- Rename the values of a layout along a bijection. -/
def mapEquiv (codec : FixedCodec A) (equiv : B ≃ A) : FixedCodec B where
  size := codec.size
  encode value := codec.encode (equiv value)
  decode input := equiv.symm (codec.decode input)
  length_encode value := codec.length_encode (equiv value)
  decode_encode_append value rest := by
    rw [codec.decode_encode_append, equiv.symm_apply_apply]

/-- A 64-bit signed word, stored as its two's-complement bit pattern. -/
def signed64 : FixedCodec Int64 :=
  word64.mapEquiv
    { toFun := Int64.toUInt64
      invFun := UInt64.toInt64
      left_inv := fun value => by simp
      right_inv := fun value => by simp }

/-- The decoder looks at the first `size` bytes only. -/
def ReadsFront (codec : FixedCodec A) : Prop :=
  ∀ input, codec.decode (input.take codec.size) = codec.decode input

theorem readsFront_word32 : word32.ReadsFront := by
  intro input
  simp [word32, List.take_take]

theorem readsFront_word64 : word64.ReadsFront := by
  intro input
  simp [word64, List.take_take]

theorem readsFront_bytes (length : ℕ) : (bytes length).ReadsFront := by
  intro input
  apply Vector.ext
  intro index hindex
  simp [bytes, List.getD_eq_getElem?_getD]

theorem ReadsFront.pair {first : FixedCodec A} {second : FixedCodec B}
    (hfirst : first.ReadsFront) (hsecond : second.ReadsFront) :
    (first.pair second).ReadsFront := by
  intro input
  have hfront :
      first.decode (input.take (first.size + second.size)) =
        first.decode input := by
    rw [← hfirst, List.take_take, Nat.min_eq_left (Nat.le_add_right _ _), hfirst]
  have hback :
      second.decode ((input.take (first.size + second.size)).drop first.size) =
        second.decode (input.drop first.size) := by
    rw [List.drop_take, Nat.add_sub_cancel_left, hsecond]
  exact Prod.ext hfront hback

theorem ReadsFront.mapEquiv {codec : FixedCodec A} (hcodec : codec.ReadsFront)
    (equiv : B ≃ A) : (codec.mapEquiv equiv).ReadsFront :=
  fun input => congrArg equiv.symm (hcodec input)

end FixedCodec

end KernelScope.ByteCodec
