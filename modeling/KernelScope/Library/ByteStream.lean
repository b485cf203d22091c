import Mathlib.Data.List.Basic
import Mathlib.Tactic.Common

/-!
# Byte streams

Sequential files as `stdio` shows them: a read takes a number of bytes off the
front or comes up short, a write appends bytes or stops after some of them.
The other sections are about streams made of chunks: where a cut falls in a
stream of equal-sized ones, and how a reader divides a stream when the chunks
form a prefix code.
-/

namespace KernelScope.ByteStream

/-- `fread` of `count` bytes: the bytes if all of them are there, and what is
left.  A short read uses the stream up. -/
def fread (count : ℕ) (stream : List UInt8) : Option (List UInt8) × List UInt8 :=
  if count ≤ stream.length then (some (stream.take count), stream.drop count)
  else (none, [])

/-- `fwrite` of all of `bytes`: what the stream holds afterwards, and whether
everything was written.  With a `limit` the device takes no more bytes than
that. -/
def fwrite (limit : Option ℕ) (bytes stream : List UInt8) : List UInt8 × Bool :=
  match limit with
  | none => (stream ++ bytes, true)
  | some limit => (stream ++ bytes.take limit, bytes.length ≤ limit)

@[simp]
theorem fwrite_none (bytes stream : List UInt8) :
    fwrite none bytes stream = (stream ++ bytes, true) := rfl

/-- A write is taken whole, or fails after a proper part of its bytes. -/
theorem fwrite_cases (limit : Option ℕ) (bytes stream : List UInt8) :
    fwrite limit bytes stream = (stream ++ bytes, true) ∨
      ∃ taken, limit = some taken ∧ taken < bytes.length ∧
        fwrite limit bytes stream = (stream ++ bytes.take taken, false) := by
  cases limit with
  | none => exact Or.inl rfl
  | some taken =>
      by_cases hwhole : bytes.length ≤ taken
      · left
        simp [fwrite, hwhole, List.take_of_length_le hwhole]
      · right
        exact ⟨taken, rfl, Nat.lt_of_not_le hwhole, by simp [fwrite, hwhole]⟩

theorem fread_append {count : ℕ} {bytes : List UInt8} (rest : List UInt8)
    (hcount : bytes.length = count) :
    fread count (bytes ++ rest) = (some bytes, rest) := by
  subst hcount
  simp [fread]

theorem fread_short {count : ℕ} {stream : List UInt8}
    (hshort : stream.length < count) : fread count stream = (none, []) :=
  if_neg (Nat.not_le.mpr hshort)

/-- A read that succeeds shortens the stream by what it returns. -/
theorem length_of_fread {count : ℕ} {stream bytes rest : List UInt8}
    (hread : fread count stream = (some bytes, rest)) :
    bytes.length = count ∧ rest.length + count = stream.length := by
  unfold fread at hread
  split at hread
  next hcount =>
    obtain ⟨hbytes, rfl⟩ := Prod.mk.inj hread
    cases hbytes
    constructor
    · exact List.length_take_of_le hcount
    · rw [List.length_drop, Nat.sub_add_cancel hcount]
  next => cases hread

/-! ## Chunked streams -/

section Chunks

variable {A : Type*} (chunk : A → List UInt8)

/-- What a cut leaves of the chunk it falls into. -/
def Torn (bytes : List UInt8) : Prop :=
  bytes = [] ∨ ∃ value, bytes <+: chunk value ∧ bytes.length < (chunk value).length

/-- A cut of a stream of equal chunks keeps the whole chunks before it and a
torn one. -/
theorem take_flatMap_chunk {size : ℕ} (hpos : 0 < size)
    (hsize : ∀ value, (chunk value).length = size) (values : List A) (cut : ℕ) :
    ∃ torn, Torn chunk torn ∧
      (values.flatMap chunk).take cut =
        (values.take (cut / size)).flatMap chunk ++ torn := by
  induction values generalizing cut with
  | nil => exact ⟨[], Or.inl rfl, by simp⟩
  | cons value values ih =>
      by_cases hcut : cut < size
      · apply Exists.intro ((chunk value).take cut)
        constructor
        · right
          apply Exists.intro value
          exact ⟨List.take_prefix _ _, by rw [List.length_take, hsize]; omega⟩
        · have hle : cut ≤ (chunk value).length := by
            rw [hsize]
            exact Nat.le_of_lt hcut
          rw [Nat.div_eq_of_lt hcut, List.flatMap_cons,
            List.take_append_of_le_length hle]
          rfl
      · obtain ⟨torn, htorn, htake⟩ := ih (cut - size)
        apply Exists.intro torn
        apply And.intro htorn
        have hle : size ≤ cut := Nat.le_of_not_lt hcut
        have hdiv : cut / size = (cut - size) / size + 1 :=
          Nat.div_eq_sub_div hpos hle
        calc
          (List.flatMap chunk (value :: values)).take cut
              = chunk value ++ (values.flatMap chunk).take (cut - size) := by
                rw [List.flatMap_cons, List.take_append, hsize,
                  List.take_of_length_le ((hsize value).symm ▸ hle)]
          _ = chunk value ++
                ((values.take ((cut - size) / size)).flatMap chunk ++ torn) := by
                rw [htake]
          _ = (List.take (cut / size) (value :: values)).flatMap chunk ++ torn := by
                rw [hdiv, List.take_succ_cons, List.flatMap_cons,
                  List.append_assoc]

/-! ## Prefix codes -/

/-- No chunk is the beginning of another one. -/
def PrefixFree : Prop :=
  ∀ ⦃left right : A⦄, chunk left <+: chunk right → left = right

/-- The greedy division of a stream: whole chunks as long as there is one, and
the tail after them. -/
structure Splits (stream : List UInt8) (values : List A) (tail : List UInt8) :
    Prop where
  stream_eq : stream = values.flatMap chunk ++ tail
  none_ahead : ∀ value, ¬chunk value <+: tail

variable {chunk}

/-- What follows two chunks of a prefix code cannot blur which chunks they
are. -/
theorem PrefixFree.eq_of_append_eq (hfree : PrefixFree chunk) {left right : A}
    {after after' : List UInt8}
    (heq : chunk left ++ after = chunk right ++ after') : left = right := by
  have hleft : chunk left <+: chunk right ++ after' :=
    heq ▸ List.prefix_append _ _
  rcases List.prefix_or_prefix_of_prefix hleft (List.prefix_append _ _) with
    hbegins | hbegins
  · exact hfree hbegins
  · exact (hfree hbegins).symm

/-- A torn chunk starts with no whole one. -/
theorem Torn.none_ahead (hfree : PrefixFree chunk)
    (hnonempty : ∀ value, 0 < (chunk value).length) {torn : List UInt8}
    (htorn : Torn chunk torn) (value : A) : ¬chunk value <+: torn := by
  intro hahead
  rcases htorn with rfl | ⟨whole, hbegins, hlength⟩
  · exact absurd hahead.length_le (Nat.not_le.mpr (hnonempty value))
  · obtain rfl := hfree (hahead.trans hbegins)
    exact absurd hahead.length_le (Nat.not_le.mpr hlength)

theorem exists_splits (hnonempty : ∀ value, 0 < (chunk value).length)
    (stream : List UInt8) : ∃ values tail, Splits chunk stream values tail := by
  by_cases hahead : ∃ value, chunk value <+: stream
  · obtain ⟨value, after, rfl⟩ := hahead
    have hpos := hnonempty value
    obtain ⟨values, tail, heq, hnone⟩ := exists_splits hnonempty after
    exact ⟨value :: values, tail,
      by rw [List.flatMap_cons, List.append_assoc, ← heq], hnone⟩
  · exact ⟨[], stream, rfl, fun value hvalue => hahead ⟨value, hvalue⟩⟩
  termination_by stream.length
  decreasing_by
    rename_i heq
    rw [← heq, List.length_append]
    omega

theorem Splits.unique (hfree : PrefixFree chunk) {stream : List UInt8}
    {values values' : List A} {tail tail' : List UInt8}
    (hsplits : Splits chunk stream values tail)
    (hsplits' : Splits chunk stream values' tail') :
    values = values' ∧ tail = tail' := by
  have heq : values.flatMap chunk ++ tail = values'.flatMap chunk ++ tail' :=
    hsplits.stream_eq.symm.trans hsplits'.stream_eq
  have hnone := hsplits.none_ahead
  have hnone' := hsplits'.none_ahead
  clear hsplits hsplits'
  induction values generalizing values' with
  | nil =>
      cases values' with
      | nil => exact ⟨rfl, heq⟩
      | cons value' values' =>
          refine absurd ?_ (hnone value')
          rw [List.flatMap_nil, List.nil_append, List.flatMap_cons,
            List.append_assoc] at heq
          exact heq ▸ List.prefix_append _ _
  | cons value values ih =>
      cases values' with
      | nil =>
          refine absurd ?_ (hnone' value)
          rw [List.flatMap_nil, List.nil_append, List.flatMap_cons,
            List.append_assoc] at heq
          exact heq.symm ▸ List.prefix_append _ _
      | cons value' values' =>
          rw [List.flatMap_cons, List.flatMap_cons, List.append_assoc,
            List.append_assoc] at heq
          obtain rfl := hfree.eq_of_append_eq heq
          obtain ⟨rfl, htail⟩ := ih (List.append_cancel_left heq)
          exact ⟨rfl, htail⟩

end Chunks

end KernelScope.ByteStream
