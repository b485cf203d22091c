import KernelScope.Library.Decimal

/-!
# JSON documents

A document is a tree of objects, arrays, numbers and strings.  Strings are byte
strings that need not be text; writing a document fails if one of them is not
valid UTF-8.
-/

namespace KernelScope.Documents

open KernelScope.Decimal (ascii)

/-- The bytes are the encoding of a sequence of characters. -/
def ValidUtf8 (bytes : List UInt8) : Prop :=
  ByteArray.IsValidUTF8 ⟨bytes.toArray⟩

instance decidableValidUtf8 (bytes : List UInt8) : Decidable (ValidUtf8 bytes) :=
  inferInstanceAs (Decidable (ByteArray.IsValidUTF8 _))

theorem validUtf8_ascii (text : String) : ValidUtf8 (ascii text) :=
  text.isValidUTF8

inductive Json where
  | string (bytes : List UInt8)
  | number (value : UInt64)
  | array (items : List Json)
  | object (members : List (String × Json))

/-- A string that is text. -/
def Json.text (text : String) : Json :=
  .string (ascii text)

mutual

/-- The string values of a document. -/
def Json.strings : Json → List (List UInt8)
  | .string bytes => [bytes]
  | .number _ => []
  | .array items => stringsOfItems items
  | .object members => stringsOfMembers members

def stringsOfItems : List Json → List (List UInt8)
  | [] => []
  | item :: items => item.strings ++ stringsOfItems items

def stringsOfMembers : List (String × Json) → List (List UInt8)
  | [] => []
  | (_, value) :: members => value.strings ++ stringsOfMembers members

end

/-- All strings of the document are valid. -/
def Json.Valid (document : Json) : Prop :=
  ∀ bytes ∈ document.strings, ValidUtf8 bytes

@[simp]
theorem valid_string (bytes : List UInt8) : (Json.string bytes).Valid ↔ ValidUtf8 bytes := by
  simp [Json.Valid, Json.strings]

@[simp]
theorem valid_number (value : UInt64) : (Json.number value).Valid := by
  simp [Json.Valid, Json.strings]

@[simp]
theorem valid_text (text : String) : (Json.text text).Valid :=
  (valid_string _).mpr (validUtf8_ascii text)

@[simp]
theorem valid_array (items : List Json) :
    (Json.array items).Valid ↔ ∀ item ∈ items, item.Valid := by
  unfold Json.Valid
  rw [Json.strings]
  induction items with
  | nil => simp [stringsOfItems]
  | cons item items ih =>
      rw [stringsOfItems, List.forall_mem_append, ih, List.forall_mem_cons]

theorem valid_array_map {α : Type*} (items : List α) (write : α → Json) :
    (Json.array (items.map write)).Valid ↔ ∀ item ∈ items, (write item).Valid := by
  rw [valid_array, List.forall_mem_map]

@[simp]
theorem valid_object (members : List (String × Json)) :
    (Json.object members).Valid ↔ ∀ member ∈ members, member.2.Valid := by
  unfold Json.Valid
  rw [Json.strings]
  induction members with
  | nil => simp [stringsOfMembers]
  | cons member members ih =>
      rw [stringsOfMembers, List.forall_mem_append, ih, List.forall_mem_cons]

/-! ## Writing -/

/-- A library that writes documents.  Writing answers none when it throws. -/
structure Writer where
  dump : ℕ → Json → Option (List UInt8)
  throws_iff : ∀ indent document,
    dump indent document = none ↔ ∃ bytes ∈ document.strings, ¬ValidUtf8 bytes

theorem Writer.isSome_dump_iff (writer : Writer) (indent : ℕ) (document : Json) :
    (writer.dump indent document).isSome ↔ document.Valid := by
  rw [← Option.ne_none_iff_isSome, ne_eq, writer.throws_iff, Json.Valid]
  simp only [not_exists, not_and, not_not]

/-- A writer that leaves the text empty. -/
def Writer.checking : Writer where
  dump _ document :=
    if ∀ bytes ∈ document.strings, ValidUtf8 bytes then some [] else none
  throws_iff _ document := by
    simp

end KernelScope.Documents
