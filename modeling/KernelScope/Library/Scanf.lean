import KernelScope.Library.Numerals
import Mathlib.Data.List.DropRight
import Mathlib.Data.List.TakeWhile

/-!
# Formatted input

`sscanf` for formats of white space, ordinary characters, unsigned numbers and
words.  The input is a string without NUL.  A directive that does not match ends
the scan; what was converted before it is kept.
-/

namespace KernelScope.Scanf

open KernelScope.Numerals

/-- `isspace` in the C locale. -/
def isSpace (c : UInt8) : Bool :=
  c = 32 ∨ 9 ≤ c ∧ c ≤ 13

inductive Directive where
  /-- white space in the format -/
  | blank
  /-- an ordinary character -/
  | literal (c : UInt8)
  /-- `%x` or `%u`, stored in an integer of `bits` bits -/
  | unsigned (base bits : ℕ)
  /-- `%s` with a width -/
  | word (width : ℕ)

/-- A converted input item. -/
inductive Item where
  | number (n : ℕ)
  | text (bytes : List UInt8)
  deriving DecidableEq

def skipSpace (input : List UInt8) : List UInt8 :=
  input.dropWhile isSpace

/-- An optional sign: whether it is a minus, and what follows. -/
def takeSign : List UInt8 → Bool × List UInt8
  | [] => (false, [])
  | c :: rest =>
      if c = 43 then (false, rest)
      else if c = 45 then (true, rest)
      else (false, c :: rest)

/-- The optional `0x` of a hexadecimal number. -/
def dropHexMark (base : ℕ) : List UInt8 → List UInt8
  | 48 :: c :: rest => if base = 16 ∧ (c = 120 ∨ c = 88) then rest else 48 :: c :: rest
  | input => input

/-- `strtoul` with a `long` of 64 bits: a number out of range becomes the
greatest one, and a minus negates. -/
def strtoul (negative : Bool) (value : ℕ) : ℕ :=
  if 2 ^ 64 ≤ value then 2 ^ 64 - 1
  else if negative then (2 ^ 64 - value) % 2 ^ 64
  else value

/-- One unsigned number, and what follows it. -/
def scanUnsigned (base : ℕ) (input : List UInt8) : Option (ℕ × List UInt8) :=
  let (negative, unsigned) := takeSign input
  let unmarked := dropHexMark base unsigned
  let digits := unmarked.takeWhile (isDigit base)
  if digits = [] then none
  else some (strtoul negative (valueOf base digits), unmarked.dropWhile (isDigit base))

/-- The converted items, up to the first directive that fails. -/
def scan : List Directive → List UInt8 → List Item
  | [], _ => []
  | .blank :: format, input => scan format (skipSpace input)
  | .literal _ :: _, [] => []
  | .literal c :: format, next :: rest => if next = c then scan format rest else []
  | .unsigned base bits :: format, input =>
      match scanUnsigned base (skipSpace input) with
      | none => []
      | some (value, rest) => .number (value % 2 ^ bits) :: scan format rest
  | .word width :: format, input =>
      let start := skipSpace input
      let text := (start.takeWhile fun c => !isSpace c).take width
      if text = [] then []
      else .text text :: scan format (start.drop text.length)

/-! ## White space -/

theorem digitValue_of_isSpace {c : UInt8} (hc : isSpace c = true) :
    digitValue c = none := by
  have hrange : c.toNat = 32 ∨ 9 ≤ c.toNat ∧ c.toNat ≤ 13 := by
    simpa [isSpace, UInt8.le_iff_toNat_le, ← UInt8.toNat_inj] using hc
  simp only [digitValue, UInt8.le_iff_toNat_le, UInt8.reduceToNat]
  rw [if_neg (by omega), if_neg (by omega), if_neg (by omega)]

theorem isDigit_ne {base : ℕ} {c other : UInt8} (hc : isDigit base c = true)
    (hother : digitValue other = none) : c ≠ other := by
  rintro rfl
  simp [isDigit, hother] at hc

theorem isSpace_eq_false_of_isDigit {base : ℕ} {c : UInt8}
    (hc : isDigit base c = true) : isSpace c = false := by
  cases hspace : isSpace c with
  | false => rfl
  | true => exact absurd rfl (isDigit_ne hc (digitValue_of_isSpace hspace))

theorem skipSpace_cons {c : UInt8} (hc : isSpace c = false) (rest : List UInt8) :
    skipSpace (c :: rest) = c :: rest := by
  rw [skipSpace, List.dropWhile_cons_of_neg (by simp [hc])]

theorem skipSpace_replicate_append (blanks : ℕ) (rest : List UInt8) :
    skipSpace (List.replicate blanks 32 ++ rest) = skipSpace rest := by
  rw [skipSpace, List.dropWhile_append_of_pos, skipSpace]
  intro c hc
  rw [List.eq_of_mem_replicate hc]
  rfl

/-! ## Numbers -/

/-- What follows cannot be taken for a part of a number. -/
def Stops (base : ℕ) (rest : List UInt8) : Prop :=
  ∀ c, rest.head? = some c → isDigit base c = false ∧ c ≠ 120 ∧ c ≠ 88

theorem stops_cons {base : ℕ} {c : UInt8} (hc : digitValue c = none) (hlow : c ≠ 120)
    (hhigh : c ≠ 88) (rest : List UInt8) : Stops base (c :: rest) := by
  intro other hother
  obtain rfl := Option.some.inj hother
  exact ⟨by simp [isDigit, hc], hlow, hhigh⟩

theorem stops_nil {base : ℕ} : Stops base [] := by
  intro c hc
  cases hc

section Digits

variable {base n : ℕ} {digits rest : List UInt8}

theorem isDigit_of_readNumeral (hread : readNumeral base digits = some n) :
    ∀ c ∈ digits, isDigit base c = true :=
  List.all_eq_true.mp (readNumeral_eq_some_iff.mp hread).1.2

/-- A number begins with a digit. -/
theorem exists_cons_of_readNumeral (hread : readNumeral base digits = some n) :
    ∃ c tail, digits = c :: tail ∧ isDigit base c = true := by
  obtain ⟨c, tail, rfl⟩ :=
    List.exists_cons_of_ne_nil (readNumeral_eq_some_iff.mp hread).1.1
  exact ⟨c, tail, rfl, isDigit_of_readNumeral hread c List.mem_cons_self⟩

theorem notMem_of_readNumeral (hread : readNumeral base digits = some n) {c : UInt8}
    (hc : digitValue c = none) : c ∉ digits := fun hmem =>
  isDigit_ne (isDigit_of_readNumeral hread c hmem) hc rfl

theorem skipSpace_numeral (hread : readNumeral base digits = some n) :
    skipSpace (digits ++ rest) = digits ++ rest := by
  obtain ⟨c, tail, rfl, hc⟩ := exists_cons_of_readNumeral hread
  exact skipSpace_cons (isSpace_eq_false_of_isDigit hc) _

theorem takeSign_numeral (hread : readNumeral base digits = some n) :
    takeSign (digits ++ rest) = (false, digits ++ rest) := by
  obtain ⟨c, tail, rfl, hc⟩ := exists_cons_of_readNumeral hread
  have hplus : c ≠ 43 := isDigit_ne hc (by decide)
  have hminus : c ≠ 45 := isDigit_ne hc (by decide)
  simp [takeSign, hplus, hminus]

/-- A row of digits is not marked as hexadecimal. -/
theorem dropHexMark_numeral (hread : readNumeral base digits = some n)
    (hrest : Stops base rest) :
    dropHexMark base (digits ++ rest) = digits ++ rest := by
  obtain ⟨c, tail, rfl, -⟩ := exists_cons_of_readNumeral hread
  by_cases hzero : c = 48
  · subst hzero
    have hsecond : ∀ next more, tail ++ rest = next :: more → next ≠ 120 ∧ next ≠ 88 := by
      intro next more htail
      cases tail with
      | nil => exact (hrest next (by rw [← List.nil_append rest, htail]; rfl)).2
      | cons second tail =>
          rw [List.cons_append, List.cons.injEq] at htail
          have hdigit : isDigit base second = true :=
            isDigit_of_readNumeral hread second (by simp)
          rw [← htail.1]
          exact ⟨isDigit_ne hdigit (by decide), isDigit_ne hdigit (by decide)⟩
    rw [List.cons_append]
    cases htail : tail ++ rest with
    | nil => rfl
    | cons next more =>
        obtain ⟨hlow, hhigh⟩ := hsecond next more htail
        simp [dropHexMark, hlow, hhigh]
  · rw [List.cons_append, dropHexMark]
    rintro next more heq
    exact absurd (List.cons.inj heq).1 hzero

theorem takeWhile_numeral (hread : readNumeral base digits = some n)
    (hrest : Stops base rest) :
    (digits ++ rest).takeWhile (isDigit base) = digits ∧
      (digits ++ rest).dropWhile (isDigit base) = rest := by
  have hpos := isDigit_of_readNumeral hread
  rw [List.takeWhile_append_of_pos hpos, List.dropWhile_append_of_pos hpos]
  cases rest with
  | nil => simp
  | cons c rest =>
      have hc := (hrest c rfl).1
      rw [List.takeWhile_cons_of_neg (by simp [hc]), List.dropWhile_cons_of_neg (by simp [hc]),
        List.append_nil]
      exact ⟨rfl, rfl⟩

/-- A number in front of something else is read whole. -/
theorem scanUnsigned_numeral (hread : readNumeral base digits = some n)
    (hrest : Stops base rest) (hlong : n < 2 ^ 64) :
    scanUnsigned base (digits ++ rest) = some (n, rest) := by
  obtain ⟨htake, hdrop⟩ := takeWhile_numeral hread hrest
  obtain ⟨⟨hne, -⟩, hvalue⟩ := readNumeral_eq_some_iff.mp hread
  simp only [scanUnsigned, takeSign_numeral hread, dropHexMark_numeral hread hrest,
    htake, hdrop, if_neg hne, hvalue, strtoul, if_neg (Nat.not_le.mpr hlong),
    Bool.false_eq_true, if_false]

end Digits

/-! ## Directives -/

theorem scan_blank {rest : List UInt8} (hrest : skipSpace rest = rest)
    (format : List Directive) :
    scan (.blank :: format) (32 :: rest) = scan format rest := by
  have hskip : skipSpace (32 :: rest) = skipSpace rest := skipSpace_replicate_append 1 rest
  rw [scan, hskip, hrest]

theorem scan_literal (c : UInt8) (format : List Directive) (rest : List UInt8) :
    scan (.literal c :: format) (c :: rest) = scan format rest := by
  rw [scan, if_pos rfl]

theorem scan_unsigned {base n bits : ℕ} {digits rest : List UInt8}
    (hread : readNumeral base digits = some n) (hrest : Stops base rest)
    (hlong : n < 2 ^ 64) (hbits : n < 2 ^ bits) (format : List Directive) :
    scan (.unsigned base bits :: format) (digits ++ rest) =
      .number n :: scan format rest := by
  rw [scan, skipSpace_numeral hread, scanUnsigned_numeral hread hrest hlong]
  simp only [Nat.mod_eq_of_lt hbits]

theorem skipSpace_text {text : List UInt8} (htext : ∀ c ∈ text, isSpace c = false)
    (hne : text ≠ []) (rest : List UInt8) : skipSpace (text ++ rest) = text ++ rest := by
  obtain ⟨c, tail, rfl⟩ := List.exists_cons_of_ne_nil hne
  exact skipSpace_cons (htext c List.mem_cons_self) _

/-- A word as long as its width ends there. -/
theorem scan_word {text : List UInt8} (htext : ∀ c ∈ text, isSpace c = false)
    (hne : text ≠ []) (format : List Directive) (rest : List UInt8) :
    scan (.word text.length :: format) (text ++ rest) = .text text :: scan format rest := by
  have hskip := skipSpace_text htext hne rest
  have htake : ((text ++ rest).takeWhile fun c => !isSpace c).take text.length = text := by
    rw [List.takeWhile_append_of_pos fun c hc => by simp [htext c hc],
      List.take_left]
  simp only [scan, hskip, htake, if_neg hne, List.drop_left]

/-- The first word of a text. -/
def firstWord (text : List UInt8) : List UInt8 :=
  (skipSpace text).takeWhile fun c => !isSpace c

theorem isSpace_of_mem_firstWord {text : List UInt8} {c : UInt8}
    (hc : c ∈ firstWord text) : isSpace c = false := by
  simpa using List.mem_takeWhile_imp hc

theorem length_firstWord_le (text : List UInt8) : (firstWord text).length ≤ text.length :=
  ((List.takeWhile_sublist _).trans (List.dropWhile_sublist _)).length_le

theorem firstWord_eq_self {text : List UInt8} (htext : ∀ c ∈ text, isSpace c = false) :
    firstWord text = text := by
  cases text with
  | nil => rfl
  | cons c text =>
      rw [firstWord, skipSpace_cons (htext c List.mem_cons_self),
        List.takeWhile_eq_self_iff]
      intro other hother
      simp [htext other hother]

/-- The last word of a format, when the width is enough. -/
theorem scan_last_word {width : ℕ} {text : List UInt8} (hwidth : text.length ≤ width)
    (blanks : ℕ) :
    scan [.blank, .word width] (List.replicate blanks 32 ++ text) =
      if firstWord text = [] then [] else [.text (firstWord text)] := by
  have hskip : skipSpace (skipSpace (List.replicate blanks 32 ++ text)) = skipSpace text := by
    rw [skipSpace_replicate_append]
    exact List.dropWhile_idempotent _ _
  have htake : (firstWord text).take width = firstWord text :=
    List.take_of_length_le ((length_firstWord_le text).trans hwidth)
  rw [firstWord] at htake ⊢
  simp only [scan, hskip, htake]

end KernelScope.Scanf
