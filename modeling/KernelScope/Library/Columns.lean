import KernelScope.Library.Numerals
import Mathlib.Data.List.Basic

/-!
# Printed columns

Tables and logs are printed with `printf`: fields are padded with blanks to the
width of their column and separated by a blank.  A field that is longer than its
column shifts the rest of the line, so a reader goes by the words of a line, or takes
a column off the front with as much padding as the word it finds there leaves over.
-/

namespace KernelScope.Columns

open KernelScope.Decimal
open KernelScope.Numerals

/-- A field that can be told from what surrounds it. -/
structure IsWord (word : List UInt8) : Prop where
  nonempty : word ≠ []
  noBlank : (32 : UInt8) ∉ word
  oneLine : (10 : UInt8) ∉ word

theorem IsWord.append {front back : List UInt8} (hfront : IsWord front)
    (hblank : (32 : UInt8) ∉ back) (hline : (10 : UInt8) ∉ back) : IsWord (front ++ back) where
  nonempty := List.append_ne_nil_of_left_ne_nil hfront.nonempty back
  noBlank hmem := (List.mem_append.mp hmem).elim hfront.noBlank hblank
  oneLine hmem := (List.mem_append.mp hmem).elim hfront.oneLine hline

theorem isWord_of_isNumeric {word : List UInt8} (hnonempty : word ≠ [])
    (hnumeric : ∀ c ∈ word, IsNumeric c) : IsWord word where
  nonempty := hnonempty
  noBlank hmem := absurd (hnumeric 32 hmem) (by decide)
  oneLine hmem := absurd (hnumeric 10 hmem) (by decide)

theorem isWord_decimal (n : ℕ) : IsWord (decimal n) := by
  apply isWord_of_isNumeric _ isNumeric_decimal
  rw [decimal_eq_numeral]
  exact numeral_ne_nil (by decide) (by decide) n

theorem isWord_fixed (places num den : ℕ) : IsWord (fixed places num den) := by
  apply isWord_of_isNumeric _ isNumeric_fixed
  apply List.append_ne_nil_of_left_ne_nil
  exact List.append_ne_nil_of_left_ne_nil (isWord_decimal _).nonempty _

/-! ## The words of a line -/

def words (line : List UInt8) : List (List UInt8) :=
  (line.splitOn 32).filter (· ≠ [])

theorem words_append_blank (left right : List UInt8) :
    words (left ++ 32 :: right) = words left ++ words right := by
  rw [words, List.splitOn_append_cons_self, List.filter_append, ← words, ← words]

theorem words_cons_blank (line : List UInt8) : words (32 :: line) = words line :=
  words_append_blank [] line

theorem words_replicate (count : ℕ) : words (List.replicate count 32) = [] := by
  induction count with
  | zero => rfl
  | succ count ih => rw [List.replicate_succ, words_cons_blank, ih]

theorem words_word {word : List UInt8} (hword : IsWord word) : words word = [word] := by
  rw [words, List.splitOn_eq_singleton hword.noBlank]
  simp [hword.nonempty]

/-- A field on the left of its column. -/
theorem words_rightpad {word : List UInt8} (hword : IsWord word) (width : ℕ) :
    words (word.rightpad width 32) = [word] := by
  rw [List.rightpad]
  cases width - word.length with
  | zero => rw [List.replicate_zero, List.append_nil, words_word hword]
  | succ count =>
      rw [List.replicate_succ, words_append_blank, words_word hword, words_replicate]
      rfl

/-- A field on the right of its column. -/
theorem words_leftpad {word : List UInt8} (hword : IsWord word) (width : ℕ) :
    words (word.leftpad width 32) = [word] := by
  rw [List.leftpad]
  induction width - word.length with
  | zero => exact words_word hword
  | succ count ih => rw [List.replicate_succ, List.cons_append, words_cons_blank, ih]

theorem notMem_rightpad {c : UInt8} {word : List UInt8} (hword : c ∉ word) (hblank : c ≠ 32)
    (width : ℕ) : c ∉ word.rightpad width 32 := by
  rw [List.rightpad, List.mem_append, not_or]
  exact ⟨hword, fun hmem => hblank (List.eq_of_mem_replicate hmem)⟩

theorem notMem_leftpad {c : UInt8} {word : List UInt8} (hword : c ∉ word) (hblank : c ≠ 32)
    (width : ℕ) : c ∉ word.leftpad width 32 := by
  rw [List.leftpad, List.mem_append, not_or]
  exact ⟨fun hmem => hblank (List.eq_of_mem_replicate hmem), hword⟩

/-! ## Taking columns off the front -/

/-- A word and the padding behind it. -/
def takeColumn (width : ℕ) (text : List UInt8) : List UInt8 × List UInt8 :=
  let word := text.takeWhile fun c => c ≠ 32 ∧ c ≠ 10
  (word, text.drop (max width word.length))

/-- What can stand behind a column: nothing, a blank or the end of the line. -/
def Ends (rest : List UInt8) : Prop :=
  ∀ c, rest.head? = some c → c = 32 ∨ c = 10

theorem ends_cons {c : UInt8} (hc : c = 32 ∨ c = 10) (rest : List UInt8) : Ends (c :: rest) := by
  intro other hother
  obtain rfl := Option.some.inj hother
  exact hc

theorem takeWhile_word {word rest : List UInt8} (hword : IsWord word) (hrest : Ends rest) :
    (word ++ rest).takeWhile (fun c => c ≠ 32 ∧ c ≠ 10) = word := by
  have hinside : ∀ c ∈ word, decide (c ≠ 32 ∧ c ≠ 10) = true := by
    intro c hc
    exact decide_eq_true ⟨ne_of_mem_of_not_mem hc hword.noBlank,
      ne_of_mem_of_not_mem hc hword.oneLine⟩
  rw [List.takeWhile_append_of_pos hinside]
  cases rest with
  | nil => simp
  | cons c rest =>
      rw [List.takeWhile_cons_of_neg, List.append_nil]
      rcases hrest c rfl with rfl | rfl <;> decide

theorem takeColumn_rightpad {word rest : List UInt8} (hword : IsWord word) (width : ℕ)
    (hrest : Ends rest) : takeColumn width (word.rightpad width 32 ++ rest) = (word, rest) := by
  have hpadded : Ends (List.replicate (width - word.length) 32 ++ rest) := by
    cases width - word.length with
    | zero => exact hrest
    | succ count => exact ends_cons (.inl rfl) _
  have hlength : (word.rightpad width 32).length = max width word.length := by
    rw [List.rightpad, List.length_append, List.length_replicate]
    omega
  have htake : (word.rightpad width 32 ++ rest).takeWhile (fun c => c ≠ 32 ∧ c ≠ 10) = word := by
    rw [List.rightpad, List.append_assoc]
    exact takeWhile_word hword hpadded
  simp only [takeColumn, htake]
  rw [← hlength, List.drop_left]

theorem takeColumn_word {word rest : List UInt8} (hword : IsWord word) (hrest : Ends rest) :
    takeColumn 0 (word ++ rest) = (word, rest) := by
  have htaken := takeColumn_rightpad hword 0 hrest
  rwa [List.rightpad, Nat.zero_sub, List.replicate_zero, List.append_nil] at htaken

/-- A text without the blanks at its end. -/
def stripRight (text : List UInt8) : List UInt8 :=
  (text.reverse.dropWhile (· = 32)).reverse

theorem stripRight_rightpad (width : ℕ) (text : List UInt8) :
    stripRight (text.rightpad width 32) = stripRight text := by
  have hblank : ∀ c ∈ List.replicate (width - text.length) (32 : UInt8),
      decide (c = 32) = true := fun c hc => decide_eq_true (List.eq_of_mem_replicate hc)
  rw [stripRight, List.rightpad, List.reverse_append, List.reverse_replicate,
    List.dropWhile_append_of_pos hblank, stripRight]

/-- Take a fixed text off the front. -/
def takeText (expected text : List UInt8) : Option (List UInt8) :=
  if text.take expected.length = expected then some (text.drop expected.length) else none

theorem takeText_append (expected rest : List UInt8) :
    takeText expected (expected ++ rest) = some rest := by
  rw [takeText, List.take_left, if_pos rfl, List.drop_left]

/-- A text of the same length that is another one. -/
theorem takeText_append_ne {expected other : List UInt8} (hlength : other.length = expected.length)
    (hne : other ≠ expected) (rest : List UInt8) : takeText expected (other ++ rest) = none := by
  rw [takeText, ← hlength, List.take_left, if_neg hne]

theorem takeText_cons_ne {c first : UInt8} (hne : c ≠ first) (expected rest : List UInt8) :
    takeText (first :: expected) (c :: rest) = none := by
  rw [takeText, List.length_cons, List.take_succ_cons, if_neg]
  intro heq
  exact hne (List.cons.inj heq).1

/-! ## Repeated reading -/

section Repeated

variable {A B : Type*}

/-- Lines that were printed one by one are read one by one. -/
theorem mapM_map_eq_some {print : A → List UInt8} {read : List UInt8 → Option B} {shown : A → B}
    (hread : ∀ item, read (print item) = some (shown item)) (items : List A) :
    (items.map print).mapM read = some (items.map shown) := by
  induction items with
  | nil => rfl
  | cons item items ih =>
      rw [List.map_cons, List.mapM_cons, hread, ih]
      rfl

/-- Read items off the front until nothing is left, but no more than `fuel`. -/
def readMany (read : List UInt8 → Option (B × List UInt8)) :
    ℕ → List UInt8 → Option (List B)
  | _, [] => some []
  | 0, _ :: _ => none
  | fuel + 1, c :: text => do
      let (item, rest) ← read (c :: text)
      let items ← readMany read fuel rest
      some (item :: items)

/-- Read a whole text; no item is empty. -/
def readAll (read : List UInt8 → Option (B × List UInt8)) (text : List UInt8) :
    Option (List B) :=
  readMany read text.length text

variable {print : A → List UInt8} {read : List UInt8 → Option (B × List UInt8)} {shown : A → B}

theorem readMany_flatMap
    (hread : ∀ item rest, read (print item ++ rest) = some (shown item, rest))
    (hprint : ∀ item, print item ≠ []) {items : List A} {fuel : ℕ}
    (hfuel : items.length ≤ fuel) :
    readMany read fuel (items.flatMap print) = some (items.map shown) := by
  induction items generalizing fuel with
  | nil => simp [readMany]
  | cons item items ih =>
      obtain ⟨c, rest, hitem⟩ := List.exists_cons_of_ne_nil (hprint item)
      obtain ⟨fuel, rfl⟩ : ∃ less, fuel = less + 1 :=
        Nat.exists_eq_add_one.mpr (Nat.lt_of_lt_of_le (Nat.succ_pos _) hfuel)
      have hfirst := hread item (items.flatMap print)
      rw [List.flatMap_cons]
      rw [hitem, List.cons_append] at hfirst ⊢
      simp only [readMany, hfirst, ih (Nat.le_of_succ_le_succ hfuel), Option.bind_eq_bind,
        Option.bind_some, List.map_cons]

/-- A text that was printed item by item is read item by item. -/
theorem readAll_flatMap
    (hread : ∀ item rest, read (print item ++ rest) = some (shown item, rest))
    (hprint : ∀ item, print item ≠ []) (items : List A) :
    readAll read (items.flatMap print) = some (items.map shown) := by
  apply readMany_flatMap hread hprint
  induction items with
  | nil => exact Nat.le_refl 0
  | cons item items ih =>
      have hpos := List.length_pos_iff.mpr (hprint item)
      rw [List.flatMap_cons, List.length_append, List.length_cons]
      omega

end Repeated

end KernelScope.Columns
