import KernelScope.Library.Decimal
import Mathlib.Data.List.Nodup

/-!
# The text exposition format

A document is a sequence of lines.  A line that begins with a number sign is a
comment; every other line is a sample: a metric name, labels in braces and,
after a space, a value.  A label value stands in quotes, with backslash, quote
and newline escaped.  The reader below undoes the writer on every document
whose names and values keep clear of the characters that end them.
-/

namespace KernelScope.Exposition

open KernelScope.Decimal

def newline : UInt8 := 10
def space : UInt8 := 32
def quote : UInt8 := 34
def numberSign : UInt8 := 35
def comma : UInt8 := 44
def equals : UInt8 := 61
def backslash : UInt8 := 92
def letterN : UInt8 := 110
def openBrace : UInt8 := 123
def closeBrace : UInt8 := 125

/-! ## Lines -/

/-- The lines of a text; what follows the last newline is not one. -/
def lines (text : List UInt8) : List (List UInt8) :=
  (text.splitOn newline).dropLast

def terminate (line : List UInt8) : List UInt8 :=
  line ++ [newline]

theorem splitOn_terminate_append {line : List UInt8} (hline : newline ∉ line)
    (text : List UInt8) :
    (terminate line ++ text).splitOn newline = line :: text.splitOn newline := by
  rw [terminate, List.append_assoc, List.singleton_append]
  apply List.splitOnP_append_cons_of_forall_mem
  · intro c hc
    rw [beq_eq_false_iff_ne]
    rintro rfl
    exact hline hc
  · exact beq_self_eq_true _

theorem lines_terminate_append {line : List UInt8} (hline : newline ∉ line)
    (text : List UInt8) : lines (terminate line ++ text) = line :: lines text := by
  rw [lines, splitOn_terminate_append hline,
    List.dropLast_cons_of_ne_nil (List.splitOn_ne_nil _ _), lines]

/-- Behind the last newline nothing is left. -/
theorem splitOn_flatMap_terminate {document : List (List UInt8)}
    (hdocument : ∀ line ∈ document, newline ∉ line) :
    (document.flatMap terminate).splitOn newline = document ++ [[]] := by
  induction document with
  | nil => exact List.splitOn_nil newline
  | cons line document ih =>
      rw [List.forall_mem_cons] at hdocument
      rw [List.flatMap_cons, splitOn_terminate_append hdocument.1, ih hdocument.2,
        List.cons_append]

theorem lines_flatMap_terminate {document : List (List UInt8)}
    (hdocument : ∀ line ∈ document, newline ∉ line) :
    lines (document.flatMap terminate) = document := by
  rw [lines, splitOn_flatMap_terminate hdocument, List.dropLast_concat]

/-- A text put together from terminated lines is divided where the pieces
meet. -/
theorem lines_flatten {pieces : List (List UInt8)}
    (hpieces : ∀ piece ∈ pieces, ∃ line, newline ∉ line ∧ piece = terminate line) :
    lines pieces.flatten = pieces.map List.dropLast := by
  induction pieces with
  | nil => rfl
  | cons piece pieces ih =>
      rw [List.forall_mem_cons] at hpieces
      obtain ⟨⟨line, hline, rfl⟩, hrest⟩ := hpieces
      rw [List.flatten_cons, lines_terminate_append hline, ih hrest, List.map_cons,
        terminate, List.dropLast_concat]

/-! ## Label values -/

def escapeByte (c : UInt8) : List UInt8 :=
  if c = backslash then [backslash, backslash]
  else if c = quote then [backslash, quote]
  else if c = newline then [backslash, letterN]
  else [c]

def escape (value : List UInt8) : List UInt8 :=
  value.flatMap escapeByte

/-- The byte that is written as a backslash and `c`. -/
def unescapeByte (c : UInt8) : Option UInt8 :=
  if c = backslash then some backslash
  else if c = quote then some quote
  else if c = letterN then some newline
  else none

/-- Read up to the closing quote: the value and what follows.  The flag says
whether a backslash precedes. -/
def readQuoted : Bool → List UInt8 → Option (List UInt8 × List UInt8)
  | _, [] => none
  | true, c :: text => do
      let byte ← unescapeByte c
      let (value, rest) ← readQuoted false text
      some (byte :: value, rest)
  | false, c :: text =>
      if c = quote then some ([], text)
      else if c = backslash then readQuoted true text
      else do
        let (value, rest) ← readQuoted false text
        some (c :: value, rest)

theorem readQuoted_escapeByte (c : UInt8) (text : List UInt8) :
    readQuoted false (escapeByte c ++ text) =
      (readQuoted false text).bind fun (value, rest) => some (c :: value, rest) := by
  unfold escapeByte
  split_ifs with hbackslash hquote hnewline
  · subst hbackslash
    rfl
  · subst hquote
    rfl
  · subst hnewline
    rfl
  · rw [List.singleton_append, readQuoted, if_neg hquote, if_neg hbackslash]
    rfl

theorem readQuoted_escape (value rest : List UInt8) :
    readQuoted false (escape value ++ quote :: rest) = some (value, rest) := by
  induction value with
  | nil => rfl
  | cons c value ih =>
      rw [escape, List.flatMap_cons, List.append_assoc, readQuoted_escapeByte,
        ← escape, ih]
      rfl

/-- A byte that is not escaped. -/
def IsPlain (c : UInt8) : Prop :=
  c ≠ backslash ∧ c ≠ quote ∧ c ≠ newline

instance decidableIsPlain (c : UInt8) : Decidable (IsPlain c) :=
  inferInstanceAs (Decidable (_ ∧ _))

theorem escape_eq_self {value : List UInt8} (hplain : ∀ c ∈ value, IsPlain c) :
    escape value = value := by
  induction value with
  | nil => rfl
  | cons c value ih =>
      rw [List.forall_mem_cons] at hplain
      obtain ⟨⟨hbackslash, hquote, hnewline⟩, hrest⟩ := hplain
      rw [escape, List.flatMap_cons, ← escape, ih hrest, escapeByte,
        if_neg hbackslash, if_neg hquote, if_neg hnewline, List.singleton_append]

theorem newline_notMem_escape (value : List UInt8) : newline ∉ escape value := by
  intro hmem
  obtain ⟨c, -, hc⟩ := List.mem_flatMap.mp hmem
  unfold escapeByte at hc
  split_ifs at hc with hbackslash hquote hnewline
  · revert hc
    decide
  · revert hc
    decide
  · revert hc
    decide
  · exact hnewline (List.mem_singleton.mp hc).symm

/-! ## Samples -/

abbrev Label := List UInt8 × List UInt8

structure Sample where
  name : List UInt8
  labels : List Label
  value : List UInt8
  deriving DecidableEq

def writeLabel (label : Label) : List UInt8 :=
  label.1 ++ equals :: quote :: (escape label.2 ++ [quote])

def writeLabels : List Label → List UInt8
  | [] => []
  | [label] => writeLabel label
  | label :: next :: labels =>
      writeLabel label ++ comma :: writeLabels (next :: labels)

def writeSample (s : Sample) : List UInt8 :=
  s.name ++ openBrace :: (writeLabels s.labels ++ closeBrace :: space :: s.value)

/-- Split a text at the first occurrence of a byte. -/
def readUntil (stop : UInt8) (text : List UInt8) :
    Option (List UInt8 × List UInt8) :=
  match text.dropWhile (· ≠ stop) with
  | [] => none
  | _ :: rest => some (text.takeWhile (· ≠ stop), rest)

/-- Read one label: the text up to the equals sign, and a quoted value. -/
def readLabel (text : List UInt8) : Option (Label × List UInt8) := do
  let (name, rest) ← readUntil equals text
  match rest with
  | [] => none
  | c :: rest =>
      if c = quote then do
        let (value, rest) ← readQuoted false rest
        some ((name, value), rest)
      else none

/-- Read labels up to the closing brace, at most `fuel` of them. -/
def readLabels : ℕ → List UInt8 → Option (List Label × List UInt8)
  | 0, _ => none
  | fuel + 1, text => do
      let (label, rest) ← readLabel text
      match rest with
      | [] => none
      | c :: rest =>
          if c = comma then do
            let (labels, rest) ← readLabels fuel rest
            some (label :: labels, rest)
          else if c = closeBrace then some ([label], rest)
          else none

def readSample (line : List UInt8) : Option Sample := do
  let (name, text) ← readUntil openBrace line
  let (labels, rest) ← readLabels text.length text
  match rest with
  | [] => none
  | c :: value => if c = space then some ⟨name, labels, value⟩ else none

theorem readUntil_append {stop : UInt8} {text : List UInt8} (htext : stop ∉ text)
    (rest : List UInt8) : readUntil stop (text ++ stop :: rest) = some (text, rest) := by
  have hkeep : ∀ c ∈ text, decide (c ≠ stop) = true := by
    intro c hc
    rw [decide_eq_true_eq]
    rintro rfl
    exact htext hc
  rw [readUntil, List.dropWhile_append_of_pos hkeep, List.takeWhile_append_of_pos hkeep]
  simp

theorem readLabel_writeLabel {label : Label} (hname : equals ∉ label.1)
    (rest : List UInt8) :
    readLabel (writeLabel label ++ rest) = some (label, rest) := by
  rw [writeLabel, List.append_assoc, List.cons_append, List.cons_append,
    List.append_assoc, List.singleton_append, readLabel, readUntil_append hname]
  simp [readQuoted_escape]

theorem readLabels_writeLabels {labels : List Label} (hlabels : labels ≠ [])
    (hnames : ∀ label ∈ labels, equals ∉ label.1) {fuel : ℕ}
    (hfuel : labels.length ≤ fuel) (rest : List UInt8) :
    readLabels fuel (writeLabels labels ++ closeBrace :: rest) =
      some (labels, rest) := by
  induction labels generalizing fuel with
  | nil => exact absurd rfl hlabels
  | cons label labels ih =>
      rw [List.forall_mem_cons] at hnames
      obtain ⟨fuel, rfl⟩ : ∃ more, fuel = more + 1 :=
        Nat.exists_eq_succ_of_ne_zero (by rintro rfl; simp at hfuel)
      rcases labels with _ | ⟨next, labels⟩
      · rw [writeLabels, readLabels, readLabel_writeLabel hnames.1]
        rfl
      · have hrest := ih (by simp) hnames.2 (Nat.le_of_succ_le_succ hfuel)
        rw [writeLabels, List.append_assoc, List.cons_append, readLabels,
          readLabel_writeLabel hnames.1]
        simp [hrest]

/-- Every label takes room. -/
theorem length_le_length_writeLabels (labels : List Label) :
    labels.length ≤ (writeLabels labels).length := by
  induction labels with
  | nil => exact Nat.zero_le _
  | cons label labels ih =>
      rcases labels with _ | ⟨next, labels⟩
      · simp only [writeLabels, writeLabel, List.length_append, List.length_cons]
        omega
      · rw [writeLabels, List.length_append, List.length_cons]
        simp only [List.length_cons] at ih ⊢
        omega

/-- A sample whose line can be told apart and taken apart. -/
structure Sample.WellFormed (s : Sample) : Prop where
  name : openBrace ∉ s.name
  notComment : s.name.head? ≠ some numberSign
  labels : s.labels ≠ []
  labelNames : ∀ label ∈ s.labels, equals ∉ label.1
  oneLine : newline ∉ s.name ∧ (∀ label ∈ s.labels, newline ∉ label.1) ∧
    newline ∉ s.value

theorem readSample_writeSample {s : Sample} (hs : s.WellFormed) :
    readSample (writeSample s) = some s := by
  rw [writeSample, readSample, readUntil_append hs.name]
  have hfuel : s.labels.length ≤
      (writeLabels s.labels ++ closeBrace :: space :: s.value).length := by
    have hlength := length_le_length_writeLabels s.labels
    rw [List.length_append]
    omega
  have hlabels := readLabels_writeLabels hs.labels hs.labelNames hfuel
    (space :: s.value)
  simp only [Option.bind_eq_bind, Option.bind_some, hlabels, if_true]

theorem newline_notMem_writeLabels {labels : List Label}
    (hlabels : ∀ label ∈ labels, newline ∉ label.1) :
    newline ∉ writeLabels labels := by
  induction labels with
  | nil => simp [writeLabels]
  | cons label labels ih =>
      rw [List.forall_mem_cons] at hlabels
      have hlabel : newline ∉ writeLabel label := by
        simp only [writeLabel, List.mem_append, List.mem_cons, List.not_mem_nil,
          or_false, not_or]
        exact ⟨hlabels.1, by decide, by decide, newline_notMem_escape _, by decide⟩
      rcases labels with _ | ⟨next, labels⟩
      · exact hlabel
      · rw [writeLabels, List.mem_append, List.mem_cons, not_or, not_or]
        exact ⟨hlabel, by decide, ih hlabels.2⟩

theorem newline_notMem_writeSample {s : Sample} (hs : s.WellFormed) :
    newline ∉ writeSample s := by
  obtain ⟨hname, hlabels, hvalue⟩ := hs.oneLine
  have hwritten := newline_notMem_writeLabels hlabels
  simp only [writeSample, List.mem_append, List.mem_cons, not_or]
  exact ⟨hname, by decide, hwritten, by decide, by decide, hvalue⟩

/-! ## Documents -/

inductive Line where
  | comment (text : List UInt8)
  | sample (s : Sample)

def Line.write : Line → List UInt8
  | .comment text => numberSign :: text
  | .sample s => writeSample s

def Line.WellFormed : Line → Prop
  | .comment text => newline ∉ text
  | .sample s => s.WellFormed

def Line.sample? : Line → Option Sample
  | .comment _ => none
  | .sample s => some s

def write (document : List Line) : List UInt8 :=
  (document.map Line.write).flatMap terminate

/-- The samples of a document, unless some line is neither a comment nor one. -/
def read (text : List UInt8) : Option (List Sample) :=
  ((lines text).filter fun line => line.head? ≠ some numberSign).mapM readSample

theorem Line.newline_notMem_write {line : Line} (hline : line.WellFormed) :
    newline ∉ line.write := by
  cases line with
  | comment text =>
      rw [Line.write, List.mem_cons, not_or]
      exact ⟨by decide, hline⟩
  | sample s => exact newline_notMem_writeSample hline

theorem head?_writeSample {s : Sample} (hs : s.WellFormed) :
    (writeSample s).head? ≠ some numberSign := by
  have hcomment := hs.notComment
  rw [writeSample]
  cases hname : s.name with
  | nil => exact fun hhead => absurd (Option.some.inj hhead) (by decide)
  | cons c name =>
      rw [hname] at hcomment
      exact hcomment

theorem read_write {document : List Line}
    (hdocument : ∀ line ∈ document, line.WellFormed) :
    read (write document) = some (document.filterMap Line.sample?) := by
  have hlines : lines (write document) = document.map Line.write := by
    apply lines_flatMap_terminate
    intro text htext
    obtain ⟨line, hline, rfl⟩ := List.mem_map.mp htext
    exact Line.newline_notMem_write (hdocument line hline)
  rw [read, hlines]
  clear hlines
  -- comments are filtered out, and each sample is read back from its line
  induction document with
  | nil => rfl
  | cons line document ih =>
      rw [List.forall_mem_cons] at hdocument
      have hrest := ih hdocument.2
      cases line with
      | comment text =>
          rw [List.map_cons, List.filter_cons_of_neg (by simp [Line.write]), hrest]
          rfl
      | sample s =>
          have hs : s.WellFormed := hdocument.1
          rw [List.map_cons, List.filter_cons_of_pos, List.mapM_cons, hrest,
            Line.write, readSample_writeSample hs]
          · rfl
          · exact decide_eq_true (head?_writeSample hs)

/-! ## Metric families -/

/-- A metric with its two comment lines and the labels and values of its
samples. -/
structure Family where
  name : List UInt8
  help : List UInt8
  type : List UInt8
  rows : List (List Label × List UInt8)

def Family.samples (family : Family) : List Sample :=
  family.rows.map fun row => ⟨family.name, row.1, row.2⟩

def Family.lines (family : Family) : List Line :=
  .comment (ascii " HELP " ++ family.name ++ ascii " " ++ family.help) ::
    .comment (ascii " TYPE " ++ family.name ++ ascii " " ++ family.type) ::
      family.samples.map .sample

structure Family.WellFormed (family : Family) : Prop where
  help : newline ∉ family.help
  type : newline ∉ family.type
  samples : ∀ s ∈ family.samples, s.WellFormed
  name : newline ∉ family.name

def writeFamilies (families : List Family) : List UInt8 :=
  write (families.flatMap Family.lines)

theorem writeFamilies_eq (families : List Family) :
    writeFamilies families = families.flatMap fun family => write family.lines := by
  simp only [writeFamilies, write, List.map_flatMap, List.flatMap_assoc]

/-- The samples of one metric in a document. -/
def samplesOf (name text : List UInt8) : Option (List Sample) :=
  (read text).map fun samples => samples.filter fun s => s.name = name

theorem filterMap_lines (family : Family) :
    family.lines.filterMap Line.sample? = family.samples := by
  have hsamples : family.samples.filterMap (Line.sample? ∘ Line.sample) =
      family.samples := List.filterMap_some
  rw [Family.lines, List.filterMap_cons_none rfl, List.filterMap_cons_none rfl,
    List.filterMap_map, hsamples]

theorem Family.WellFormed.lines {family : Family} (hfamily : family.WellFormed) :
    ∀ line ∈ family.lines, line.WellFormed := by
  have hcomment : ∀ head ∈ [ascii " HELP ", ascii " TYPE "], ∀ text,
      newline ∉ text →
        (Line.comment (head ++ family.name ++ ascii " " ++ text)).WellFormed := by
    intro head hhead text htext
    have hfree : ∀ head ∈ [ascii " HELP ", ascii " TYPE "], newline ∉ head := by
      decide
    simp only [Line.WellFormed, List.mem_append, not_or]
    exact ⟨⟨⟨hfree head hhead, hfamily.name⟩, by decide⟩, htext⟩
  rw [Family.lines, List.forall_mem_cons, List.forall_mem_cons]
  refine ⟨hcomment _ (by simp) _ hfamily.help, hcomment _ (by simp) _ hfamily.type, ?_⟩
  intro line hline
  obtain ⟨s, hs, rfl⟩ := List.mem_map.mp hline
  exact hfamily.samples s hs

theorem read_writeFamilies {families : List Family}
    (hfamilies : ∀ family ∈ families, family.WellFormed) :
    read (writeFamilies families) = some (families.flatMap Family.samples) := by
  rw [writeFamilies, read_write, List.filterMap_flatMap]
  · simp only [filterMap_lines]
  · intro line hline
    obtain ⟨family, hfamily, hline⟩ := List.mem_flatMap.mp hline
    exact (hfamilies family hfamily).lines line hline

theorem name_of_mem_samples {family : Family} {s : Sample}
    (hs : s ∈ family.samples) : s.name = family.name := by
  obtain ⟨row, -, rfl⟩ := List.mem_map.mp hs
  rfl

theorem filter_samples (family : Family) (name : List UInt8) :
    (family.samples.filter fun s => s.name = name) =
      if family.name = name then family.samples else [] := by
  split
  next hname =>
    exact List.filter_eq_self.mpr fun s hs =>
      decide_eq_true ((name_of_mem_samples hs).trans hname)
  next hname =>
    refine List.filter_eq_nil_iff.mpr fun s hs => ?_
    rw [name_of_mem_samples hs, decide_eq_true_eq]
    exact hname

/-- When no two families share a name, reading a document back finds each
family's own samples under its name. -/
theorem samplesOf_writeFamilies {families : List Family}
    (hfamilies : ∀ family ∈ families, family.WellFormed)
    (hnames : (families.map Family.name).Nodup) {family : Family}
    (hfamily : family ∈ families) :
    samplesOf family.name (writeFamilies families) = some family.samples := by
  rw [samplesOf, read_writeFamilies hfamilies, Option.map_some, Option.some_inj]
  clear hfamilies
  induction families with
  | nil => cases hfamily
  | cons first families ih =>
      rw [List.map_cons, List.nodup_cons] at hnames
      rw [List.flatMap_cons, List.filter_append, filter_samples]
      rcases List.mem_cons.mp hfamily with rfl | hrest
      · have hothers : ((families.flatMap Family.samples).filter
            fun s => s.name = family.name) = [] := by
          rw [List.filter_flatMap, List.flatMap_eq_nil_iff]
          intro other hother
          rw [filter_samples, if_neg]
          intro hname
          exact hnames.1 (hname ▸ List.mem_map_of_mem hother)
        rw [if_pos rfl, hothers, List.append_nil]
      · have hne : first.name ≠ family.name := fun hname =>
          hnames.1 (hname ▸ List.mem_map_of_mem hrest)
        rw [if_neg hne, List.nil_append, ih hnames.2 hrest]

end KernelScope.Exposition
