import KernelScope.Symbolization.ElfSymbols

/-!
# What the ELF cache hides

A full `ElfCache` answers no path it does not hold, and nothing but `clear`
makes room.  The paths it holds are the first `max_entries` different paths that
were asked for since the last `clear`.  Its answers are those of a fresh cache
exactly as long as the other paths are asked for nothing that they have.
-/

namespace KernelScope.CacheTransparency

open KernelScope.ElfSymbols
open KernelScope.Sorting
open KernelScope.StepRun

/-- `ElfCache::size` -/
def size (c : ElfCache) : ℕ :=
  c.cache.keys.card

/-- What a call returns. -/
inductive Answer where
  | symbol (found : Option ElfSymbol)
  | info (found : Option ElfInfo)
  | done
  deriving DecidableEq

def answer (std : StdSort) (files : Files) (c : ElfCache) : Op → Answer
  | .resolve path addrOffset => .symbol (resolve std files path addrOffset c).1
  | .getInfo path => .info (getInfo std files path c).1
  | .clear => .done

/-! ## Sessions -/

/-- Add a path that was not asked for before. -/
def request (asked : List Path) (path : Path) : List Path :=
  if path ∈ asked then asked else asked ++ [path]

/-- The different paths asked for since the last `clear`, in the order of their
first request. -/
def note (asked : List Path) : Op → List Path
  | .resolve path _ => request asked path
  | .getInfo path => request asked path
  | .clear => []

/-- The path is one of the first `maxEntries` of the session. -/
def Admitted (maxEntries : ℕ) (asked : List Path) (path : Path) : Prop :=
  path ∈ (request asked path).take maxEntries

instance decidableAdmitted (maxEntries : ℕ) (asked : List Path) (path : Path) :
    Decidable (Admitted maxEntries asked path) :=
  inferInstanceAs (Decidable (_ ∈ _))

/-- The file has a function symbol for the address. -/
def HasSymbol (std : StdSort) (files : Files) (path : Path) (addrOffset : UInt64) :
    Prop :=
  scanSymbol addrOffset (sortByAddr std (functionSymbols (files path))) ≠ none

/-- A call for a path that is not admitted asks for a symbol that the file does
not have. -/
def Answerable (std : StdSort) (files : Files) (maxEntries : ℕ) (asked : List Path) :
    Op → Prop
  | .resolve path addrOffset =>
      HasSymbol std files path addrOffset → Admitted maxEntries asked path
  | .getInfo path => Admitted maxEntries asked path
  | .clear => True

/-! ## The paths that are held -/

section Request

variable {asked : List Path} {path : Path} {maxEntries : ℕ}

theorem nodup_request (hasked : asked.Nodup) : (request asked path).Nodup := by
  rw [request]
  split
  · exact hasked
  next hnew =>
    have hne : ∀ other ∈ asked, other ≠ path := fun other hother heq =>
      hnew (heq ▸ hother)
    simpa [List.nodup_append, hasked] using hne

/-- Behind the first `maxEntries` paths nothing is admitted. -/
theorem take_request_of_le (hle : maxEntries ≤ asked.length) :
    (request asked path).take maxEntries = asked.take maxEntries := by
  rw [request]
  split
  · rfl
  · exact List.take_append_of_le_length hle

/-- Before that, everything is. -/
theorem take_request_of_lt (hlt : asked.length < maxEntries) :
    (request asked path).take maxEntries = request asked path := by
  apply List.take_of_length_le
  rw [request]
  split
  · exact hlt.le
  · simpa using Nat.succ_le_of_lt hlt

theorem mem_request {other : Path} :
    other ∈ request asked path ↔ other = path ∨ other ∈ asked := by
  rw [request]
  split
  next hmem =>
    constructor
    · exact .inr
    · rintro (rfl | hother)
      · exact hmem
      · exact hother
  · simp [or_comm]

end Request

/-- The cache holds the first paths of the session, with what their files
hold. -/
structure Holds (std : StdSort) (files : Files) (maxEntries : ℕ) (c : ElfCache)
    (asked : List Path) : Prop where
  limit : c.maxEntries = maxEntries
  faithful : Faithful std files c
  nodup : asked.Nodup
  keys : c.cache.keys = (asked.take maxEntries).toFinset

section Held

variable {std : StdSort} {files : Files} {maxEntries : ℕ}
variable {c : ElfCache} {asked : List Path}

theorem holds_create (maxEntries : ℕ) :
    Holds std files maxEntries (ElfCache.create maxEntries) [] where
  limit := rfl
  faithful := faithful_create maxEntries
  nodup := List.nodup_nil
  keys := by simp [ElfCache.create]

theorem Holds.size_eq (hc : Holds std files maxEntries c asked) :
    size c = min maxEntries asked.length := by
  rw [size, hc.keys, List.toFinset_card_of_nodup (hc.nodup.sublist (List.take_sublist _ _)),
    List.length_take]

theorem Holds.mem_iff (hc : Holds std files maxEntries c asked) {path : Path} :
    path ∈ c.cache ↔ path ∈ asked.take maxEntries := by
  rw [← Finmap.mem_keys, hc.keys, List.mem_toFinset]

/-- The path that is turned away is one that is not admitted. -/
theorem Holds.full_iff (hc : Holds std files maxEntries c asked) (path : Path) :
    c.Full path ↔ ¬Admitted maxEntries asked path := by
  have hsize : c.cache.keys.card = min maxEntries asked.length := hc.size_eq
  rw [ElfCache.Full, hsize, hc.limit, hc.mem_iff, Admitted]
  by_cases hlt : asked.length < maxEntries
  · rw [take_request_of_lt hlt, mem_request]
    simp
    omega
  · rw [take_request_of_le (Nat.not_lt.mp hlt)]
    simp
    omega

theorem Holds.admitted (hc : Holds std files maxEntries c asked) {path : Path}
    (hfull : ¬c.Full path) : Admitted maxEntries asked path :=
  Decidable.not_not.mp (mt (hc.full_iff path).mpr hfull)

/-- A lookup keeps the session. -/
theorem Holds.lookup (hc : Holds std files maxEntries c asked) (path : Path) :
    Holds std files maxEntries
      (if c.Full path then c else (ensureLoaded std files path c).2)
      (request asked path) := by
  split
  next hturned =>
    -- a cache that turns a path away has seen as many paths as it may hold
    have hle : maxEntries ≤ asked.length := by
      have hsize : c.maxEntries ≤ size c := hturned.1
      rw [hc.limit, hc.size_eq] at hsize
      omega
    exact ⟨hc.limit, hc.faithful, nodup_request hc.nodup,
      (take_request_of_le hle).symm ▸ hc.keys⟩
  next hloaded =>
    have hadmitted := hc.admitted hloaded
    refine ⟨?_, hc.faithful.ensureLoaded_snd path, nodup_request hc.nodup, ?_⟩
    · rw [ensureLoaded]
      split <;> exact hc.limit
    · rw [keys_ensureLoaded, hc.keys]
      by_cases hlt : asked.length < maxEntries
      · rw [take_request_of_lt hlt, List.take_of_length_le hlt.le]
        ext other
        simp [mem_request]
      · have hle := Nat.not_lt.mp hlt
        rw [Admitted, take_request_of_le hle] at hadmitted
        rw [take_request_of_le hle]
        exact Finset.insert_eq_of_mem (List.mem_toFinset.mpr hadmitted)

theorem Holds.exec (hc : Holds std files maxEntries c asked) (op : Op) :
    Holds std files maxEntries (ElfSymbols.exec std files c op) (note asked op) := by
  cases op with
  | resolve path addrOffset =>
      simpa only [ElfSymbols.exec, ElfSymbols.resolve, apply_ite Prod.snd, note] using
        hc.lookup path
  | getInfo path =>
      simpa only [ElfSymbols.exec, ElfSymbols.getInfo, apply_ite Prod.snd, note] using
        hc.lookup path
  | clear =>
      have hclear : clear c = ElfCache.create maxEntries := by
        rw [clear, hc.limit]
        rfl
      rw [ElfSymbols.exec, hclear]
      exact holds_create maxEntries

/-! ## Answers -/

/-- What a fresh cache answers. -/
def freshAnswer (std : StdSort) (files : Files) : Op → Answer
  | .resolve path addrOffset =>
      .symbol (scanSymbol addrOffset (sortByAddr std (functionSymbols (files path))))
  | .getInfo path => .info (some (parseElf std (files path)))
  | .clear => .done

theorem Holds.answer_iff (hc : Holds std files maxEntries c asked) (op : Op) :
    answer std files c op = freshAnswer std files op ↔
      Answerable std files maxEntries asked op := by
  cases op with
  | resolve path addrOffset =>
      rw [answer, freshAnswer, Answerable, HasSymbol, Answer.symbol.injEq]
      by_cases hfull : c.Full path
      · have hturned := (hc.full_iff path).mp hfull
        rw [resolve, if_pos hfull]
        simp only [hturned, imp_false, Decidable.not_not]
        exact eq_comm
      · have hadmitted := hc.admitted hfull
        rw [resolve_fst hfull, hc.faithful.ensureLoaded_fst, symbols_parseElf,
          lookupSymbol_eq_scanSymbol (pairwise_sortByAddr std _)]
        simp [hadmitted]
  | getInfo path =>
      rw [answer, freshAnswer, Answerable, Answer.info.injEq]
      by_cases hfull : c.Full path
      · simp [getInfo, hfull, (hc.full_iff path).mp hfull]
      · simp [getInfo, hfull, hc.admitted hfull, hc.faithful.ensureLoaded_fst]
  | clear => simp [answer, freshAnswer, Answerable]

/-- With room for one entry, a fresh cache answers everything. -/
theorem answer_create (hmax : 1 ≤ maxEntries) (op : Op) :
    answer std files (ElfCache.create maxEntries) op = freshAnswer std files op := by
  have hadmitted : ∀ path, Admitted maxEntries [] path := by
    intro path
    rw [Admitted, take_request_of_lt (show [].length < maxEntries from hmax), mem_request]
    exact .inl rfl
  apply ((holds_create maxEntries).answer_iff op).mpr
  cases op with
  | resolve path addrOffset => exact fun _ => hadmitted path
  | getInfo path => exact hadmitted path
  | clear => trivial

end Held

/-- The cache is bounded, and every call gets a fresh cache's answer exactly
when the calls for a path behind the first `maxEntries` ones ask for a symbol
that the file does not have. -/
theorem cache_transparent_iff (std : StdSort) (files : Files) (maxEntries : ℕ)
    (hmax : 1 ≤ maxEntries) (ops : List Op) :
    Always (exec std files) (fun c => size c ≤ maxEntries)
      (ElfCache.create maxEntries) ops ∧
    (Along (exec std files)
        (fun c op => answer std files c op =
          answer std files (ElfCache.create maxEntries) op)
        (ElfCache.create maxEntries) ops ↔
      Along note (Answerable std files maxEntries) [] ops) := by
  constructor
  · have hheld : Always (exec std files) (fun c => ∃ asked, Holds std files maxEntries c asked)
        (ElfCache.create maxEntries) ops :=
      always_of_step _ (fun c op ⟨asked, hc⟩ => ⟨note asked op, hc.exec op⟩)
        ⟨[], holds_create maxEntries⟩ ops
    apply hheld.imp
    rintro c ⟨asked, hc⟩
    rw [hc.size_eq]
    exact Nat.min_le_left _ _
  · apply along_iff_of_simulation (Holds std files maxEntries)
    · exact fun c asked op hc => hc.exec op
    · intro c asked op hc
      rw [answer_create hmax]
      exact hc.answer_iff op
    · exact holds_create maxEntries

/-- The same file under every path. -/
def sameFile : Files :=
  fun _ => some (fileWith nestedSymbols)

/-- With room for one path, a second path loses its symbols. -/
theorem full_cache_hides_symbols :
    answer StdSort.mergeSort sameFile
        (run (exec StdSort.mergeSort sameFile) (ElfCache.create 1) [.getInfo [97]])
        (.resolve [98] 0x1108) = .symbol none ∧
      answer StdSort.mergeSort sameFile (ElfCache.create 1) (.resolve [98] 0x1108) =
        .symbol (some ⟨[98], 0x1100, 0x10⟩) := by
  have hsymbols : functionSymbols (sameFile [98]) = nestedSymbols := by decide +kernel
  have hfull : (run (exec StdSort.mergeSort sameFile) (ElfCache.create 1)
      [.getInfo [97]]).Full [98] := by decide +kernel
  constructor
  · rw [answer, resolve, if_pos hfull]
  · rw [answer_create (by decide), freshAnswer, hsymbols, sortByAddr_nestedSymbols]
    decide +kernel

/-- After `clear` there is room again. -/
theorem cache_transparent_after_clear :
    Along (exec StdSort.mergeSort sameFile)
      (fun c op => answer StdSort.mergeSort sameFile c op =
        answer StdSort.mergeSort sameFile (ElfCache.create 1) op)
      (ElfCache.create 1) [.getInfo [97], .clear, .resolve [98] 0x1108] := by
  apply (cache_transparent_iff StdSort.mergeSort sameFile 1 (by decide) _).2.mpr
  have hfirst : Admitted 1 [] [97] := by decide
  have hsecond : Admitted 1 [] [98] := by decide
  exact ⟨hfirst, trivial, fun _ => hsecond, trivial⟩

end KernelScope.CacheTransparency
