import KernelScope.Bpf.SkeletonBridge
import KernelScope.Cli.EndToEnd
import KernelScope.Core.HotStacks
import KernelScope.Library.Interning

/-!
# From the captured stacks to the table of stacks

At the entry of a system call `tp_sys_enter` asks `bpf_get_stackid` for the user
stack and the kernel stack.  The kernel files the addresses in the map
`stack_traces` and answers with the number of the bucket; since the program passes
neither `BPF_F_FAST_STACK_CMP` nor `BPF_F_REUSE_STACKID`, a bucket is compared in
full and keeps its first stack.  The number travels with the entry, the record and
the event into the table of stacks, and in the end `read_stack` looks it up.  The
samples of a run say what the table should be about: the time of each reported call,
with the stacks it was entered from.
-/

namespace KernelScope.StackTimes

open KernelScope.Aggregation
open KernelScope.Dimensions
open KernelScope.EndToEnd
open KernelScope.EventDecoder
open KernelScope.Events
open KernelScope.Filters
open KernelScope.Handlers
open KernelScope.HotStacks (mem_stackHits)
open KernelScope.Interning
open KernelScope.KeyedFold
open KernelScope.SkeletonBridge
open KernelScope.StepRun
open KernelScope.SyscallPairing hiding exec Allowed World
open KernelScope.WireFormat

/-! ## The map of stack traces -/

/-- The addresses of a stack, as many as a bucket holds. -/
structure Trace where
  addrs : List UInt64
  depth : addrs.length ≤ maxStackDepth
  deriving DecidableEq

/-- `max_entries` of `stack_traces` -/
abbrev maxStackTraces : ℕ := 32768

abbrev StackTraces := Table Trace (Fin maxStackTraces)

/-- What the kernel finds when it walks a stack. -/
inductive Walk where
  | found (trace : Trace)
  | failed (errno : Int64) (negative : errno < 0)

def eexist : Int64 := -17

/-- The number of a bucket as the helper returns it. -/
def bucketId (bucket : Fin maxStackTraces) : Int64 :=
  Int64.ofNat bucket

variable (hash : Trace → Fin maxStackTraces)

/-- `bpf_get_stackid` without flags for the comparison. -/
def getStackid (walk : Walk) (traces : StackTraces) : Int64 × StackTraces :=
  match walk with
  | .found trace =>
      let filed := intern hash trace traces
      (filed.1.elim eexist bucketId, filed.2)
  | .failed errno _ => (errno, traces)

/-- The two requests of `tp_sys_enter`; one that is not made leaves `-1`. -/
def takeStack (wanted : Prop) [Decidable wanted] (walk : Walk) (traces : StackTraces) :
    Int64 × StackTraces :=
  if wanted then getStackid hash walk traces else (-1, traces)

/-- The stack of an entry: the one that was walked, if there is a number for it. -/
def Walk.named (walk : Walk) (id : Int64) : Option Trace :=
  match walk with
  | .found trace => if id < 0 then none else some trace
  | .failed _ _ => none

/-- The id stands for the stack, or for none. -/
def Stands (traces : StackTraces) (id : Int64) : Option Trace → Prop
  | none => id < 0
  | some trace => id = bucketId (hash trace) ∧ Held hash traces trace

section Ids

theorem toInt_bucketId (bucket : Fin maxStackTraces) : (bucketId bucket).toInt = bucket :=
  Int64.toInt_ofNat_of_lt (lt_trans bucket.isLt (by decide))

theorem bucketId_nonneg (bucket : Fin maxStackTraces) : ¬bucketId bucket < 0 := by
  rw [Int64.lt_iff_toInt_lt, toInt_bucketId]
  exact not_lt.mpr (Int.natCast_nonneg _)

theorem bucketId_injective : Function.Injective bucketId := by
  intro left right hsame
  have hvalue := congrArg Int64.toInt hsame
  rw [toInt_bucketId, toInt_bucketId] at hvalue
  exact Fin.ext (Int.ofNat_inj.mp hvalue)

variable {hash}

theorem stands_getStackid (walk : Walk) (traces : StackTraces) :
    Stands hash (getStackid hash walk traces).2 (getStackid hash walk traces).1
      (walk.named (getStackid hash walk traces).1) := by
  cases walk with
  | failed errno negative => exact negative
  | found trace =>
      have hfiled : ∀ bucket : Option (Fin maxStackTraces),
          (∀ index, bucket = some index → index = hash trace ∧
            Held hash (intern hash trace traces).2 trace) →
          Stands hash (intern hash trace traces).2 (bucket.elim eexist bucketId)
            (Walk.named (.found trace) (bucket.elim eexist bucketId)) := by
        intro bucket hbucket
        cases bucket with
        | none => exact (by decide : eexist < 0)
        | some index =>
            obtain ⟨rfl, hheld⟩ := hbucket index rfl
            rw [Option.elim_some, Walk.named, if_neg (bucketId_nonneg _)]
            exact ⟨rfl, hheld⟩
      exact hfiled _ fun index => held_of_intern

theorem stands_takeStack (wanted : Prop) [Decidable wanted] (walk : Walk)
    (traces : StackTraces) :
    Stands hash (takeStack hash wanted walk traces).2 (takeStack hash wanted walk traces).1
      (walk.named (takeStack hash wanted walk traces).1) := by
  rw [takeStack]
  split
  · exact stands_getStackid walk traces
  · cases walk with
    | found trace => exact (by decide : (-1 : Int64) < 0)
    | failed errno negative => exact (by decide : (-1 : Int64) < 0)

/-- Asking again whether a stack was wanted changes nothing. -/
theorem ite_takeStack {wanted asked : Prop} [Decidable wanted] [Decidable asked]
    (hasked : wanted → asked) (walk : Walk) (traces : StackTraces) :
    (if asked then (takeStack hash wanted walk traces).1 else -1) =
      (takeStack hash wanted walk traces).1 := by
  split
  next => rfl
  next hnot => rw [takeStack, if_neg (mt hasked hnot)]

theorem held_takeStack {traces : StackTraces} {trace : Trace}
    (hheld : Held hash traces trace) (wanted : Prop) [Decidable wanted] (walk : Walk) :
    Held hash (takeStack hash wanted walk traces).2 trace := by
  rw [takeStack]
  split
  · cases walk with
    | found next => exact hheld.intern next
    | failed errno negative => exact hheld
  · exact hheld

theorem Stands.mono {traces traces' : StackTraces}
    (hkeep : ∀ trace, Held hash traces trace → Held hash traces' trace) {id : Int64}
    {stack : Option Trace} (hstands : Stands hash traces id stack) :
    Stands hash traces' id stack := by
  cases stack with
  | none => exact hstands
  | some trace => exact ⟨hstands.1, hkeep trace hstands.2⟩

end Ids

/-! ## Runs with stacks -/

section Runs

variable {Task : Type*}

structure Stacks where
  user : Option Trace
  kern : Option Trace

/-- A reported call and the stacks it was entered from. -/
structure Sample where
  latency : Latency
  origin : Stacks

structure World (Task : Type*) where
  pairing : SyscallPairing.World Task
  traces : StackTraces
  /-- the stacks of the calls under way -/
  entered : Task → Stacks
  samples : List Sample

def World.initial (Task : Type*) : World Task where
  pairing := SyscallPairing.World.initial Task
  traces := fun _ => none
  entered := fun _ => ⟨none, none⟩
  samples := []

/-- An action, and the stacks that are walked if it is an entry. -/
structure Firing (Task : Type*) where
  action : SyscallPairing.Action Task
  user : Walk
  kern : Walk

/-- The requests for a stack when `tp_sys_enter` gets as far as that. -/
def Captures (ro : Rodata) (context : TaskContext) (rand : UInt32) : Prop :=
  sysEnterAccepts ro context = true ∧ shouldCaptureStack ro rand = true

instance (ro : Rodata) (context : TaskContext) (rand : UInt32) :
    Decidable (Captures ro context rand) :=
  inferInstanceAs (Decidable (_ ∧ _))

section Entry

variable (ro : Rodata) (context : TaskContext) (input : SysEnterInput)
  (firing : Firing Task) (traces : StackTraces)

def userAnswer : Int64 × StackTraces :=
  takeStack hash (Captures ro context input.rand ∧ ro.captureUserStacks ≠ 0) firing.user traces

def kernAnswer : Int64 × StackTraces :=
  takeStack hash (Captures ro context input.rand ∧ ro.captureKernStacks ≠ 0) firing.kern
    (userAnswer hash ro context input firing traces).2

/-- The answers of the helper as the handler gets them. -/
def answered : SysEnterInput :=
  { input with
    userStack := (userAnswer hash ro context input firing traces).1
    kernStack := (kernAnswer hash ro context input firing traces).1 }

end Entry

variable [DecidableEq Task] (ro : Rodata) (key : Task → TaskKey)

/-- The sample that an action adds. -/
def sampled (w : World Task) : SyscallPairing.Action Task → Option Sample
  | .sysExit task context input =>
      (observed ro key w.pairing (.sysExit task context input)).map fun latency =>
        ⟨latency, w.entered task⟩
  | _ => none

def exec (w : World Task) (firing : Firing Task) : World Task :=
  match firing.action with
  | .sysEnter task context input =>
      let user := userAnswer hash ro context input firing w.traces
      let kern := kernAnswer hash ro context input firing w.traces
      { pairing := SyscallPairing.exec ro w.pairing
          (.sysEnter task context (answered hash ro context input firing w.traces))
        traces := kern.2
        entered := Function.update w.entered task
          ⟨firing.user.named user.1, firing.kern.named kern.1⟩
        samples := w.samples }
  | action =>
      { w with
        pairing := SyscallPairing.exec ro w.pairing action
        samples := w.samples ++ (sampled ro key w action).toList }

def Allowed (w : World Task) (firing : Firing Task) : Prop :=
  SyscallPairing.Allowed ro key w.pairing firing.action

/-- A record says what the sample says. -/
structure Tells (traces : StackTraces) (e : WireEvent) (sample : Sample) : Prop where
  latency : latencyOf e = sample.latency
  user : Stands hash traces e.userStackId sample.origin.user
  kern : Stands hash traces e.kernStackId sample.origin.kern

/-- Ids stand for the stacks of the entries, in the map of active system calls and
in the records. -/
structure Kept (w : World Task) : Prop where
  paired : Paired ro key w.pairing
  pending : ∀ task enter, w.pairing.Pending task enter →
    Stands hash w.traces (sysEnterEntry ro enter.input).userStackId (w.entered task).user ∧
      Stands hash w.traces (sysEnterEntry ro enter.input).kernStackId (w.entered task).kern
  records : List.Forall₂ (Tells hash w.traces) w.pairing.slowEvents w.samples

variable {hash ro key} {w : World Task}

section Entry

variable {context : TaskContext} {input : SysEnterInput} {firing : Firing Task}
  {traces : StackTraces}

omit [DecidableEq Task] in
theorem held_kernAnswer {trace : Trace} (hheld : Held hash traces trace) :
    Held hash (kernAnswer hash ro context input firing traces).2 trace :=
  held_takeStack (held_takeStack hheld _ _) _ _

omit [DecidableEq Task] in
theorem userStackId_answered :
    (sysEnterEntry ro (answered hash ro context input firing traces)).userStackId =
      (userAnswer hash ro context input firing traces).1 :=
  ite_takeStack (fun hwanted => ⟨hwanted.1.2, hwanted.2⟩) _ _

omit [DecidableEq Task] in
theorem kernStackId_answered :
    (sysEnterEntry ro (answered hash ro context input firing traces)).kernStackId =
      (kernAnswer hash ro context input firing traces).1 :=
  ite_takeStack (fun hwanted => ⟨hwanted.1.2, hwanted.2⟩) _ _

end Entry

theorem Kept.sysEnter (hkept : Kept hash ro key w) {firing : Firing Task} {task : Task}
    {context : TaskContext} {input : SysEnterInput}
    (haction : firing.action = .sysEnter task context input)
    (hallowed : Allowed ro key w firing) : Kept hash ro key (exec hash ro key w firing) := by
  have hheld : ∀ trace, Held hash w.traces trace →
      Held hash (kernAnswer hash ro context input firing w.traces).2 trace :=
    fun _ => held_kernAnswer
  rw [Allowed, haction] at hallowed
  have hresolved : SyscallPairing.Allowed ro key w.pairing
      (.sysEnter task context (answered hash ro context input firing w.traces)) := hallowed
  simp only [exec, haction]
  constructor
  case paired => exact hkept.paired.step hresolved
  case pending =>
    intro other enter hpending
    dsimp only
    rcases (pending_sysEnter other enter).mp hpending with ⟨rfl, rfl⟩ | ⟨hother, hold⟩
    · rw [Function.update_self, userStackId_answered, kernStackId_answered]
      constructor
      · apply (stands_takeStack _ _ _).mono
        exact fun trace htrace => held_takeStack htrace _ _
      · exact stands_takeStack _ _ _
    · rw [Function.update_of_ne hother]
      exact (hkept.pending other enter hold).imp (Stands.mono hheld) (Stands.mono hheld)
  case records =>
    rw [slowEvents_exec_eq]
    dsimp only [exitRecord, Option.toList_none]
    rw [List.append_nil]
    exact hkept.records.imp fun e sample htells =>
      ⟨htells.latency, htells.user.mono hheld, htells.kern.mono hheld⟩

theorem Kept.sysExit (hkept : Kept hash ro key w) {firing : Firing Task} {task : Task}
    {context : TaskContext} {input : SysExitInput}
    (haction : firing.action = .sysExit task context input)
    (hallowed : Allowed ro key w firing) : Kept hash ro key (exec hash ro key w firing) := by
  rw [Allowed, haction] at hallowed
  simp only [exec, haction]
  constructor
  case paired => exact hkept.paired.step hallowed
  case pending =>
    intro other enter hpending
    have hold := (World.pending_leave rfl (by simp) other enter).mp hpending
    exact hkept.pending other enter hold.2
  case records =>
    rw [slowEvents_exec_eq]
    dsimp only
    apply List.rel_append hkept.records
    rw [exitRecord, sampled, ← record_observed hkept.paired hallowed]
    cases hrecord : (Call.sysExit context input).record ro w.pairing.maps with
    | none => exact .nil
    | some e =>
        obtain ⟨entry, slot, hentry, -, -, rfl⟩ := record_sysExit.mp hrecord
        obtain ⟨enter, hpending, -, rfl⟩ := (hkept.paired.lookup_exit hallowed).mp hentry
        have hstands := hkept.pending task enter hpending
        exact .cons ⟨rfl, hstands.1, hstands.2⟩ .nil

theorem Kept.other (hkept : Kept hash ro key w) {action : SyscallPairing.Action Task}
    (hallowed : SyscallPairing.Allowed ro key w.pairing action)
    (hpending : ∀ other enter, (SyscallPairing.exec ro w.pairing action).Pending other enter →
      w.pairing.Pending other enter)
    (hrecord : exitRecord ro w.pairing action = none) :
    Kept hash ro key { w with
      pairing := SyscallPairing.exec ro w.pairing action
      samples := w.samples ++ [] } := by
  constructor
  case paired => exact hkept.paired.step hallowed
  case pending =>
    intro other enter hnext
    exact hkept.pending other enter (hpending other enter hnext)
  case records =>
    rw [slowEvents_exec_eq, hrecord]
    dsimp only [Option.toList_none]
    rw [List.append_nil, List.append_nil]
    exact hkept.records

theorem Kept.step (hkept : Kept hash ro key w) {firing : Firing Task}
    (hallowed : Allowed ro key w firing) : Kept hash ro key (exec hash ro key w firing) := by
  obtain ⟨action, user, kern⟩ := firing
  cases action with
  | sysEnter task context input => exact hkept.sysEnter rfl hallowed
  | sysExit task context input => exact hkept.sysExit rfl hallowed
  | start task insideSyscall =>
      exact hkept.other hallowed (fun other enter h => ((pending_start other enter).mp h).2) rfl
  | processExit task context input =>
      exact hkept.other hallowed
        (fun other enter h => ((World.pending_leave rfl (by simp) other enter).mp h).2) rfl
  | schedSwitch input => exact hkept.other hallowed (fun _ _ h => h) rfl
  | processExec context input => exact hkept.other hallowed (fun _ _ h => h) rfl

theorem kept_run {firings : List (Firing Task)}
    (hrun : Along (exec hash ro key) (Allowed ro key) (World.initial Task) firings) :
    Kept hash ro key (run (exec hash ro key) (World.initial Task) firings) := by
  apply run_invariant (Kept hash ro key) (fun _ _ hkept hallowed => hkept.step hallowed) _ hrun
  have hnothing : Along (SyscallPairing.exec ro) (SyscallPairing.Allowed ro key)
      (SyscallPairing.World.initial Task) [] := trivial
  constructor
  case paired => exact (paired_and_accounted hnothing).1
  case pending =>
    intro task enter hpending
    cases hpending
  case records => exact .nil

end Runs

/-! ## Reading a stack back -/

section Reading

/-- A bucket as `bpf_map_lookup_elem` copies it. -/
def Trace.padded (trace : Trace) : Vector UInt64 maxStackDepth where
  toArray := (trace.addrs.rightpad maxStackDepth 0).toArray
  size_toArray := by
    rw [List.size_toArray, List.length_rightpad]
    exact max_eq_left trace.depth

/-- The map of stack traces for user space. -/
def lookupTrace (traces : StackTraces) (key : UInt32) : Option (Vector UInt64 maxStackDepth) :=
  if hkey : key.toNat < maxStackTraces then (traces ⟨key.toNat, hkey⟩).map Trace.padded
  else none

/-- A stack without the zeros at its end. -/
def Trace.shown (trace : Trace) : List UInt64 :=
  trace.addrs.rdropWhile (· = 0)

theorem rdropWhile_rightpad (addrs : List UInt64) (depth : ℕ) :
    (addrs.rightpad depth 0).rdropWhile (· = 0) = addrs.rdropWhile (· = 0) := by
  rw [List.rightpad, List.rdropWhile, List.reverse_append, List.reverse_replicate,
    List.dropWhile_append_of_pos]
  · rfl
  · intro zero hzero
    exact decide_eq_true (List.eq_of_mem_replicate hzero)

theorem readStack_bucketId {skel : Skeleton} {traces : StackTraces}
    (hfd : 0 ≤ skel.stackTraces.fd) (hmap : skel.stackTraces.lookup = lookupTrace traces)
    {bucket : Fin maxStackTraces} {trace : Trace} (htrace : traces bucket = some trace) :
    readStack (some skel) (bucketId bucket).toInt32 = trace.shown := by
  have hsmall : (bucket : ℕ) < UInt32.size := lt_trans bucket.isLt (by decide)
  have hkey : (bucketId bucket).toInt32.toUInt32 = UInt32.ofNat bucket := by
    rw [bucketId, Int64.toInt32_ofNat', Int32.toUInt32_ofNat']
  have hnonneg : ¬(bucketId bucket).toInt32 < 0 := by
    rw [bucketId, Int64.toInt32_ofNat', Int32.lt_iff_toInt_lt,
      Int32.toInt_ofNat_of_lt (lt_trans bucket.isLt (by decide))]
    exact not_lt.mpr (Int.natCast_nonneg _)
  have hlookup : lookupTrace traces (UInt32.ofNat bucket) = some trace.padded := by
    simp only [lookupTrace, UInt32.toNat_ofNat_of_lt' hsmall, bucket.isLt, dite_true, htrace,
      Option.map_some]
  have hopen : ¬(stackTraceFd (some skel) < 0 ∨ (bucketId bucket).toInt32 < 0) :=
    not_or.mpr ⟨not_lt.mpr hfd, hnonneg⟩
  rw [readStack, if_neg hopen, hkey, Option.bind_some, hmap, hlookup]
  exact rdropWhile_rightpad trace.addrs maxStackDepth

end Reading

/-! ## The table -/

section Table

/-- The times of the reported calls that were entered from the stack. -/
def times (samples : List Sample) (trace : Trace) : List ℕ :=
  samples.flatMap fun sample =>
    (if sample.origin.user = some trace then [sample.latency.elapsed] else []) ++
      if sample.origin.kern = some trace then [sample.latency.elapsed] else []

variable {hash} {traces : StackTraces}

def hitNs (hit : StackHit) : ℕ :=
  hit.ev.durationNs.toNat

/-- One half of an event's hits, for the bucket of a stack that is filed. -/
theorem group_hit {id : Int64} {stack : Option Trace} (hstands : Stands hash traces id stack)
    {trace : Trace} (hheld : Held hash traces trace) (ev : Event) (kern : Bool) :
    (group StackHit.id (bucketId (hash trace))
        (if id < 0 then [] else [⟨ev, id, kern⟩])).map hitNs =
      if stack = some trace then [ev.durationNs.toNat] else [] := by
  cases stack with
  | none =>
      have hnegative : id < 0 := hstands
      rw [if_pos hnegative, if_neg (Option.some_ne_none trace).symm]
      rfl
  | some other =>
      obtain ⟨rfl, hother⟩ := hstands
      rw [if_neg (bucketId_nonneg _), group]
      by_cases hsame : other = trace
      · subst hsame
        simp [hitNs]
      · have hne : bucketId (hash other) ≠ bucketId (hash trace) := fun heq =>
          hsame ((hother.hash_eq_iff hheld).mp (bucketId_injective heq))
        simp [hsame, hne]

/-- The hits of a stack's bucket are the times of the stack. -/
theorem group_hits {records : List WireEvent} {samples : List Sample}
    (htells : List.Forall₂ (Tells hash traces) records samples) {trace : Trace}
    (hheld : Held hash traces trace) :
    (group StackHit.id (bucketId (hash trace))
        ((records.map fromWire).flatMap stackHits)).map hitNs = times samples trace := by
  induction htells with
  | nil => rfl
  | @cons e sample records samples hhead htail ih =>
      have helapsed : (fromWire e).durationNs.toNat = sample.latency.elapsed :=
        congrArg Latency.elapsed hhead.latency
      rw [group] at ih
      rw [List.map_cons, List.flatMap_cons, group, List.filter_append, List.map_append, ih,
        stackHits, List.filter_append, List.map_append, times, times, List.flatMap_cons,
        ← helapsed]
      congr 2
      · exact group_hit hhead.user hheld _ _
      · exact group_hit hhead.kern hheld _ _

/-- Ids that are not negative stand for stacks. -/
theorem Stands.exists_trace {id : Int64} {stack : Option Trace}
    (hstands : Stands hash traces id stack) (hid : ¬id < 0) :
    ∃ trace, id = bucketId (hash trace) ∧ Held hash traces trace := by
  cases stack with
  | none => exact absurd hstands hid
  | some trace => exact ⟨trace, hstands⟩

/-- Every hit is one of a stack that is filed. -/
theorem exists_trace_of_hit {records : List WireEvent} {samples : List Sample}
    (htells : List.Forall₂ (Tells hash traces) records samples) {hit : StackHit}
    (hhit : hit ∈ (records.map fromWire).flatMap stackHits) :
    ∃ trace, hit.id = bucketId (hash trace) ∧ Held hash traces trace := by
  induction htells with
  | nil => cases hhit
  | @cons e sample records samples hhead htail ih =>
      rw [List.map_cons, List.flatMap_cons, List.mem_append] at hhit
      rcases hhit with hhere | hrest
      · obtain ⟨hid, rfl | rfl⟩ := mem_stackHits.mp hhere
        · exact hhead.user.exists_trace hid
        · exact hhead.kern.exists_trace hid
      · exact ih hrest

/-- A stack with times is filed. -/
theorem held_of_times {records : List WireEvent} {samples : List Sample}
    (htells : List.Forall₂ (Tells hash traces) records samples) {trace : Trace}
    (htimes : times samples trace ≠ []) : Held hash traces trace := by
  induction htells with
  | nil => exact absurd rfl htimes
  | @cons e sample records samples hhead htail ih =>
      by_cases huser : sample.origin.user = some trace
      · exact (huser ▸ hhead.user).2
      · by_cases hkern : sample.origin.kern = some trace
        · exact (hkern ▸ hhead.kern).2
        · apply ih
          rw [times, List.flatMap_cons, if_neg huser, if_neg hkern] at htimes
          exact htimes

/-- Of the events that the aggregator adds to its tables, only slow calls have
stacks. -/
def StacksOfSlow (e : WireEvent) : Prop :=
  (if isTimed (fromWire e) then stackHits (fromWire e) else []) =
    if e.type = EvType.syscallSlow.code then stackHits (fromWire e) else []

theorem stacksOfSlow_of_record {ro : Rodata} {call : Call} {m : Maps} {e : WireEvent}
    (hrecord : call.record ro m = some e) : StacksOfSlow e := by
  cases call with
  | sysEnter task input => cases hrecord
  | sysExit task input =>
      obtain ⟨entry, slot, -, -, -, rfl⟩ := record_sysExit.mp hrecord
      rfl
  | schedSwitch input =>
      obtain ⟨state, slot, -, -, -, -, rfl⟩ := record_schedSwitch.mp hrecord
      rfl
  | processExec task input =>
      obtain ⟨slot, -, -, rfl⟩ := record_processExec.mp hrecord
      rfl
  | processExit task input =>
      obtain ⟨slot, -, -, rfl⟩ := record_processExit.mp hrecord
      rfl

theorem flatMap_filter {α β : Type*} (keep : α → Bool) (f : α → List β) (items : List α) :
    (items.filter keep).flatMap f = items.flatMap fun item => if keep item then f item else [] := by
  induction items with
  | nil => rfl
  | cons item items ih =>
      rw [List.filter_cons, List.flatMap_cons, ← ih]
      split
      · rfl
      · rfl

theorem flatMap_stackHits {records : List WireEvent} (hslow : ∀ e ∈ records, StacksOfSlow e) :
    ((records.map fromWire).filter isTimed).flatMap stackHits =
      ((records.filter fun e => e.type = EvType.syscallSlow.code).map fromWire).flatMap
        stackHits :=
  calc ((records.map fromWire).filter isTimed).flatMap stackHits
      = records.flatMap fun e =>
          if isTimed (fromWire e) then stackHits (fromWire e) else [] := by
        rw [flatMap_filter, List.flatMap_map]
    _ = records.flatMap fun e =>
          if e.type = EvType.syscallSlow.code then stackHits (fromWire e) else [] :=
        List.flatMap_congr hslow
    _ = ((records.filter fun e => e.type = EvType.syscallSlow.code).map fromWire).flatMap
          stackHits := by
        rw [List.flatMap_map, flatMap_filter]
        simp only [decide_eq_true_eq]

/-- What an entry of the table says about a stack: the addresses that are shown for
it, and the number and the sum of its times. -/
structure EntryOf (skel : Skeleton) (samples : List Sample) (trace : Trace)
    (st : StackStats) : Prop where
  addrs : readStack (some skel) st.stackId.toInt32 = trace.shown
  count : st.count = UInt64.ofNat (times samples trace).length
  totalNs : st.totalNs = UInt64.ofNat (times samples trace).sum

variable {events : List Event} {records : List WireEvent} {samples : List Sample}
  {trace : Trace} {st : StackStats}

theorem entryOf_of_lookup
    (hhits : (events.filter isTimed).flatMap stackHits =
      (records.map fromWire).flatMap stackHits)
    (htells : List.Forall₂ (Tells hash traces) records samples)
    (hheld : Held hash traces trace) {skel : Skeleton} (hfd : 0 ≤ skel.stackTraces.fd)
    (hmap : skel.stackTraces.lookup = lookupTrace traces)
    (hlookup : (feed events).stackStats.lookup (bucketId (hash trace)) = some st) :
    EntryOf skel samples trace st := by
  have hid := stackId_eq_key hlookup
  rw [feed_stackStats, hhits] at hlookup
  have htimes := group_hits htells hheld
  constructor
  case addrs =>
    rw [hid]
    exact readStack_bucketId hfd hmap hheld
  case count =>
    rw [counter_of_lookup_collect StackStats.count rfl (fun count => UInt64.ofNat_add count 1)
      rfl (fun _ _ => rfl) hlookup, ← htimes, List.length_map]
  case totalNs =>
    rw [field_of_lookup_collect StackStats.totalNs (fun hit : StackHit => hit.ev.durationNs) rfl
      (fun _ _ => rfl) hlookup, weigh_eq_ofNat, ← htimes]
    rfl

end Table

section Whole

variable {Task : Type*} [DecidableEq Task] {ro : Rodata} {key : Task → TaskKey} {hash}

/-- The action of a firing, with the answers of `bpf_get_stackid`. -/
def Firing.resolved (hash : Trace → Fin maxStackTraces) (ro : Rodata) (traces : StackTraces)
    (firing : Firing Task) : SyscallPairing.Action Task :=
  match firing.action with
  | .sysEnter task context input =>
      .sysEnter task context (answered hash ro context input firing traces)
  | action => action

theorem pairing_exec (w : World Task) (firing : Firing Task) :
    (exec hash ro key w firing).pairing =
      SyscallPairing.exec ro w.pairing (firing.resolved hash ro w.traces) := by
  obtain ⟨action, user, kern⟩ := firing
  cases action with
  | _ => rfl

variable (hash ro key) in
theorem stacksOfSlow_run (firings : List (Firing Task)) :
    ∀ e ∈ (run (exec hash ro key) (World.initial Task) firings).pairing.maps.events,
      StacksOfSlow e := by
  apply (always_of_step (fun w : World Task => ∀ e ∈ w.pairing.maps.events, StacksOfSlow e)
    _ _ firings).last
  · intro w firing hold e he
    rw [pairing_exec, events_exec, List.mem_append, Option.mem_toList] at he
    rcases he with hbefore | hnew
    · exact hold e hbefore
    · obtain ⟨call, -, hrecord⟩ := Option.bind_eq_some_iff.mp hnew
      exact stacksOfSlow_of_record hrecord
  · intro e he
    cases he

/-- In every run of tasks with keys of their own, the table of stacks of a live command
is the table of the stacks that the reported calls were entered from and got an id for:
each of them has an entry of its own and there are no others, `read_stack` gives the
addresses that were walked, up to zeros at the end, and the entry has the number and
the sum of the true durations of the calls, modulo `2 ^ 64`. -/
theorem stack_table_exact (hash : Trace → Fin maxStackTraces) {firings : List (Firing Task)}
    (hrun : Along (exec hash ro key) (Allowed ro key) (World.initial Task) firings) :
    let final := run (exec hash ro key) (World.initial Task) firings
    let table := (consumed final.pairing.maps.events).stackStats
    ∀ skel : Skeleton, 0 ≤ skel.stackTraces.fd →
      skel.stackTraces.lookup = lookupTrace final.traces →
      (∀ id st, table.lookup id = some st → ∃ trace, id = bucketId (hash trace) ∧
        times final.samples trace ≠ [] ∧ EntryOf skel final.samples trace st) ∧
      (∀ trace, times final.samples trace ≠ [] → ∃ st,
        table.lookup (bucketId (hash trace)) = some st ∧
          EntryOf skel final.samples trace st) ∧
      ∀ trace other, times final.samples trace ≠ [] → times final.samples other ≠ [] →
        hash trace = hash other → trace = other := by
  intro final table skel hfd hmap
  have hkept : Kept hash ro key final := kept_run hrun
  have hhits := flatMap_stackHits (stacksOfSlow_run hash ro key firings)
  have htable : table = (feed (final.pairing.maps.events.map fromWire)).stackStats :=
    congrArg Aggregator.stackStats (consumed_eq _)
  have hentry : ∀ trace st, Held hash final.traces trace →
      table.lookup (bucketId (hash trace)) = some st → EntryOf skel final.samples trace st := by
    intro trace st hheld hlookup
    rw [htable] at hlookup
    exact entryOf_of_lookup hhits hkept.records hheld hfd hmap hlookup
  have hheld : ∀ trace, times final.samples trace ≠ [] → Held hash final.traces trace :=
    fun trace => held_of_times hkept.records
  refine ⟨?_, ?_, ?_⟩
  · intro id st hlookup
    have hcollected := hlookup
    rw [htable, feed_stackStats, hhits] at hcollected
    obtain ⟨hgroup, -⟩ := lookup_collect_eq_some.mp hcollected
    obtain ⟨hit, hhit⟩ := List.exists_mem_of_ne_nil _ hgroup
    obtain ⟨hmem, rfl⟩ := mem_group.mp hhit
    obtain ⟨trace, hid, htrace⟩ := exists_trace_of_hit hkept.records hmem
    rw [hid] at hlookup hgroup
    refine ⟨trace, hid, ?_, hentry trace st htrace hlookup⟩
    rw [← group_hits hkept.records htrace]
    exact fun hnil => hgroup (List.map_eq_nil_iff.mp hnil)
  · intro trace htimes
    have htrace := hheld trace htimes
    rw [← group_hits hkept.records htrace, Ne, List.map_eq_nil_iff] at htimes
    obtain ⟨st, hlookup⟩ : ∃ st, table.lookup (bucketId (hash trace)) = some st := by
      rw [htable, feed_stackStats, hhits, lookup_collect_empty]
      exact ⟨_, if_neg htimes⟩
    exact ⟨st, hlookup, hentry trace st htrace hlookup⟩
  · intro trace other htrace hother hsame
    exact ((hheld trace htrace).hash_eq_iff (hheld other hother)).mp hsame

/-- The stack of a reader: `main` and its caller. -/
def readerStack : Trace where
  addrs := [0x555555555140, 0x7f0000001000]
  depth := by decide

/-- A single task reads for one millisecond. -/
theorem stack_table_exact_read :
    let ro := Rodata.default
    let key : Unit → TaskKey := fun _ => ⟨7, 8⟩
    let hash : Trace → Fin maxStackTraces := fun _ => 5
    let context := TaskContext.ofIds 7 8
    let firings : List (Firing Unit) :=
      [.start () false, .sysEnter () context ⟨0, 1000, 0, 0, 0, true⟩,
        .sysExit () context ⟨1001000, 1001001, some WireEvent.zero⟩].map fun action =>
          ⟨action, .found readerStack, .failed (-14) (by decide)⟩
    let final := run (exec hash ro key) (World.initial Unit) firings
    let skel := { afterIdle with stackTraces := ⟨6, lookupTrace final.traces⟩ }
    ∃ st, (consumed final.pairing.maps.events).stackStats.lookup 5 = some st ∧
      readStack (some skel) st.stackId.toInt32 = [0x555555555140, 0x7f0000001000] ∧
      st.count = 1 ∧ st.totalNs = 1000000 := by
  intro ro key hash context firings final skel
  have hrun : Along (exec hash ro key) (Allowed ro key) (World.initial Unit) firings := by
    refine ⟨⟨rfl, fun other h => absurd rfl h⟩, ⟨rfl, ?_, ?_⟩, ⟨⟨_, rfl⟩, ?_, ?_⟩, trivial⟩
    all_goals decide
  have htimes : times final.samples readerStack = [1000000] := by decide +kernel
  have htable := stack_table_exact hash hrun skel (by decide) rfl
  have hcalls : times final.samples readerStack ≠ [] := htimes ▸ List.cons_ne_nil _ _
  obtain ⟨st, hlookup, hentry⟩ := htable.2.1 readerStack hcalls
  have hcount := hentry.count
  have htotal := hentry.totalNs
  rw [htimes] at hcount htotal
  exact ⟨st, hlookup, hentry.addrs, hcount, htotal⟩

end Whole

end KernelScope.StackTimes
