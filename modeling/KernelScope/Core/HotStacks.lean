import KernelScope.Core.Aggregation

/-!
# Processes of hot stacks

Stack entries are kept per stack id, and the ids name stacks by their contents,
so several processes can share an entry.  The process id of an entry is the
first one that is not zero.
-/

namespace KernelScope.HotStacks

open KernelScope.Aggregation
open KernelScope.Events
open KernelScope.KeyedFold

/-- The calls that reach the entry of a stack id. -/
def hitsOf (id : Int64) (events : List Event) : List StackHit :=
  group StackHit.id id ((events.filter isTimed).flatMap stackHits)

/-- The events that are added to the entry of a stack id, twice if both of their
stacks have this id. -/
def attributed (id : Int64) (events : List Event) : List Event :=
  (hitsOf id events).map StackHit.ev

theorem mem_stackHits {ev : Event} {hit : StackHit} :
    hit ∈ stackHits ev ↔ ¬hit.id < 0 ∧
      (hit = ⟨ev, ev.userStackId, false⟩ ∨ hit = ⟨ev, ev.kernStackId, true⟩) := by
  have hone : ∀ (id : Int64) (kern : Bool),
      (hit ∈ if id < 0 then [] else [(⟨ev, id, kern⟩ : StackHit)]) ↔
        ¬hit.id < 0 ∧ hit = ⟨ev, id, kern⟩ := by
    intro id kern
    constructor
    · intro hhit
      split at hhit
      · cases hhit
      next hid =>
        obtain rfl := List.mem_singleton.mp hhit
        exact ⟨hid, rfl⟩
    · rintro ⟨hid, rfl⟩
      rw [if_neg hid]
      exact List.mem_singleton_self _
  rw [stackHits, List.mem_append, hone, hone, ← and_or_left]

theorem mem_attributed {id : Int64} {events : List Event} {ev : Event} :
    ev ∈ attributed id events ↔ (ev ∈ events ∧ isTimed ev = true) ∧ ¬id < 0 ∧
      (ev.userStackId = id ∨ ev.kernStackId = id) := by
  rw [← List.mem_filter]
  simp only [attributed, hitsOf, List.mem_map, mem_group, List.mem_flatMap,
    mem_stackHits]
  constructor
  · rintro ⟨hit, ⟨⟨other, hother, hid, hhit⟩, rfl⟩, rfl⟩
    rcases hhit with rfl | rfl
    · exact ⟨hother, hid, Or.inl (Eq.refl other.userStackId)⟩
    · exact ⟨hother, hid, Or.inr (Eq.refl other.kernStackId)⟩
  · rintro ⟨hev, hid, huser | hkern⟩
    · exact ⟨⟨ev, id, false⟩, ⟨⟨ev, hev, hid, .inl (by rw [huser])⟩, rfl⟩, rfl⟩
    · exact ⟨⟨ev, id, true⟩, ⟨⟨ev, hev, hid, .inr (by rw [hkern])⟩, rfl⟩, rfl⟩

/-- The first process id that is not zero. -/
def firstPid : List Event → UInt32
  | [] => 0
  | ev :: events => if ev.pid = 0 then firstPid events else ev.pid

/-- An entry keeps its process id once it has one. -/
theorem pid_foldl_add (hits : List StackHit) (st : StackStats) :
    (hits.foldl (fun st hit => StackStats.add hit st) st).pid =
      if st.pid = 0 then firstPid (hits.map StackHit.ev) else st.pid := by
  induction hits generalizing st with
  | nil => simp [firstPid]
  | cons hit hits ih =>
      rw [List.foldl_cons, ih, List.map_cons, firstPid]
      by_cases hpid : st.pid = 0
      · simp [StackStats.add, hpid]
      · simp [StackStats.add, hpid]

theorem firstPid_eq {events : List Event} {pid : UInt32} (hevents : events ≠ [])
    (hpid : ∀ ev ∈ events, ev.pid = pid) : firstPid events = pid := by
  induction events with
  | nil => exact absurd rfl hevents
  | cons ev events ih =>
      have hhead : ev.pid = pid := hpid ev (List.mem_cons_self ..)
      rw [firstPid, hhead]
      split
      next hzero =>
        by_cases hnil : events = []
        · rw [hnil, firstPid, hzero]
        · exact ih hnil fun other hother => hpid other (List.mem_cons_of_mem _ hother)
      next => rfl

theorem forall_pid_eq_firstPid_iff (events : List Event) :
    (∀ ev ∈ events, ev.pid = firstPid events) ↔
      ∀ ev ∈ events, ∀ other ∈ events, ev.pid = other.pid := by
  constructor
  · intro hall ev hev other hother
    rw [hall ev hev, hall other hother]
  · intro hsame ev hev
    exact (firstPid_eq (List.ne_nil_of_mem hev) fun other hother =>
      hsame other hother ev hev).symm

/-- After any sequence of calls, an entry holds the durations of the events that
are attributed to it and the first of their process ids, which is the process of
all of them exactly when they come from one process. -/
theorem stack_entry_pid (ops : List Op) (id : Int64) (st : StackStats)
    (hst : (StepRun.run exec Aggregator.fresh ops).stackStats.lookup id = some st) :
    let events := attributed id (ledger [] ops)
    st.totalNs = weigh Event.durationNs events ∧
      st.count = UInt64.ofNat events.length ∧
      st.pid = firstPid events ∧
      ((∀ ev ∈ events, ev.pid = st.pid) ↔
        ∀ ev ∈ events, ∀ other ∈ events, ev.pid = other.pid) := by
  have hrun : StepRun.run exec Aggregator.fresh ops = feed (ledger [] ops) :=
    run_exec [] ops
  rw [hrun, feed_stackStats] at hst
  obtain ⟨-, hfold⟩ := lookup_collect_eq_some.mp hst
  intro events
  have hpid : st.pid = firstPid events := by
    rw [← hfold, pid_foldl_add]
    rfl
  refine ⟨?_, ?_, hpid, ?_⟩
  · have htotal := field_of_lookup_collect StackStats.totalNs
      (fun hit : StackHit => hit.ev.durationNs) rfl (fun _ _ => rfl) hst
    simpa [events, attributed, hitsOf, weigh, Function.comp_def] using htotal
  · have hcount := counter_of_lookup_collect StackStats.count rfl
      (fun count => UInt64.ofNat_add count 1) rfl (fun _ _ => rfl) hst
    simpa [events, attributed, hitsOf] using hcount
  · rw [hpid]
    exact forall_pid_eq_firstPid_iff events

/-- A slow read in a process, with a user stack. -/
def readWithStack (pid : UInt32) (id : Int64) : Event :=
  { sampleRead pid with userStackId := id }

/-- Two processes with the same stack share an entry, and the time of both is
shown for the first one. -/
theorem stack_entry_of_two_processes :
    ∃ st, (StepRun.run exec Aggregator.fresh
        [.process (readWithStack 10 5), .process (readWithStack 20 5)]).stackStats.lookup 5 =
          some st ∧
      st.pid = 10 ∧ st.count = 2 ∧
      ∃ ev ∈ attributed 5 [readWithStack 10 5, readWithStack 20 5], ev.pid ≠ st.pid := by
  refine ⟨⟨5, 600000, 2, 10, .syscallSlow, false⟩, by decide +kernel, rfl, rfl, ?_⟩
  exact ⟨readWithStack 20 5, mem_attributed.mpr (by decide), by decide⟩

/-- Two reads of one process, with a read of another one in between whose stack is a
different one. -/
theorem stack_entry_of_one_process :
    let events := attributed 5 [readWithStack 10 5, readWithStack 20 6, readWithStack 10 5]
    (600000 : UInt64) = weigh Event.durationNs events ∧
      (2 : UInt64) = UInt64.ofNat events.length ∧ (10 : UInt32) = firstPid events ∧
      ∀ ev ∈ events, ev.pid = 10 := by
  intro events
  obtain ⟨htotal, hcount, hpid, hone⟩ := stack_entry_pid
    [.process (readWithStack 10 5), .process (readWithStack 20 6),
      .process (readWithStack 10 5)] 5 ⟨5, 600000, 2, 10, .syscallSlow, false⟩ (by decide +kernel)
  exact ⟨htotal, hcount, hpid, hone.mpr (by decide +kernel)⟩

end KernelScope.HotStacks
