import KernelScope.Cli.LiveLoop
import KernelScope.Library.StepRun

/-!
# What a window reset removes

The live loops redraw and reset on two timers, `last_draw` and `t0`, that are
read at the same moments.  A reset can come between two redraws; what it then
removes without having been shown was handed over since the last redraw, less
than a second before.  With a window of one second the timers never part.
-/

namespace KernelScope.WindowResets

open KernelScope.Aggregation
open KernelScope.Classifications
open KernelScope.Collection
open KernelScope.EventDecoder
open KernelScope.Events
open KernelScope.LiveLoop
open KernelScope.StepRun
open KernelScope.WireFormat

/-- An event in the aggregator: the clock reading after the poll that handed it
over, and whether it has been there at a draw. -/
structure Occurrence where
  ev : Event
  polledAt : UInt64
  drawn : Bool
  deriving DecidableEq

/-- A live loop with its latest clock reading and what is in its aggregator. -/
structure Watched where
  live : Live
  clock : UInt64
  content : List Occurrence

def Watched.start (t0 : UInt64) : Watched where
  live := Live.start t0
  clock := t0
  content := []

/-- The events a poll hands to `process_event`. -/
def handedOver (records : List (List UInt8)) : List Event :=
  (records.filterMap decodeEvent).map classified

section Watch

variable (table : Table) (cfg : Config) (s : Watched) (it : Iteration)

/-- What the aggregator holds after the poll. -/
def Watched.polled : List Occurrence :=
  s.content ++ (handedOver it.records).map fun ev => ⟨ev, it.now, false⟩

/-- The test for a redraw. -/
def Watched.Draws : Prop :=
  it.now - s.live.lastDraw ≥ 1000000000

instance decidableDraws : Decidable (s.Draws it) :=
  inferInstanceAs (Decidable (_ ≥ _))

/-- The same after the redraw, if there is one. -/
def Watched.shown : List Occurrence :=
  if s.Draws it then (s.polled it).map fun o => { o with drawn := true }
  else s.polled it

/-- What the iteration's reset removes, if there is one. -/
def Watched.removed : List Occurrence :=
  if WindowOver cfg s.live.t0 it.now then s.shown it else []

def watch : Watched where
  live := iterate table cfg it s.live
  clock := it.reading
  content := if WindowOver cfg s.live.t0 it.now then [] else s.shown it

/-- The iteration appends a draw of what the aggregator holds, or none. -/
def DrawsContent : Prop :=
  ∃ received lost, (iterate table cfg it s.live).draws =
    s.live.draws ++ if s.Draws it then
      [⟨table, cfg.topN, feed ((s.polled it).map Occurrence.ev), received, lost⟩]
    else []

/-- Everything a reset removes has been in the aggregator at a draw. -/
def RemovesSeen : Prop :=
  ∀ o ∈ s.removed cfg it, o.drawn = true

instance decidableRemovesSeen : Decidable (RemovesSeen cfg s it) :=
  inferInstanceAs (Decidable (∀ o ∈ s.removed cfg it, o.drawn = true))

/-- What a reset removes unseen was handed over after the last draw, which was
less than a second before. -/
def RemovesSeenOrRecent : Prop :=
  ∀ o ∈ s.removed cfg it, o.drawn = true ∨
    s.live.lastDraw ≤ o.polledAt ∧
      it.now.toNat < s.live.lastDraw.toNat + 1000000000

/-- The clock does not go back. -/
def Advances : Prop :=
  s.clock ≤ it.now ∧ it.now ≤ it.reading

end Watch

/-! ## One iteration -/

section Iterate

variable {records : List (List UInt8)} {collector : Collector Aggregator}

theorem poll_eq (hcallback : collector.callback = some liveCallback) :
    (poll records collector).callback = some liveCallback ∧
      (poll records collector).app =
        (handedOver records).foldl (fun agg ev => processEvent ev agg)
          collector.app := by
  induction records generalizing collector with
  | nil => exact ⟨hcallback, rfl⟩
  | cons raw records ih =>
      cases hdecode : decodeEvent raw with
      | none =>
          have hraw : handleEvent raw collector =
              { collector with decodeErrors := collector.decodeErrors + 1 } := by
            simp only [handleEvent, hdecode]
          have hhanded : handedOver (raw :: records) = handedOver records := by
            rw [handedOver, List.filterMap_cons_none hdecode, handedOver]
          rw [poll, List.foldl_cons, hraw, hhanded]
          exact ih hcallback
      | some ev =>
          have hraw : handleEvent raw collector =
              { collector with
                received := collector.received + 1
                app := processEvent (classified ev) collector.app } := by
            simp only [handleEvent, hdecode, hcallback, liveCallback]
          have hhanded : handedOver (raw :: records) =
              classified ev :: handedOver records := by
            rw [handedOver, List.filterMap_cons_some hdecode, handedOver,
              List.map_cons]
          rw [poll, List.foldl_cons, hraw, hhanded, List.foldl_cons]
          exact ih hcallback

end Iterate

/-- What the aggregator holds, what the last draw has missed of it, and how the
two timers relate. -/
structure Sound (cfg : Config) (s : Watched) : Prop where
  callback : s.live.collector.callback = some liveCallback
  app : s.live.collector.app = feed (s.content.map Occurrence.ev)
  lastDraw : s.live.lastDraw ≤ s.clock
  undrawn : ∀ o ∈ s.content, o.drawn = false → s.live.lastDraw ≤ o.polledAt
  oneSecond : cfg.windowSec = 1 → s.live.t0 = s.live.lastDraw

theorem sound_start (cfg : Config) (t0 : UInt64) : Sound cfg (Watched.start t0) where
  callback := rfl
  app := rfl
  lastDraw := UInt64.le_refl t0
  undrawn o ho := by cases ho
  oneSecond _ := rfl

section Step

variable {table : Table} {cfg : Config} {s : Watched} {it : Iteration}

theorem app_poll (hsound : Sound cfg s) :
    (poll it.records s.live.collector).app =
      feed ((s.polled it).map Occurrence.ev) := by
  have hmap : (s.polled it).map Occurrence.ev =
      s.content.map Occurrence.ev ++ handedOver it.records := by
    simp [Watched.polled, Function.comp_def]
  calc (poll it.records s.live.collector).app
      = (handedOver it.records).foldl (fun agg ev => processEvent ev agg)
          s.live.collector.app := (poll_eq hsound.callback).2
    _ = (handedOver it.records).foldl (fun agg ev => processEvent ev agg)
          (feed (s.content.map Occurrence.ev)) := by rw [hsound.app]
    _ = feed (s.content.map Occurrence.ev ++ handedOver it.records) := by
          rw [feed, feed, List.foldl_append]
    _ = feed ((s.polled it).map Occurrence.ev) := by rw [hmap]

theorem map_ev_shown (s : Watched) (it : Iteration) :
    (s.shown it).map Occurrence.ev = (s.polled it).map Occurrence.ev := by
  unfold Watched.shown
  split
  · rw [List.map_map]
    rfl
  · rfl

/-- After the poll, too, what has not been drawn came after the last draw. -/
theorem lastDraw_le_polledAt (hsound : Sound cfg s) (hadvances : Advances s it)
    {o : Occurrence} (ho : o ∈ s.polled it) (hdrawn : o.drawn = false) :
    s.live.lastDraw ≤ o.polledAt := by
  rcases List.mem_append.mp ho with hold | hnew
  · exact hsound.undrawn o hold hdrawn
  -- what this poll hands over is stamped with a reading taken after it
  · obtain ⟨ev, -, rfl⟩ := List.mem_map.mp hnew
    exact UInt64.le_trans hsound.lastDraw hadvances.1

/-- Without a redraw, the last one was less than a second ago. -/
theorem now_lt_of_not_draws (hsound : Sound cfg s) (hadvances : Advances s it)
    (hdraws : ¬s.Draws it) :
    it.now.toNat < s.live.lastDraw.toNat + 1000000000 := by
  have hle := UInt64.le_trans hsound.lastDraw hadvances.1
  rw [Watched.Draws, ge_iff_le, UInt64.le_iff_toNat_le,
    UInt64.toNat_sub_of_le _ _ hle] at hdraws
  have hle' := UInt64.le_iff_toNat_le.mp hle
  have hsecond : (1000000000 : UInt64).toNat = 1000000000 := rfl
  omega

/-- A window of one second is over exactly when a redraw is due. -/
theorem windowOver_iff_draws (hsound : Sound cfg s) (hwindow : cfg.windowSec = 1) :
    WindowOver cfg s.live.t0 it.now ↔ s.Draws it := by
  rw [WindowOver, hwindow, hsound.oneSecond hwindow, Watched.Draws]
  exact and_iff_right (by decide)

theorem mem_removed_iff {o : Occurrence} :
    o ∈ s.removed cfg it ↔ WindowOver cfg s.live.t0 it.now ∧ o ∈ s.shown it := by
  unfold Watched.removed
  split <;> simp_all

theorem drawsContent (hsound : Sound cfg s) : DrawsContent table cfg s it := by
  refine ⟨(poll it.records s.live.collector).eventsReceived,
    (poll it.records s.live.collector).eventsLost, ?_⟩
  rw [iterate_eq, ← app_poll hsound]
  by_cases hdraws : s.Draws it
  · rw [if_pos hdraws]
    exact if_pos hdraws
  · rw [if_neg hdraws, List.append_nil]
    exact if_neg hdraws

theorem callback_watch (hsound : Sound cfg s) :
    (watch table cfg s it).live.collector.callback = some liveCallback := by
  rw [watch, iterate_eq]
  dsimp only
  split
  · exact (poll_eq hsound.callback).1
  · exact (poll_eq hsound.callback).1

theorem app_watch (hsound : Sound cfg s) :
    (watch table cfg s it).live.collector.app =
      feed ((watch table cfg s it).content.map Occurrence.ev) := by
  rw [watch, iterate_eq]
  dsimp only
  split
  · rfl
  · rw [map_ev_shown, app_poll hsound]

theorem lastDraw_watch :
    (watch table cfg s it).live.lastDraw =
      if s.Draws it then it.now else s.live.lastDraw := by
  rw [watch, iterate_eq]
  rfl

/-- A draw leaves nothing undrawn; without one the old bound stands. -/
theorem undrawn_shown (hsound : Sound cfg s) (hadvances : Advances s it)
    {o : Occurrence} (ho : o ∈ s.shown it) (hdrawn : o.drawn = false) :
    ¬s.Draws it ∧ s.live.lastDraw ≤ o.polledAt := by
  unfold Watched.shown at ho
  split at ho
  next =>
    obtain ⟨_, -, rfl⟩ := List.mem_map.mp ho
    cases hdrawn
  next hdraws => exact ⟨hdraws, lastDraw_le_polledAt hsound hadvances ho hdrawn⟩

theorem removesSeenOrRecent (hsound : Sound cfg s) (hadvances : Advances s it) :
    RemovesSeenOrRecent cfg s it := by
  intro o ho
  obtain ⟨-, hshown⟩ := mem_removed_iff.mp ho
  cases hdrawn : o.drawn with
  | true => exact .inl rfl
  | false =>
      obtain ⟨hdraws, hle⟩ := undrawn_shown hsound hadvances hshown hdrawn
      exact .inr ⟨hle, now_lt_of_not_draws hsound hadvances hdraws⟩

theorem removesSeen_of_oneSecond (hsound : Sound cfg s) (hadvances : Advances s it)
    (hwindow : cfg.windowSec = 1) : RemovesSeen cfg s it := by
  intro o ho
  obtain ⟨hover, hshown⟩ := mem_removed_iff.mp ho
  by_contra hdrawn
  have hundrawn := undrawn_shown hsound hadvances hshown
    (Bool.eq_false_iff.mpr hdrawn)
  exact hundrawn.1 ((windowOver_iff_draws hsound hwindow).mp hover)

theorem sound_watch (hsound : Sound cfg s) (hadvances : Advances s it) :
    Sound cfg (watch table cfg s it) where
  callback := callback_watch hsound
  app := app_watch hsound
  lastDraw := by
    rw [lastDraw_watch]
    split
    · exact hadvances.2
    · exact UInt64.le_trans hsound.lastDraw
        (UInt64.le_trans hadvances.1 hadvances.2)
  undrawn o ho hdrawn := by
    have hshown : o ∈ s.shown it := by
      unfold watch at ho
      dsimp only at ho
      split at ho
      · cases ho
      · exact ho
    obtain ⟨hdraws, hle⟩ := undrawn_shown hsound hadvances hshown hdrawn
    rw [lastDraw_watch, if_neg hdraws]
    exact hle
  oneSecond hwindow := by
    -- the timers agreed before, so one test decides for both
    rw [lastDraw_watch, watch, iterate_t0, hsound.oneSecond hwindow]
    exact if_congr (hsound.oneSecond hwindow ▸
      windowOver_iff_draws hsound hwindow) rfl rfl

end Step

/-! ## Whole runs -/

section Runs

variable {table : Table} {cfg : Config}

theorem along_advances {s : Watched} {its : List Iteration}
    (hmono : Monotonic s.clock its) : Along (watch table cfg) Advances s its := by
  induction its generalizing s with
  | nil => trivial
  | cons it its ih =>
      rw [Monotonic, readings, List.flatMap_cons, List.pairwise_cons] at hmono
      obtain ⟨hclock, hrest⟩ := hmono
      rw [List.cons_append, List.pairwise_cons] at hrest
      exact ⟨⟨hclock _ (by simp), hrest.1 _ (by simp)⟩, ih hrest.2⟩

theorem Monotonic.begun {start : UInt64} {begun rest : List Iteration}
    (hmono : Monotonic start (begun ++ rest)) : Monotonic start begun := by
  rw [Monotonic, readings, List.flatMap_append, ← List.cons_append] at hmono
  exact (List.pairwise_append.mp hmono).1

/-- The loop runs through the iterations it begins. -/
theorem liveLoop_eq_run (table : Table) (cfg : Config) (s : Watched)
    (its : List Iteration) :
    ∃ begun, its = begun ++ (liveLoop table cfg s.live its).2 ∧
      (liveLoop table cfg s.live its).1 = (run (watch table cfg) s begun).live := by
  induction its generalizing s with
  | nil => exact ⟨[], rfl, rfl⟩
  | cons it its ih =>
      rw [liveLoop]
      split
      · exact ⟨[], rfl, rfl⟩
      · dsimp only
        split
        · exact ⟨[it], rfl, rfl⟩
        · obtain ⟨begun, hits, hrun⟩ := ih (watch table cfg s it)
          exact ⟨it :: begun, congrArg (it :: ·) hits, hrun⟩

end Runs

/-- `begun` are the iterations a loop went through; what `watch` records as
content along them is what the aggregator holds and the draws show. -/
structure Followed
    (loop : Config → UInt64 → List Iteration → Live × List Iteration)
    (table : Table) (cfg : Config) (start : UInt64) (its begun : List Iteration) :
    Prop where
  split : its = begun ++ (loop cfg start its).2
  result : (loop cfg start its).1 =
    (run (watch table cfg) (Watched.start start) begun).live
  holds : Always (watch table cfg)
    (fun s => s.live.collector.app = feed (s.content.map Occurrence.ev))
    (Watched.start start) begun
  draws : Along (watch table cfg) (DrawsContent table cfg)
    (Watched.start start) begun

theorem exists_followed (table : Table) (cfg : Config) {start : UInt64}
    {its : List Iteration} (hmono : Monotonic start its) :
    ∃ begun,
      Followed (fun cfg start => liveLoop table cfg (Live.start start)) table cfg
        start its begun ∧
      Along (watch table cfg) Advances (Watched.start start) begun := by
  obtain ⟨begun, hbegun, hresult⟩ :=
    liveLoop_eq_run table cfg (Watched.start start) its
  have hadvances : Along (watch table cfg) Advances (Watched.start start) begun :=
    along_advances (Monotonic.begun (hbegun ▸ hmono))
  have hsound : Always (watch table cfg) (Sound cfg) (Watched.start start) begun :=
    always_of_invariant (Sound cfg) (fun _ _ => sound_watch)
      (sound_start cfg start) hadvances
  have hdraws : Along (watch table cfg) (DrawsContent table cfg)
      (Watched.start start) begun :=
    along_of_invariant (Sound cfg) (fun _ _ => sound_watch)
      (fun _ _ hsound _ => drawsContent hsound) (sound_start cfg start) hadvances
  exact ⟨begun, ⟨hbegun, hresult, hsound.imp fun _ h => h.app, hdraws⟩, hadvances⟩

/-- What a window reset removes has been in the aggregator at an earlier draw
of the loop, or was handed over after the last one and less than a second
passed since; with a window of one second it has always been drawn. -/
theorem reset_removes_seen_or_recent (cfg : Config) (start : UInt64)
    (its : List Iteration) (hmono : Monotonic start its) :
    ∀ loop ∈ [runTop, runTopOffcpu, runTopSyscalls, runHotStacks],
      ∃ table begun, Followed loop table cfg start its begun ∧
        Along (watch table cfg) (RemovesSeenOrRecent cfg)
          (Watched.start start) begun ∧
        (cfg.windowSec = 1 →
          Along (watch table cfg) (RemovesSeen cfg)
            (Watched.start start) begun) := by
  intro loop hloop
  obtain ⟨table, rfl⟩ := exists_table_of_mem hloop
  obtain ⟨begun, hfollowed, hadvances⟩ := exists_followed table cfg hmono
  have hstart := sound_start cfg start
  refine ⟨table, begun, hfollowed, ?_, fun hwindow => ?_⟩
  · exact along_of_invariant (Sound cfg) (fun _ _ => sound_watch)
      (fun _ _ => removesSeenOrRecent) hstart hadvances
  · exact along_of_invariant (Sound cfg) (fun _ _ => sound_watch)
      (fun _ _ hsound hadvances => removesSeen_of_oneSecond hsound hadvances hwindow)
      hstart hadvances

/-- A slow system call of process 7. -/
def slowCall : WireEvent :=
  { WireEvent.zero with pid := 7, tid := 7, type := 1, durationNs := 300000 }

/-- An iteration at one moment whose poll hands over the record of a slow call. -/
def busyIteration (time : UInt64) : Iteration :=
  { quietIteration time with records := [wireLayout.encode slowCall] }

theorem reset_removes_recent_only :
    ∃ table begun, Followed runTop table Config.default 0
        [busyIteration 1000000000, busyIteration 5500000000] begun ∧
      Along (watch table Config.default) (RemovesSeenOrRecent Config.default)
        (Watched.start 0) begun := by
  obtain ⟨table, begun, hfollowed, hremoves, -⟩ :=
    reset_removes_seen_or_recent Config.default 0
      [busyIteration 1000000000, busyIteration 5500000000] (by
        simp [Monotonic, readings, busyIteration, quietIteration]) runTop (by simp)
  exact ⟨table, begun, hfollowed, hremoves⟩

/-- With a window of two seconds, a slow call handed over at the end of the first
window is removed half a second after the only draw, which shows nothing. -/
theorem reset_hides_event :
    let cfg : Config := { Config.default with windowSec := 2 }
    let its := [quietIteration 1500000000, busyIteration 2000000000]
    let table : Table := .processes "Top Latency Processes" .totalLatency
    Monotonic 0 its ∧ (runTop cfg 0 its).2 = [] ∧
      (runTop cfg 0 its).1 = (run (watch table cfg) (Watched.start 0) its).live ∧
      ((runTop cfg 0 its).1.draws.map fun draw => draw.agg.total) = [0] ∧
      (runTop cfg 0 its).1.collector.received = 1 ∧
      (runTop cfg 0 its).1.collector.app.total = 0 ∧
      ¬Along (watch table cfg) (RemovesSeen cfg) (Watched.start 0) its := by
  intro cfg its table
  have hall : (runTop cfg 0 its).2 = [] := by decide +kernel
  have hrun : (runTop cfg 0 its).1 =
      (run (watch table cfg) (Watched.start 0) its).live := by
    obtain ⟨begun, hits, hrun⟩ := liveLoop_eq_run table cfg (Watched.start 0) its
    have hbegun : its = begun ++ (runTop cfg 0 its).2 := hits
    rw [hall, List.append_nil] at hbegun
    rw [← hbegun] at hrun
    exact hrun
  refine ⟨?_, hall, hrun, ?_, ?_, ?_, ?_⟩
  · simp [Monotonic, readings, its, busyIteration, quietIteration]
  · decide +kernel
  · decide +kernel
  · decide +kernel
  · decide +kernel

end KernelScope.WindowResets
