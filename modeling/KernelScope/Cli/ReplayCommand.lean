import KernelScope.Cli.LiveLoop
import KernelScope.Record.Replay

/-!
# Record and replay

`run_replay` of `cli/commands.cpp`, and the round trip through a `.ksr` file.
A recording that is cut at any byte past its header replays as a recording of
the events that were complete at the cut; the whole file gives the aggregator
that the live callback would have left.
-/

namespace KernelScope.ReplayCommand

open KernelScope.Aggregation
open KernelScope.Classifications
open KernelScope.Errors
open KernelScope.Events
open KernelScope.Format
open KernelScope.LiveLoop
open KernelScope.Recording
open KernelScope.Replay

/-- What `run_replay` prints from. -/
structure Report where
  agg : Aggregator
  eventsReplayed : UInt64

/-- `run_replay`; an error is logged and the command exits with 1. -/
def runReplay (path : String) (found : Except String (List UInt8)) :
    Except Error Report :=
  match openSource path found ReplaySource.new with
  | (_, .error error) => .error error
  | (source, .ok ()) =>
      match replay (some processEvent) source Aggregator.fresh with
      | (_, _, .error error) => .error error
      | (source, agg, .ok ()) =>
          .ok ⟨agg, (closeSource source).eventsReplayed⟩

section RoundTrip

variable (path : String) (clocks : Clocks) (objects : List EventObject)

theorem length_recordSession :
    (recordSession path clocks objects).disk.length =
      64 + 92 * objects.length := by
  rw [recordSession_disk, List.length_append, length_flatMap_frame]
  rw [headerLayout.length_encode, headerLayout_size]

/-- Opening a cut recording whose header is whole. -/
theorem openSource_cut {cut : ℕ} (hheader : 64 ≤ cut) (source : ReplaySource) :
    openSource path (.ok ((recordSession path clocks objects).disk.take cut))
        source =
      ({ source with file := some ((objects.flatMap frame).take (cut - 64)) },
        .ok ()) := by
  have hlength : (headerLayout.encode (makeHeader clocks)).length = 64 :=
    headerLayout.length_encode _
  have hcut :
      (recordSession path clocks objects).disk.take cut =
        headerLayout.encode (makeHeader clocks) ++
          (objects.flatMap frame).take (cut - 64) := by
    rw [recordSession_disk, List.take_append, hlength,
      List.take_of_length_le (hlength.trans_le hheader)]
  rw [hcut, openSource_makeHeader]

/-- Replaying a cut recording: every callback sees the events that are complete
at the cut, in order. -/
theorem replay_cut {App : Type*} {cut : ℕ}
    (hcut : cut ≤ (recordSession path clocks objects).disk.length)
    (callback : Event → App → App) (app : App) (count : UInt64) :
    replay (some callback)
        ⟨some ((objects.flatMap frame).take (cut - 64)), count⟩ app =
      (⟨some [], count + UInt64.ofNat ((cut - 64) / 92)⟩,
        ((objects.map Prod.fst).take ((cut - 64) / 92)).foldl
          (fun app ev => callback ev app) app, .ok ()) := by
  have hcomplete : (cut - 64) / 92 ≤ objects.length := by
    rw [length_recordSession] at hcut
    omega
  dsimp only [replay]
  rw [replayLoop_cut, List.length_take_of_le hcomplete, ← List.map_take,
    List.foldl_map]
  rfl

/-- The aggregator that the live callback leaves. -/
theorem foldl_liveCallback (events : List Event) :
    events.foldl (fun agg ev => liveCallback ev agg) Aggregator.fresh =
      feed events := by
  simp only [liveCallback, processEvent_classified, feed]

/-- The aggregator that replaying a whole recording leaves. -/
theorem runReplay_recordSession :
    runReplay path (.ok (recordSession path clocks objects).disk) =
      .ok ⟨(objects.map Prod.fst).foldl (fun agg ev => liveCallback ev agg)
          Aggregator.fresh,
        UInt64.ofNat (objects.map Prod.fst).length⟩ := by
  have hlength := length_recordSession path clocks objects
  have hheader : 64 ≤ 64 + 92 * objects.length := by omega
  have hcomplete : (64 + 92 * objects.length - 64) / 92 = objects.length := by
    omega
  have hall :
      (objects.map Prod.fst).take objects.length = objects.map Prod.fst :=
    List.take_of_length_le (by rw [List.length_map])
  have hopened := openSource_cut path clocks objects hheader ReplaySource.new
  have hreplayed :=
    replay_cut path clocks objects hlength.ge processEvent Aggregator.fresh 0
  rw [List.take_of_length_le hlength.le] at hopened
  rw [hcomplete, hall] at hreplayed
  rw [foldl_liveCallback, List.length_map, runReplay, hopened]
  simp only [ReplaySource.new, hreplayed, closeSource, zero_add, feed]

/-- Record and replay.  Short of the header the file is rejected; past it the
first `(cut - 64) / 92` events come back, each equal to the one written, and
the whole file rebuilds the live aggregator. -/
theorem record_replay_roundTrip {App : Type*} {cut : ℕ}
    (hcut : cut ≤ (recordSession path clocks objects).disk.length)
    (callback : Event → App → App) (app : App) :
    let file := (recordSession path clocks objects).disk
    let events := objects.map Prod.fst
    let opened := openSource path (.ok (file.take cut)) ReplaySource.new
    let replayed := replay (some callback) opened.1 app
    (cut < 64 → ∃ error, opened.2 = .error error) ∧
    (64 ≤ cut →
      opened.2 = .ok () ∧
      replayed.2.2 = .ok () ∧
      replayed.2.1 =
        (events.take ((cut - 64) / 92)).foldl
          (fun app ev => callback ev app) app ∧
      replayed.1.eventsReplayed = UInt64.ofNat ((cut - 64) / 92)) ∧
    file.length = 64 + 92 * events.length ∧
    runReplay path (.ok file) =
      .ok ⟨events.foldl (fun agg ev => liveCallback ev agg) Aggregator.fresh,
        UInt64.ofNat events.length⟩ := by
  intro file events opened replayed
  have hlength : file.length = 64 + 92 * events.length := by
    rw [length_recordSession, List.length_map]
  refine ⟨?_, ?_, hlength, ?_⟩
  · intro hshort
    have hheader : (file.take cut).length < 64 := by
      rw [List.length_take]
      omega
    exact ⟨_, congrArg Prod.snd (openSource_short path hheader _)⟩
  · intro hheader
    have hopened := openSource_cut path clocks objects hheader ReplaySource.new
    have hreplayed := replay_cut path clocks objects hcut callback app 0
    change openSource path (.ok (file.take cut)) ReplaySource.new = _ at hopened
    simp only [replayed, opened, hopened, ReplaySource.new, hreplayed, events,
      zero_add, and_self]
  · exact runReplay_recordSession path clocks objects

end RoundTrip

/-- Two events, and a crash in the payload of the second. -/
theorem roundTrip_torn_second :
    let file := (recordSession "run.ksr" ⟨7, 9⟩ [sampleObject 1, sampleObject 2]).disk
    let opened :=
      openSource "run.ksr" (.ok (file.take 200)) ReplaySource.new
    let replayed := replay (some fun ev log => log ++ [ev]) opened.1 []
    200 ≤ file.length ∧ opened.2 = .ok () ∧
      replayed.2.2 = .ok () ∧ replayed.2.1 = [(sampleObject 1).1] ∧
      replayed.1.eventsReplayed = 1 := by
  have hcut :
      200 ≤ (recordSession "run.ksr" ⟨7, 9⟩ [sampleObject 1, sampleObject 2]).disk.length := by
    rw [length_recordSession]
    decide
  have hroundTrip :=
    (record_replay_roundTrip "run.ksr" ⟨7, 9⟩ [sampleObject 1, sampleObject 2] hcut
      (fun ev log => log ++ [ev]) []).2.1 (by decide)
  simp only [List.map_cons, List.map_nil, Nat.reduceSub, Nat.reduceDiv,
    List.take_succ_cons, List.take_zero, List.foldl_cons, List.foldl_nil,
    List.nil_append] at hroundTrip
  simp only [hcut, hroundTrip, true_and]
  rfl

end KernelScope.ReplayCommand
