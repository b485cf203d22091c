import KernelScope.Record.Recording

/-!
# The replay source

`ReplaySource` of `record/replay.cpp`.  The source holds the bytes it has not
read yet; the callback is a state transformer, as for the collector.
-/

namespace KernelScope.Replay

open KernelScope.ByteCodec
open KernelScope.ByteStream
open KernelScope.Errors
open KernelScope.Events
open KernelScope.Format
open KernelScope.Recording

/-- `file` is what is left to read behind `file_`, and `none` when `file_` is
null. -/
structure ReplaySource where
  file : Option (List UInt8)
  eventsReplayed : UInt64
  deriving DecidableEq

def ReplaySource.new : ReplaySource where
  file := none
  eventsReplayed := 0

/-- `ReplaySource::open`.  `found` is the contents of the file, or the text of
the error if it cannot be opened.  A file that could be opened stays open, also
when its header is rejected. -/
def openSource (path : String) (found : Except String (List UInt8))
    (source : ReplaySource) : ReplaySource × Status :=
  match found with
  | .error strerror =>
      ({ source with file := none },
        .error (errnoError .ioError ("failed to open " ++ path) strerror))
  | .ok contents =>
      match fread headerLayout.size contents with
      | (none, rest) =>
          ({ source with file := some rest },
            .error (makeError .recordFormatError "failed to read KSR header"))
      | (some bytes, rest) =>
          ({ source with file := some rest },
            if validateHeader (headerLayout.decode bytes) then .ok ()
            else .error (makeError .recordFormatError "invalid KSR file"))

/-- A file shorter than a header is rejected. -/
theorem openSource_short (path : String) {contents : List UInt8}
    (hshort : contents.length < 64) (source : ReplaySource) :
    openSource path (.ok contents) source =
      ({ source with file := some [] },
        .error (makeError .recordFormatError "failed to read KSR header")) := by
  have hread : fread headerLayout.size contents = (none, []) := fread_short hshort
  simp only [openSource, hread]

/-- A file with a valid header is accepted, and its body is left to read. -/
theorem openSource_valid (path : String) {header : List UInt8}
    (hlength : header.length = 64)
    (hvalid : validateHeader (headerLayout.decode header) = true)
    (body : List UInt8) (source : ReplaySource) :
    openSource path (.ok (header ++ body)) source =
      ({ source with file := some body }, .ok ()) := by
  have hread : fread headerLayout.size (header ++ body) = (some header, body) :=
    fread_append body hlength
  simp only [openSource, hread, hvalid, if_true]

/-- A file that starts with the recorder's header is accepted. -/
theorem openSource_makeHeader (path : String) (clocks : Clocks)
    (rest : List UInt8) (source : ReplaySource) :
    openSource path
        (.ok (headerLayout.encode (makeHeader clocks) ++ rest)) source =
      ({ source with file := some rest }, .ok ()) := by
  apply openSource_valid path (headerLayout.length_encode _)
  rw [headerLayout.decode_encode, validateHeader_makeHeader]

/-- How the loop of `replay` leaves the file, the count and the callback's
state, and what it returns. -/
structure Outcome (App : Type*) where
  rest : List UInt8
  eventsReplayed : UInt64
  app : App
  status : Status

section Loop

variable {App : Type*}

/-- An empty `std::function` is not called. -/
def deliver (callback : Option (Event → App → App)) (ev : Event) (app : App) :
    App :=
  match callback with
  | some callback => callback ev app
  | none => app

/-- The loop of `ReplaySource::replay`. -/
def replayLoop (callback : Option (Event → App → App)) (file : List UInt8)
    (count : UInt64) (app : App) : Outcome App :=
  match _hsize : fread 4 file with
  | (none, rest) => ⟨rest, count, app, .ok ()⟩
  | (some bytes, afterSize) =>
      let size := FixedCodec.word32.decode bytes
      if size > 65536 then
        ⟨afterSize, count, app,
          .error (makeError .recordFormatError "event size exceeds 64KB limit")⟩
      else
        match _hdata : fread size.toNat afterSize with
        | (none, rest) => ⟨rest, count, app, .ok ()⟩
        | (some buf, rest) =>
            match deserializeEvent buf with
            | some ev =>
                replayLoop callback rest (count + 1) (deliver callback ev app)
            | none => replayLoop callback rest count app
  -- The length field alone shortens the file, so an empty frame is progress.
  termination_by file.length
  decreasing_by
    all_goals
      have hafter := (length_of_fread _hsize).2
      have hrest := (length_of_fread _hdata).2
      omega

/-- `ReplaySource::replay` -/
def replay (callback : Option (Event → App → App)) (source : ReplaySource)
    (app : App) : ReplaySource × App × Status :=
  match source.file with
  | none =>
      (source, app, .error (makeError .internal "replay source not opened"))
  | some file =>
      let outcome := replayLoop callback file source.eventsReplayed app
      (⟨some outcome.rest, outcome.eventsReplayed⟩, outcome.app, outcome.status)

/-- `ReplaySource::close` -/
def closeSource (source : ReplaySource) : ReplaySource :=
  { source with file := none }

/-- One turn of the loop, without the equations that show it terminates. -/
theorem replayLoop_eq (callback : Option (Event → App → App))
    (file : List UInt8) (count : UInt64) (app : App) :
    replayLoop callback file count app =
      match fread 4 file with
      | (none, rest) => ⟨rest, count, app, .ok ()⟩
      | (some bytes, afterSize) =>
          if FixedCodec.word32.decode bytes > 65536 then
            ⟨afterSize, count, app,
              .error (makeError .recordFormatError
                "event size exceeds 64KB limit")⟩
          else
            match fread (FixedCodec.word32.decode bytes).toNat afterSize with
            | (none, rest) => ⟨rest, count, app, .ok ()⟩
            | (some buf, rest) =>
                match deserializeEvent buf with
                | some ev =>
                    replayLoop callback rest (count + 1)
                      (deliver callback ev app)
                | none => replayLoop callback rest count app := by
  rw [replayLoop]
  split
  next hsize => rw [hsize]
  next hsize =>
    rw [hsize]
    dsimp only
    split
    · rfl
    · split
      next hdata => rw [hdata]
      next hdata => rw [hdata]

/-! ## Frames and what is left of one -/

/-- One turn of the loop on a complete frame. -/
theorem replayLoop_frameBytes (callback : Option (Event → App → App))
    (payload : Payload) (rest : List UInt8) (count : UInt64) (app : App) :
    replayLoop callback (frameBytes payload ++ rest) count app =
      match deserializeEvent payload.1 with
      | some ev => replayLoop callback rest (count + 1) (deliver callback ev app)
      | none => replayLoop callback rest count app := by
  have hsize :
      fread 4 (frameBytes payload ++ rest) =
        (some (FixedCodec.word32.encode (UInt32.ofNat payload.1.length)),
          payload.1 ++ rest) := by
    rw [frameBytes, List.append_assoc]
    exact fread_append _ (FixedCodec.word32.length_encode _)
  have hlimit : ¬UInt32.ofNat payload.1.length > 65536 := by
    rw [gt_iff_lt, UInt32.lt_iff_toNat_lt, payload.toNat_size]
    exact Nat.not_lt.mpr payload.2
  have hdata :
      fread (UInt32.ofNat payload.1.length).toNat (payload.1 ++ rest) =
        (some payload.1, rest) :=
    fread_append rest payload.toNat_size.symm
  rw [replayLoop_eq, hsize]
  dsimp only
  rw [FixedCodec.decode_encode, if_neg hlimit, hdata]

/-- How the loop ends where there is no complete frame any more. -/
def lastOutcome (tail : List UInt8) (count : UInt64) (app : App) : Outcome App :=
  if Oversized tail then
    ⟨tail.drop 4, count, app,
      .error (makeError .recordFormatError "event size exceeds 64KB limit")⟩
  else ⟨[], count, app, .ok ()⟩

@[simp]
theorem lastOutcome_app (tail : List UInt8) (count : UInt64) (app : App) :
    (lastOutcome tail count app).app = app := by
  unfold lastOutcome
  split <;> rfl

@[simp]
theorem lastOutcome_eventsReplayed (tail : List UInt8) (count : UInt64)
    (app : App) : (lastOutcome tail count app).eventsReplayed = count := by
  unfold lastOutcome
  split <;> rfl

theorem lastOutcome_status_eq_ok (tail : List UInt8) (count : UInt64)
    (app : App) :
    (lastOutcome tail count app).status = .ok () ↔ ¬Oversized tail := by
  by_cases hover : Oversized tail <;> simp [lastOutcome, hover]

theorem lastOutcome_status_eq_error (tail : List UInt8) (count : UInt64)
    (app : App) :
    (∃ message, (lastOutcome tail count app).status =
      .error (makeError .recordFormatError message)) ↔ Oversized tail := by
  by_cases hover : Oversized tail <;> simp [lastOutcome, hover, makeError]

theorem replayLoop_tail (callback : Option (Event → App → App))
    {tail : List UInt8} (hnone : ∀ payload, ¬frameBytes payload <+: tail)
    (count : UInt64) (app : App) :
    replayLoop callback tail count app = lastOutcome tail count app := by
  by_cases hsize : 4 ≤ tail.length
  case neg =>
    have hfits : ¬Oversized tail := fun hover => hsize hover.1
    rw [replayLoop_eq, fread_short (Nat.lt_of_not_le hsize), lastOutcome,
      if_neg hfits]
  have hdecode := FixedCodec.toNat_word32_decode (List.length_take_of_le hsize)
  rw [replayLoop_eq, fread, if_pos hsize]
  dsimp only
  by_cases hlimit : FixedCodec.word32.decode (tail.take 4) > 65536
  · have hover : Oversized tail := by
      apply And.intro hsize
      rw [← hdecode]
      exact UInt32.lt_iff_toNat_lt.mp hlimit
    rw [if_pos hlimit, lastOutcome, if_pos hover]
  · have hle : (FixedCodec.word32.decode (tail.take 4)).toNat ≤ 65536 :=
      Nat.le_of_not_lt fun hlt => hlimit (UInt32.lt_iff_toNat_lt.mpr hlt)
    have hfits : ¬Oversized tail := by
      rintro ⟨-, hover⟩
      rw [← hdecode] at hover
      exact Nat.not_lt.mpr hle hover
    -- A payload as long as the length says would make a frame.
    have hshort :
        (tail.drop 4).length < (FixedCodec.word32.decode (tail.take 4)).toNat := by
      by_contra henough
      obtain ⟨payload, hpayload⟩ :=
        exists_frameBytes_of_le hsize hle (Nat.le_of_not_lt henough)
      exact hnone payload hpayload
    rw [if_neg hlimit, fread_short hshort, lastOutcome, if_neg hfits]

/-- The events the loop hands over for a list of frames. -/
def payloadEvents (payloads : List Payload) : List Event :=
  payloads.filterMap fun payload => deserializeEvent payload.1

/-- The loop over complete frames of any kind. -/
theorem replayLoop_payloads (callback : Option (Event → App → App))
    (payloads : List Payload) (rest : List UInt8) (count : UInt64) (app : App) :
    replayLoop callback (payloads.flatMap frameBytes ++ rest) count app =
      replayLoop callback rest
        (count + UInt64.ofNat (payloadEvents payloads).length)
        ((payloadEvents payloads).foldl
          (fun app ev => deliver callback ev app) app) := by
  induction payloads generalizing count app with
  | nil => simp [payloadEvents]
  | cons payload payloads ih =>
      rw [List.flatMap_cons, List.append_assoc, replayLoop_frameBytes]
      cases hevent : deserializeEvent payload.1 with
      | none =>
          have hcons : payloadEvents (payload :: payloads) = payloadEvents payloads :=
            List.filterMap_cons_none hevent
          rw [hcons]
          exact ih count app
      | some ev =>
          have hcons :
              payloadEvents (payload :: payloads) = ev :: payloadEvents payloads :=
            List.filterMap_cons_some hevent
          rw [hcons, ← count_length_cons, List.foldl_cons]
          exact ih (count + 1) (deliver callback ev app)

/-- The payload the recorder writes for an event. -/
def eventPayload (object : EventObject) : Payload :=
  ⟨serializeEvent object, (length_serializeEvent object).trans_le (by decide)⟩

theorem frame_eq_frameBytes : frame = frameBytes ∘ eventPayload := by
  funext object
  have hlength : (eventPayload object).1.length = 88 :=
    length_serializeEvent object
  rw [Function.comp_apply, frameBytes, hlength]
  rfl

theorem payloadEvents_map_eventPayload (objects : List EventObject) :
    payloadEvents (objects.map eventPayload) = objects.map Prod.fst := by
  rw [payloadEvents, List.filterMap_map, ← List.filterMap_eq_map]
  congr 1
  funext object
  exact deserializeEvent_serializeEvent object

/-- The loop on complete frames of the recorder followed by anything. -/
theorem replayLoop_frames (callback : Option (Event → App → App))
    (objects : List EventObject) (rest : List UInt8) (count : UInt64)
    (app : App) :
    replayLoop callback (objects.flatMap frame ++ rest) count app =
      replayLoop callback rest (count + UInt64.ofNat objects.length)
        (objects.foldl (fun app object => deliver callback object.1 app) app) := by
  have hframes :
      objects.flatMap frame = (objects.map eventPayload).flatMap frameBytes := by
    rw [frame_eq_frameBytes, List.flatMap_map]
    rfl
  rw [hframes, replayLoop_payloads, payloadEvents_map_eventPayload,
    List.length_map, List.foldl_map]

/-- The loop ends without an error in a frame that was cut, whether the cut is
in the length or in the payload. -/
theorem replayLoop_torn (callback : Option (Event → App → App))
    {torn : List UInt8} (htorn : Torn frame torn) (count : UInt64) (app : App) :
    replayLoop callback torn count app = ⟨[], count, app, .ok ()⟩ := by
  have hfits : ¬Oversized torn := by
    rintro ⟨hsize, hover⟩
    rcases htorn with rfl | ⟨object, ⟨missing, hframe⟩, -⟩
    · simp at hsize
    -- Where the length is whole, it is the recorder's.
    have htake : torn.take 4 = FixedCodec.word32.encode 88 := by
      rw [← List.take_append_of_le_length hsize, hframe]
      exact FixedCodec.word32.take_encode_append 88 (serializeEvent object)
    rw [htake] at hover
    exact absurd hover (by decide)
  have hnone : ∀ payload, ¬frameBytes payload <+: torn := by
    apply Torn.none_ahead prefixFree_frameBytes length_frameBytes_pos
    rw [frame_eq_frameBytes] at htorn
    exact htorn.imp id fun ⟨object, hbegins⟩ => ⟨eventPayload object, hbegins⟩
  rw [replayLoop_tail callback hnone, lastOutcome, if_neg hfits]

/-- Reading a recording that was cut at any byte. -/
theorem replayLoop_cut (callback : Option (Event → App → App))
    (objects : List EventObject) (cut : ℕ) (count : UInt64) (app : App) :
    replayLoop callback ((objects.flatMap frame).take cut) count app =
      ⟨[], count + UInt64.ofNat (objects.take (cut / 92)).length,
        (objects.take (cut / 92)).foldl
          (fun app object => deliver callback object.1 app) app, .ok ()⟩ := by
  obtain ⟨torn, htorn, htake⟩ :=
    take_flatMap_chunk frame (by decide) length_frame objects cut
  rw [htake, replayLoop_frames, replayLoop_torn callback htorn]

/-! ## The grammar of the body -/

/-- What `replay` makes of a body divided into frames and a tail. -/
theorem replay_of_splits (callback : Event → App → App) {source : ReplaySource}
    {body : List UInt8} (hfile : source.file = some body)
    {frames : List Payload} {tail : List UInt8}
    (hsplits : Splits frameBytes body frames tail) (app : App) :
    let last :=
      lastOutcome tail
        (source.eventsReplayed + UInt64.ofNat (payloadEvents frames).length)
        ((payloadEvents frames).foldl (fun app ev => callback ev app) app)
    replay (some callback) source app =
      (⟨some last.rest, last.eventsReplayed⟩, last.app, last.status) := by
  have hloop :=
    replayLoop_payloads (some callback) frames tail source.eventsReplayed app
  rw [← hsplits.stream_eq, replayLoop_tail _ hsplits.none_ahead] at hloop
  simp only [replay, hfile, hloop]
  rfl

/-- The frames that are delivered, and with which event. -/
theorem payloadEvents_eq (frames : List Payload) :
    payloadEvents frames =
      (frames.filter fun payload => 88 ≤ payload.1.length).map
        fun payload => (eventLayout.decode (payload.1.take 88)).1 := by
  induction frames with
  | nil => rfl
  | cons payload frames ih =>
      by_cases hlength : 88 ≤ payload.1.length
      · rw [List.filter_cons_of_pos (by simpa using hlength), List.map_cons, ← ih]
        exact List.filterMap_cons_some (deserializeEvent_eq_some hlength)
      · rw [List.filter_cons_of_neg (by simpa using hlength), ← ih]
        exact List.filterMap_cons_none (deserializeEvent_eq_none hlength)

/-- `replay` reads the body of a file by its grammar.  A body divides in one way
into frames and a tail that starts with no frame.  The callback gets the event
at the front of each frame that has room for one, in order, and the others are
passed over; only a length over the limit at the front of the tail is an
error. -/
theorem replay_parses_frames (callback : Event → App → App) (path : String)
    (source : ReplaySource) {header : List UInt8} (hlength : header.length = 64)
    (hvalid : validateHeader (headerLayout.decode header) = true)
    (body : List UInt8) (app : App) :
    ∃ frames tail,
      Splits frameBytes body frames tail ∧
      (∀ frames' tail', Splits frameBytes body frames' tail' →
        frames' = frames ∧ tail' = tail) ∧
      let delivered :=
        (frames.filter fun payload => 88 ≤ payload.1.length).map
          fun payload => (eventLayout.decode (payload.1.take 88)).1
      let opened := openSource path (.ok (header ++ body)) source
      let replayed := replay (some callback) opened.1 app
      let oversized := 4 ≤ tail.length ∧ 65536 < decodeLE (tail.take 4)
      opened.2 = .ok () ∧
      replayed.2.1 = delivered.foldl (fun app ev => callback ev app) app ∧
      replayed.1.eventsReplayed =
        source.eventsReplayed + UInt64.ofNat delivered.length ∧
      ((∃ message,
        replayed.2.2 = .error (makeError .recordFormatError message)) ↔
          oversized) ∧
      (replayed.2.2 = .ok () ↔ ¬oversized) := by
  obtain ⟨frames, tail, hsplits⟩ := exists_splits length_frameBytes_pos body
  refine ⟨frames, tail, hsplits,
    fun _ _ hother => hother.unique prefixFree_frameBytes hsplits, ?_⟩
  intro delivered opened replayed oversized
  have hopened : opened = ({ source with file := some body }, .ok ()) :=
    openSource_valid path hlength hvalid body source
  have hfile : opened.1.file = some body := by rw [hopened]
  have hcount : opened.1.eventsReplayed = source.eventsReplayed := by rw [hopened]
  have hreplayed := replay_of_splits callback hfile hsplits app
  rw [payloadEvents_eq, hcount] at hreplayed
  change replayed = _ at hreplayed
  rw [hreplayed]
  refine ⟨by rw [hopened], lastOutcome_app .., lastOutcome_eventsReplayed .., ?_, ?_⟩
  · exact lastOutcome_status_eq_error ..
  · exact lastOutcome_status_eq_ok ..

/-- An empty frame is passed over, and a length over the limit by one after it
is an error. -/
theorem replay_parses_empty_frame :
    let header := headerLayout.encode (makeHeader ⟨7, 9⟩)
    let body : List UInt8 := [0, 0, 0, 0, 1, 0, 1, 0]
    let opened := openSource "run.ksr" (.ok (header ++ body)) ReplaySource.new
    let replayed := replay (some fun ev log => log ++ [ev]) opened.1 []
    header.length = 64 ∧ validateHeader (headerLayout.decode header) = true ∧
      replayed.2.1 = [] ∧
      ∃ message, replayed.2.2 = .error (makeError .recordFormatError message) := by
  intro header body opened replayed
  have hlength : header.length = 64 := headerLayout.length_encode _
  have hvalid : validateHeader (headerLayout.decode header) = true := by
    rw [headerLayout.decode_encode, validateHeader_makeHeader]
  have hover : Oversized [1, 0, 1, 0] := by decide
  have hsplits : Splits frameBytes body [⟨[], by decide⟩] [1, 0, 1, 0] :=
    ⟨by decide, hover.none_ahead⟩
  obtain ⟨frames, tail, -, hunique, -, hdelivered, -, herror, -⟩ :=
    replay_parses_frames (fun ev log => log ++ [ev]) "run.ksr" ReplaySource.new
      hlength hvalid body []
  obtain ⟨rfl, rfl⟩ := hunique _ _ hsplits
  exact ⟨hlength, hvalid, hdelivered, herror.mpr hover⟩

end Loop

end KernelScope.Replay
