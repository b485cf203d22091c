import KernelScope.Library.ByteStream
import KernelScope.Record.Format
import KernelScope.Util.Errors
import Mathlib.Data.UInt

/-!
# Recording

`Recorder` of `record/recorder.cpp`.  The device behind `fopen` and `fwrite`
answers through arguments: the text of the error if the file cannot be opened,
and for each write how many bytes are taken before it fails.
-/

namespace KernelScope.Recording

open KernelScope.ByteCodec
open KernelScope.ByteStream
open KernelScope.Errors
open KernelScope.Format

/-- `isOpen` is `file_ != nullptr`; `disk` is what the file opened last
holds. -/
structure Recorder where
  isOpen : Bool
  eventsWritten : UInt64
  disk : List UInt8
  deriving DecidableEq

def Recorder.new : Recorder where
  isOpen := false
  eventsWritten := 0
  disk := []

/-- `Recorder::open`.  A file that could be opened stays open, also when its
header could not be written. -/
def openFile (path : String) (failure : Option String) (clocks : Clocks)
    (limit : Option ℕ) (recorder : Recorder) : Recorder × Status :=
  match failure with
  | some strerror =>
      ({ recorder with isOpen := false },
        .error (errnoError .ioError ("failed to open " ++ path) strerror))
  | none =>
      let written := fwrite limit (headerLayout.encode (makeHeader clocks)) []
      ({ recorder with isOpen := true, disk := written.1 },
        if written.2 then .ok ()
        else .error (makeError .ioError "failed to write KSR header"))

/-- `Recorder::write_event`: the payload is attempted only after the whole
length, and nothing is taken back. -/
def writeEvent (object : EventObject) (sizeLimit dataLimit : Option ℕ)
    (recorder : Recorder) : Recorder × Status :=
  if recorder.isOpen then
    let data := serializeEvent object
    let size := UInt32.ofNat data.length
    let first := fwrite sizeLimit (FixedCodec.word32.encode size) recorder.disk
    if first.2 then
      let second := fwrite dataLimit data first.1
      if second.2 then
        ({ recorder with
            disk := second.1
            eventsWritten := recorder.eventsWritten + 1 }, .ok ())
      else
        ({ recorder with disk := second.1 },
          .error (makeError .ioError "fwrite failed during recording"))
    else
      ({ recorder with disk := first.1 },
        .error (makeError .ioError "fwrite failed during recording"))
  else (recorder, .error (makeError .internal "recorder not opened"))

/-- `Recorder::close` -/
def close (recorder : Recorder) : Recorder :=
  { recorder with isOpen := false }

/-- One record of the file: the length and the payload. -/
def frame (object : EventObject) : List UInt8 :=
  FixedCodec.word32.encode 88 ++ serializeEvent object

@[simp]
theorem length_frame (object : EventObject) : (frame object).length = 92 := by
  rw [frame, List.length_append, length_serializeEvent,
    FixedCodec.length_encode_eq]
  rfl

theorem length_flatMap_frame (objects : List EventObject) :
    (objects.flatMap frame).length = 92 * objects.length := by
  induction objects with
  | nil => rfl
  | cons object objects ih =>
      rw [List.flatMap_cons, List.length_append, length_frame, ih,
        List.length_cons]
      omega

/-- A write on an open file that the device takes whole. -/
theorem writeEvent_none (object : EventObject) {recorder : Recorder}
    (hopen : recorder.isOpen = true) :
    writeEvent object none none recorder =
      ({ recorder with
          disk := recorder.disk ++ frame object
          eventsWritten := recorder.eventsWritten + 1 }, .ok ()) := by
  simp [writeEvent, hopen, frame]

/-- Counting one and then the rest. -/
theorem count_length_cons {A : Type*} (count : UInt64) (value : A)
    (values : List A) :
    count + 1 + UInt64.ofNat values.length =
      count + UInt64.ofNat (value :: values).length := by
  rw [List.length_cons, UInt64.ofNat_add, add_assoc, add_comm 1]
  rfl

/-- The callback of `run_record` on event after event, each write taken whole;
as there, the statuses are not looked at. -/
def writeAll (objects : List EventObject) (recorder : Recorder) : Recorder :=
  objects.foldl (fun recorder object => (writeEvent object none none recorder).1)
    recorder

theorem writeAll_eq (objects : List EventObject) {recorder : Recorder}
    (hopen : recorder.isOpen = true) :
    writeAll objects recorder =
      { recorder with
        disk := recorder.disk ++ objects.flatMap frame
        eventsWritten := recorder.eventsWritten + UInt64.ofNat objects.length } := by
  induction objects generalizing recorder with
  | nil => simp [writeAll]
  | cons object objects ih =>
      calc
        writeAll (object :: objects) recorder
            = writeAll objects (writeEvent object none none recorder).1 := rfl
        _ = writeAll objects
              { recorder with
                disk := recorder.disk ++ frame object
                eventsWritten := recorder.eventsWritten + 1 } := by
            rw [writeEvent_none object hopen]
        _ = _ := by
            rw [ih, count_length_cons _ object, List.append_assoc, List.flatMap_cons]
            exact hopen

/-- A recording session on a device that takes every write. -/
def recordSession (path : String) (clocks : Clocks)
    (objects : List EventObject) : Recorder :=
  close (writeAll objects (openFile path none clocks none Recorder.new).1)

theorem recordSession_disk (path : String) (clocks : Clocks)
    (objects : List EventObject) :
    (recordSession path clocks objects).disk =
      headerLayout.encode (makeHeader clocks) ++ objects.flatMap frame := by
  rw [recordSession, close, writeAll_eq objects rfl]
  simp [openFile]

end KernelScope.Recording
