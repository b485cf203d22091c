import KernelScope.Bpf.Filters
import KernelScope.Util.Errors
import Mathlib.Data.List.TakeWhile

/-!
# The loader's configuration

`BpfLoader::open` and `BpfLoader::configure` of `bpf/loader.cpp`: how the
read-only globals of the programs get their values between opening and
loading.
-/

namespace KernelScope.Loader

open KernelScope.Errors
open KernelScope.Events
open KernelScope.Filters

/-- `target_comm` holds the bytes of the string. -/
structure BpfConfig where
  targetPid : UInt32
  minLatencyNs : UInt64
  minOffcpuNs : UInt64
  captureUserStacks : Bool
  captureKernStacks : Bool
  stackSamplingPct : UInt32
  targetComm : List UInt8

/-- The initialisers of `BpfConfig`. -/
def BpfConfig.default : BpfConfig where
  targetPid := 0
  minLatencyNs := 100000
  minOffcpuNs := 1000000
  captureUserStacks := true
  captureKernStacks := false
  stackSamplingPct := 100
  targetComm := []

/-- The fields of `struct stat` that are read. -/
structure Stat where
  dev : UInt64
  ino : UInt64

/-- `skel` is the rodata section behind `skel_`, and `none` when `skel_` is
null. -/
structure BpfLoader where
  skel : Option Rodata

/-- `BpfLoader::open`; `opened` says whether `kscope_bpf__open` succeeds. -/
def openSkeleton (opened : Bool) : BpfLoader × Status :=
  if opened then (⟨some Rodata.default⟩, .ok ())
  else (⟨none⟩, .error (makeError .bpfLoadFailed "kscope_bpf__open() failed"))

/-- The `memcpy` into `target_comm`: at most fifteen bytes of the name, and the
rest of the buffer as it was. -/
def copyComm (name : List UInt8) (buffer : Comm) : Comm :=
  if name.isEmpty then buffer
  else
    Vector.ofFn fun index : Fin 16 =>
      if index.val < min name.length 15 then name.getD index.val 0
      else buffer.get index

/-- The assignments of `configure`; `nsFile` is what `stat` says about
`/proc/self/ns/pid`, if it succeeds. -/
def configured (cfg : BpfConfig) (nsFile : Option Stat) (rodata : Rodata) :
    Rodata where
  targetPid := cfg.targetPid
  minLatencyNs := cfg.minLatencyNs
  minOffcpuNs := cfg.minOffcpuNs
  captureUserStacks := if cfg.captureUserStacks then 1 else 0
  captureKernStacks := if cfg.captureKernStacks then 1 else 0
  stackSamplingPct := cfg.stackSamplingPct
  targetComm := copyComm cfg.targetComm rodata.targetComm
  pidnsDev := nsFile.elim rodata.pidnsDev fun st => st.dev.toUInt32
  pidnsIno := nsFile.elim rodata.pidnsIno fun st => st.ino.toUInt32

/-- `BpfLoader::configure` -/
def configure (cfg : BpfConfig) (nsFile : Option Stat) (loader : BpfLoader) :
    BpfLoader × Status :=
  match loader.skel with
  | none => (loader, .error (makeError .internal "skeleton not opened"))
  | some rodata => (⟨some (configured cfg nsFile rodata)⟩, .ok ())

/-! ## The name that is selected -/

/-- A task name as a string: the bytes before the first NUL. -/
def nameOf (comm : Comm) : List UInt8 :=
  comm.toList.takeWhile (· ≠ 0)

/-- Where the target ends in a NUL, the loop of `filter_comm` compares
strings. -/
theorem compareComm_iff {target comm : List UInt8} (hlength : target.length = comm.length)
    (hnul : 0 ∈ target) :
    compareComm (target.zip comm) = true ↔
      comm.takeWhile (· ≠ 0) = target.takeWhile (· ≠ 0) := by
  induction target generalizing comm with
  | nil => cases hnul
  | cons byte target ih =>
      cases comm with
      | nil => cases hlength
      | cons other comm =>
          rw [List.zip_cons_cons, compareComm]
          by_cases heq : byte = other
          · subst heq
            by_cases hzero : byte = 0
            · simp [hzero]
            · have hrest := ih (Nat.succ.inj hlength)
                ((List.mem_cons.mp hnul).resolve_left (Ne.symm hzero))
              simpa [hzero] using hrest
          · by_cases hzero : byte = 0 <;> by_cases hother : other = 0 <;>
              simp_all [Ne.symm]

/-- The copied name, followed by the zeros of a fresh buffer. -/
theorem toList_copyComm (name : List UInt8) :
    (copyComm name (Vector.replicate 16 0)).toList =
      name.take 15 ++ List.replicate (16 - min name.length 15) 0 := by
  have hlength : (name.take 15).length = min name.length 15 := by
    rw [List.length_take, Nat.min_comm]
  apply List.ext_getElem
  · rw [List.length_append, List.length_replicate, hlength, Vector.length_toList]
    omega
  · intro index hindex _
    by_cases hnil : name = []
    · simp [copyComm, hnil]
    · have hempty : name.isEmpty = false := by simpa using hnil
      by_cases hcopied : index < min name.length 15
      · have hname : index < name.length := by omega
        have hfront : index < (name.take 15).length := hlength.symm ▸ hcopied
        rw [List.getElem_append_left hfront, List.getElem_take]
        simp only [copyComm, hempty, Bool.false_eq_true, if_false, Vector.getElem_toList,
          Vector.getElem_ofFn, if_pos hcopied]
        rw [List.getD_eq_getElem?_getD, List.getElem?_eq_getElem hname, Option.getD_some]
      · have hback : (name.take 15).length ≤ index := by omega
        rw [List.getElem_append_right hback, List.getElem_replicate]
        simp only [copyComm, hempty, Bool.false_eq_true, if_false, Vector.getElem_toList,
          Vector.getElem_ofFn, if_neg hcopied]
        simp [Vector.get]

theorem nul_mem_copyComm (name : List UInt8) :
    0 ∈ (copyComm name (Vector.replicate 16 0)).toList := by
  rw [toList_copyComm, List.mem_append, List.mem_replicate]
  exact .inr ⟨by omega, rfl⟩

/-- A name without NUL is cut to fifteen bytes. -/
theorem nameOf_copyComm {name : List UInt8} (hname : 0 ∉ name) :
    nameOf (copyComm name (Vector.replicate 16 0)) = name.take 15 := by
  have hbytes : ∀ byte ∈ name.take 15, decide (byte ≠ 0) = true := by
    intro byte hbyte
    exact decide_eq_true fun hzero => hname (hzero ▸ List.mem_of_mem_take hbyte)
  have hzeros : (List.replicate (16 - min name.length 15) (0 : UInt8)).takeWhile
      (fun byte => decide (byte ≠ 0)) = [] := by
    rw [List.takeWhile_replicate]
    simp
  rw [nameOf, toList_copyComm, List.takeWhile_append_of_pos hbytes, hzeros,
    List.append_nil]

/-- With a terminated name in the read-only data, `filter_comm` asks for this name
unless it is empty. -/
theorem filterComm_iff {ro : Rodata} (hnul : 0 ∈ ro.targetComm.toList) (comm : Comm) :
    filterComm ro comm = true ↔
      nameOf ro.targetComm = [] ∨ nameOf comm = nameOf ro.targetComm := by
  have hfirst : ro.targetComm[0] = 0 ↔ nameOf ro.targetComm = [] := by
    rw [nameOf, List.takeWhile_eq_nil_iff]
    simp
  have hcompare := compareComm_iff
    (Vector.length_toList.trans Vector.length_toList.symm : _ = comm.toList.length) hnul
  rw [← nameOf, ← nameOf] at hcompare
  rw [filterComm]
  split
  next hzero => simp [hfirst.mp hzero]
  next hzero => simp [hcompare, mt hfirst.mpr hzero]

/-- After configuration, `filter_comm` accepts the tasks whose name is the
configured one, cut to the length of a task name; without one it accepts all. -/
theorem comm_filter_selects (cfg : BpfConfig) (hname : 0 ∉ cfg.targetComm)
    (nsFile : Option Stat) (comm : Comm) :
    ∃ rodata, configure cfg nsFile (openSkeleton true).1 = (⟨some rodata⟩, .ok ()) ∧
      (filterComm rodata comm = true ↔
        cfg.targetComm = [] ∨
          nameOf comm = cfg.targetComm.take (min cfg.targetComm.length 15)) := by
  refine ⟨configured cfg nsFile Rodata.default, rfl, ?_⟩
  have htarget : (configured cfg nsFile Rodata.default).targetComm =
      copyComm cfg.targetComm (Vector.replicate 16 0) := rfl
  have hnul := nul_mem_copyComm cfg.targetComm
  have htake : cfg.targetComm.take (min cfg.targetComm.length 15) =
      cfg.targetComm.take 15 := by
    rw [Nat.min_comm, ← List.take_eq_take_min]
  rw [← htarget] at hnul
  rw [filterComm_iff hnul, htarget, nameOf_copyComm hname, htake]
  simp

/-- A name that is longer than a task name can be. -/
theorem comm_filter_selects_long_name :
    ∃ rodata, configure
        { BpfConfig.default with targetComm := List.replicate 20 120 } none
        (openSkeleton true).1 = (⟨some rodata⟩, .ok ()) ∧
      (filterComm rodata (Vector.ofFn fun i => if i.val < 15 then 120 else 0) = true ↔
        List.replicate 20 120 = ([] : List UInt8) ∨
          nameOf (Vector.ofFn fun i => if i.val < 15 then 120 else 0) =
            (List.replicate 20 120).take (min 20 15)) :=
  comm_filter_selects { BpfConfig.default with targetComm := List.replicate 20 120 }
    (by decide) none (Vector.ofFn fun i => if i.val < 15 then 120 else 0)

end KernelScope.Loader
