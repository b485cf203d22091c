import KernelScope.Bpf.ConcurrentHandlers
import KernelScope.Bpf.Loader

/-!
# From the command line to the programs

The settings of `cli/parse_args.hpp` that reach the kernel, and `setup_bpf` of
`cli/commands.cpp`: open, configure, load, attach.  The last part follows the
settings through the programs to the records that the consumer gets.
-/

namespace KernelScope.Setup

open KernelScope.ConcurrentHandlers
open KernelScope.Errors
open KernelScope.Filters
open KernelScope.FilterSoundness
open KernelScope.Handlers
open KernelScope.Interleaving
open KernelScope.Loader
open KernelScope.StepRun
open KernelScope.WireFormat

/-- The settings; strings are their bytes. -/
structure Config where
  pid : UInt32
  comm : List UInt8
  minLatencyUs : UInt64
  minOffcpuUs : UInt64
  durationSec : UInt32
  windowSec : UInt32
  stackSamplingPct : UInt32
  userStacks : Bool
  kernelStacks : Bool
  recordFile : String

/-- The initialisers of `Config`. -/
def Config.default : Config where
  pid := 0
  comm := []
  minLatencyUs := 100
  minOffcpuUs := 1000
  durationSec := 0
  windowSec := 5
  stackSamplingPct := 100
  userStacks := true
  kernelStacks := false
  recordFile := ""

/-- `time::us_to_ns` -/
def usToNs (us : UInt64) : UInt64 := us * 1000

def makeBpfConfig (cfg : Config) : BpfConfig where
  targetPid := cfg.pid
  minLatencyNs := usToNs cfg.minLatencyUs
  minOffcpuNs := usToNs cfg.minOffcpuUs
  captureUserStacks := cfg.userStacks
  captureKernStacks := cfg.kernelStacks
  stackSamplingPct := cfg.stackSamplingPct
  targetComm := cfg.comm

/-- The answers of libbpf and of `stat` during the setup. -/
structure Kernel where
  opened : Bool
  nsFile : Option Stat
  loadErr : Int
  attachErr : Int

/-- `BpfLoader::load` -/
def load (err : Int) (loader : BpfLoader) : Status :=
  match loader.skel with
  | none => .error (makeError .internal "skeleton not opened")
  | some _ =>
      if err ≠ 0 then
        .error (makeError .bpfLoadFailed ("kscope_bpf__load() failed: " ++ toString err))
      else .ok ()

/-- `BpfLoader::attach` -/
def attach (err : Int) (loader : BpfLoader) : Status :=
  match loader.skel with
  | none => .error (makeError .internal "skeleton not opened")
  | some _ =>
      if err ≠ 0 then
        .error (makeError .bpfAttachFailed ("kscope_bpf__attach() failed: " ++ toString err))
      else .ok ()

def setupBpf (kernel : Kernel) (cfg : Config) : BpfLoader × Status :=
  match openSkeleton kernel.opened with
  | (loader, .error error) => (loader, .error error)
  | (loader, .ok ()) =>
      match configure (makeBpfConfig cfg) kernel.nsFile loader with
      | (loader, .error error) => (loader, .error error)
      | (loader, .ok ()) =>
          match load kernel.loadErr loader with
          | .error error => (loader, .error error)
          | .ok () => (loader, attach kernel.attachErr loader)

/-- The setup succeeds when libbpf does every step, and then the programs run with
the settings of the command line. -/
theorem setupBpf_ok_iff {kernel : Kernel} {cfg : Config} {loader : BpfLoader} :
    setupBpf kernel cfg = (loader, .ok ()) ↔
      (kernel.opened = true ∧ kernel.loadErr = 0 ∧ kernel.attachErr = 0) ∧
        loader = ⟨some (configured (makeBpfConfig cfg) kernel.nsFile Rodata.default)⟩ := by
  cases hopened : kernel.opened with
  | false => simp [setupBpf, openSkeleton, hopened]
  | true =>
      by_cases hload : kernel.loadErr = 0
      · by_cases hattach : kernel.attachErr = 0
        · simp [setupBpf, openSkeleton, hopened, configure, load, attach, hload, hattach,
            eq_comm]
        · simp [setupBpf, openSkeleton, hopened, configure, load, attach, hload, hattach]
      · simp [setupBpf, openSkeleton, hopened, configure, load, hload]

/-! ## What the programs let through -/

/-- Stacks of system calls that are switched off are not in the maps. -/
structure StacksOff (ro : Rodata) (userStackId kernStackId : Int64) : Prop where
  user : ro.captureUserStacks = 0 ∨ ro.stackSamplingPct = 0 → userStackId = -1
  kern : ro.captureKernStacks = 0 ∨ ro.stackSamplingPct = 0 → kernStackId = -1

/-- The record has passed the pid filter and the threshold of its type, and has
no stack that is switched off. -/
structure Admitted (ro : Rodata) (e : WireEvent) : Prop where
  pid : ro.targetPid ≠ 0 → e.pid = ro.targetPid
  latency : e.type = EvType.syscallSlow.code → ro.minLatencyNs ≤ e.durationNs
  offcpu : e.type = EvType.offcpuSlice.code → ro.minOffcpuNs ≤ e.durationNs
  stacksOff : StacksOff ro e.userStackId e.kernStackId

section Admission

variable {ro : Rodata} {m : Maps}

theorem stacksOff_none : StacksOff ro (-1) (-1) :=
  ⟨fun _ => rfl, fun _ => rfl⟩

theorem stacksOff_sysEnterEntry (input : SysEnterInput) :
    StacksOff ro (sysEnterEntry ro input).userStackId
      (sysEnterEntry ro input).kernStackId := by
  have hnever : ro.stackSamplingPct = 0 → shouldCaptureStack ro input.rand = false := by
    intro hzero
    rw [shouldCaptureStack, hzero]
    rfl
  constructor
  · rintro (hoff | hzero)
    · simp [sysEnterEntry, hoff]
    · simp [sysEnterEntry, hnever hzero]
  · rintro (hoff | hzero)
    · simp [sysEnterEntry, hoff]
    · simp [sysEnterEntry, hnever hzero]

/-- What the elements of the maps may hold: entries of the chosen process, without the
stacks that are switched off. -/
def Held (ro : Rodata) : ∀ cell : Cell, cell.Value → Prop
  | .activeSyscall key, found => ∀ entry, found = some entry →
      (ro.targetPid ≠ 0 → key.pid = ro.targetPid) ∧
        StacksOff ro entry.userStackId entry.kernStackId
  | .schedState _, _ => True

theorem held_none (key : TaskKey) : Held ro (.activeSyscall key) none :=
  fun _ hentry => by cases hentry

/-- A record of the kind `type` is admitted if it has passed the threshold of this
kind. -/
theorem admitted_of_type {e : WireEvent} (type : EvType) (htype : e.type = type.code)
    (hpid : ro.targetPid ≠ 0 → e.pid = ro.targetPid)
    (hlatency : type = .syscallSlow → ro.minLatencyNs ≤ e.durationNs)
    (hoffcpu : type = .offcpuSlice → ro.minOffcpuNs ≤ e.durationNs)
    (hoff : StacksOff ro e.userStackId e.kernStackId) : Admitted ro e where
  pid := hpid
  latency hcode := hlatency (EvType.code_injective (htype.symm.trans hcode))
  offcpu hcode := hoffcpu (EvType.code_injective (htype.symm.trans hcode))
  stacksOff := hoff

theorem admitted_lifecycleEvent {task : TaskContext} (input : LifecycleInput) (type : EvType)
    (hsyscall : type ≠ .syscallSlow) (hslice : type ≠ .offcpuSlice)
    (hfilter : filterPid ro (fillTaskKey ro task).pid = true) (e : WireEvent) :
    Admitted ro (lifecycleEvent ro task input type e) :=
  admitted_of_type type rfl (fun htarget => eq_targetPid_of_filterPid htarget hfilter)
    (fun heq => absurd heq hsyscall) (fun heq => absurd heq hslice) stacksOff_none

theorem safe_report {good : WireEvent → Prop} (slot : Option WireEvent)
    {fill : WireEvent → WireEvent} (hfill : ∀ e, good (fill e))
    {next : ∀ {phase : Interleaving.Phase}, Code phase → Code phase}
    (hnext : ∀ {phase : Interleaving.Phase} (code : Code phase),
      code.Safe (Held ro) good → (next code).Safe (Held ro) good) :
    (report slot fill next).Safe (Held ro) good := by
  cases slot with
  | none => exact hnext _ trivial
  | some e => exact ⟨hfill e, hnext _ trivial⟩

theorem safe_switchInCode (input : SchedSwitchInput) :
    (switchInCode ro input).Safe (Held ro) (Admitted ro) := by
  unfold switchInCode
  split
  next hfilter =>
    refine fun found _ => ⟨trivial, ?_⟩
    cases found with
    | none => trivial
    | some state =>
        dsimp only
        split
        · refine fun _ _ => ⟨trivial, fun _ _ => ⟨trivial, ?_⟩⟩
          split
          next hlong =>
            apply safe_report
            · intro e
              exact admitted_of_type .offcpuSlice rfl
                (fun htarget => eq_targetPid_of_filterPid htarget hfilter)
                (fun heq => absurd heq (by decide)) (fun _ => hlong) stacksOff_none
            · exact fun code hcode _ _ => ⟨trivial, hcode⟩
          next => exact fun _ _ => ⟨trivial, trivial⟩
        · trivial
  next => trivial

/-- Step by step, a program keeps the maps as they should be and submits an admitted
record. -/
theorem safe_code (call : Call) : (code ro call).Safe (Held ro) (Admitted ro) := by
  cases call with
  | sysEnter task input =>
      rw [code, sysEnterCode]
      split
      next haccepted =>
        refine fun _ _ => ⟨?_, trivial⟩
        rintro _ ⟨⟩
        refine ⟨fun htarget => ?_, stacksOff_sysEnterEntry input⟩
        exact eq_targetPid_of_filterPid htarget (Bool.and_eq_true_iff.mp haccepted.1).1
      next => trivial
  | sysExit task input =>
      refine fun found hfound => ⟨hfound, ?_⟩
      cases found with
      | none => trivial
      | some entry =>
          obtain ⟨hpid, hoff⟩ := hfound entry rfl
          dsimp only
          split
          next hlong =>
            apply safe_report
            · intro e
              exact admitted_of_type .syscallSlow rfl hpid (fun _ => hlong)
                (fun heq => absurd heq (by decide)) hoff
            · exact fun code hcode _ _ => ⟨held_none _, hcode⟩
          next => exact fun _ _ => ⟨held_none _, trivial⟩
  | schedSwitch input =>
      rw [code, switchOutCode]
      split
      · refine fun _ _ => ⟨trivial, ?_⟩
        split
        · exact fun _ _ => ⟨trivial, safe_switchInCode input⟩
        · exact safe_switchInCode input
      · exact safe_switchInCode input
  | processExec task input =>
      rw [code, processExecCode]
      split
      next hfilter =>
        refine safe_report _ (admitted_lifecycleEvent input .procExec ?_ ?_ hfilter)
          fun code hcode => hcode
        · decide
        · decide
      next => trivial
  | processExit task input =>
      refine fun _ _ => ⟨held_none _, fun _ _ => ⟨trivial, ?_⟩⟩
      split
      next hfilter =>
        refine safe_report _ (admitted_lifecycleEvent input .procExit ?_ ?_ hfilter)
          fun code hcode => hcode
        · decide
        · decide
      next => trivial

theorem held_empty (cell : Cell) : Held ro cell (cells Maps.empty cell) := by
  cases cell with
  | activeSyscall key => exact held_none key
  | schedState key => trivial

end Admission

/-! ## What the command line asked for -/

theorem toNat_usToNs (us : UInt64) : (usToNs us).toNat = us.toNat * 1000 % 2 ^ 64 := by
  rw [usToNs, UInt64.toNat_mul]
  rfl

/-- After a successful setup, whatever the CPUs do at the same time, every record
that the consumer gets is one of the chosen process, is at least as long as the
threshold for its kind, in nanoseconds modulo `2 ^ 64`, and has no stack of a kind
that is switched off. -/
theorem visible_meets_command_line {kernel : Kernel} {cfg : Config} {ro : Rodata}
    (hsetup : setupBpf kernel cfg = (⟨some ro⟩, .ok ())) {Cpu : Type*} [DecidableEq Cpu]
    (labels : List (Label Cpu Call)) :
    ∀ e ∈ visible (run Interleaving.exec (attached Cpu ro) labels).queue,
      (cfg.pid ≠ 0 → e.pid = cfg.pid) ∧
      (e.type = EvType.syscallSlow.code →
        cfg.minLatencyUs.toNat * 1000 % 2 ^ 64 ≤ e.durationNs.toNat) ∧
      (e.type = EvType.offcpuSlice.code →
        cfg.minOffcpuUs.toNat * 1000 % 2 ^ 64 ≤ e.durationNs.toNat) ∧
      (cfg.userStacks = false ∨ cfg.stackSamplingPct = 0 → e.userStackId = -1) ∧
      (cfg.kernelStacks = false ∨ cfg.stackSamplingPct = 0 → e.kernStackId = -1) := by
  intro e he
  have hadmitted := good_of_visible safe_code held_empty labels e he
  obtain ⟨-, hloader⟩ := setupBpf_ok_iff.mp hsetup
  obtain rfl : ro = configured (makeBpfConfig cfg) kernel.nsFile Rodata.default := by
    simpa using hloader
  refine ⟨hadmitted.pid, fun htype => ?_, fun htype => ?_, fun hoff => ?_, fun hoff => ?_⟩
  · rw [← toNat_usToNs, ← UInt64.le_iff_toNat_le]
    exact hadmitted.latency htype
  · rw [← toNat_usToNs, ← UInt64.le_iff_toNat_le]
    exact hadmitted.offcpu htype
  · apply hadmitted.stacksOff.user
    exact hoff.imp_left fun huser => by simp [configured, makeBpfConfig, huser]
  · apply hadmitted.stacksOff.kern
    exact hoff.imp_left fun hkern => by simp [configured, makeBpfConfig, hkern]

/-- Two CPUs leave the idle task at once, with the exec of the target process and of
another one next to it. -/
theorem visible_meets_command_line_exec :
    let kernel : Kernel := ⟨true, none, 0, 0⟩
    let cfg := { Config.default with pid := 7 }
    let ro := configured (makeBpfConfig cfg) none Rodata.default
    let leaveIdle (nextPid : UInt32) : Call :=
      .schedSwitch ⟨0, nextPid, 0, Vector.replicate 16 0, 0, 5, 5, true, some WireEvent.zero⟩
    let labels : List (Label (Fin 4) Call) :=
      [.start 0 (leaveIdle 7), .start 1 (leaveIdle 8),
        .start 2 (.processExec (TaskContext.ofIds 7 7) ⟨1000, some WireEvent.zero⟩),
        .start 3 (.processExec (TaskContext.ofIds 8 8) ⟨2000, some WireEvent.zero⟩),
        .step 0, .step 1, .step 3, .step 2, .step 2, .step 2]
    let m := run Interleaving.exec (attached (Fin 4) ro) labels
    setupBpf kernel cfg = (⟨some ro⟩, .ok ()) ∧ (visible m.queue).length = 1 ∧
      ∀ e ∈ visible m.queue, e.pid = 7 := by
  intro kernel cfg ro leaveIdle labels m
  have hsetup : setupBpf kernel cfg = (⟨some ro⟩, .ok ()) := rfl
  refine ⟨hsetup, rfl, fun e he => ?_⟩
  exact (visible_meets_command_line hsetup labels e he).1 (by decide)

end KernelScope.Setup
