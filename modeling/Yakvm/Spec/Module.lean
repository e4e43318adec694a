import Yakvm.Spec.Switch
import Yakvm.Spec.World

/-!
# The module

Loading and unloading the driver, from `driver/main.c`, with the files that userspace has on it
and the processors that it runs on. `yakvm_init` is cut between its steps, and at the call that
`on_each_cpu` makes on each cpu; requests may come in between. What is behind the files of a vm
and of a vcpu are the requests as a whole.

An open file pins the module that its `file_operations` name as their owner, and a module is
unloaded only while nothing pins it. Descriptors and mappings hold a file; its `release` is called
when the last of them is gone.
-/

namespace Yakvm

/-! ## Files -/

/-- A `struct module *`. -/
abbrev ModuleRef := ℕ

/-- `THIS_MODULE`. -/
def thisModule : ModuleRef := 1

/-- `struct file_operations`: its owner, and which of the operations that the driver has are set. -/
structure FileOperations where
  owner : Option ModuleRef := none
  release : Bool := false
  unlockedIoctl : Bool := false
  mmap : Bool := false

/-- `yakvm_chardev_ops`. -/
def yakvmChardevOps : FileOperations where
  unlockedIoctl := true

/-- `yakvm_vm_fops`. -/
def yakvmVmFops : FileOperations where
  release := true
  unlockedIoctl := true
  mmap := true

/-- `yakvm_vcpu_fops`. -/
def yakvmVcpuFops : FileOperations where
  release := true
  unlockedIoctl := true
  mmap := true

/-- An open file of the driver. -/
inductive File
  | dev (n : ℕ)
  | vm (o : ℕ)
  | vcpu (o : ℕ)
  deriving DecidableEq

def File.ops : File → FileOperations
  | .dev _ => yakvmChardevOps
  | .vm _ => yakvmVmFops
  | .vcpu _ => yakvmVcpuFops

/-- The entries of the driver that the kernel calls for a file. -/
inductive Callback
  | release
  | ioctl
  | mmap
  | fault
  deriving DecidableEq

/-! ## The machine -/

/-- The SVM instructions. -/
inductive SvmInstr
  | clgi
  | vmsave
  | vmload
  | vmrun
  | stgi
  deriving DecidableEq

def Instr.svm : Instr → Option SvmInstr
  | .vmload _ => some .vmload
  | .vmrun _ => some .vmrun
  | .vmsave _ => some .vmsave
  | _ => none

/-- The SVM instructions of `yakvm_vcpu_run`, with those of `_yakvm_vcpu_run`. -/
def vcpuRunSvm : List SvmInstr := [.clgi, .vmsave] ++ vcpuRunCode.filterMap Instr.svm ++ [.vmload, .stgi]

/-- Where `yakvm_init` stands. -/
inductive InitStage
  | start
  /-- `yakvm_status` has been set -/
  | claimed
  /-- `is_svm_supported` has returned true -/
  | checked
  /-- `misc_register` has succeeded -/
  | registered
  deriving DecidableEq

/-- Where the module stands. -/
inductive Load
  | unloaded
  | init (stage : InitStage)
  | live
  deriving DecidableEq

/-- How the machine can stop: in the driver, on a call to code that is gone, or on an instruction
that the processor does not accept. -/
inductive Halt
  | crash (e : Crash)
  | stale (f : File) (cb : Callback)
  | undefined (cpu : ℕ) (i : SvmInstr)
  deriving DecidableEq

/-- The module, its files and the processors. -/
structure Machine where
  online : Finset ℕ
  /-- `EFER.SVME` of each cpu -/
  svme : ℕ → Bool
  load : Load
  /-- `yakvm_status` is `YAKVM_INUSE` -/
  inuse : Bool
  /-- the cpus that `on_each_cpu` waits for -/
  waiting : Finset ℕ
  world : World
  devFiles : Finset ℕ
  /-- the number of times that the device has been opened -/
  opens : ℕ
  /-- how many descriptors and mappings a file has beside the first -/
  extra : File → ℕ
  /-- the files whose operations were in a module that is gone -/
  stale : Finset File

namespace Machine

/-- The open files of the driver. -/
def files (m : Machine) : Finset File :=
  m.devFiles.image .dev ∪ m.world.vmFiles.image .vm ∪ m.world.vcpuFiles.image .vcpu

/-- How often the module is pinned. -/
def pins (m : Machine) : ℕ := (m.files.filter fun f => f.ops.owner = some thisModule).card

/-- `/dev/yakvm` is there. -/
def registered (m : Machine) : Prop := m.load = .init .registered ∨ m.load = .live

instance (m : Machine) : Decidable m.registered := inferInstanceAs (Decidable (_ ∨ _))

/-- One more descriptor or mapping of a file. -/
def hold (f : File) (m : Machine) : Machine := { m with extra := Function.update m.extra f (m.extra f + 1) }

/-- The kernel calls the driver for a file. -/
def call (f : File) (cb : Callback) (m : Machine) (body : Except Halt Machine) : Except Halt Machine :=
  if f ∉ m.files then .ok m
  else if f ∈ m.stale then .error (.stale f cb)
  else body

/-- A request on the driver's objects. -/
def request (nasid : BitVec 32) (op : Op) (m : Machine) : Except Halt Machine :=
  match m.world.step nasid op with
  | .ok w => .ok { m with world := w }
  | .error e => .error (.crash e)

/-- An SVM instruction on a cpu. -/
def execSvm (cpu : ℕ) (m : Machine) (i : SvmInstr) : Except Halt Machine :=
  if m.svme cpu then .ok m else .error (.undefined cpu i)

/-- `yakvm_cpu_svm_enable`. -/
def cpuSvmEnable (cpu : ℕ) (m : Machine) : Machine := { m with svme := Function.update m.svme cpu true }

/-- The module is loaded: its data are as they are in the file. -/
def loadModule (m : Machine) : Machine :=
  { m with
    load := .init .start
    inuse := false
    world := { m.world with k := { m.world.k with asid := 1 } } }

/-- `yakvm_exit`. -/
def yakvmExit (m : Machine) : Except Halt Machine :=
  if m.inuse then .ok { m with load := .unloaded, inuse := false, stale := m.files }
  else .error (.crash .panic)

/-- What can happen. -/
inductive Event
  /-- `insmod` -/
  | load
  /-- the steps of `yakvm_init`, in order -/
  | claim
  | checkSvm (supported : Bool)
  | register (ok : Bool)
  /-- `yakvm_cpu_svm_enable` on a cpu -/
  | enable (cpu : ℕ)
  | initDone
  | openDev
  | createVm (dev : ℕ) (a : VmAsk) (fd : Except Errno ℕ)
  | createVcpu (vm : ℕ) (a : VcpuAsk) (fd : Except Errno ℕ)
  | mmapPage (vm : ℕ) (gpa : Word) (ask : ℕ → Option Frame)
  /-- `YAKVM_RUN` on a cpu -/
  | run (vcpu cpu : ℕ)
  /-- any other request -/
  | ioctl (f : File)
  | dup (f : File)
  /-- `mmap`, which makes the mapping or not -/
  | mmap (f : File) (made : Bool)
  /-- a page fault in a mapping of a vm -/
  | fault (vm : ℕ) (address vmStart : Word) (ask : ℕ → Option Frame)
  /-- a descriptor or a mapping goes -/
  | close (f : File)
  /-- `rmmod` -/
  | unload

/-- A file goes; for a vm and a vcpu, with its `release`. -/
def drop (nasid : BitVec 32) (f : File) (m : Machine) : Except Halt Machine :=
  match f with
  | .dev n => .ok { m with devFiles := m.devFiles.erase n }
  | .vm o => m.request nasid (.closeVm o)
  | .vcpu o => m.request nasid (.closeVcpu o)

/-- One step. An event that cannot happen changes nothing. -/
def step (nasid : BitVec 32) : Event → Machine → Except Halt Machine
  | .load, m => if m.load = .unloaded then .ok m.loadModule else .ok m
  | .claim, m =>
    if m.load = .init .start then
      if m.inuse then .ok { m with load := .unloaded } else .ok { m with load := .init .claimed, inuse := true }
    else .ok m
  | .checkSvm supported, m =>
    if m.load = .init .claimed then
      if supported then .ok { m with load := .init .checked } else .ok { m with load := .unloaded }
    else .ok m
  | .register ok, m =>
    if m.load = .init .checked then
      if ok then .ok { m with load := .init .registered, waiting := m.online } else .ok { m with load := .unloaded }
    else .ok m
  | .enable cpu, m =>
    if m.load = .init .registered ∧ cpu ∈ m.waiting then
      .ok { m.cpuSvmEnable cpu with waiting := m.waiting.erase cpu }
    else .ok m
  | .initDone, m =>
    if m.load = .init .registered ∧ m.waiting = ∅ then .ok { m with load := .live } else .ok m
  | .openDev, m =>
    if m.registered then .ok { m with devFiles := insert m.opens m.devFiles, opens := m.opens + 1 } else .ok m
  | .createVm dev a fd, m => m.call (.dev dev) .ioctl (m.request nasid (.createVm a fd))
  | .createVcpu vm a fd, m => m.call (.vm vm) .ioctl (m.request nasid (.createVcpu vm a fd))
  | .mmapPage vm gpa ask, m => m.call (.vm vm) .ioctl (m.request nasid (.mmapPage vm gpa ask))
  | .run vcpu cpu, m =>
    if cpu ∈ m.online then m.call (.vcpu vcpu) .ioctl (vcpuRunSvm.foldlM (execSvm cpu) m) else .ok m
  | .ioctl f, m => if f.ops.unlockedIoctl then m.call f .ioctl (.ok m) else .ok m
  | .dup f, m => if f ∈ m.files then .ok (m.hold f) else .ok m
  | .mmap f made, m =>
    if f.ops.mmap then m.call f .mmap (.ok (if made then m.hold f else m)) else .ok m
  | .fault vm address vmStart ask, m => m.call (.vm vm) .fault (m.request nasid (.fault vm address vmStart ask))
  | .close f, m =>
    if f ∈ m.files then
      if 0 < m.extra f then .ok { m with extra := Function.update m.extra f (m.extra f - 1) }
      else if f.ops.release then m.call f .release (m.drop nasid f)
      else m.drop nasid f
    else .ok m
  | .unload, m => if m.load = .live ∧ m.pins = 0 then m.yakvmExit else .ok m

/-- A run of the machine. -/
def run (nasid : BitVec 32) (m : Machine) (evs : List Event) : Except Halt Machine :=
  evs.foldlM (fun m ev => m.step nasid ev) m

/-- The machine before the module has been loaded. `pages` are in use by the rest of the kernel. -/
def boot (online : Finset ℕ) (svme : ℕ → Bool) (mem : Frame → Slot → Word) (pages : Finset Frame) : Machine where
  online := online
  svme := svme
  load := .unloaded
  inuse := false
  waiting := ∅
  world := World.init mem pages
  devFiles := ∅
  opens := 0
  extra := fun _ => 0
  stale := ∅

end Machine

end Yakvm
