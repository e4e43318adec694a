import Yakvm.Spec.Vm

/-!
# Requests as a whole

The driver with its open files, each request taken as one step. A mapping of a vm keeps
the vm's file open, so page faults, like ioctls, come from vms whose file is open.
-/

namespace Yakvm

/-- The driver and its open files. -/
structure World where
  k : Kernel
  vmFiles : Finset ℕ
  vcpuFiles : Finset ℕ

/-- A request, with the answers of the allocators and of `anon_inode_getfd`. -/
inductive Op
  | createVm (a : VmAsk) (fd : Except Errno ℕ)
  | createVcpu (vm : ℕ) (a : VcpuAsk) (fd : Except Errno ℕ)
  | mmapPage (vm : ℕ) (gpa : Word) (ask : ℕ → Option Frame)
  | fault (vm : ℕ) (address vmStart : Word) (ask : ℕ → Option Frame)
  | closeVm (vm : ℕ)
  | closeVcpu (vcpu : ℕ)

/-- The open files after a request that returned a new one, or none. -/
def addFile (files : Finset ℕ) : Option ℕ → Finset ℕ
  | none => files
  | some o => insert o files

/-- One request. A request on a file that is not open changes nothing. -/
def World.step (nasid : BitVec 32) : Op → World → Except Crash World
  | .createVm a fd, w => do
    let ((_, vm), k) ← devIoctlCreateVm a fd w.k
    .ok { w with k := k, vmFiles := addFile w.vmFiles vm }
  | .createVcpu vm a fd, w =>
    if vm ∈ w.vmFiles then do
      let ((_, vcpu), k) ← vmIoctlCreateVcpu nasid vm a fd w.k
      .ok { w with k := k, vcpuFiles := addFile w.vcpuFiles vcpu }
    else .ok w
  | .mmapPage vm gpa ask, w =>
    if vm ∈ w.vmFiles then do
      let v ← deref w.k.vms vm
      let vmm ← deref w.k.vmms v.vmm
      let (_, s) ← vmIoctlMmapPage vmm gpa ask w.k.phys
      .ok { w with k := { w.k with phys := s } }
    else .ok w
  | .fault vm address vmStart ask, w =>
    if vm ∈ w.vmFiles then do
      let v ← deref w.k.vms vm
      let vmm ← deref w.k.vmms v.vmm
      let (_, s) ← vmVmmFault vmm address vmStart ask w.k.phys
      .ok { w with k := { w.k with phys := s } }
    else .ok w
  | .closeVm vm, w =>
    if vm ∈ w.vmFiles then do
      let k ← vmRelease vm w.k
      .ok { w with k := k, vmFiles := w.vmFiles.erase vm }
    else .ok w
  | .closeVcpu vcpu, w =>
    if vcpu ∈ w.vcpuFiles then do
      let k ← vcpuRelease vcpu w.k
      .ok { w with k := k, vcpuFiles := w.vcpuFiles.erase vcpu }
    else .ok w

/-- A run of requests. -/
def World.run (nasid : BitVec 32) (w : World) (ops : List Op) : Except Crash World :=
  ops.foldlM (fun w op => w.step nasid op) w

/-- The driver when it has just been loaded. `pages` are in use by the rest of the kernel. -/
def World.init (mem : Frame → Slot → Word) (pages : Finset Frame) : World :=
  ⟨⟨⟨mem, pages, ∅, 0⟩, fun _ => none, fun _ => none, fun _ => none, 1⟩, ∅, ∅⟩

end Yakvm
