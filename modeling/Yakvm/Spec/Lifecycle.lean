import Yakvm.Spec.Vm

/-!
# Requests in flight

The driver with its open files and the requests that are under way. `YAKVM_CREATE_VM` is cut
before the installation of its file; `YAKVM_CREATE_VCPU` is cut between the creation of the
vcpu, the locked check and publication of `vm->vcpu`, `yakvm_get_vm`, the installation of
the file, and the steps of its undo path. The kernel does not release a file while a
request on it is in flight.

The reference count is an `atomic_t`; a process holds at most one reference beside the files,
so it cannot overflow, and it is a plain integer here.
-/

namespace Yakvm

/-- Where a `YAKVM_CREATE_VCPU` request stands, with its local variable `vcpu`. -/
inductive Stage
  | start
  /-- `yakvm_create_vcpu` has returned a vcpu -/
  | allocated (vcpu : ℕ)
  /-- `vm->vcpu` was found null and has been set -/
  | published (vcpu : ℕ)
  /-- `yakvm_get_vm` has been called -/
  | got (vcpu : ℕ)
  /-- `anon_inode_getfd` has failed -/
  | failed (vcpu : ℕ)
  /-- `vm->vcpu` has been set to null again -/
  | cleared (vcpu : ℕ)
  /-- `yakvm_put_vm` has been called -/
  | put (vcpu : ℕ)
  /-- `vm->vcpu` was found in use -/
  | refused (vcpu : ℕ)
  | finished
  deriving DecidableEq

/-- A `YAKVM_CREATE_VCPU` request on a vm. -/
structure Req where
  vm : ℕ
  stage : Stage
  deriving DecidableEq

/-- Calls that are recorded for the statements about whole runs. -/
inductive Call
  | createVm (vm : ℕ)
  | destroyVm (vm : ℕ)
  | openVcpu (vm vcpu : ℕ)
  deriving DecidableEq

/-- The driver, its files and its requests. -/
structure Sys where
  k : Kernel
  /-- vms whose `YAKVM_CREATE_VM` does not know yet whether its file was installed -/
  opening : Finset ℕ
  vmFiles : Finset ℕ
  vcpuFiles : Finset ℕ
  reqs : List Req
  /-- the calls made so far, the last one first -/
  log : List Call

/-- The call of `yakvm_destroy_vm` that `yakvm_put_vm` makes, if any. -/
def putCalls (vm : ℕ) (k : Kernel) : List Call :=
  match k.vms vm with
  | some v => if v.refcount - 1 = 0 then [.destroyVm vm] else []
  | none => []

/-- `yakvm_put_vm`, recorded. -/
def Sys.put (vm : ℕ) (x : Sys) : Except Crash Sys := do
  let k ← putVm vm x.k
  .ok { x with k := k, log := putCalls vm x.k ++ x.log }

/-- The next step of a request. `a` answers the allocations, `fd` the installation of the
file. -/
def Req.advance (nasid : BitVec 32) (a : VcpuAsk) (fd : Bool) (r : Req) (x : Sys) : Except Crash (Stage × Sys) :=
  match r.stage with
  | .start => do
    let (vcpu, k) ← createVcpu nasid a r.vm x.k
    match vcpu with
    | .error _ => .ok (.finished, { x with k := k })
    | .ok vcpu => .ok (.allocated vcpu, { x with k := k })
  | .allocated vcpu => do
    let v ← deref x.k.vms r.vm
    if v.vcpu.isSome then .ok (.refused vcpu, x)
    else
      let k ← setVcpu r.vm (some vcpu) x.k
      .ok (.published vcpu, { x with k := k })
  | .published vcpu => do
    let k ← getVm r.vm x.k
    .ok (.got vcpu, { x with k := k })
  | .got vcpu =>
    if fd then
      .ok (.finished, { x with vcpuFiles := insert vcpu x.vcpuFiles, log := .openVcpu r.vm vcpu :: x.log })
    else .ok (.failed vcpu, x)
  | .failed vcpu => do
    let k ← setVcpu r.vm none x.k
    .ok (.cleared vcpu, { x with k := k })
  | .cleared vcpu => do
    let x ← x.put r.vm
    .ok (.put vcpu, x)
  | .put vcpu => do
    let k ← destroyVcpu vcpu x.k
    .ok (.finished, { x with k := k })
  | .refused vcpu => do
    let k ← destroyVcpu vcpu x.k
    .ok (.finished, { x with k := k })
  | .finished => .ok (.finished, x)

/-- What can happen next. -/
inductive Act
  /-- `yakvm_create_vm` -/
  | createVm (a : VmAsk)
  /-- the installation of the file of a new vm succeeds or fails -/
  | openVm (vm : ℕ) (fd : Bool)
  /-- `YAKVM_CREATE_VCPU` is called -/
  | request (vm : ℕ)
  /-- the request with this number takes a step -/
  | advance (i : ℕ) (a : VcpuAsk) (fd : Bool)
  | closeVm (vm : ℕ)
  | closeVcpu (vcpu : ℕ)
  | mmapPage (vm : ℕ) (gpa : Word) (ask : ℕ → Option Frame)
  | fault (vm : ℕ) (address vmStart : Word) (ask : ℕ → Option Frame)

/-- One step. An action on a file that is not open changes nothing. -/
def Sys.step (nasid : BitVec 32) : Act → Sys → Except Crash Sys
  | .createVm a, x => do
    let (vm, k) ← Yakvm.createVm a x.k
    match vm with
    | .error _ => .ok { x with k := k }
    | .ok vm => .ok { x with k := k, opening := insert vm x.opening, log := .createVm vm :: x.log }
  | .openVm vm fd, x =>
    if vm ∈ x.opening then
      if fd then .ok { x with opening := x.opening.erase vm, vmFiles := insert vm x.vmFiles }
      else do
        let k ← destroyVm vm x.k
        .ok { x with k := k, opening := x.opening.erase vm, log := .destroyVm vm :: x.log }
    else .ok x
  | .request vm, x =>
    if vm ∈ x.vmFiles then .ok { x with reqs := x.reqs ++ [⟨vm, .start⟩] } else .ok x
  | .advance i a fd, x =>
    match x.reqs[i]? with
    | none => .ok x
    | some r => do
      let (stage, x) ← r.advance nasid a fd x
      .ok { x with reqs := x.reqs.set i ⟨r.vm, stage⟩ }
  | .closeVm vm, x =>
    if vm ∈ x.vmFiles ∧ ∀ r ∈ x.reqs, r.vm = vm → r.stage = .finished then do
      let x ← x.put vm
      .ok { x with vmFiles := x.vmFiles.erase vm }
    else .ok x
  | .closeVcpu vcpu, x =>
    if vcpu ∈ x.vcpuFiles then do
      let vc ← deref x.k.vcpus vcpu
      let x ← x.put vc.vm
      .ok { x with vcpuFiles := x.vcpuFiles.erase vcpu }
    else .ok x
  | .mmapPage vm gpa ask, x =>
    if vm ∈ x.vmFiles then do
      let v ← deref x.k.vms vm
      let vmm ← deref x.k.vmms v.vmm
      let (_, s) ← vmIoctlMmapPage vmm gpa ask x.k.phys
      .ok { x with k := { x.k with phys := s } }
    else .ok x
  | .fault vm address vmStart ask, x =>
    if vm ∈ x.vmFiles then do
      let v ← deref x.k.vms vm
      let vmm ← deref x.k.vmms v.vmm
      let (_, s) ← vmVmmFault vmm address vmStart ask x.k.phys
      .ok { x with k := { x.k with phys := s } }
    else .ok x

/-- A run of the driver. -/
def Sys.run (nasid : BitVec 32) (x : Sys) (acts : List Act) : Except Crash Sys :=
  acts.foldlM (fun x act => x.step nasid act) x

/-- The driver when it has just been loaded. `pages` are in use by the rest of the kernel. -/
def Sys.init (mem : Frame → Slot → Word) (pages : Finset Frame) : Sys :=
  ⟨⟨⟨mem, pages, ∅, 0⟩, fun _ => none, fun _ => none, fun _ => none, 1⟩, ∅, ∅, ∅, [], []⟩

end Yakvm
