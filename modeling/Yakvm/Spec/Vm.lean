import Yakvm.Spec.Npt

/-!
# Virtual machines and their requests

`driver/vm.c`, the vcpu objects of `driver/cpu.c`, and `yakvm_dev_ioctl_create_vm` of
`driver/main.c`. A kernel is the physical memory together with the live `struct vm`,
`struct vmm` and `struct vcpu`. `vm->lock` only serialises access to `vm->vcpu`; the
sections under it are single steps here. `vm->id` is only ever printed and is left out.

Every routine takes the allocators' answers, and the answer of `anon_inode_getfd`, as an
argument.
-/

namespace Yakvm

/-! ## Page requests -/

/-- `yakvm_vm_ioctl_mmap_page`. -/
def vmIoctlMmapPage (vmm : Vmm) (gpa : Word) (ask : ℕ → Option Frame) (s : Phys) :
    Except Crash (ℤ × Phys) := do
  let (page, s) ← vmmNptCreate vmm.ncr3 gpa false ask s
  match page with
  | .error r => .ok (r.code, s)
  | .ok _ => .ok (0, s)

/-- `yakvm_vm_vmm_fault`: the `vm_fault_t` it returns, which is an error number converted
to unsigned if there was one, and `vmf->page`. -/
def vmVmmFault (vmm : Vmm) (address vmStart : Word) (ask : ℕ → Option Frame) (s : Phys) :
    Except Crash ((BitVec 32 × Option Word) × Phys) := do
  let (page, s) ← vmmNptCreate vmm.ncr3 (address - vmStart) false ask s
  match page with
  | .error r => .ok ((BitVec.ofInt 32 r.code, none), s)
  | .ok page => .ok ((0, some page), s)

/-! ## Objects -/

/-- `struct vm`. -/
structure Vm where
  /-- the address of the object -/
  addr : Word
  refcount : ℤ
  vcpu : Option ℕ
  vmm : ℕ
  deriving DecidableEq

/-- `struct vcpu`, less its register contexts. -/
structure Vcpu where
  gvmcb : Frame
  hvmcb : Frame
  hsave : Frame
  iopm : Frame
  state : Frame
  vm : ℕ
  deriving DecidableEq

/-- The state of the driver. -/
structure Kernel where
  phys : Phys
  vms : ℕ → Option Vm
  vmms : ℕ → Option Vmm
  vcpus : ℕ → Option Vcpu
  /-- the counter `asid` of `driver/cpu.c` -/
  asid : BitVec 32

/-- Following a pointer to an object. -/
def deref {α : Type} (objs : ℕ → Option α) (o : ℕ) : Except Crash α :=
  match objs o with
  | some a => .ok a
  | none => .error .dangling

/-! ## The control block -/

/-- `get_order(12 KiB)`. -/
def iopmOrder : ℕ := 2

/-- `YAKVM_PIO_HAWK`, as the Makefile defines it. -/
def pioHawk : BitVec 16 := 0

/-- The pages of a block of `2^order` pages. -/
def block (f : Frame) (order : ℕ) : List Frame := (List.range (2 ^ order)).map fun j => f + BitVec.ofNat 40 j

/-- `alloc_pages(GFP_KERNEL_ACCOUNT | __GFP_ZERO, order)`: a block that is aligned to its
size. -/
def Phys.allocPages (s : Phys) (order : ℕ) : Option Frame → Option (Frame × Phys)
  | none => none
  | some f =>
    if f.toNat % 2 ^ order = 0 ∧ ∀ g ∈ block f order, g ∉ s.pages then
      some (f, { s with
        mem := fun g => if g ∈ block f order then 0 else s.mem g
        pages := s.pages ∪ (block f order).toFinset })
    else none

/-- The place of a 64-bit field of the control block, by byte offset. The control area
starts at 0, the save area at `0x400`. -/
def vmcbSlot (off : ℕ) : Slot := BitVec.ofNat 9 (off / 8)

/-- `set_bit` on a bitmap that starts at the page `f`. -/
def Phys.setBit (s : Phys) (f : Frame) (bit : ℕ) : Phys :=
  let page := f + BitVec.ofNat 40 (bit / 64 / ptrsPerPage)
  let slot := BitVec.ofNat 9 (bit / 64)
  s.store page slot (s.mem page slot ||| BitVec.twoPow 64 (bit % 64))

/-- `yakvm_vmcb_set_intercept`, for the intercepts below, all smaller than
`32 * MAX_INTERCEPT`. -/
def vmcbSetIntercept (s : Phys) (vmcb : Frame) (bit : ℕ) : Phys := s.setBit vmcb bit

def interceptException : ℕ := 64
def dbVector : ℕ := 1
def interceptHlt : ℕ := 120
def interceptIoioProt : ℕ := 123
def interceptVmrun : ℕ := 128

/-- `struct vmcb_seg` as two words. -/
def vmcbSeg (off : ℕ) (selector attrib : BitVec 16) (limit : BitVec 32) (base : Word) : List (Slot × Word) :=
  [(vmcbSlot off, limit ++ attrib ++ selector), (vmcbSlot (off + 8), base)]

/-- The attributes of the data segments, present and writable, and of the code segment. -/
def dataAttrib : BitVec 16 := 0x92
def codeAttrib : BitVec 16 := 0x9a

/-- The save area that `yakvm_vcpu_init_vmcb` sets up: the reset state, with the trap
flag set. -/
def vmcbSave : List (Slot × Word) :=
  [(vmcbSlot 0x558, 0x60000010), (vmcbSlot 0x578, 0xfff0)] ++
  vmcbSeg 0x410 0xf000 codeAttrib 0xffff 0xffff0000 ++
  vmcbSeg 0x430 0 dataAttrib 0xffff 0 ++
  vmcbSeg 0x400 0 dataAttrib 0xffff 0 ++
  vmcbSeg 0x440 0 dataAttrib 0xffff 0 ++
  vmcbSeg 0x450 0 dataAttrib 0xffff 0 ++
  vmcbSeg 0x420 0 dataAttrib 0xffff 0 ++
  vmcbSeg 0x460 0 0 0xffff 0 ++
  vmcbSeg 0x480 0 0 0xffff 0 ++
  vmcbSeg 0x470 0 2 0xffff 0 ++
  vmcbSeg 0x490 0 3 0xffff 0 ++
  [(vmcbSlot 0x568, 0xffff0ff0), (vmcbSlot 0x560, 0x400), (vmcbSlot 0x570, 0x102)]

/-- A sequence of stores to one page. -/
def Phys.storeAll (s : Phys) (f : Frame) (ws : List (Slot × Word)) : Phys :=
  ws.foldl (fun s w => s.store f w.1 w.2) s

/-- The fields of the control area used below. -/
def iopmBasePa : Slot := vmcbSlot 0x40
def controlAsid : Slot := vmcbSlot 0x58
def nestedCtl : Slot := vmcbSlot 0x90
def nestedCr3 : Slot := vmcbSlot 0xb0
def saveEfer : Slot := vmcbSlot 0x4d0

/-- `yakvm_vcpu_init_vmcb`. `nasid` is `cpuid_ebx(0x8000000a)`; the counter is drawn with
`atomic_inc_return`. -/
def vcpuInitVmcb (nasid : BitVec 32) (vc : Vcpu) (ncr3 : Word) (asid : BitVec 32) (s : Phys) :
    Except Crash (BitVec 32 × Phys) :=
  let s := s.storeAll vc.gvmcb vmcbSave
  let s := vmcbSetIntercept s vc.gvmcb (interceptException + dbVector)
  let s := vmcbSetIntercept s vc.gvmcb interceptHlt
  let s := vmcbSetIntercept s vc.gvmcb interceptIoioProt
  let s := s.store vc.gvmcb iopmBasePa (pageToPhys vc.iopm)
  let s := s.setBit vc.iopm pioHawk.toNat
  let s := s.store vc.gvmcb nestedCtl (s.mem vc.gvmcb nestedCtl ||| 1)
  let s := s.store vc.gvmcb nestedCr3 ncr3
  let s := s.store vc.gvmcb saveEfer (s.mem vc.gvmcb saveEfer ||| BitVec.twoPow 64 12)
  let s := vmcbSetIntercept s vc.gvmcb interceptVmrun
  let asid := asid + 1
  let s := s.store vc.gvmcb controlAsid ((s.mem vc.gvmcb controlAsid).extractLsb' 32 32 ++ asid)
  if asid < nasid then .ok (asid, s) else .error .panic

/-! ## Creating and destroying vcpus -/

/-- The allocators' answers during `yakvm_create_vcpu`. -/
structure VcpuAsk where
  vcpu : Bool
  gvmcb : Option Frame
  hvmcb : Option Frame
  hsave : Option Frame
  state : Option Frame
  iopm : Option Frame

/-- Every allocation of `yakvm_create_vcpu` succeeds. -/
def VcpuAsk.granted (a : VcpuAsk) (s : Phys) : Bool :=
  Option.isSome do
    let (_, s) ← s.kmalloc a.vcpu
    let (_, s) ← s.allocPage a.gvmcb
    let (_, s) ← s.allocPage a.hvmcb
    let (_, s) ← s.allocPage a.hsave
    let (_, s) ← s.allocPage a.state
    s.allocPages iopmOrder a.iopm

/-- `yakvm_create_vcpu`. The error branches are the labels `free_state` to `free_vcpu`. -/
def createVcpu (nasid : BitVec 32) (a : VcpuAsk) (vm : ℕ) (k : Kernel) :
    Except Crash (Except Errno ℕ × Kernel) :=
  match k.phys.kmalloc a.vcpu with
  | none => .ok (.error .ENOMEM, k)
  | some (vcpu, s) =>
    match s.allocPage a.gvmcb with
    | none => do
      let s ← s.kfree vcpu
      .ok (.error .ENOMEM, { k with phys := s })
    | some (gvmcb, s) =>
      match s.allocPage a.hvmcb with
      | none => do
        let s ← s.freePages [gvmcb]
        let s ← s.kfree vcpu
        .ok (.error .ENOMEM, { k with phys := s })
      | some (hvmcb, s) =>
        match s.allocPage a.hsave with
        | none => do
          let s ← s.freePages [hvmcb, gvmcb]
          let s ← s.kfree vcpu
          .ok (.error .ENOMEM, { k with phys := s })
        | some (hsave, s) =>
          match s.allocPage a.state with
          | none => do
            let s ← s.freePages [hsave, hvmcb, gvmcb]
            let s ← s.kfree vcpu
            .ok (.error .ENOMEM, { k with phys := s })
          | some (state, s) =>
            match s.allocPages iopmOrder a.iopm with
            | none => do
              let s ← s.freePages [state, hsave, hvmcb, gvmcb]
              let s ← s.kfree vcpu
              .ok (.error .ENOMEM, { k with phys := s })
            | some (iopm, s) => do
              let vc : Vcpu := ⟨gvmcb, hvmcb, hsave, iopm, state, vm⟩
              let v ← deref k.vms vm
              let vmm ← deref k.vmms v.vmm
              let (asid, s) ← vcpuInitVmcb nasid vc vmm.ncr3 k.asid s
              .ok (.ok vcpu, { k with phys := s, vcpus := Function.update k.vcpus vcpu (some vc), asid := asid })

/-- The pages `yakvm_destroy_vcpu` frees, in order. -/
def Vcpu.pages (vc : Vcpu) : List Frame :=
  [vc.state] ++ block vc.iopm iopmOrder ++ [vc.hsave, vc.hvmcb, vc.gvmcb]

/-- `yakvm_destroy_vcpu`. -/
def destroyVcpu (vcpu : ℕ) (k : Kernel) : Except Crash Kernel := do
  let vc ← deref k.vcpus vcpu
  let s ← k.phys.freePages vc.pages
  let s ← s.kfree vcpu
  .ok { k with phys := s, vcpus := Function.update k.vcpus vcpu none }

/-! ## Creating and destroying vms -/

/-- The allocators' answers during `yakvm_create_vm`; `vm` is the address of the object. -/
structure VmAsk where
  vm : Option Word
  vmm : VmmAsk

/-- `yakvm_create_vm`. -/
def createVm (a : VmAsk) (k : Kernel) : Except Crash (Except Errno ℕ × Kernel) :=
  match k.phys.kmalloc a.vm.isSome with
  | none => .ok (.error .ENOMEM, k)
  | some (vm, s) => do
    let (vmm, s) ← createVmm a.vmm s
    match vmm with
    | .error r =>
      let s ← s.kfree vm
      .ok (.error r, { k with phys := s })
    | .ok (o, vmm) =>
      .ok (.ok vm, { k with
        phys := s
        vms := Function.update k.vms vm (some ⟨a.vm.getD 0, 1, none, o⟩)
        vmms := Function.update k.vmms o (some vmm) })

/-- The tail of `yakvm_destroy_vm`: the vcpu of the vm, if it has one. -/
def destroyVcpuOf : Option ℕ → Kernel → Except Crash Kernel
  | none, k => .ok k
  | some vcpu, k => destroyVcpu vcpu k

/-- `yakvm_destroy_vm`. -/
def destroyVm (vm : ℕ) (k : Kernel) : Except Crash Kernel := do
  let v ← deref k.vms vm
  let vmm ← deref k.vmms v.vmm
  let s ← destroyVmm v.vmm vmm k.phys
  let k ← destroyVcpuOf v.vcpu { k with phys := s, vmms := Function.update k.vmms v.vmm none }
  let s ← k.phys.kfree vm
  .ok { k with phys := s, vms := Function.update k.vms vm none }

/-- `yakvm_get_vm`. -/
def getVm (vm : ℕ) (k : Kernel) : Except Crash Kernel := do
  let v ← deref k.vms vm
  .ok { k with vms := Function.update k.vms vm (some { v with refcount := v.refcount + 1 }) }

/-- `yakvm_put_vm`. -/
def putVm (vm : ℕ) (k : Kernel) : Except Crash Kernel := do
  let v ← deref k.vms vm
  let k := { k with vms := Function.update k.vms vm (some { v with refcount := v.refcount - 1 }) }
  if v.refcount - 1 = 0 then destroyVm vm k else .ok k

/-- `vm->vcpu = vcpu`. -/
def setVcpu (vm : ℕ) (vcpu : Option ℕ) (k : Kernel) : Except Crash Kernel := do
  let v ← deref k.vms vm
  .ok { k with vms := Function.update k.vms vm (some { v with vcpu := vcpu }) }

/-! ## Requests -/

/-- The `int` that `PTR_ERR` gives for a pointer. -/
def ptrErr (p : Word) : ℤ := (p.setWidth 32).toInt

/-- `yakvm_dev_ioctl_create_vm`: the returned `int`, and the vm if its file is open. -/
def devIoctlCreateVm (a : VmAsk) (fd : Except Errno ℕ) (k : Kernel) :
    Except Crash ((ℤ × Option ℕ) × Kernel) := do
  let (vm, k) ← createVm a k
  match vm, fd with
  | .error r, _ => .ok ((r.code, none), k)
  | .ok vm, .error r =>
    let k ← destroyVm vm k
    .ok ((r.code, none), k)
  | .ok vm, .ok fd => .ok (((fd : ℤ), some vm), k)

/-- `yakvm_vm_ioctl_create_vcpu`: the returned `int`, and the vcpu if its file is open. The
first error returns `PTR_ERR(vm)`, as the source has it. -/
def vmIoctlCreateVcpu (nasid : BitVec 32) (vm : ℕ) (a : VcpuAsk) (fd : Except Errno ℕ) (k : Kernel) :
    Except Crash ((ℤ × Option ℕ) × Kernel) := do
  let (vcpu, k) ← createVcpu nasid a vm k
  let v ← deref k.vms vm
  match vcpu with
  | .error _ => .ok ((ptrErr v.addr, none), k)
  | .ok vcpu =>
    if v.vcpu.isSome then
      let k ← destroyVcpu vcpu k
      .ok ((Errno.EEXIST.code, none), k)
    else
      let k ← setVcpu vm (some vcpu) k
      let k ← getVm vm k
      match fd with
      | .ok fd => .ok (((fd : ℤ), some vcpu), k)
      | .error r =>
        let k ← setVcpu vm none k
        let k ← putVm vm k
        let k ← destroyVcpu vcpu k
        .ok ((r.code, none), k)

/-- `yakvm_vm_release`. -/
def vmRelease (vm : ℕ) (k : Kernel) : Except Crash Kernel := putVm vm k

/-- `yakvm_vcpu_release`. -/
def vcpuRelease (vcpu : ℕ) (k : Kernel) : Except Crash Kernel := do
  let vc ← deref k.vcpus vcpu
  putVm vc.vm k

end Yakvm
