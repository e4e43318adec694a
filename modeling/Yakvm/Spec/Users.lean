import Yakvm.Paging.Space
import Yakvm.Spec.Flat
import Yakvm.Spec.Mapping

/-!
# Processes and their mappings of the driver's files

The guests with the driver, and beside them processes that map the files of vms and vcpus: `yakvm_vm_mmap` and
`yakvm_vm_vmm_fault` for a vm, `yakvm_vcpu_state_mmap` for a vcpu. An entry that is installed in the page table of a process
stays until the process unmaps it or the kernel drops it; the driver is not asked again. Descriptors and areas hold a file, and
the driver's `release` is called when the last of them is gone.

A process forks, and unmaps, splits, joins and moves its areas as it likes. Addresses and file offsets are counted in pages. The
mappings are shared ones.
-/

namespace Yakvm

/-- A file that can be mapped. -/
inductive Backing
  | vm (o : ℕ)
  | vcpu (c : ℕ)
  deriving DecidableEq

/-- An entry of the page table of a process, with what it was installed for, which nothing reads: the file, and for a vm the
guest address that `yakvm_vm_vmm_fault` computed. -/
structure Pte where
  page : Frame
  file : Backing
  gpa : Word
  deriving DecidableEq

abbrev AddressSpace := Paging.Space Backing Pte

/-- `yakvm_vcpu_state_mmap`: what it returns. `remapped` is what `remap_pfn_range` returns. -/
def vcpuStateMmap (vmPgoff vmStart vmEnd : ℕ) (remapped : ℤ) : ℤ :=
  if vmPgoff ≠ 0 then Errno.EINVAL.code
  else if vmEnd - vmStart ≠ 1 then Errno.EINVAL.code
  else if remapped < 0 then remapped
  else 0

/-- The guests and the processes. -/
structure Users where
  guests : Guests
  spaces : List AddressSpace

/-- What a process does. -/
inductive ProcAct
  /-- it forks, and the kernel copies the entries that `keep` names -/
  | fork (keep : ℕ → Bool)
  | exit
  /-- `mmap` of `n` pages of an open file at the page `start` -/
  | mmap (file : Backing) (start n vmPgoff : ℕ) (remapped : ℤ)
  | munmap (start n : ℕ)
  /-- what `mprotect`, `madvise` and the like do to areas -/
  | split (a : Paging.Area Backing) (u : ℕ)
  | merge (a b : Paging.Area Backing)
  | mremap (a : Paging.Area Backing) (dest : ℕ)
  /-- the kernel drops the other entries -/
  | zap (keep : ℕ → Bool)
  /-- an access to the page `u`, which is not installed -/
  | fault (u : ℕ) (ask : ℕ → Option Frame)
  /-- a store through the entry for the page `u` -/
  | store (u : ℕ) (slot : Slot) (w : Word)

/-- What can happen next. -/
inductive UserAct
  /-- the driver, a guest or a processor takes a step -/
  | guest (act : GuestAct)
  /-- a process starts -/
  | exec
  /-- the process with the number `i` does something -/
  | proc (i : ℕ) (act : ProcAct)

namespace Users

/-- The file is mapped in no process. -/
def unmapped (x : Users) (file : Backing) : Bool := x.spaces.all fun s => s.areas.all fun a => a.file ≠ file

/-- The kernel releases a file when it is not mapped any more. Userspace gets at a vm through its mappings only. -/
def permits (x : Users) : GuestAct → Bool
  | .driver (.closeVm vm) => x.unmapped (.vm vm)
  | .driver (.closeVcpu vcpu) => x.unmapped (.vcpu vcpu)
  | .driver (.fault ..) | .userStore .. => false
  | _ => true

/-- The address space of a process changes. -/
def setSpace (x : Users) (i : ℕ) (s : AddressSpace) : Users := { x with spaces := x.spaces.set i s }

/-- The kernel's `mmap` of a file, with the driver's part: an entry is only made for a vcpu. -/
def mmap (x : Users) (i : ℕ) (s : AddressSpace) (file : Backing) (start n vmPgoff : ℕ) (remapped : ℤ) : Except Crash Users :=
  match file with
  | .vm o => if o ∈ x.guests.sys.vmFiles then .ok (x.setSpace i (s.map ⟨start, start + n, vmPgoff, .vm o⟩)) else .ok x
  | .vcpu c =>
    if c ∈ x.guests.sys.vcpuFiles then
      if vcpuStateMmap vmPgoff start (start + n) remapped = 0 then do
        let vc ← deref x.guests.sys.k.vcpus c
        .ok (x.setSpace i ((s.map ⟨start, start + n, vmPgoff, .vcpu c⟩).install start ⟨vc.state, .vcpu c, 0⟩))
      else .ok (x.setSpace i (s.unmap start (start + n)))
    else .ok x

/-- The kernel's page fault. Only a vm has a fault handler. -/
def fault (x : Users) (i : ℕ) (s : AddressSpace) (u : ℕ) (ask : ℕ → Option Frame) : Except Crash Users :=
  match s.areas.find? fun a => a.Has u with
  | some ⟨first, _, _, .vm o⟩ => do
    let k := x.guests.sys.k
    let v ← deref k.vms o
    let vmm ← deref k.vmms v.vmm
    let ((_, page), phys) ← vmVmmFault vmm (pageAddr u) (pageAddr first) ask k.phys
    let x := { x with guests := x.guests.setKernel { k with phys := phys } }
    match page with
    | none => .ok x
    | some page => .ok (x.setSpace i (s.install u ⟨page.setWidth 40, .vm o, pageAddr u - pageAddr first⟩))
  | _ => .ok x

/-- The process `i` does something in its address space `s`. -/
def act (x : Users) (i : ℕ) (s : AddressSpace) : ProcAct → Except Crash Users
  | .fork keep => .ok { x with spaces := x.spaces ++ [s.restrict keep] }
  | .exit => .ok (x.setSpace i .empty)
  | .mmap file start n vmPgoff remapped => if n = 0 then .ok x else x.mmap i s file start n vmPgoff remapped
  | .munmap start n => .ok (x.setSpace i (s.unmap start (start + n)))
  | .split a u => .ok (x.setSpace i (s.split a u))
  | .merge a b => .ok (x.setSpace i (s.join a b))
  | .mremap a dest => .ok (x.setSpace i (s.move a dest))
  | .zap keep => .ok (x.setSpace i (s.restrict keep))
  | .fault u ask => if (s.entry u).isSome then .ok x else x.fault i s u ask
  | .store u slot w =>
    match s.entry u with
    | none => .ok x
    | some p => .ok { x with guests := x.guests.setKernel (x.guests.sys.k.poke p.page slot w) }

/-- One step. What cannot happen changes nothing. -/
def step (nasid : BitVec 32) (x : Users) : UserAct → Except Crash Users
  | .guest act =>
    if x.permits act then do
      let guests ← x.guests.step nasid act
      .ok { x with guests := guests }
    else .ok x
  | .exec => .ok { x with spaces := x.spaces ++ [.empty] }
  | .proc i act =>
    match x.spaces[i]? with
    | none => .ok x
    | some s => x.act i s act

/-- A run. -/
def run (nasid : BitVec 32) (x : Users) (acts : List UserAct) : Except Crash Users :=
  acts.foldlM (step nasid) x

/-- The word that a step writes to the memory of a vm. -/
def written (x : Users) : UserAct → Option FlatWrite
  | .guest act => if x.permits act then x.guests.written act else none
  | .proc i (.store u slot w) =>
    match (x.spaces[i]?).bind fun s => s.entry u with
    | some ⟨_, .vm o, gpa⟩ => some ⟨o, key gpa, slot, w⟩
    | _ => none
  | _ => none

/-- The words that are written in a run, in order. -/
def writes (nasid : BitVec 32) : Users → List UserAct → List FlatWrite
  | _, [] => []
  | x, act :: acts =>
    match step nasid x act with
    | .error _ => []
    | .ok x' => (x.written act).toList ++ writes nasid x' acts

/-- The driver has just been loaded, and there are no processes. -/
def init (mem : Frame → Slot → Word) (pages : Finset Frame) : Users := ⟨Guests.init mem pages, []⟩

end Users

end Yakvm
