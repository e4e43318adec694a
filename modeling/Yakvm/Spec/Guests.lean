import Yakvm.Spec.Emulator
import Yakvm.Spec.Lifecycle

/-!
# Guests and the translations that processors keep

The driver with its files and requests, and between its steps the guests. A processor translates an access of a guest
by a walk of the table at `nested_cr3`, and may keep the result, tagged with the ASID in the control block, until it
drops it. Nothing in the driver flushes these translations: `tlb_ctl` stays zero. A guest reaches memory only through
a translation that its processor has at that moment.

A guest can be running whenever its vcpu's file is open.
-/

namespace Yakvm

/-- A translation that a processor keeps. -/
structure TlbEntry where
  cpu : ℕ
  asid : BitVec 32
  acc : Access
  key : BitVec 36
  page : Frame
  deriving DecidableEq

/-- The driver, and the translations that the processors keep. -/
structure Guests where
  sys : Sys
  tlb : List TlbEntry

/-- `vmcb->control.asid`. -/
def Kernel.asidOf (k : Kernel) (vc : Vcpu) : BitVec 32 := (k.phys.mem vc.gvmcb controlAsid).setWidth 32

/-- The processor's walk for the guest of a vcpu. -/
def Kernel.walk (k : Kernel) (vc : Vcpu) (acc : Access) (gpa : Word) : Translation :=
  hwTranslate k.phys.mem (k.phys.mem vc.gvmcb nestedCr3) acc gpa

/-- The words of a control block that neither an exit nor `YAKVM_SET_REGS` writes: all up to the ASID and `tlb_ctl`,
`nested_ctl` and `nested_cr3`. -/
def vmcbFixed (i : Slot) : Bool := decide (i.toNat < 12) || i = nestedCtl || i = nestedCr3

/-- What can happen next. -/
inductive GuestAct
  /-- the driver takes a step -/
  | driver (act : Act)
  /-- a processor walks the table for the guest of a vcpu, and keeps what it finds -/
  | fill (cpu vcpu : ℕ) (acc : Access) (gpa : Word)
  /-- the processor marks the entry that it reads in the `n`-th table of such a walk -/
  | mark (vcpu : ℕ) (gpa : Word) (n : ℕ) (accessed dirty : Bool)
  /-- a processor drops the translation with this number -/
  | evict (i : ℕ)
  /-- the guest of a vcpu writes a word, through the translation with this number -/
  | store (vcpu i : ℕ) (slot : Slot) (w : Word)
  /-- userspace writes a word to a page of a vm that it has mapped -/
  | userStore (vm : ℕ) (gpa : Word) (slot : Slot) (w : Word)
  /-- an entry, an exit or a request on the vcpu writes to one of its pages -/
  | switch (vcpu : ℕ) (page : Frame) (slot : Slot) (w : Word)

/-- One word of memory is written. -/
def Kernel.poke (k : Kernel) (f : Frame) (i : Slot) (w : Word) : Kernel := { k with phys := k.phys.store f i w }

/-- The memory of the driver changes. -/
def Guests.setKernel (x : Guests) (k : Kernel) : Guests := { x with sys := { x.sys with k := k } }

namespace Guests

/-- The vcpu, if its file is open. -/
def running (x : Guests) (c : ℕ) : Option Vcpu := if c ∈ x.sys.vcpuFiles then x.sys.k.vcpus c else none

/-- One step. What cannot happen changes nothing. -/
def step (nasid : BitVec 32) : GuestAct → Guests → Except Crash Guests
  | .driver act, x => do
    let sys ← x.sys.step nasid act
    .ok { x with sys := sys }
  | .fill cpu c acc gpa, x =>
    match x.running c with
    | none => .ok x
    | some vc =>
      match x.sys.k.walk vc acc gpa with
      | .page f => .ok { x with tlb := ⟨cpu, x.sys.k.asidOf vc, acc, key gpa, f⟩ :: x.tlb }
      | _ => .ok x
  | .mark c gpa n accessed dirty, x =>
    match x.running c with
    | none => .ok x
    | some vc =>
      let s := Emulator.hwMark x.sys.k.phys (x.sys.k.phys.mem vc.gvmcb nestedCr3) gpa n accessed dirty
      .ok (x.setKernel { x.sys.k with phys := s })
  | .evict i, x => .ok { x with tlb := x.tlb.eraseIdx i }
  | .store c i slot w, x =>
    match x.running c, x.tlb[i]? with
    | some vc, some e =>
      if e.asid = x.sys.k.asidOf vc ∧ e.acc = .write then .ok (x.setKernel (x.sys.k.poke e.page slot w)) else .ok x
    | _, _ => .ok x
  | .userStore vm gpa slot w, x =>
    if vm ∈ x.sys.vmFiles then do
      let v ← deref x.sys.k.vms vm
      let vmm ← deref x.sys.k.vmms v.vmm
      match hwTranslate x.sys.k.phys.mem vmm.ncr3 .write gpa with
      | .page f => .ok (x.setKernel (x.sys.k.poke f slot w))
      | _ => .ok x
    else .ok x
  | .switch c page slot w, x =>
    match x.running c with
    | none => .ok x
    | some vc =>
      if (page = vc.hvmcb ∨ page = vc.hsave ∨ page = vc.state) ∨ page = vc.gvmcb ∧ vmcbFixed slot = false then
        .ok (x.setKernel (x.sys.k.poke page slot w))
      else .ok x

/-- A run. -/
def run (nasid : BitVec 32) (x : Guests) (acts : List GuestAct) : Except Crash Guests :=
  acts.foldlM (fun x act => step nasid act x) x

/-- The driver when it has just been loaded, on processors that keep no translation of a guest. -/
def init (mem : Frame → Slot → Word) (pages : Finset Frame) : Guests := ⟨Sys.init mem pages, []⟩

end Guests

end Yakvm
