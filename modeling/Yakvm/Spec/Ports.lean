import Yakvm.Spec.Switch
import Yakvm.Spec.Vm

/-!
# Port accesses

What the processor does with a guest's access to a port, as the control block and the I/O
permission map that `yakvm_vcpu_init_vmcb` sets up tell it. The pages of a vcpu are reached through
the kernel's direct map.
-/

namespace Yakvm

open Bytes

/-! ## Pages in the direct map -/

/-- A byte of a page. -/
def Phys.byte (s : Phys) (f : Frame) (off : ℕ) : BitVec 8 :=
  (s.mem f (BitVec.ofNat 9 (off / 8))).extractLsb' (8 * (off % 8)) 8

/-- `page_address`. -/
def pageAddress (f : Frame) : Word := physToVirt (pageToPhys f)

/-- The page is in memory, with its content. -/
def Phys.ShownAt (s : Phys) (f : Frame) (m : Mem 64) : Prop :=
  ∀ off < 4096, m (at64 (pageAddress f) off) = s.byte f off

/-- All pages, in the direct map. -/
def Phys.bytes (s : Phys) : Mem 64 := fun a =>
  let pa := virtToPhys a
  s.byte (pa.extractLsb' 12 40) (pa.toNat % 4096)

/-! ## The processor -/

/-- A bit of a bitmap. -/
def bitAt (m : Mem 64) (a : Word) (bit : ℕ) : Bool := (m (at64 a (bit / 8))).getLsbD (bit % 8)

/-- An access of `IN`, `OUT`, `INS` or `OUTS`, of `size` bytes. -/
structure PortAccess where
  port : BitVec 16
  size : ℕ
  size_mem : size ∈ [1, 2, 4]

/-- What becomes of it: the guest exits with `IOIO`, or the access goes to the ports of the host. -/
inductive PortOutcome
  | exit
  | host
  deriving DecidableEq

/-- `iopm_base_pa` in the control block. -/
def controlIopmBasePa : ℕ := 0x40

/-- With `IOIO_PROT` intercepted, an access exits if the bit of one of its ports is set in the
permission map; without, no access exits. -/
def portOutcome (m : Mem 64) (vmcb : Word) (x : PortAccess) : PortOutcome :=
  let iopm := physToVirt (load64 m (at64 vmcb controlIopmBasePa))
  if bitAt m vmcb interceptIoioProt = true ∧ ∃ i < x.size, bitAt m iopm (x.port.toNat + i) = true then .exit
  else .host

/-- A vcpu in memory, with its permission map, which has `2^iopmOrder` pages. -/
structure VcpuIo extends VcpuAt where
  iopm : Word
  iopm_apart : ∀ r ∈ toVcpuAddr.regions, Apart iopm 16384 r.1 r.2

namespace VcpuIo

variable (p : VcpuIo)

/-- A request, as the processor serves it: the stack of a `YAKVM_RUN` is elsewhere, and the exit
writes neither the intercepts nor the other fields up to the address space identifier. -/
def Fair (m : Mem 64) (call : VcpuCall) : Prop :=
  match call.cmd with
  | .run h g =>
    (∀ r ∈ p.regions, Apart r.1 r.2 (h.gpr .rsp - 32) 32) ∧ Apart p.iopm 16384 (h.gpr .rsp - 32) 32 ∧
      ∀ off < 0x58, g.area off = m (at64 p.gvmcb off)
  | _ => True

/-- A sequence of such requests. -/
def FairAll : List VcpuCall → Mem 64 → Prop
  | [], _ => True
  | call :: calls, m => p.Fair m call ∧ FairAll calls (p.vcpuIoctl call m).2

end VcpuIo

end Yakvm
