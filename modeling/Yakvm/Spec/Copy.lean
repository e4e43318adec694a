import Yakvm.Bytes.Layout
import Yakvm.Spec.Switch

/-!
# The bytes that go to userspace

`YAKVM_GET_REGS`, byte by byte: `yakvm_vcpu_get_regs` of `driver/cpu.c` fills a local variable of
type `struct registers` of `include/cpu.h`, and copies it.
-/

namespace Yakvm

open Bytes

/-- The sizes of the members of `struct registers`: `rax`, `rbx`, `rcx`, `rdx`, `rdi`, `rsi`,
`rbp`, `rsp`, `r8` to `r15` and `rip`; `cs` and `ss`. -/
def registersSizes : List ℕ := [8, 8, 8, 8, 8, 8, 8, 8, 8, 8, 8, 8, 8, 8, 8, 8, 8, 2, 2]

/-- `struct registers`: offset and size of each member. -/
def registersLayout : List (ℕ × ℕ) := layout 0 registersSizes

def sizeofRegisters : ℕ := sizeofStruct registersSizes

/-- A `struct registers` in memory. -/
def registersAt (m : Mem 64) (a : Word) : Registers where
  rax := load64 m (at64 a 0)
  rbx := load64 m (at64 a 8)
  rcx := load64 m (at64 a 16)
  rdx := load64 m (at64 a 24)
  rdi := load64 m (at64 a 32)
  rsi := load64 m (at64 a 40)
  rbp := load64 m (at64 a 48)
  rsp := load64 m (at64 a 56)
  r8 := load64 m (at64 a 64)
  r9 := load64 m (at64 a 72)
  r10 := load64 m (at64 a 80)
  r11 := load64 m (at64 a 88)
  r12 := load64 m (at64 a 96)
  r13 := load64 m (at64 a 104)
  r14 := load64 m (at64 a 112)
  r15 := load64 m (at64 a 120)
  rip := load64 m (at64 a 128)
  cs := load m (at64 a 136) 2
  ss := load m (at64 a 138) 2

namespace VcpuAt

variable (vc : VcpuAt)

/-- The right sides of the assignments of `yakvm_vcpu_get_regs`, in the order of the members. -/
def getRegsPlaces : List Place :=
  [.save saveRax, .context .rbx, .context .rcx, .context .rdx, .context .rdi, .context .rsi, .context .rbp,
    .save saveRsp, .context .r8, .context .r9, .context .r10, .context .r11, .context .r12, .context .r13,
    .context .r14, .context .r15, .save saveRip, .save saveCsBase, .save saveSsBase]

/-- The assignments, to the local variable at `regs`. What is wider than the member is cut. -/
def getRegsLocal (regs : Word) (m : Mem 64) : Mem 64 :=
  (registersLayout.zip getRegsPlaces).foldl
    (fun m x => store m (at64 regs x.1.1) x.1.2 ((load64 m (x.2.addr vc m)).setWidth (8 * x.1.2))) m

/-- `yakvm_vcpu_get_regs`: what it returns, and the bytes that userspace gets. `copy_to_user`
leaves the last `left` bytes uncopied. -/
def getRegsCopy (regs : Word) (left : ℕ) (m : Mem 64) : ℤ × List (BitVec 8) :=
  let m := vc.getRegsLocal regs m
  (if left = 0 then 0 else Errno.EFAULT.code, bytesAt m regs (sizeofRegisters - left))

end VcpuAt

end Yakvm
