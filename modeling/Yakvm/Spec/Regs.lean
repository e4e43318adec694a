import Yakvm.Spec.Entry

/-!
# Registers

The structures that the driver and the emulator share, from `include/cpu.h`, and the
registers of a guest as the driver stores them between runs.
-/

namespace Yakvm

/-- The general-purpose registers. -/
inductive Reg
  | rax
  | rbx
  | rcx
  | rdx
  | rdi
  | rsi
  | rbp
  | rsp
  | r8
  | r9
  | r10
  | r11
  | r12
  | r13
  | r14
  | r15
  deriving DecidableEq, Repr

/-- `struct registers`. -/
structure Registers where
  rax : Word
  rbx : Word
  rcx : Word
  rdx : Word
  rdi : Word
  rsi : Word
  rbp : Word
  rsp : Word
  r8 : Word
  r9 : Word
  r10 : Word
  r11 : Word
  r12 : Word
  r13 : Word
  r14 : Word
  r15 : Word
  rip : Word
  cs : BitVec 16
  ss : BitVec 16
  deriving DecidableEq

/-- `struct state`. -/
structure State where
  exitCode : BitVec 32
  exitInfo1 : Word
  exitInfo2 : Word
  cs : Word
  rip : Word
  deriving DecidableEq

/-- The registers of a guest: the general-purpose registers, `rip`, and the bases of the
code and stack segments. -/
structure Guest where
  gpr : Reg → Word
  rip : Word
  csBase : Word
  ssBase : Word

/-- What `YAKVM_GET_REGS` shows of a guest: the bases are cut to 16 bits. -/
def Guest.show (g : Guest) : Registers where
  rax := g.gpr .rax
  rbx := g.gpr .rbx
  rcx := g.gpr .rcx
  rdx := g.gpr .rdx
  rdi := g.gpr .rdi
  rsi := g.gpr .rsi
  rbp := g.gpr .rbp
  rsp := g.gpr .rsp
  r8 := g.gpr .r8
  r9 := g.gpr .r9
  r10 := g.gpr .r10
  r11 := g.gpr .r11
  r12 := g.gpr .r12
  r13 := g.gpr .r13
  r14 := g.gpr .r14
  r15 := g.gpr .r15
  rip := g.rip
  cs := g.csBase.setWidth 16
  ss := g.ssBase.setWidth 16

/-- A general-purpose register in `struct registers`. -/
def Registers.gpr (regs : Registers) : Reg → Word
  | .rax => regs.rax
  | .rbx => regs.rbx
  | .rcx => regs.rcx
  | .rdx => regs.rdx
  | .rdi => regs.rdi
  | .rsi => regs.rsi
  | .rbp => regs.rbp
  | .rsp => regs.rsp
  | .r8 => regs.r8
  | .r9 => regs.r9
  | .r10 => regs.r10
  | .r11 => regs.r11
  | .r12 => regs.r12
  | .r13 => regs.r13
  | .r14 => regs.r14
  | .r15 => regs.r15

/-- What `YAKVM_SET_REGS` makes of a guest. -/
def Guest.ofRegisters (regs : Registers) : Guest :=
  ⟨regs.gpr, regs.rip, regs.cs.setWidth 64, regs.ss.setWidth 64⟩

@[simp] theorem Guest.show_gpr (g : Guest) (r : Reg) : g.show.gpr r = g.gpr r := by
  cases r <;> rfl

end Yakvm
