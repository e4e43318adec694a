import Yakvm.Bytes.Memory
import Yakvm.Spec.Phys
import Yakvm.Spec.Regs

/-!
# The world switch

`driver/vcpu_run.S`, instruction by instruction, on a processor with the SVM instructions;
and the requests on a vcpu's file of `driver/cpu.c` that copy registers. Memory is the
kernel's, by virtual address and byte.
-/

namespace Yakvm

open Bytes

/-! ## Memory and structures -/

def load64 (m : Mem 64) (a : Word) : Word := load m a 8

def store64 (m : Mem 64) (a : Word) (v : Word) : Mem 64 := store m a 8 v

/-- An address plus an offset. -/
def at64 (a : Word) (off : ℕ) : Word := a + BitVec.ofNat 64 off

/-- The start of the kernel's direct map. -/
def pageOffset : Word := 0xffff888000000000

def virtToPhys (va : Word) : Word := va - pageOffset

def physToVirt (pa : Word) : Word := pa + pageOffset

/-- The offsets that `vcpu_run.h` defines. -/
def contextVmcbOff : ℕ := 0
def contextRbxOff : ℕ := 8
def contextRcxOff : ℕ := 16
def contextRdxOff : ℕ := 24
def contextRdiOff : ℕ := 32
def contextRsiOff : ℕ := 40
def contextRbpOff : ℕ := 48
def contextR8Off : ℕ := 56
def contextR9Off : ℕ := 64
def contextR10Off : ℕ := 72
def contextR11Off : ℕ := 80
def contextR12Off : ℕ := 88
def contextR13Off : ℕ := 96
def contextR14Off : ℕ := 104
def contextR15Off : ℕ := 112

/-- The registers in `struct context`, in order; they follow the pointer `vmcb`. -/
def contextFields : List Reg :=
  [.rbx, .rcx, .rdx, .rdi, .rsi, .rbp, .r8, .r9, .r10, .r11, .r12, .r13, .r14, .r15]

/-- `offsetof(struct context, r)`. -/
def offsetofContext (r : Reg) : ℕ := 8 + 8 * contextFields.idxOf r

def sizeofContext : ℕ := 120

/-- Offsets in `struct vmcb`, whose save area starts at `0x400`. -/
def controlExitCode : ℕ := 0x70
def controlExitInfo1 : ℕ := 0x78
def controlExitInfo2 : ℕ := 0x80
def saveCsBase : ℕ := 0x418
def saveSsBase : ℕ := 0x428
def saveRip : ℕ := 0x578
def saveRsp : ℕ := 0x5d8
def saveRax : ℕ := 0x5f8

/-- The words of the save area that `vmload` and `vmsave` move: `fs`, `gs`, `ldtr`, `tr`,
`star`, `lstar`, `cstar`, `sfmask`, `kernel_gs_base` and the three of `sysenter`. -/
def svmFields : List ℕ :=
  [0x440, 0x448, 0x450, 0x458, 0x470, 0x478, 0x490, 0x498, 0x600, 0x608, 0x610, 0x618, 0x620, 0x628, 0x630, 0x638]

/-! ## The processor -/

/-- The general-purpose registers and `rip`. -/
@[ext] structure Core where
  gpr : Reg → Word
  rip : Word

/-- What a guest does between `vmrun` and its exit: it transforms the registers, and leaves
something in the other fields of the control block and in the registers of `vmsave`. -/
structure GuestRun where
  regs : Core → Core
  area : ℕ → BitVec 8
  sys : ℕ → Word

/-- The SVM instructions executed, with their operand; for `vmrun` also what the guest
receives. -/
inductive Mark
  | vmload (pa : Word)
  | vmrun (pa : Word) (entered : Core)
  | vmsave (pa : Word)

/-- The state of a processor. -/
structure Cpu where
  gpr : Reg → Word
  rip : Word
  /-- what `vmload` and `vmsave` move, by place in the control block -/
  sys : ℕ → Word
  mem : Mem 64
  /-- the SVM instructions so far, newest first -/
  trace : List Mark

inductive Instr
  /-- `mov %src, off(%base)` -/
  | store (src : Reg) (off : ℕ) (base : Reg)
  /-- `mov off(%base), %dst` -/
  | load (off : ℕ) (base dst : Reg)
  | mov (src dst : Reg)
  | push (src : Reg)
  | pop (dst : Reg)
  | vmload (r : Reg)
  | vmrun (r : Reg)
  | vmsave (r : Reg)
  | ret
  deriving DecidableEq

namespace Cpu

def setReg (c : Cpu) (r : Reg) (v : Word) : Cpu := { c with gpr := Function.update c.gpr r v }

/-- The registers that the guest starts with: three from the save area, the others as they
are. -/
def enter (c : Cpu) (vmcb : Word) : Core where
  gpr
    | .rax => load64 c.mem (at64 vmcb saveRax)
    | .rsp => load64 c.mem (at64 vmcb saveRsp)
    | r => c.gpr r
  rip := load64 c.mem (at64 vmcb saveRip)

/-- The control block, which takes a page, after an exit. -/
def exitMem (m : Mem 64) (vmcb : Word) (g : GuestRun) (out : Core) : Mem 64 :=
  let m : Mem 64 := fun x => if (x - vmcb).toNat < 4096 then g.area (x - vmcb).toNat else m x
  storeAll 8 m
    [(at64 vmcb saveRax, out.gpr .rax), (at64 vmcb saveRsp, out.gpr .rsp), (at64 vmcb saveRip, out.rip)]

/-- `vmrun`, up to and including the exit. The host's `rax` and `rsp` are restored, the other
registers are the guest's. The rest of the host's state goes to the page `hsave` and comes
back from there; no code reads that page. -/
def vmrun (c : Cpu) (pa : Word) (g : GuestRun) : Cpu :=
  let vmcb := physToVirt pa
  let entered := c.enter vmcb
  let out := g.regs entered
  { c with
    gpr := fun
      | .rax => c.gpr .rax
      | .rsp => c.gpr .rsp
      | r => out.gpr r
    sys := g.sys
    mem := exitMem c.mem vmcb g out
    trace := .vmrun pa entered :: c.trace }

/-- `vmsave`. -/
def vmsave (c : Cpu) (pa : Word) : Cpu :=
  { c with
    mem := storeAll 8 c.mem (svmFields.map fun off => (at64 (physToVirt pa) off, c.sys off))
    trace := .vmsave pa :: c.trace }

/-- `vmload`. -/
def vmload (c : Cpu) (pa : Word) : Cpu :=
  { c with
    sys := fun off => if off ∈ svmFields then load64 c.mem (at64 (physToVirt pa) off) else c.sys off
    trace := .vmload pa :: c.trace }

def push (c : Cpu) (v : Word) : Cpu :=
  { c.setReg .rsp (c.gpr .rsp - 8) with mem := store64 c.mem (c.gpr .rsp - 8) v }

end Cpu

/-- One instruction. -/
def Instr.exec (g : GuestRun) : Instr → Cpu → Cpu
  | .store src off base, c => { c with mem := store64 c.mem (at64 (c.gpr base) off) (c.gpr src) }
  | .load off base dst, c => c.setReg dst (load64 c.mem (at64 (c.gpr base) off))
  | .mov src dst, c => c.setReg dst (c.gpr src)
  | .push src, c => c.push (c.gpr src)
  | .pop dst, c => (c.setReg .rsp (c.gpr .rsp + 8)).setReg dst (load64 c.mem (c.gpr .rsp))
  | .vmload r, c => c.vmload (c.gpr r)
  | .vmrun r, c => c.vmrun (c.gpr r) g
  | .vmsave r, c => c.vmsave (c.gpr r)
  | .ret, c => { c.setReg .rsp (c.gpr .rsp + 8) with rip := load64 c.mem (c.gpr .rsp) }

/-- A sequence of instructions. -/
def execAll (g : GuestRun) (is : List Instr) (c : Cpu) : Cpu := is.foldl (fun c i => i.exec g c) c

/-- `_yakvm_vcpu_run`. -/
def vcpuRunCode : List Instr :=
  -- save host registers
  [.store .rbx contextRbxOff .rsi, .store .rcx contextRcxOff .rsi, .store .rbp contextRbpOff .rsi,
    .store .r8 contextR8Off .rsi, .store .r9 contextR9Off .rsi, .store .r10 contextR10Off .rsi,
    .store .r11 contextR11Off .rsi, .store .r12 contextR12Off .rsi, .store .r13 contextR13Off .rsi,
    .store .r14 contextR14Off .rsi, .store .r15 contextR15Off .rsi,
    .push .rsi, .push .rdi, .push .rdx,
    -- load guest registers
    .mov .rdi .rax, .load contextRbxOff .rax .rbx, .load contextRcxOff .rax .rcx, .load contextRdxOff .rax .rdx,
    .load contextRdiOff .rax .rdi, .load contextRsiOff .rax .rsi, .load contextRbpOff .rax .rbp,
    .load contextR8Off .rax .r8, .load contextR9Off .rax .r9, .load contextR10Off .rax .r10,
    .load contextR11Off .rax .r11, .load contextR12Off .rax .r12, .load contextR13Off .rax .r13,
    .load contextR14Off .rax .r14, .load contextR15Off .rax .r15,
    -- run vm
    .pop .rax, .vmload .rax, .vmrun .rax, .vmsave .rax,
    -- save guest registers
    .pop .rax, .store .rbx contextRbxOff .rax, .store .rcx contextRcxOff .rax, .store .rdx contextRdxOff .rax,
    .store .rdi contextRdiOff .rax, .store .rsi contextRsiOff .rax, .store .rbp contextRbpOff .rax,
    .store .r8 contextR8Off .rax, .store .r9 contextR9Off .rax, .store .r10 contextR10Off .rax,
    .store .r11 contextR11Off .rax, .store .r12 contextR12Off .rax, .store .r13 contextR13Off .rax,
    .store .r14 contextR14Off .rax, .store .r15 contextR15Off .rax,
    -- load host registers
    .pop .rsi, .load contextR15Off .rsi .r15, .load contextR14Off .rsi .r14, .load contextR13Off .rsi .r13,
    .load contextR12Off .rsi .r12, .load contextR11Off .rsi .r11, .load contextR10Off .rsi .r10,
    .load contextR9Off .rsi .r9, .load contextR8Off .rsi .r8, .load contextRbpOff .rsi .rbp,
    .load contextRcxOff .rsi .rcx, .load contextRbxOff .rsi .rbx,
    .ret]

/-! ## Requests on a vcpu -/

/-- Where the parts of a vcpu are: `gctx`, `hctx`, the two control blocks and the page shared
with userspace. -/
structure VcpuAddr where
  gctx : Word
  hctx : Word
  gvmcb : Word
  hvmcb : Word
  state : Word

def VcpuAddr.regions (p : VcpuAddr) : List (Word × ℕ) :=
  [(p.gctx, sizeofContext), (p.hctx, sizeofContext), (p.gvmcb, 4096), (p.hvmcb, 4096), (p.state, 40)]

/-- A vcpu in memory. Its parts are separate allocations, or separate fields of one. -/
structure VcpuAt extends VcpuAddr where
  apart : toVcpuAddr.regions.Pairwise fun x y => Apart x.1 x.2 y.1 y.2

/-- The host when it calls `_yakvm_vcpu_run`: registers, what `vmsave` saves, and the address
that the call returns to. -/
structure Host where
  gpr : Reg → Word
  sys : ℕ → Word
  ret : Word

namespace VcpuAt

variable (vc : VcpuAt)

/-- The pointers `gctx.vmcb` and `hctx.vmcb`. -/
def gvmcbPtr (m : Mem 64) : Word := load64 m (at64 vc.gctx contextVmcbOff)
def hvmcbPtr (m : Mem 64) : Word := load64 m (at64 vc.hctx contextVmcbOff)

/-- The assignments of `yakvm_create_vcpu` to these two. -/
def initPtrs (m : Mem 64) : Mem 64 :=
  store64 (store64 m (at64 vc.gctx contextVmcbOff) vc.gvmcb) (at64 vc.hctx contextVmcbOff) vc.hvmcb

/-- `yakvm_vcpu_share_err_to_user`. -/
def shareErrToUser (m : Mem 64) : Mem 64 :=
  let vmcb := vc.gvmcbPtr m
  let m := store m vc.state 4 (load m (at64 vmcb controlExitCode) 4)
  let m := store64 m (at64 vc.state 8) (load64 m (at64 vmcb controlExitInfo1))
  let m := store64 m (at64 vc.state 16) (load64 m (at64 vmcb controlExitInfo2))
  let m := store64 m (at64 vc.state 24) (load64 m (at64 vmcb saveCsBase))
  store64 m (at64 vc.state 32) (load64 m (at64 vmcb saveRip))

/-- The processor after the call instruction. -/
def call (h : Host) (m : Mem 64) : Cpu :=
  let c : Cpu := ⟨h.gpr, 0, h.sys, m, []⟩
  let c := c.vmsave (virtToPhys (vc.hvmcbPtr m))
  let c := ((c.setReg .rdi vc.gctx).setReg .rsi vc.hctx).setReg .rdx (virtToPhys (vc.gvmcbPtr c.mem))
  c.push h.ret

/-- `yakvm_vcpu_run`: the memory it leaves, and the SVM instructions. `clgi`, `stgi`, the
write of `MSR_VM_HSAVE_PA` and the final `vmload` change no memory. -/
def vcpuRun (h : Host) (g : GuestRun) (m : Mem 64) : Mem 64 × List Mark :=
  let c := execAll g vcpuRunCode (vc.call h m)
  (vc.shareErrToUser c.mem, c.trace)

/-- `yakvm_vcpu_get_regs`, up to `copy_to_user`. -/
def vcpuGetRegs (m : Mem 64) : Registers where
  rax := load64 m (at64 (vc.gvmcbPtr m) saveRax)
  rbx := load64 m (at64 vc.gctx (offsetofContext .rbx))
  rcx := load64 m (at64 vc.gctx (offsetofContext .rcx))
  rdx := load64 m (at64 vc.gctx (offsetofContext .rdx))
  rdi := load64 m (at64 vc.gctx (offsetofContext .rdi))
  rsi := load64 m (at64 vc.gctx (offsetofContext .rsi))
  rbp := load64 m (at64 vc.gctx (offsetofContext .rbp))
  rsp := load64 m (at64 (vc.gvmcbPtr m) saveRsp)
  r8 := load64 m (at64 vc.gctx (offsetofContext .r8))
  r9 := load64 m (at64 vc.gctx (offsetofContext .r9))
  r10 := load64 m (at64 vc.gctx (offsetofContext .r10))
  r11 := load64 m (at64 vc.gctx (offsetofContext .r11))
  r12 := load64 m (at64 vc.gctx (offsetofContext .r12))
  r13 := load64 m (at64 vc.gctx (offsetofContext .r13))
  r14 := load64 m (at64 vc.gctx (offsetofContext .r14))
  r15 := load64 m (at64 vc.gctx (offsetofContext .r15))
  rip := load64 m (at64 (vc.gvmcbPtr m) saveRip)
  cs := (load64 m (at64 (vc.gvmcbPtr m) saveCsBase)).setWidth 16
  ss := (load64 m (at64 (vc.gvmcbPtr m) saveSsBase)).setWidth 16

/-- The left side of an assignment: a field of `vcpu->gctx`, or of `vcpu->gctx.vmcb->save`. -/
inductive Place
  | context (r : Reg)
  | save (off : ℕ)

def Place.addr (m : Mem 64) : Place → Word
  | .context r => at64 vc.gctx (offsetofContext r)
  | .save off => at64 (vc.gvmcbPtr m) off

/-- The assignments of `yakvm_vcpu_set_regs`. -/
def setRegsAssigns (regs : Registers) : List (Place × Word) :=
  [(.save saveRax, regs.rax), (.context .rbx, regs.rbx), (.context .rcx, regs.rcx), (.context .rdx, regs.rdx),
    (.context .rdi, regs.rdi), (.context .rsi, regs.rsi), (.context .rbp, regs.rbp), (.save saveRsp, regs.rsp),
    (.context .r8, regs.r8), (.context .r9, regs.r9), (.context .r10, regs.r10), (.context .r11, regs.r11),
    (.context .r12, regs.r12), (.context .r13, regs.r13), (.context .r14, regs.r14), (.context .r15, regs.r15),
    (.save saveRip, regs.rip), (.save saveCsBase, regs.cs.setWidth 64), (.save saveSsBase, regs.ss.setWidth 64)]

/-- `yakvm_vcpu_set_regs`, after `copy_from_user`. -/
def vcpuSetRegs (regs : Registers) (m : Mem 64) : Mem 64 :=
  (setRegsAssigns regs).foldl (fun m x => store64 m (x.1.addr vc m) x.2) m

end VcpuAt

/-- A command for the file of a vcpu. `copied` and `src` say whether `copy_to_user` and
`copy_from_user` succeed. -/
inductive VcpuCmd
  | run (h : Host) (g : GuestRun)
  | getRegs (copied : Bool)
  | setRegs (src : Option Registers)
  | unknown

/-- A request on the file of a vcpu. `killed`: `mutex_lock_killable` fails. -/
structure VcpuCall where
  killed : Bool
  cmd : VcpuCmd

/-- What is seen of a request from outside: the registers that a guest starts with, and those
that userspace gets. -/
inductive Seen
  | entered (c : Core)
  | got (regs : Registers)

def Mark.seen : Mark → Option Seen
  | .vmrun _ entered => some (.entered entered)
  | _ => none

namespace VcpuAt

variable (vc : VcpuAt)

/-- `yakvm_vcpu_ioctl`. -/
def vcpuIoctl (call : VcpuCall) (m : Mem 64) : (ℤ × List Seen) × Mem 64 :=
  if call.killed then ((Errno.EINTR.code, []), m)
  else
    match call.cmd with
    | .run h g =>
      let (m, trace) := vc.vcpuRun h g m
      ((0, trace.reverse.filterMap Mark.seen), m)
    | .getRegs copied =>
      if copied then ((0, [.got (vc.vcpuGetRegs m)]), m) else ((Errno.EFAULT.code, []), m)
    | .setRegs none => ((Errno.EFAULT.code, []), m)
    | .setRegs (some regs) => ((0, []), vc.vcpuSetRegs regs m)
    | .unknown => ((Errno.EINVAL.code, []), m)

/-- A sequence of requests, each under `vcpu->lock`. -/
def vcpuCalls : List VcpuCall → Mem 64 → List (ℤ × List Seen) × Mem 64
  | [], m => ([], m)
  | call :: calls, m =>
    let (r, m) := vc.vcpuIoctl call m
    let (rs, m) := vcpuCalls calls m
    (r :: rs, m)

end VcpuAt

/-! ## The register machine

What the requests are for: a machine with sixteen registers and `rip`. -/

/-- The register machine's part of `struct registers`. -/
def Registers.core (regs : Registers) : Core := ⟨regs.gpr, regs.rip⟩

/-- What is seen of the register machine. -/
inductive Shown
  | entered (c : Core)
  | got (c : Core)

def Seen.shown : Seen → Shown
  | .entered c => .entered c
  | .got regs => .got regs.core

namespace Core

/-- A request on the register machine: `YAKVM_SET_REGS` overwrites the registers, `YAKVM_RUN`
transforms them. A request that fails does nothing. -/
def ioctl (call : VcpuCall) (c : Core) : (ℤ × List Shown) × Core :=
  if call.killed then ((Errno.EINTR.code, []), c)
  else
    match call.cmd with
    | .run _ g => ((0, [.entered c]), g.regs c)
    | .getRegs copied => if copied then ((0, [.got c]), c) else ((Errno.EFAULT.code, []), c)
    | .setRegs none => ((Errno.EFAULT.code, []), c)
    | .setRegs (some regs) => ((0, []), regs.core)
    | .unknown => ((Errno.EINVAL.code, []), c)

def calls : List VcpuCall → Core → List (ℤ × List Shown) × Core
  | [], c => ([], c)
  | call :: rest, c =>
    let (r, c) := ioctl call c
    let (rs, c) := calls rest c
    (r :: rs, c)

end Core

end Yakvm
