import Yakvm.Spec.Emulator

/-!
# The emulator's accesses to guest memory

The handlers of `tool/cpu.c` once more, with the indices into `vm->memory` that they use. The
addresses are the guest's: `vm->memory[i]` is what the guest has at address `i`.
-/

namespace Yakvm

/-- A computation that can stop, with the indices that it has used, in order. -/
structure Traced (α : Type) where
  indices : List ℕ
  result : Except Stop α

namespace Traced

variable {α β : Type}

/-- A computation that uses no index. -/
def lift (x : Except Stop α) : Traced α := ⟨[], x⟩

protected def bind (x : Traced α) (f : α → Traced β) : Traced β :=
  match x.result with
  | .error st => ⟨x.indices, .error st⟩
  | .ok a => ⟨x.indices ++ (f a).indices, (f a).result⟩

instance : Monad Traced where
  pure a := lift (.ok a)
  bind := Traced.bind

end Traced

namespace Emulator

/-- `vm->memory[i]`. -/
def readAt (e : Emulator) (i : ℕ) (ask : ℕ → Option Frame) : Traced (BitVec 8 × Emulator) := ⟨[i], e.read i ask⟩

/-- `yakvm_vcpu_handle_mmio`. -/
def tracedMmio (e : Emulator) (ask : ℕ → ℕ → Option Frame) : Traced Emulator := do
  let ip : BitVec 32 := (e.state.cs + e.state.rip).setWidth 32
  let (override, e) ← e.readAt ip.toNat (ask 0)
  Traced.lift (check (override = 0x67))
  let regs := e.guest.show
  let (opcode, e) ← e.readAt (ip + 1).toNat (ask 1)
  if opcode = 0x88 then do
    let (modrm, e) ← e.readAt (ip + 2).toNat (ask 2)
    Traced.lift (check (modrm = 0x02))
    Traced.lift (check (regs.rdx = Yakvm.mmioHawk))
    let e := e.deviceMmioSet (regs.rax.setWidth 8)
    return e.setRegs { regs with rip := regs.rip + 3 }
  else if opcode = 0x8a then do
    let (modrm, e) ← e.readAt (ip + 2).toNat (ask 2)
    Traced.lift (check (modrm = 0x02))
    Traced.lift (check (regs.rdx = Yakvm.mmioHawk))
    return e.setRegs { regs with rax := e.deviceMmioGet.setWidth 64, rip := regs.rip + 3 }
  else Traced.lift (.error .abort)

/-- `yakvm_cpu_handle_exit`. -/
def tracedExit (e : Emulator) (ask : ℕ → ℕ → Option Frame) : Traced Emulator :=
  if e.state.exitCode = svmExitNpf then
    match npfRequest e.state.exitInfo2 with
    | none => e.tracedMmio ask
    | some _ => Traced.lift (e.cpuHandleNpf ask)
  else if e.state.exitCode = svmExitExcpBase + BitVec.ofNat 32 dbVector then do
    let (_, e) ← e.readAt (e.state.cs + e.state.rip).toNat (ask 0)
    return e
  else Traced.lift (e.cpuHandleExit ask)

/-- What the emulator finds at an index, if the access succeeds. -/
def byte (e : Emulator) (i : ℕ) (ask : ℕ → Option Frame) : Option (BitVec 8) := (e.read i ask).toOption.map Prod.fst

/-- The address of the instruction that the guest exited at. -/
def linear (e : Emulator) : ℕ := (e.state.cs + e.state.rip).toNat

/-- The exit goes to `yakvm_vcpu_handle_mmio`. -/
def AtDevice (e : Emulator) : Prop := e.state.exitCode = svmExitNpf ∧ e.state.exitInfo2 = Yakvm.mmioHawk

/-- The exit is a `#DB`. -/
def AtDebug (e : Emulator) : Prop := e.state.exitCode = svmExitExcpBase + BitVec.ofNat 32 dbVector

end Emulator

/-- The base of the code segment is that of a real-mode selector, and `rip` has 16 bits. -/
def Guest.RealMode (g : Guest) : Prop :=
  ∃ selector offset : BitVec 16, g.csBase = selector.setWidth 64 * 16 ∧ g.rip = offset.setWidth 64

end Yakvm
