import Yakvm.Spec.Regs
import Yakvm.Spec.Vm

/-!
# The emulator

`tool/cpu.c` with `tool/devices.c`, the mapping of guest memory that `yakvm_create_memory`
makes, and the processor between two exits. The registers of the vcpu are read and
written with `YAKVM_GET_REGS` and `YAKVM_SET_REGS`; the driver keeps the rest of the guest
in the nested page table and the pages it maps.

A page of the mapping is installed in the emulator's own page table by the first access,
through `yakvm_vm_vmm_fault`. Later accesses use the installed page.
-/

namespace Yakvm

/-! ## State -/

/-- `YAKVM_MEMORY`, as the Makefile defines it. -/
def yakvmMemory : ℕ := 1048576

/-- `yakvm_page`. -/
def yakvmPage (pa : Word) : Word := pa &&& pageMask

def svmExitExcpBase : BitVec 32 := 0x040
def svmExitHlt : BitVec 32 := 0x078
def svmExitIoio : BitVec 32 := 0x07b
def svmExitNpf : BitVec 32 := 0x400

/-- `enum mode`. -/
inductive Mode
  | RUNNING
  | HLT
  deriving DecidableEq, Repr

/-- How the emulator can stop: with the whole host, on one of its own assertions, or on a
signal for an access to its mapping. -/
inductive Stop
  | host (e : Crash)
  | abort
  | signal
  deriving DecidableEq, Repr

/-- What happened during a run. -/
inductive Note
  /-- a nested page fault made the guest exit -/
  | npf (gpa : Word)
  /-- the driver served a request for a page -/
  | served (gpa : Word)
  deriving DecidableEq

/-- The emulator and the guest it runs. -/
structure Emulator where
  phys : Phys
  vmm : Vmm
  guest : Guest
  state : State
  mode : Mode
  /-- `PIO_HAWK` and `MMIO_HAWK` of `devices.c` -/
  pioHawk : BitVec 8
  mmioHawk : BitVec 8
  /-- the address of the mapping -/
  memory : Word
  /-- the pages of the mapping that are installed -/
  view : ℕ → Option Frame
  /-- what happened, newest first; nothing reads it -/
  log : List Note

namespace Emulator

/-! ## Devices -/

/-- `yakvm_device_pio_get`. -/
def devicePioGet (e : Emulator) : BitVec 8 := e.pioHawk + 1

/-- `yakvm_device_pio_set`. -/
def devicePioSet (e : Emulator) (val : BitVec 8) : Emulator := { e with pioHawk := val }

/-- `yakvm_device_mmio_get`. -/
def deviceMmioGet (e : Emulator) : BitVec 8 := e.mmioHawk - 1

/-- `yakvm_device_mmio_set`. -/
def deviceMmioSet (e : Emulator) (val : BitVec 8) : Emulator := { e with mmioHawk := val }

/-! ## The mapping of guest memory -/

/-- The page behind `vm->memory[i]`, installed if it is not yet. The driver sees the
address rounded down to a page. -/
def page (e : Emulator) (i : ℕ) (ask : ℕ → Option Frame) : Except Stop (Frame × Emulator) :=
  if i < yakvmMemory then
    match e.view (i / 4096) with
    | some f => .ok (f, e)
    | none =>
      let off := BitVec.ofNat 64 (i / 4096 * 4096)
      match vmVmmFault e.vmm (e.memory + off) e.memory ask e.phys with
      | .error c => .error (.host c)
      | .ok ((_, none), _) => .error .signal
      | .ok ((_, some page), s) =>
        let f := page.setWidth 40
        .ok (f, { e with
          phys := s
          view := Function.update e.view (i / 4096) (some f)
          log := .served off :: e.log })
  else .error .signal

/-- `vm->memory[i]`. -/
def read (e : Emulator) (i : ℕ) (ask : ℕ → Option Frame) : Except Stop (BitVec 8 × Emulator) := do
  let (f, e) ← e.page i ask
  .ok ((e.phys.mem f (BitVec.ofNat 9 (i / 8))).extractLsb' (8 * (i % 8)) 8, e)

/-- A store of eight bytes at `vm->memory[8 * i]`. -/
def write (e : Emulator) (i : ℕ) (w : Word) (ask : ℕ → Option Frame) : Except Stop Emulator := do
  let (f, e) ← e.page (8 * i) ask
  .ok { e with phys := e.phys.store f (BitVec.ofNat 9 i) w }

/-! ## Exits -/

/-- `assert` of the emulator. -/
def check (p : Prop) [Decidable p] : Except Stop Unit := if p then .ok () else .error .abort

/-- `ioctl(YAKVM_SET_REGS)`. -/
def setRegs (e : Emulator) (regs : Registers) : Emulator := { e with guest := .ofRegisters regs }

/-- `yakvm_vcpu_handle_mmio`. `ask n` answers the allocations of the `n`-th access to the
mapping. -/
def vcpuHandleMmio (e : Emulator) (ask : ℕ → ℕ → Option Frame) : Except Stop Emulator := do
  let ip : BitVec 32 := (e.state.cs + e.state.rip).setWidth 32
  let (override, e) ← e.read ip.toNat (ask 0)
  check (override = 0x67)
  let regs := e.guest.show
  let (opcode, e) ← e.read (ip + 1).toNat (ask 1)
  if opcode = 0x88 then do
    let (modrm, e) ← e.read (ip + 2).toNat (ask 2)
    check (modrm = 0x02)
    check (regs.rdx = Yakvm.mmioHawk)
    let e := e.deviceMmioSet (regs.rax.setWidth 8)
    .ok (e.setRegs { regs with rip := regs.rip + 3 })
  else if opcode = 0x8a then do
    let (modrm, e) ← e.read (ip + 2).toNat (ask 2)
    check (modrm = 0x02)
    check (regs.rdx = Yakvm.mmioHawk)
    .ok (e.setRegs { regs with rax := e.deviceMmioGet.setWidth 64, rip := regs.rip + 3 })
  else .error .abort

/-- The request that `yakvm_cpu_handle_npf` makes of the driver, if it makes one. `none`:
the exit goes to `yakvm_vcpu_handle_mmio`. -/
def npfRequest (exitInfo2 : Word) : Option Word :=
  if exitInfo2 = Yakvm.mmioHawk then none else some (yakvmPage exitInfo2)

/-- `yakvm_cpu_handle_npf`. -/
def cpuHandleNpf (e : Emulator) (ask : ℕ → ℕ → Option Frame) : Except Stop Emulator :=
  match npfRequest e.state.exitInfo2 with
  | none => e.vcpuHandleMmio ask
  | some gpa =>
    match vmIoctlMmapPage e.vmm gpa (ask 0) e.phys with
    | .error c => .error (.host c)
    | .ok (r, s) => do
      check (r = 0)
      .ok { e with phys := s, log := .served gpa :: e.log }

/-- `svm_ioio_type`, `svm_ioio_is_size8` and `svm_ioio_port`. -/
def ioioType (info : BitVec 32) : BitVec 8 := ((info >>> 0) &&& 1).setWidth 8
def ioioIsSize8 (info : BitVec 32) : Bool := decide ((info >>> 4) &&& 1 ≠ 0)
def ioioPort (info : BitVec 32) : BitVec 16 := (info >>> 16).setWidth 16

/-- `yakvm_cpu_handle_ioio`. -/
def cpuHandleIoio (e : Emulator) : Except Stop Emulator := do
  let info : BitVec 32 := e.state.exitInfo1.setWidth 32
  check (ioioIsSize8 info = true)
  check (ioioPort info = Yakvm.pioHawk)
  let regs := e.guest.show
  if ioioType info = 1 then
    .ok (e.setRegs { regs with rax := e.devicePioGet.setWidth 64, rip := e.state.exitInfo2 })
  else
    .ok ((e.devicePioSet (regs.rax.setWidth 8)).setRegs { regs with rip := e.state.exitInfo2 })

/-- `yakvm_cpu_handle_exit`, and the assertion on its result. The trace of `#DB` reads the
instruction from the mapping. -/
def cpuHandleExit (e : Emulator) (ask : ℕ → ℕ → Option Frame) : Except Stop Emulator :=
  if e.state.exitCode = svmExitNpf then e.cpuHandleNpf ask
  else if e.state.exitCode = svmExitExcpBase + BitVec.ofNat 32 dbVector then do
    let (_, e) ← e.read (e.state.cs + e.state.rip).toNat (ask 0)
    .ok e
  else if e.state.exitCode = svmExitHlt then .ok { e with mode := .HLT }
  else if e.state.exitCode = svmExitIoio then e.cpuHandleIoio
  else .error .abort

/-! ## Runs -/

/-- An exit of the guest: what the control block says, and the registers. -/
structure Exit where
  code : BitVec 32
  info1 : Word
  info2 : Word
  guest : Guest

/-- `ioctl(YAKVM_RUN)`: the guest has run up to an exit. -/
def vcpuRun (e : Emulator) (x : Exit) : Emulator :=
  { e with
    guest := x.guest
    state := ⟨x.code, x.info1, x.info2, x.guest.csBase, x.guest.rip⟩
    log := if x.code = svmExitNpf then .npf x.info2 :: e.log else e.log }

/-- The hardware exits with a nested page fault only at an address where its walk fails.
The guest's addresses have 48 bits. -/
def possible (e : Emulator) (acc : Access) (x : Exit) : Prop :=
  x.code = svmExitNpf → x.info2.toNat < 2 ^ 48 ∧ hwTranslate e.phys.mem e.vmm.ncr3 acc x.info2 = .fault

instance (e : Emulator) (acc : Access) (x : Exit) : Decidable (e.possible acc x) :=
  inferInstanceAs (Decidable (_ → _ ∧ _))

/-- The steps of a run, in any order. -/
inductive Event
  /-- one turn of the loop of `yakvm_cpu_run`, for an access of the kind `acc` if the exit is
  a nested page fault -/
  | exit (acc : Access) (x : Exit) (ask : ℕ → ℕ → Option Frame)
  /-- the emulator reads or writes its mapping -/
  | touch (i : ℕ) (ask : ℕ → Option Frame)
  | store (i : ℕ) (w : Word) (ask : ℕ → Option Frame)
  /-- the guest writes its memory -/
  | guestStore (gpa : Word) (slot : Slot) (w : Word)
  /-- the hardware marks the entry it reads in the `n`-th table of its walk -/
  | mark (gpa : Word) (n : ℕ) (accessed dirty : Bool)

/-- The hardware marks an entry, if the walk gets there and the entry is present. -/
def hwMark (s : Phys) (ncr3 : Word) (gpa : Word) (n : ℕ) (accessed dirty : Bool) : Phys :=
  match (hwWalk s.mem .read gpa 4 ncr3).1[n]? with
  | none => s
  | some table =>
    let index := gpa.extractLsb' (12 + 9 * (3 - n)) 9
    if (s.mem table index).getLsbD 0 then hwSetAd s table index accessed dirty else s

/-- One step. An exit that the hardware does not make, or after the end of the loop, is no
step. -/
def step : Event → Emulator → Except Stop Emulator
  | .exit acc x ask, e =>
    if e.mode = .RUNNING ∧ e.possible acc x then (e.vcpuRun x).cpuHandleExit ask else .ok e
  | .touch i ask, e => do
    let (_, e) ← e.read i ask
    .ok e
  | .store i w ask, e => e.write i w ask
  | .guestStore gpa slot w, e =>
    match hwTranslate e.phys.mem e.vmm.ncr3 .write gpa with
    | .page f => .ok { e with phys := e.phys.store f slot w }
    | _ => .ok e
  | .mark gpa n accessed dirty, e => .ok { e with phys := hwMark e.phys e.vmm.ncr3 gpa n accessed dirty }

/-- A run of steps. -/
def run (e : Emulator) (evs : List Event) : Except Stop Emulator := evs.foldlM (fun e ev => step ev e) e

/-- The emulator when its mapping and its vcpu have been made. -/
def start (phys : Phys) (vmm : Vmm) (memory : Word) (guest : Guest) : Emulator where
  phys := phys
  vmm := vmm
  guest := guest
  state := ⟨0, 0, 0, 0, 0⟩
  mode := .RUNNING
  pioHawk := 0
  mmioHawk := 0
  memory := memory
  view := fun _ => none
  log := []

end Emulator

end Yakvm
