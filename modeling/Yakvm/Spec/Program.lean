import Yakvm.Spec.Emulator
import Yakvm.Spec.Loader

/-!
# The guest program

`tool/guest.c`, and how the emulator starts it: `yakvm_load_bin` reads its image into the mapping, byte by byte, and
`yakvm_create_cpu` sets the registers.

`entry` is compiled code, of which the source fixes the inline assembly: an `out`, an `in` that is repeated until it reads 2, a
store to the device, a load from it that is repeated until it reads 2, and a `hlt`. What the compiler puts between them
is not known, only that it runs in the image, uses the stack and makes no other exits than traps and nested page faults.
-/

namespace Yakvm

/-- `YAKVM_STACK`, as the Makefile defines it. -/
def yakvmStack : ℕ := 8192

/-! ## The program -/

/-- The inline assembly of `entry`. -/
inductive Point
  | pioOut
  | pioIn
  | mmioOut
  | mmioIn
  | hlt
  deriving DecidableEq, Repr

namespace Point

/-- The instruction: `out %al, (%dx)`, `in (%dx), %al`, `mov %al, (%edx)`, `mov (%edx), %al` and `hlt`, in 16-bit code. -/
def code : Point → List (BitVec 8)
  | pioOut => [0xee]
  | pioIn => [0xec]
  | mmioOut => [0x67, 0x88, 0x02]
  | mmioIn => [0x67, 0x8a, 0x02]
  | hlt => [0xf4]

/-- Which of them `entry` executes next, by the byte that is then in `%al`. -/
def next (al : BitVec 8) : Point → Point
  | pioOut => pioIn
  | pioIn => if al = 2 then mmioOut else pioIn
  | mmioOut => mmioIn
  | mmioIn => if al = 2 then hlt else mmioIn
  | hlt => hlt

/-- All of them, in the order of the source. -/
def all : List Point := [pioOut, pioIn, mmioOut, mmioIn, hlt]

end Point

/-- A compiled `entry`, linked to run at `YAKVM_ENTRY`, where it fits below the stack. -/
structure Image where
  bytes : List (BitVec 8)
  offset : Point → ℕ
  fits : yakvmEntry + bytes.length ≤ yakvmStack
  placed : ∀ p : Point, p.code <+: bytes.drop (offset p)

/-- What the processor stores in `EXITINFO1` for an access of one byte to a port: the direction in bit 0, the size in bits 4
to 6, the port in the upper half, and neither a string nor a repeated instruction. -/
def ByteAccess (input : Bool) (port : BitVec 16) (info : BitVec 32) : Prop :=
  info.getLsbD 0 = input ∧ info.getLsbD 2 = false ∧ info.getLsbD 3 = false ∧ info.extractLsb' 4 3 = 1 ∧
    info.extractLsb' 16 16 = port

instance (input : Bool) (port : BitVec 16) (info : BitVec 32) : Decidable (ByteAccess input port info) :=
  inferInstanceAs (Decidable (_ ∧ _))

/-- The byte in `%al`. -/
def Guest.al (g : Guest) : BitVec 8 := (g.gpr .rax).setWidth 8

namespace Image

/-- The guest exits at this instruction of the image, with the operands that the source gives it. -/
def AtPoint (img : Image) (p : Point) (x : Emulator.Exit) : Prop :=
  x.guest.rip = BitVec.ofNat 64 (img.offset p) ∧
  match p with
  | .pioOut => x.code = svmExitIoio ∧ ByteAccess false pioHawk (x.info1.setWidth 32) ∧ x.info2 = x.guest.rip + 1 ∧ x.guest.al = 1
  | .pioIn => x.code = svmExitIoio ∧ ByteAccess true pioHawk (x.info1.setWidth 32) ∧ x.info2 = x.guest.rip + 1
  | .mmioOut => x.code = svmExitNpf ∧ x.info2 = mmioHawk ∧ x.guest.gpr .rdx = mmioHawk ∧ x.guest.al = 3
  | .mmioIn => x.code = svmExitNpf ∧ x.info2 = mmioHawk ∧ x.guest.gpr .rdx = mmioHawk
  | .hlt => x.code = svmExitHlt

instance (img : Image) (p : Point) (x : Emulator.Exit) : Decidable (img.AtPoint p x) :=
  match p with
  | .pioOut => inferInstanceAs (Decidable (_ ∧ _ ∧ _ ∧ _ ∧ _))
  | .pioIn => inferInstanceAs (Decidable (_ ∧ _ ∧ _ ∧ _))
  | .mmioOut => inferInstanceAs (Decidable (_ ∧ _ ∧ _ ∧ _ ∧ _))
  | .mmioIn => inferInstanceAs (Decidable (_ ∧ _ ∧ _ ∧ _))
  | .hlt => inferInstanceAs (Decidable (_ ∧ _))

/-- The trap after an instruction of the image. -/
def Trap (img : Image) (x : Emulator.Exit) : Prop :=
  x.code = svmExitExcpBase + BitVec.ofNat 32 dbVector ∧ x.guest.rip.toNat < img.bytes.length

/-- A nested page fault on the code or on the stack. -/
def PageFault (x : Emulator.Exit) : Prop :=
  x.code = svmExitNpf ∧ (key x.info2 = key (BitVec.ofNat 64 yakvmEntry) ∨ key x.info2 = key (BitVec.ofNat 64 yakvmStack))

/-- The exits that `entry` can make on its way to the instruction `p` and at it. -/
def Makes (img : Image) (p : Point) (x : Emulator.Exit) : Prop :=
  x.guest.csBase = BitVec.ofNat 64 yakvmEntry ∧ (img.AtPoint p x ∨ img.Trap x ∨ PageFault x)

instance (img : Image) (p : Point) (x : Emulator.Exit) : Decidable (img.Makes p x) :=
  inferInstanceAs (Decidable (_ ∧ (_ ∨ (_ ∧ _) ∨ (_ ∧ (_ ∨ _)))))

end Image

/-! ## Starting it -/

namespace Emulator

/-- The byte `n` of a word is written. -/
def setByte (w : Word) (n : ℕ) (b : BitVec 8) : Word :=
  (w &&& ~~~((0xff : Word) <<< (8 * n))) ||| (b.setWidth 64 <<< (8 * n))

/-- A store of one byte at `vm->memory[i]`. -/
def storeByte (e : Emulator) (i : ℕ) (b : BitVec 8) (ask : ℕ → Option Frame) : Except Stop Emulator := do
  let (f, e) ← e.page i ask
  let slot := BitVec.ofNat 9 (i / 8)
  .ok { e with phys := e.phys.store f slot (setByte (e.phys.mem f slot) (i % 8) b) }

/-- The bytes that `read` stores from `vm->memory[i]` on. `ask n` answers the allocations of the access to the index `n`. -/
def load (ask : ℕ → ℕ → Option Frame) : ℕ → List (BitVec 8) → Emulator → Except Stop Emulator
  | _, [], e => .ok e
  | i, b :: bytes, e => do
    let e ← e.storeByte i b (ask i)
    load ask (i + 1) bytes e

/-- The registers that `yakvm_create_cpu` sets, and the mode. -/
def boot (e : Emulator) : Emulator :=
  let regs := e.guest.show
  { e.setRegs { regs with cs := BitVec.ofNat 16 yakvmEntry, rip := 0, ss := BitVec.ofNat 16 yakvmStack, rsp := 0x1000 } with
    mode := .RUNNING }

end Emulator

/-! ## Running it -/

/-- The emulator with the program: the instruction that `entry` executes next, and those that have made the guest exit. -/
structure Session where
  point : Point
  emu : Emulator
  trace : List Point

namespace Session

/-- One step. An exit that `entry` does not make is no step, nor is a store of the guest that is not to its stack. The
emulator uses its mapping only in the handlers. -/
def step (img : Image) : Emulator.Event → Session → Except Stop Session
  | .exit acc x ask, t =>
    if t.emu.mode = .RUNNING ∧ t.emu.possible acc x ∧ img.Makes t.point x then do
      let e ← Emulator.step (.exit acc x ask) t.emu
      if img.AtPoint t.point x then .ok ⟨t.point.next e.guest.al, e, t.trace ++ [t.point]⟩
      else .ok ⟨t.point, e, t.trace⟩
    else .ok t
  | .guestStore gpa slot w, t =>
    if key gpa = key (BitVec.ofNat 64 yakvmStack) then do
      let e ← Emulator.step (.guestStore gpa slot w) t.emu
      .ok { t with emu := e }
    else .ok t
  | .mark gpa n accessed dirty, t => do
    let e ← Emulator.step (.mark gpa n accessed dirty) t.emu
    .ok { t with emu := e }
  | _, t => .ok t

/-- A run. -/
def run (img : Image) (t : Session) (evs : List Emulator.Event) : Except Stop Session :=
  evs.foldlM (fun t ev => step img ev t) t

/-- The emulator when it enters `yakvm_cpu_run`. -/
def start (e : Emulator) : Session := ⟨.pioOut, e, []⟩

end Session

end Yakvm
