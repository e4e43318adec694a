import Yakvm.Proof.Emulator

/-!
# The devices over whole runs

Both devices are a register of eight bits, one behind a port and one behind an address.

* `devices_over_runs`: what reads of the devices give, over any run, and where the guest goes on.
* `byteRead_iff`: when a read leaves the rest of `rax` alone, as the instruction does.
* `ioio_accepts_iff`: when `yakvm_cpu_handle_ioio` stops at every word that it does not emulate.
-/

namespace Yakvm

variable {e e' : Emulator} {ask : ℕ → ℕ → Option Frame}

/-! ## A register device -/

/-- A write, with its value, or a read. -/
abbrev DeviceOp := Option (BitVec 8)

/-- The value that was written last, `0` if there is none. -/
def lastWrite (ops : List DeviceOp) : BitVec 8 := (ops.filterMap id).getLastD 0

/-- The answers of a device that holds `v` and computes what is read from what it holds. -/
def answers (read : BitVec 8 → BitVec 8) (v : BitVec 8) : List DeviceOp → List (BitVec 8)
  | [] => []
  | some w :: ops => answers read w ops
  | none :: ops => read v :: answers read v ops

theorem lastWrite_append (ops : List DeviceOp) (op : DeviceOp) :
    lastWrite (ops ++ [op]) = op.getD (lastWrite ops) := by
  unfold lastWrite
  cases op <;> simp

/-! ## Exits -/

/-- Where a device is. -/
inductive Bus
  | pio
  | mmio
  deriving DecidableEq

/-- What the emulator takes an exit for. -/
inductive Kind
  | read (b : Bus)
  | write (b : Bus)
  | other
  deriving DecidableEq

namespace Bus

/-- What the device holds. -/
def held : Bus → Emulator → BitVec 8
  | pio, e => e.pioHawk
  | mmio, e => e.mmioHawk

/-- What the device computes from what it holds. -/
def answer : Bus → BitVec 8 → BitVec 8
  | pio, v => v + 1
  | mmio, v => v - 1

/-- What a read gives. -/
def get : Bus → Emulator → BitVec 8
  | pio, e => e.devicePioGet
  | mmio, e => e.deviceMmioGet

/-- Where the guest goes on: the next instruction of an exit of kind `IOIO` is in `exit_info_2`,
an access to memory is three bytes long. -/
def next : Bus → (info2 rip : Word) → Word
  | pio, info2, _ => info2
  | mmio, _, rip => rip + 3

theorem get_eq (b : Bus) (e : Emulator) : b.get e = b.answer (b.held e) := by
  cases b <;> rfl

end Bus

namespace Emulator

/-- The second byte of the instruction that `yakvm_vcpu_handle_mmio` decodes. -/
def mmioOpcode (e : Emulator) (ask : ℕ → ℕ → Option Frame) : Except Stop (BitVec 8) := do
  let ip : BitVec 32 := (e.state.cs + e.state.rip).setWidth 32
  let (_, e) ← e.read ip.toNat (ask 0)
  let (opcode, _) ← e.read (ip + 1).toNat (ask 1)
  .ok opcode

/-- The kind of the exit that the emulator is at. -/
def exitKind (e : Emulator) (ask : ℕ → ℕ → Option Frame) : Kind :=
  if e.state.exitCode = svmExitNpf then
    if e.state.exitInfo2 = Yakvm.mmioHawk then
      if e.mmioOpcode ask = .ok 0x88 then .write .mmio
      else if e.mmioOpcode ask = .ok 0x8a then .read .mmio
      else .other
    else .other
  else if e.state.exitCode = svmExitIoio then
    if ioioType (e.state.exitInfo1.setWidth 32) = 1 then .read .pio else .write .pio
  else .other

/-- Nothing that a device or the vcpu holds has changed. -/
def SameCpu (e e' : Emulator) : Prop :=
  e'.guest = e.guest ∧ e'.state = e.state ∧ ∀ b : Bus, b.held e' = b.held e

theorem SameCpu.trans {e'' : Emulator} (h : e.SameCpu e') (h' : e'.SameCpu e'') : e.SameCpu e'' :=
  ⟨h'.1.trans h.1, h'.2.1.trans h.2.1, fun b => (h'.2.2 b).trans (h.2.2 b)⟩

theorem SameCpu.of_eq (hg : e'.guest = e.guest) (hs : e'.state = e.state) (hp : e'.pioHawk = e.pioHawk)
    (hm : e'.mmioHawk = e.mmioHawk) : e.SameCpu e' := by
  refine ⟨hg, hs, fun b => ?_⟩
  cases b with
  | pio => exact hp
  | mmio => exact hm

/-- Installing a page of the mapping. -/
theorem page_same {i : ℕ} {ask : ℕ → Option Frame} {f : Frame} (h : e.page i ask = .ok (f, e')) : e.SameCpu e' := by
  unfold page at h
  split at h
  · split at h
    · obtain ⟨-, rfl⟩ := Prod.mk.inj (Except.ok.inj h)
      exact .of_eq rfl rfl rfl rfl
    · simp only at h
      split at h
      · simp at h
      · simp at h
      · obtain ⟨-, rfl⟩ := Prod.mk.inj (Except.ok.inj h)
        exact .of_eq rfl rfl rfl rfl
  · simp at h

theorem read_same {i : ℕ} {ask : ℕ → Option Frame} {b : BitVec 8} (h : e.read i ask = .ok (b, e')) : e.SameCpu e' := by
  unfold read at h
  cases hp : e.page i ask with
  | error s => rw [hp] at h; simp [bind, Except.bind] at h
  | ok r =>
    rw [hp] at h
    obtain ⟨-, rfl⟩ := Prod.mk.inj (Except.ok.inj h)
    exact page_same hp

/-- What handling an exit of each kind does to the devices and the registers. -/
def Done (e : Emulator) (kind : Kind) (e' : Emulator) : Prop :=
  let regs := e.guest.show
  match kind with
  | .read b => (∀ c : Bus, c.held e' = c.held e) ∧
      e'.guest = .ofRegisters { regs with rax := (b.get e).setWidth 64, rip := b.next e.state.exitInfo2 e.guest.rip }
  | .write b => b.held e' = (e.guest.gpr .rax).setWidth 8 ∧ (∀ c : Bus, c ≠ b → c.held e' = c.held e) ∧
      e'.guest = .ofRegisters { regs with rip := b.next e.state.exitInfo2 e.guest.rip }
  | .other => (∀ c : Bus, c.held e' = c.held e) ∧ e'.guest = e.guest

theorem bind_ok {α β : Type} {x : Except Stop α} {g : α → Except Stop β} {r : β} (h : (x >>= g) = .ok r) :
    ∃ a, x = .ok a ∧ g a = .ok r := by
  cases x with
  | error s => simp [bind, Except.bind] at h
  | ok a => exact ⟨a, rfl, h⟩

/-- **`yakvm_vcpu_handle_mmio`**, by the opcode that it finds. -/
theorem vcpuHandleMmio_done (h : e.vcpuHandleMmio ask = .ok e') :
    (e.mmioOpcode ask = .ok 0x88 ∧ e.Done (.write .mmio) e') ∨
      (e.mmioOpcode ask = .ok 0x8a ∧ e.Done (.read .mmio) e') := by
  unfold vcpuHandleMmio at h
  obtain ⟨⟨b, e₁⟩, h₁, h⟩ := bind_ok h
  obtain ⟨-, -, h⟩ := bind_ok h
  obtain ⟨⟨opcode, e₂⟩, h₂, h⟩ := bind_ok h
  have hop : e.mmioOpcode ask = .ok opcode := by
    unfold mmioOpcode
    simp only [h₁, h₂, bind, Except.bind]
  have hg₁ : e₁.guest = e.guest := (read_same h₁).1
  have hsame := (read_same h₁).trans (read_same h₂)
  rw [hop]
  simp only at h
  split at h
  · rename_i hcode
    obtain ⟨⟨m, e₃⟩, h₃, h⟩ := bind_ok h
    obtain ⟨-, -, h⟩ := bind_ok h
    obtain ⟨-, -, h⟩ := bind_ok h
    obtain ⟨-, -, hheld⟩ := hsame.trans (read_same h₃)
    obtain rfl := Except.ok.inj h
    refine Or.inl ⟨by rw [hcode], ?_, ?_, ?_⟩
    · simp only [Bus.held, setRegs, deviceMmioSet, hg₁]
      rfl
    · intro c hc
      cases c with
      | pio => exact hheld .pio
      | mmio => exact absurd rfl hc
    · simp only [setRegs, hg₁]
      rfl
  · split at h
    · rename_i hcode
      obtain ⟨⟨m, e₃⟩, h₃, h⟩ := bind_ok h
      obtain ⟨-, -, h⟩ := bind_ok h
      obtain ⟨-, -, h⟩ := bind_ok h
      obtain ⟨-, -, hheld⟩ := hsame.trans (read_same h₃)
      obtain rfl := Except.ok.inj h
      refine Or.inr ⟨by rw [hcode], fun c => ?_, ?_⟩
      · rw [← hheld c]
        cases c <;> rfl
      · have hget : e₃.deviceMmioGet = e.deviceMmioGet := congrArg (· - 1) (hheld .mmio)
        simp only [setRegs, hg₁, hget]
        rfl
    · simp at h

/-- **`yakvm_cpu_handle_ioio`** accepts a word by two of its fields. -/
theorem cpuHandleIoio_cases (e : Emulator) :
    let info : BitVec 32 := e.state.exitInfo1.setWidth 32
    (¬ (ioioIsSize8 info = true ∧ ioioPort info = Yakvm.pioHawk) ∧ e.cpuHandleIoio = .error .abort) ∨
    ((ioioIsSize8 info = true ∧ ioioPort info = Yakvm.pioHawk) ∧
      ∃ e', e.cpuHandleIoio = .ok e' ∧ e.Done (if ioioType info = 1 then .read .pio else .write .pio) e') := by
  intro info
  unfold cpuHandleIoio
  by_cases hsize : ioioIsSize8 info = true
  swap
  · exact Or.inl ⟨fun h => hsize h.1, by simp only [check_neg hsize, bind, Except.bind, info]⟩
  by_cases hport : ioioPort info = Yakvm.pioHawk
  swap
  · exact Or.inl ⟨fun h => hport h.2, by simp only [check_pos hsize, check_neg hport, bind, Except.bind, info]⟩
  refine Or.inr ⟨⟨hsize, hport⟩, ?_⟩
  simp only [check_pos hsize, check_pos hport, bind, Except.bind, info]
  by_cases htype : ioioType (e.state.exitInfo1.setWidth 32) = 1
  · rw [if_pos htype, if_pos htype]
    exact ⟨_, rfl, fun c => by cases c <;> rfl, rfl⟩
  · rw [if_neg htype, if_neg htype]
    refine ⟨_, rfl, rfl, fun c hc => ?_, rfl⟩
    cases c with
    | pio => exact absurd rfl hc
    | mmio => rfl

/-- **`yakvm_cpu_handle_exit`** does what the kind of the exit says. -/
theorem cpuHandleExit_done (h : e.cpuHandleExit ask = .ok e') : e.Done (e.exitKind ask) e' := by
  unfold cpuHandleExit at h
  unfold exitKind
  by_cases hnpf : e.state.exitCode = svmExitNpf
  · rw [if_pos hnpf] at h ⊢
    unfold cpuHandleNpf npfRequest at h
    by_cases hmmio : e.state.exitInfo2 = Yakvm.mmioHawk
    · rw [if_pos hmmio] at h ⊢
      rcases vcpuHandleMmio_done h with ⟨hop, hd⟩ | ⟨hop, hd⟩
      · rwa [if_pos hop]
      · rw [hop, if_neg (by decide), if_pos rfl]
        exact hd
    · rw [if_neg hmmio] at h ⊢
      simp only at h
      split at h
      · simp at h
      · obtain ⟨-, -, h⟩ := bind_ok h
        obtain rfl := Except.ok.inj h
        exact ⟨fun c => by cases c <;> rfl, rfl⟩
  · rw [if_neg hnpf] at h ⊢
    by_cases hdb : e.state.exitCode = svmExitExcpBase + BitVec.ofNat 32 dbVector
    · rw [if_pos hdb] at h
      rw [hdb, if_neg (by decide)]
      obtain ⟨⟨b, e₁⟩, hread, h⟩ := bind_ok h
      obtain rfl := Except.ok.inj h
      obtain ⟨hg, -, hheld⟩ := read_same hread
      exact ⟨hheld, hg⟩
    · rw [if_neg hdb] at h
      by_cases hhlt : e.state.exitCode = svmExitHlt
      · rw [if_pos hhlt] at h
        rw [hhlt, if_neg (by decide)]
        obtain rfl := Except.ok.inj h
        exact ⟨fun c => by cases c <;> rfl, rfl⟩
      · rw [if_neg hhlt] at h
        by_cases hioio : e.state.exitCode = svmExitIoio
        · rw [if_pos hioio] at h ⊢
          rcases cpuHandleIoio_cases e with ⟨-, he⟩ | ⟨-, e₁, he, hd⟩
          · rw [he] at h; simp at h
          · rw [he] at h
            obtain rfl := Except.ok.inj h
            exact hd
        · rw [if_neg hioio] at h
          simp at h

end Emulator

/-! ## The devices over a run -/

/-- An exit that has been handled: its kind, the exit, and the guest after it. -/
structure Handled where
  kind : Kind
  exit : Emulator.Exit
  guest : Guest

/-- What an exit asks of a device. -/
def Handled.op (b : Bus) (d : Handled) : Option DeviceOp :=
  if d.kind = .read b then some none
  else if d.kind = .write b then some (some ((d.exit.guest.gpr .rax).setWidth 8))
  else none

/-- What an exit writes back to the guest for a device. -/
def Handled.reply (b : Bus) (d : Handled) : Option (BitVec 8) :=
  if d.kind = .read b then some ((d.guest.gpr .rax).setWidth 8) else none

/-- The reads and writes of a device. -/
def deviceOps (b : Bus) (hist : List Handled) : List DeviceOp := hist.filterMap (Handled.op b)

/-- What the guest has read from a device. -/
def deviceReplies (b : Bus) (hist : List Handled) : List (BitVec 8) := hist.filterMap (Handled.reply b)

/-- The exit has been handled right by devices that hold `held`: a read gives what the device
computes, and nothing but `rax` on reads and `rip` is written back other than it was read. -/
def Handled.Right (d : Handled) (held : Bus → BitVec 8) : Prop :=
  let regs := d.exit.guest.show
  match d.kind with
  | .read b => (d.guest.gpr .rax).setWidth 8 = b.answer (held b) ∧
      d.guest = .ofRegisters { regs with
        rax := d.guest.gpr .rax, rip := b.next d.exit.info2 d.exit.guest.rip }
  | .write b => d.guest = .ofRegisters { regs with rip := b.next d.exit.info2 d.exit.guest.rip }
  | .other => d.guest = d.exit.guest

namespace Emulator

/-- The exit that a step handles, if it handles one. -/
def handled (e : Emulator) : Event → Option Handled
  | .exit acc x ask =>
    if e.mode = .RUNNING ∧ e.possible acc x then
      match (e.vcpuRun x).cpuHandleExit ask with
      | .ok e' => some ⟨(e.vcpuRun x).exitKind ask, x, e'.guest⟩
      | .error _ => none
    else none
  | _ => none

/-- The exits that a run handles, in order. -/
def history : List Event → Emulator → List Handled
  | [], _ => []
  | ev :: evs, e =>
    match step ev e with
    | .ok e' => (e.handled ev).toList ++ history evs e'
    | .error _ => []

/-- A step that handles no exit leaves the devices alone. -/
theorem step_idle {ev : Event} (h : step ev e = .ok e') (hd : e.handled ev = none) (b : Bus) : b.held e' = b.held e := by
  cases ev with
  | exit acc x ask =>
    by_cases hrun : e.mode = .RUNNING ∧ e.possible acc x
    · simp only [step, if_pos hrun] at h
      simp only [handled, if_pos hrun, h] at hd
      simp at hd
    · simp only [step, if_neg hrun] at h
      obtain rfl := Except.ok.inj h
      rfl
  | touch i ask =>
    obtain ⟨⟨w, e₁⟩, hread, h⟩ := bind_ok h
    obtain rfl := Except.ok.inj h
    exact (read_same hread).2.2 b
  | store i w ask =>
    obtain ⟨⟨f, e₁⟩, hpage, h⟩ := bind_ok h
    obtain rfl := Except.ok.inj h
    rw [← (page_same hpage).2.2 b]
    cases b <;> rfl
  | guestStore gpa slot w =>
    simp only [step] at h
    split at h <;> obtain rfl := Except.ok.inj h <;> cases b <;> rfl
  | mark gpa n accessed dirty =>
    obtain rfl := Except.ok.inj h
    cases b <;> rfl

/-- What a step that handles an exit does. -/
theorem step_handled {ev : Event} {d : Handled} (h : step ev e = .ok e') (hd : e.handled ev = some d) :
    ∃ e₀ : Emulator, (∀ b : Bus, b.held e₀ = b.held e) ∧ e₀.guest = d.exit.guest ∧ e₀.state.exitInfo2 = d.exit.info2 ∧
      d.guest = e'.guest ∧ e₀.Done d.kind e' := by
  cases ev with
  | exit acc x ask =>
    by_cases hrun : e.mode = .RUNNING ∧ e.possible acc x
    · simp only [step, if_pos hrun] at h
      simp only [handled, if_pos hrun, h] at hd
      obtain rfl := Option.some.inj hd
      exact ⟨e.vcpuRun x, fun b => by cases b <;> rfl, rfl, rfl, rfl, cpuHandleExit_done h⟩
    · simp only [handled, if_neg hrun] at hd
      simp at hd
  | _ => simp [handled] at hd

/-- What a device holds after an exit. -/
theorem held_handled {ev : Event} {d : Handled} (h : step ev e = .ok e') (hd : e.handled ev = some d) (b : Bus) :
    b.held e' = (d.op b).elim (b.held e) fun op => op.getD (b.held e) := by
  obtain ⟨e₀, hheld, hguest, -, -, hdone⟩ := step_handled h hd
  unfold Handled.op
  cases hk : d.kind with
  | read c =>
    rw [hk] at hdone
    rw [hdone.1 b, hheld b]
    by_cases hc : c = b <;> simp [hc]
  | write c =>
    rw [hk] at hdone
    by_cases hc : c = b
    · subst hc
      rw [hdone.1, hguest]
      simp
    · rw [hdone.2.1 b (Ne.symm hc), hheld b]
      simp [hc]
  | other =>
    rw [hk] at hdone
    rw [hdone.1 b, hheld b]
    simp

/-- What an exit writes back to the guest. -/
theorem right_handled {ev : Event} {d : Handled} (h : step ev e = .ok e') (hd : e.handled ev = some d) :
    d.Right fun b => b.held e := by
  obtain ⟨e₀, hheld, hguest, hinfo, hd', hdone⟩ := step_handled h hd
  unfold Handled.Right
  cases hk : d.kind with
  | read b =>
    rw [hk] at hdone
    obtain ⟨-, hg⟩ := hdone
    rw [hguest, hinfo, ← hd'] at hg
    have hrax : d.guest.gpr .rax = (b.get e₀).setWidth 64 := by rw [hg]; rfl
    refine ⟨?_, by rw [hrax]; exact hg⟩
    rw [hrax, Bus.get_eq, hheld b, BitVec.setWidth_setWidth_of_le _ (by decide), BitVec.setWidth_eq]
  | write b =>
    rw [hk] at hdone
    obtain ⟨-, -, hg⟩ := hdone
    rw [hguest, hinfo, ← hd'] at hg
    exact hg
  | other =>
    rw [hk] at hdone
    exact hd'.trans (hdone.2.trans hguest)

/-- A device holds the value that was written to it last. -/
theorem history_right : ∀ (evs : List Event) (e : Emulator) (past : List Handled),
    (∀ b : Bus, b.held e = lastWrite (deviceOps b past)) → ∀ before d after,
      e.history evs = before ++ d :: after →
      d.Right fun b => lastWrite (deviceOps b (past ++ before)) := by
  intro evs
  induction evs with
  | nil =>
    intro e past _ before d after h
    simp [history] at h
  | cons ev evs ih =>
    intro e past hheld before d after h
    cases hstep : step ev e with
    | error s => simp [history, hstep] at h
    | ok e' =>
      simp only [history, hstep] at h
      cases hd : e.handled ev with
      | none =>
        rw [hd] at h
        refine ih e' past (fun b => ?_) before d after h
        rw [step_idle hstep hd, hheld]
      | some d₀ =>
        rw [hd] at h
        -- the first exit is `d`, or it is in front of `d`
        rcases List.cons_eq_append_iff.1 h with ⟨rfl, hcons⟩ | ⟨before', rfl, hrest⟩
        · obtain ⟨rfl, -⟩ := List.cons.inj hcons
          have hright := right_handled hstep hd
          simp only [hheld] at hright
          rwa [List.append_nil]
        · have hheld' : ∀ b : Bus, b.held e' = lastWrite (deviceOps b (past ++ [d₀])) := by
            intro b
            rw [held_handled hstep hd, hheld]
            unfold deviceOps
            rw [List.filterMap_append]
            cases hop : d₀.op b with
            | none => simp [hop]
            | some op => simp [hop, lastWrite_append]
          have := ih e' (past ++ [d₀]) hheld' before' d after hrest
          rwa [List.append_assoc] at this

/-- The replies of a device depend on what has been asked of this device, and on nothing else. -/
theorem history_replies (b : Bus) : ∀ (evs : List Event) (e : Emulator),
    deviceReplies b (e.history evs) = answers b.answer (b.held e) (deviceOps b (e.history evs)) := by
  intro evs
  induction evs with
  | nil =>
    intro e
    rfl
  | cons ev evs ih =>
    intro e
    unfold history
    cases hstep : step ev e with
    | error s => rfl
    | ok e' =>
      simp only
      unfold deviceReplies deviceOps at ih ⊢
      rw [List.filterMap_append, List.filterMap_append, ih e']
      cases hd : e.handled ev with
      | none => rw [step_idle hstep hd]; rfl
      | some d =>
        rw [held_handled hstep hd]
        have hright := right_handled hstep hd
        unfold Handled.Right at hright
        unfold Handled.reply Handled.op
        cases hk : d.kind with
        | read c =>
          rw [hk] at hright
          by_cases hc : c = b
          · subst hc
            simp [hk, hright.1, answers]
          · simp [hk, hc]
        | write c => by_cases hc : c = b <;> simp [hk, hc, answers]
        | other => simp [hk]

/-- **The devices over whole runs.** A read of a device gives what it computes from the value
written to it last, `0` if there is none; the guest goes on behind the instruction with its other
registers as they were; and the replies of each device are a function of what the guest has asked
of it. -/
theorem devices_over_runs (phys : Phys) (vmm : Vmm) (memory : Word) (guest : Guest) (evs : List Event) :
    let hist := (start phys vmm memory guest).history evs
    (∀ past d rest, hist = past ++ d :: rest → d.Right fun b => lastWrite (deviceOps b past)) ∧
      ∀ b : Bus, deviceReplies b hist = answers b.answer 0 (deviceOps b hist) := by
  have hstart : ∀ b : Bus, b.held (start phys vmm memory guest) = 0 := by
    intro b
    cases b <;> rfl
  refine ⟨history_right evs _ [] hstart, fun b => ?_⟩
  rw [history_replies, hstart]

/-! ## The width of a read -/

/-- Writing a byte over a register, extended with zeros, keeps the upper bits if they are zero. -/
theorem extend_keeps_iff (v : BitVec 8) (w : Word) :
    ((v.setWidth 64).extractLsb' 8 56 = w.extractLsb' 8 56 ∧ (v.setWidth 64).setWidth 8 = v) ↔ w.toNat < 2 ^ 8 := by
  have hv : (v.setWidth 64).extractLsb' 8 56 = 0#56 := by
    rw [← BitVec.toNat_inj, BitVec.extractLsb'_toNat, BitVec.toNat_setWidth, Nat.shiftRight_eq_div_pow]
    have hlt : v.toNat < 2 ^ 8 := v.isLt
    simp only [BitVec.toNat_ofNat]
    omega
  rw [hv, BitVec.setWidth_setWidth_of_le _ (by decide), BitVec.setWidth_eq, ← BitVec.toNat_inj,
    BitVec.extractLsb'_toNat, Nat.shiftRight_eq_div_pow]
  have hlt : w.toNat < 2 ^ 64 := w.isLt
  simp only [BitVec.toNat_ofNat, and_true]
  omega

/-- **When a read is as wide as the instruction**: `al` takes the value of the device and bits 8 to
63 of `rax` stay as they were exactly if these bits are zero. -/
theorem byteRead_iff {b : Bus} (h : e.cpuHandleExit ask = .ok e') (hk : e.exitKind ask = .read b) :
    ((e'.guest.gpr .rax).extractLsb' 8 56 = (e.guest.gpr .rax).extractLsb' 8 56 ∧
      (e'.guest.gpr .rax).setWidth 8 = b.get e) ↔ (e.guest.gpr .rax).toNat < 2 ^ 8 := by
  have hdone := cpuHandleExit_done h
  rw [hk] at hdone
  obtain ⟨-, hg⟩ := hdone
  have hrax : e'.guest.gpr .rax = (b.get e).setWidth 64 := by rw [hg]; rfl
  rw [hrax]
  exact extend_keeps_iff _ _

/-- The emulator at an exit for a port. -/
def atPort (info rax : Word) : Emulator :=
  { start emptyPhys ⟨0⟩ 0 ⟨fun _ => rax, 0, 0, 0⟩ with state := ⟨svmExitIoio, info, 2, 0, 0⟩ }

/-- A read with `rax = 0x34`. -/
theorem byteRead_clean : (atPort 0x11 0x34).exitKind (fun _ _ => none) = .read .pio ∧
    ∃ e', (atPort 0x11 0x34).cpuHandleExit (fun _ _ => none) = .ok e' ∧
      (e'.guest.gpr .rax).extractLsb' 8 56 = 0 ∧ (e'.guest.gpr .rax).setWidth 8 = 1 := by
  have hk : (atPort 0x11 0x34).exitKind (fun _ _ => none) = .read .pio := by decide
  obtain ⟨e', he'⟩ : ∃ e', (atPort 0x11 0x34).cpuHandleExit (fun _ _ => none) = .ok e' := ⟨_, rfl⟩
  obtain ⟨hkeep, hval⟩ := (byteRead_iff he' hk).2 (by decide)
  exact ⟨hk, e', he', hkeep, hval⟩

/-- A read with `rax = 0x1234` loses bit 9 and bit 12. -/
theorem byteRead_widens : (atPort 0x11 0x1234).exitKind (fun _ _ => none) = .read .pio ∧
    ∃ e', (atPort 0x11 0x1234).cpuHandleExit (fun _ _ => none) = .ok e' ∧
      (atPort 0x11 0x1234).guest.gpr .rax = 0x1234 ∧ e'.guest.gpr .rax = 0x0001 := by
  have hk : (atPort 0x11 0x1234).exitKind (fun _ _ => none) = .read .pio := by decide
  exact ⟨hk, _, rfl, rfl, by decide⟩

/-! ## The words that are emulated -/

/-- `exit_info_1` describes one access of eight bits, of no string, at the port of the device. -/
def Emulated (info : BitVec 32) : Prop :=
  info.getLsbD 2 = false ∧ info.getLsbD 3 = false ∧ info.extractLsb' 4 3 = 1 ∧ info.extractLsb' 16 16 = Yakvm.pioHawk

theorem ioioIsSize8_iff (info : BitVec 32) : ioioIsSize8 info = true ↔ info.getLsbD 4 = true := by
  unfold ioioIsSize8
  rw [decide_eq_true_iff]
  have hbit : (info >>> 4 &&& 1 = 0) ↔ info.getLsbD 4 = false := by
    constructor
    · intro h
      have := congrArg (·.getLsbD 0) h
      simpa using this
    · intro h
      apply BitVec.eq_of_getLsbD_eq
      intro i hi
      by_cases h0 : i = 0
      · subst h0
        simpa using h
      · simp [h0]
  rw [ne_eq, hbit, Bool.not_eq_false]

theorem ioioPort_eq (info : BitVec 32) : ioioPort info = info.extractLsb' 16 16 := by
  apply BitVec.eq_of_getLsbD_eq
  intro i hi
  unfold ioioPort
  simp [hi]

/-- The field of the size says eight bits. -/
theorem ioioSize_iff (info : BitVec 32) :
    info.extractLsb' 4 3 = 1 ↔ info.getLsbD 4 = true ∧ info.getLsbD 5 = false ∧ info.getLsbD 6 = false := by
  have hfield : ∀ size : BitVec 3,
      size = 1 ↔ size.getLsbD 0 = true ∧ size.getLsbD 1 = false ∧ size.getLsbD 2 = false := by decide
  rw [hfield]
  simp

/-- **When only what is emulated is accepted**: every other word ends in an assertion, before a
device or the vcpu has changed, exactly if the word does not combine the flag of an 8-bit access and
the port of the device with a string, a repetition, or the flag of another size. -/
theorem ioio_accepts_iff (e : Emulator) :
    let info : BitVec 32 := e.state.exitInfo1.setWidth 32
    (((∃ e', e.cpuHandleIoio = .ok e') → Emulated info) ∧ (¬ Emulated info → e.cpuHandleIoio = .error .abort)) ↔
      ¬ (info.getLsbD 4 = true ∧ info.extractLsb' 16 16 = Yakvm.pioHawk ∧
        (info.getLsbD 2 = true ∨ info.getLsbD 3 = true ∨ info.getLsbD 5 = true ∨ info.getLsbD 6 = true)) := by
  intro info
  have hcases := cpuHandleIoio_cases e
  simp only at hcases
  rw [ioioIsSize8_iff, ioioPort_eq] at hcases
  have hword : Emulated info ↔ (info.getLsbD 4 = true ∧ info.extractLsb' 16 16 = Yakvm.pioHawk) ∧
      ¬ (info.getLsbD 2 = true ∨ info.getLsbD 3 = true ∨ info.getLsbD 5 = true ∨ info.getLsbD 6 = true) := by
    unfold Emulated
    rw [ioioSize_iff]
    simp only [not_or, Bool.not_eq_true]
    tauto
  rw [hword]
  rcases hcases with ⟨hno, habort⟩ | ⟨hyes, e', hok, -⟩
  · rw [habort]
    simp only [reduceCtorEq, exists_false, false_implies, true_and, implies_true, true_iff]
    exact fun h => hno ⟨h.1, h.2.1⟩
  · rw [hok]
    simp only [reduceCtorEq, Except.ok.injEq, exists_eq', true_implies, imp_false, not_not, and_self]
    tauto

/-- `INSB` at the port of the device is taken for an `IN`. -/
theorem ioio_accepts_string : let e := atPort 0x15 0x1234
    ¬ Emulated (e.state.exitInfo1.setWidth 32) ∧ ∃ e', e.cpuHandleIoio = .ok e' ∧ e'.guest.gpr .rax = 1 ∧ e'.guest.rip = 2 := by
  refine ⟨fun h => ?_, _, rfl, by decide, rfl⟩
  have hstr := h.1
  revert hstr
  decide

end Emulator

end Yakvm
