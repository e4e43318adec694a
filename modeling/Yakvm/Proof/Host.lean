import Yakvm.Proof.Switch

/-!
# The host across the world switch

`vcpuRunCode_preserves_host`: whatever a guest does to the registers, `_yakvm_vcpu_run` comes
back to its caller with the caller's stack and registers, and has written nothing but registers
in the two contexts and the three words that it pushes.
-/

namespace Yakvm

open Bytes

variable {c : Cpu}

/-- The memory that a call of `_yakvm_vcpu_run` works on: the contexts in `rdi` and `rsi`, the
control block in `rdx`, and four words of stack, the first one for the return address. -/
def Cpu.ranges (c : Cpu) : List (Word × ℕ) :=
  [(c.gpr .rdi, sizeofContext), (c.gpr .rsi, sizeofContext), (physToVirt (c.gpr .rdx), 4096), (c.gpr .rsp - 32, 32)]

/-- The registers that are back when `_yakvm_vcpu_run` returns. -/
def keptRegs : List Reg := .rsp :: hostRegs

/-- The calling convention's callee-saved registers are among them. -/
example : ∀ r ∈ ([.rbx, .rbp, .rsp, .r12, .r13, .r14, .r15] : List Reg), r ∈ keptRegs := by decide

theorem at64_sub_add (a : Word) (i : ℕ) : at64 (a - BitVec.ofNat 64 i) i = a := by
  unfold at64
  exact BitVec.sub_add_cancel _ _

/-- The call pushes the return address on the stack. -/
theorem push_ret (c : Cpu) (ret : Word) :
    (c.push ret).gpr .rsp = at64 (c.gpr .rsp - 32) 24 ∧ load64 (c.push ret).mem (at64 (c.gpr .rsp - 32) 24) = ret ∧
    Only [(c.gpr .rsp - 32, 32)] c.mem (c.push ret).mem := by
  have hrsp : c.gpr .rsp - 8 = at64 (c.gpr .rsp - 32) 24 := by
    unfold at64
    bv_omega
  have hmem : (c.push ret).mem = store64 c.mem (at64 (c.gpr .rsp - 32) 24) ret := by
    unfold Cpu.push
    rw [hrsp]
  refine ⟨?_, ?_, ?_⟩
  · rw [← hrsp]
    exact setReg_same c .rsp _
  · rw [hmem, load64_store64_same]
  · rw [hmem]
    exact store_only (n := 8) c.mem ret (at64_inside _ (by decide)) (by decide)

/-- **The world switch preserves the host.** The contexts, the control block and the stack of
the call are apart; the guest is arbitrary. Then the registers of `keptRegs` are what they were
before the call, the stack pointer among them; the code returns to its caller; the pointers to
the control blocks are unchanged; the SVM instructions get the third argument; and apart from
what these instructions write to the control block, only registers in the contexts and the three
words below the return address have changed. -/
theorem vcpuRunCode_preserves_host (c : Cpu) (g : GuestRun) (ret : Word)
    (h : c.ranges.Pairwise fun x y => Apart x.1 x.2 y.1 y.2) :
    let c' := execAll g vcpuRunCode (c.push ret)
    (∀ r ∈ keptRegs, c'.gpr r = c.gpr r) ∧ c'.rip = ret ∧
    load64 c'.mem (at64 (c.gpr .rdi) contextVmcbOff) = load64 c.mem (at64 (c.gpr .rdi) contextVmcbOff) ∧
    load64 c'.mem (at64 (c.gpr .rsi) contextVmcbOff) = load64 c.mem (at64 (c.gpr .rsi) contextVmcbOff) ∧
    ∃ entered, c'.trace =
      .vmsave (c.gpr .rdx) :: .vmrun (c.gpr .rdx) entered :: .vmload (c.gpr .rdx) :: c.trace ∧
    Only [(at64 (c.gpr .rsi) 8, 112), (c.gpr .rsp - 32, 24), (at64 (c.gpr .rdi) 8, 112)]
      (svmExit (c.push ret).mem (physToVirt (c.gpr .rdx)) g (g.regs entered)) c'.mem := by
  intro c'
  set p : Ranges := ⟨c.gpr .rdi, c.gpr .rsi, physToVirt (c.gpr .rdx), c.gpr .rsp - 32, h⟩ with hp
  obtain ⟨hrsp, hret, hpush⟩ := push_ret c ret
  have hgpr : ∀ r, r ≠ .rsp → (c.push ret).gpr r = c.gpr r := fun r hr => setReg_ne c _ hr
  have hrdx : (c.push ret).gpr .rdx = c.gpr .rdx := hgpr .rdx (by decide)
  obtain ⟨entered, -, -, -, -, -, honly, hregs, hrsp', hrip, htrace⟩ :=
    exec_vcpuRunCode (g := g) (p := p) (hgpr .rdi (by decide)) (hgpr .rsi (by decide)) (by rw [hrdx]) hrsp
  have hsvm := svmExit_only (c.push ret).mem p.vmcb g (g.regs entered)
  -- all that changes, from the caller's memory on
  have hall : Only [(p.stack, 32), (p.vmcb, 4096), (at64 p.hctx 8, 112), (p.stack, 24), (at64 p.gctx 8, 112)]
      c.mem c'.mem := (hpush.trans hsvm).trans honly
  obtain ⟨hgh, hgv, hgs, hhv, hhs, -⟩ := p.all
  have hslot : contextVmcbOff + 8 ≤ 120 := by decide
  have hown : ∀ b : Word, Apart (at64 b contextVmcbOff) 8 (at64 b 8) 112 := fun b =>
    apart_offsets b (by decide) (by decide) (by decide) (by decide)
  refine ⟨?_, hrip.trans hret, ?_, ?_, entered, ?_, honly⟩
  · intro r hr
    rcases List.mem_cons.1 hr with rfl | hr
    · rw [hrsp']
      exact at64_sub_add _ 32
    · have hne : ∀ r ∈ hostRegs, r ≠ .rsp := by decide
      rw [hregs r hr, hgpr r (hne r hr)]
  · apply load64_only hall
    simp only [List.forall_mem_cons]
    exact ⟨apart_word hgs hslot (by decide), apart_word hgv hslot (by decide),
      apart_slots (apart_word hgh hslot (by decide)) (by decide),
      apart_pushed (apart_word hgs hslot (by decide)) (by decide), hown _, by simp⟩
  · apply load64_only hall
    simp only [List.forall_mem_cons]
    exact ⟨apart_word hhs hslot (by decide), apart_word hhv hslot (by decide), hown _,
      apart_pushed (apart_word hhs hslot (by decide)) (by decide),
      apart_slots (apart_word hgh.symm hslot (by decide)) (by decide), by simp⟩
  · rw [htrace, hrdx]
    rfl

/-- A caller with two contexts of one object, a control block and its stack. -/
def callerHere : Cpu where
  gpr
    | .rdi => 0xffff888000001020
    | .rsi => 0xffff888000001098
    | .rdx => 0x2000
    | .rsp => 0xffffc90000010000
    | .rbx => 7
    | _ => 0
  rip := 0
  sys := fun _ => 0
  mem := fun _ => 0
  trace := []

/-- `rbx`, the stack pointer and the return address come back from a guest that exchanges `rax`
and `rbx`. -/
theorem vcpuRunCode_preserves_host_swap :
    (execAll swapGuest vcpuRunCode (callerHere.push 0xffffffff81000000)).gpr .rbx = 7 ∧
    (execAll swapGuest vcpuRunCode (callerHere.push 0xffffffff81000000)).gpr .rsp = 0xffffc90000010000 ∧
    (execAll swapGuest vcpuRunCode (callerHere.push 0xffffffff81000000)).rip = 0xffffffff81000000 := by
  obtain ⟨hregs, hrip, -⟩ := vcpuRunCode_preserves_host callerHere swapGuest 0xffffffff81000000 (by decide)
  exact ⟨hregs .rbx (by decide), hregs .rsp (by decide), hrip⟩

end Yakvm
