import Yakvm.Spec.Switch

/-!
# A vcpu is a register machine

The registers of a guest are in two places, `struct context` and the save area of the control
block, and go through `vcpu_run.S` and two copies in C. `vcpu_refines`: seen from outside, the
requests on a vcpu are those of a machine with seventeen registers, which `YAKVM_SET_REGS`
overwrites, `YAKVM_RUN` transforms and `YAKVM_GET_REGS` shows.
-/

namespace Yakvm

open Bytes

variable {m m' : Mem 64} {a b d v : Word} {i j k l : ℕ} {g : GuestRun} {c : Cpu}

/-! ## Words in memory -/

theorem load64_store64_same (m : Mem 64) (a v : Word) : load64 (store64 m a v) a = v :=
  load_store_same (n := 8) m a (by decide) v

theorem load64_store64_apart (m : Mem 64) (v : Word) (h : Apart a 8 b 8) : load64 (store64 m b v) a = load64 m a :=
  load_store_apart (n := 8) (k := 8) m v h

theorem load64_storeAll_mem {ws : List (Word × Word)} (h : ws.Pairwise fun x y => Apart x.1 8 y.1 8)
    (hx : (a, v) ∈ ws) (m : Mem 64) : load64 (storeAll 8 m ws) a = v :=
  load_storeAll_mem (n := 8) (by decide) h hx m

theorem at64_inside (b : Word) (h : i + k ≤ l) : Inside (at64 b i) k b l := ⟨i, rfl, h⟩

/-- Words of ranges that are apart. -/
theorem apart_words (h : Apart b k d l) (hi : i + 8 ≤ k) (hj : j + 8 ≤ l) : Apart (at64 b i) 8 (at64 d j) 8 :=
  h.inside (by decide) (at64_inside b hi) (by decide) (at64_inside d hj)

/-- A word of a range, and another range. -/
theorem apart_word (h : Apart b k d l) (hi : i + 8 ≤ k) (hl : 0 < l) : Apart (at64 b i) 8 d l :=
  h.inside (by decide) (at64_inside b hi) hl ⟨0, by simp, by omega⟩

/-- Different words of one range. -/
theorem apart_same (b : Word) (h : i + 8 ≤ j ∨ j + 8 ≤ i) (hi : i ≤ 4096) (hj : j ≤ 4096) :
    Apart (at64 b i) 8 (at64 b j) 8 := by
  rcases h with h | h
  · exact apart_offsets b (by decide) h (by decide) (by omega)
  · exact (apart_offsets b (by decide) h (by decide) (by omega)).symm

/-! ## Blocks of moves -/

@[simp] theorem setReg_same (c : Cpu) (r : Reg) (v : Word) : (c.setReg r v).gpr r = v := Function.update_self ..

theorem setReg_ne (c : Cpu) {r x : Reg} (v : Word) (h : x ≠ r) : (c.setReg r v).gpr x = c.gpr x :=
  Function.update_of_ne h _ _

@[simp] theorem setReg_mem (c : Cpu) (r : Reg) (v : Word) : (c.setReg r v).mem = c.mem := rfl

@[simp] theorem setReg_trace (c : Cpu) (r : Reg) (v : Word) : (c.setReg r v).trace = c.trace := rfl

/-- `mov`s of registers to their places in the context at `base`. -/
def saves (rs : List Reg) (base : Reg) : List Instr := rs.map fun r => .store r (offsetofContext r) base

/-- `mov`s of registers from their places in the context at `base`. -/
def loads (rs : List Reg) (base : Reg) : List Instr := rs.map fun r => .load (offsetofContext r) base r

/-- The registers that the host saves. -/
def hostRegs : List Reg := [.rbx, .rcx, .rbp, .r8, .r9, .r10, .r11, .r12, .r13, .r14, .r15]

/-- **The offsets of `vcpu_run.h` are those of `struct context`**, and the code is made of
four blocks of moves. -/
theorem vcpuRunCode_eq : vcpuRunCode =
    saves hostRegs .rsi ++ [.push .rsi, .push .rdi, .push .rdx, .mov .rdi .rax] ++ loads contextFields .rax ++
    [.pop .rax, .vmload .rax, .vmrun .rax, .vmsave .rax, .pop .rax] ++ saves contextFields .rax ++
    [.pop .rsi] ++ loads hostRegs.reverse .rsi ++ [.ret] := by decide

theorem execAll_append (is js : List Instr) : execAll g (is ++ js) c = execAll g js (execAll g is c) :=
  List.foldl_append

/-- The words that a block of stores writes. -/
def saveWords (rs : List Reg) (base : Word) (gpr : Reg → Word) : List (Word × Word) :=
  rs.map fun r => (at64 base (offsetofContext r), gpr r)

theorem execAll_saves (base : Reg) : ∀ (rs : List Reg) (c : Cpu),
    execAll g (saves rs base) c = { c with mem := storeAll 8 c.mem (saveWords rs (c.gpr base) c.gpr) } := by
  intro rs
  induction rs with
  | nil => intro c; rfl
  | cons r rs ih =>
    intro c
    exact ih _

theorem execAll_loads {base : Reg} : ∀ (rs : List Reg) (c : Cpu), base ∉ rs →
    execAll g (loads rs base) c =
      { c with gpr := fun r => if r ∈ rs then load64 c.mem (at64 (c.gpr base) (offsetofContext r)) else c.gpr r } := by
  intro rs
  induction rs with
  | nil => intro c _; simp [loads, execAll]
  | cons r rs ih =>
    intro c hb
    have hne : base ≠ r := fun h => hb (by simp [h])
    have hb' : base ∉ rs := fun h => hb (by simp [h])
    have hstep : execAll g (loads (r :: rs) base) c =
        execAll g (loads rs base) (c.setReg r (load64 c.mem (at64 (c.gpr base) (offsetofContext r)))) := rfl
    rw [hstep, ih _ hb']
    simp only [Cpu.setReg, Function.update_of_ne hne, List.mem_cons]
    congr 1
    funext x
    by_cases hx : x = r
    · subst hx
      simp
    · simp [hx]

/-! ## The parts of a vcpu -/

/-- The parts of a vcpu share no byte. -/
theorem VcpuAt.apart_all (vc : VcpuAt) :
    Apart vc.gctx 120 vc.hctx 120 ∧ Apart vc.gctx 120 vc.gvmcb 4096 ∧ Apart vc.gctx 120 vc.hvmcb 4096 ∧
    Apart vc.gctx 120 vc.state 40 ∧ Apart vc.hctx 120 vc.gvmcb 4096 ∧ Apart vc.hctx 120 vc.hvmcb 4096 ∧
    Apart vc.hctx 120 vc.state 40 ∧ Apart vc.gvmcb 4096 vc.hvmcb 4096 ∧ Apart vc.gvmcb 4096 vc.state 40 := by
  have h := vc.apart
  simp only [VcpuAddr.regions, List.pairwise_cons, List.forall_mem_cons, sizeofContext] at h
  obtain ⟨⟨h1, h2, h3, h4, -⟩, ⟨h5, h6, h7, -⟩, ⟨h8, h9, -⟩, -⟩ := h
  exact ⟨h1, h2, h3, h4, h5, h6, h7, h8, h9⟩

/-- The pointers to the control blocks are in place. -/
def VcpuAt.Ready (vc : VcpuAt) (m : Mem 64) : Prop := vc.gvmcbPtr m = vc.gvmcb ∧ vc.hvmcbPtr m = vc.hvmcb

/-- A vcpu starts with its pointers in place. -/
theorem VcpuAt.initPtrs_ready (vc : VcpuAt) (m : Mem 64) : vc.Ready (vc.initPtrs m) := by
  obtain ⟨hgh, -⟩ := vc.apart_all
  have hslot : contextVmcbOff + 8 ≤ 120 := by decide
  refine ⟨?_, load64_store64_same _ _ _⟩
  unfold VcpuAt.gvmcbPtr VcpuAt.initPtrs
  rw [load64_store64_apart _ _ (apart_words hgh hslot hslot), load64_store64_same]

instance (vc : VcpuAt) (m : Mem 64) : Decidable (vc.Ready m) :=
  inferInstanceAs (Decidable (vc.gvmcbPtr m = vc.gvmcb ∧ vc.hvmcbPtr m = vc.hvmcb))

/-- The registers of the guest, where the driver keeps them. -/
def VcpuAt.core (vc : VcpuAt) (m : Mem 64) : Core where
  gpr
    | .rax => load64 m (at64 vc.gvmcb saveRax)
    | .rsp => load64 m (at64 vc.gvmcb saveRsp)
    | r => load64 m (at64 vc.gctx (offsetofContext r))
  rip := load64 m (at64 vc.gvmcb saveRip)

/-- The part of the stack that the switch uses: the return address and three words. -/
def Host.stack (h : Host) : Word := h.gpr .rsp - 32

/-- The stack is not in the vcpu. -/
def VcpuAt.Stacked (vc : VcpuAt) (h : Host) : Prop := ∀ r ∈ vc.regions, Apart r.1 r.2 h.stack 32

instance (vc : VcpuAt) : DecidablePred vc.Stacked := fun h => inferInstanceAs (Decidable (∀ r ∈ vc.regions, Apart r.1 r.2 h.stack 32))

theorem VcpuAt.Stacked.all {vc : VcpuAt} {h : Host} (hs : vc.Stacked h) :
    Apart vc.gctx 120 h.stack 32 ∧ Apart vc.hctx 120 h.stack 32 ∧ Apart vc.gvmcb 4096 h.stack 32 ∧
    Apart vc.hvmcb 4096 h.stack 32 := by
  simp only [VcpuAt.Stacked, VcpuAddr.regions, List.forall_mem_cons, sizeofContext] at hs
  exact ⟨hs.1, hs.2.1, hs.2.2.1, hs.2.2.2.1⟩

theorem load64_only {rs : List (Word × ℕ)} (h : Only rs m m') (ha : ∀ r ∈ rs, Apart a 8 r.1 r.2) :
    load64 m' a = load64 m a := h.load ha

theorem physToVirt_virtToPhys (va : Word) : physToVirt (virtToPhys va) = va := by
  unfold physToVirt virtToPhys
  rw [BitVec.sub_add_cancel]

theorem offsetofContext_le (r : Reg) : 8 ≤ offsetofContext r ∧ (r ∈ contextFields → offsetofContext r + 8 ≤ 120) := by
  cases r <;> decide

theorem saveWords_inside {rs : List Reg} (hrs : ∀ r ∈ rs, r ∈ contextFields) (base : Word) (gpr : Reg → Word) :
    ∀ x ∈ saveWords rs base gpr, Inside x.1 8 (at64 base 8) 112 := by
  intro x hx
  obtain ⟨r, hr, rfl⟩ := List.mem_map.1 hx
  obtain ⟨hle, hlt⟩ := offsetofContext_le r
  have hlt' := hlt (hrs r hr)
  refine ⟨offsetofContext r - 8, ?_, by omega⟩
  simp only [at64]
  rw [BitVec.add_assoc, ← BitVec.ofNat_add, show 8 + (offsetofContext r - 8) = offsetofContext r by omega]

/-- Different registers have different places. -/
theorem saveWords_pairwise {rs : List Reg} (hoff : rs.Pairwise fun x y => offsetofContext x + 8 ≤ offsetofContext y)
    (hrs : ∀ r ∈ rs, r ∈ contextFields) (base : Word) (gpr : Reg → Word) :
    (saveWords rs base gpr).Pairwise fun x y => Apart x.1 8 y.1 8 := by
  unfold saveWords
  rw [List.pairwise_map]
  refine hoff.imp_of_mem ?_
  intro x y hx hy hxy
  have h1 := (offsetofContext_le x).2 (hrs x hx)
  have h2 := (offsetofContext_le y).2 (hrs y hy)
  exact apart_same base (Or.inl hxy) (by omega) (by omega)

/-! ## The switch -/

theorem at64_sub_eight (a : Word) (i : ℕ) : at64 a (i + 8) - 8 = at64 a i := by
  unfold at64
  rw [BitVec.ofNat_add, ← BitVec.add_assoc]
  exact BitVec.add_sub_cancel _ _

theorem at64_add_eight (a : Word) (i : ℕ) : at64 a i + 8 = at64 a (i + 8) := by
  unfold at64
  rw [BitVec.ofNat_add, ← BitVec.add_assoc]
  rfl

/-- The words that three `push`es leave on the stack. -/
theorem push_three {s x y z : Word} (hrsp : c.gpr .rsp = at64 s 24) :
    let c' := ((c.push x).push y).push z
    (∀ r, r ≠ .rsp → c'.gpr r = c.gpr r) ∧ c'.gpr .rsp = at64 s 0 ∧ Only [(s, 24)] c.mem c'.mem ∧
    load64 c'.mem (at64 s 0) = z ∧ load64 c'.mem (at64 s 8) = y ∧ load64 c'.mem (at64 s 16) = x ∧
    c'.trace = c.trace := by
  have h1 : (c.push x).gpr .rsp = at64 s 16 := by
    simp only [Cpu.push, Cpu.setReg, Function.update_self, hrsp]
    exact at64_sub_eight s 16
  have h2 : ((c.push x).push y).gpr .rsp = at64 s 8 := by
    simp only [Cpu.push, Cpu.setReg, Function.update_self] at h1 ⊢
    rw [h1]
    exact at64_sub_eight s 8
  have h3 : (((c.push x).push y).push z).gpr .rsp = at64 s 0 := by
    simp only [Cpu.push, Cpu.setReg, Function.update_self] at h2 ⊢
    rw [h2]
    exact at64_sub_eight s 0
  have hm : (((c.push x).push y).push z).mem =
      store64 (store64 (store64 c.mem (at64 s 16) x) (at64 s 8) y) (at64 s 0) z := by
    have e1 : (c.push x).mem = store64 c.mem (at64 s 16) x := by
      simp only [Cpu.push, hrsp]
      rw [at64_sub_eight s 16]
    have e2 : ((c.push x).push y).mem = store64 (c.push x).mem (at64 s 8) y := by
      rw [Cpu.push, h1, at64_sub_eight s 8]
    rw [Cpu.push, h2, at64_sub_eight s 0, e2, e1]
  intro c'
  refine ⟨?_, h3, ?_, ?_, ?_, ?_, rfl⟩
  · intro r hr
    simp only [c', Cpu.push, Cpu.setReg, Function.update_of_ne hr]
  · rw [hm]
    have hin : ∀ i, i + 8 ≤ 24 → Inside (at64 s i) 8 s 24 := fun i hi => at64_inside s hi
    intro b hb
    rw [store64, store_only _ z (hin 0 (by omega)) (by decide) b hb, store64,
      store_only _ y (hin 8 (by omega)) (by decide) b hb, store64, store_only _ x (hin 16 (by omega)) (by decide) b hb]
  · rw [hm, load64_store64_same]
  · rw [hm, load64_store64_apart _ _ (apart_same s (by omega) (by omega) (by omega)), load64_store64_same]
  · rw [hm, load64_store64_apart _ _ (apart_same s (by omega) (by omega) (by omega)),
      load64_store64_apart _ _ (apart_same s (by omega) (by omega) (by omega)), load64_store64_same]

/-- The memory that `_yakvm_vcpu_run` works on: the two contexts, the guest's control block,
and the stack from the third word it pushes up to the return address. -/
structure Ranges where
  gctx : Word
  hctx : Word
  vmcb : Word
  stack : Word
  apart : ([(gctx, sizeofContext), (hctx, sizeofContext), (vmcb, 4096), (stack, 32)] : List (Word × ℕ)).Pairwise
    fun x y => Apart x.1 x.2 y.1 y.2

theorem Ranges.all (p : Ranges) :
    Apart p.gctx 120 p.hctx 120 ∧ Apart p.gctx 120 p.vmcb 4096 ∧ Apart p.gctx 120 p.stack 32 ∧
    Apart p.hctx 120 p.vmcb 4096 ∧ Apart p.hctx 120 p.stack 32 ∧ Apart p.vmcb 4096 p.stack 32 := by
  have h := p.apart
  simp only [List.pairwise_cons, List.forall_mem_cons, sizeofContext] at h
  obtain ⟨⟨h1, h2, h3, -⟩, ⟨h4, h5, -⟩, ⟨h6, -⟩, -⟩ := h
  exact ⟨h1, h2, h3, h4, h5, h6⟩

/-- The part of the stack that is written is a part of the stack. -/
theorem apart_pushed {s : Word} (h : Apart a k s 32) (hk : 0 < k) : Apart a k s 24 :=
  h.inside hk ⟨0, by simp, by omega⟩ (by decide) ⟨0, by simp, by decide⟩

/-- The registers of a context are a part of it. -/
theorem apart_slots (h : Apart a k b 120) (hk : 0 < k) : Apart a k (at64 b 8) 112 :=
  h.inside hk ⟨0, by simp, by omega⟩ (by decide) ⟨8, rfl, by decide⟩

/-- What an exit and the `vmsave` after it write to the control block. -/
def svmExit (m : Mem 64) (vmcb : Word) (g : GuestRun) (out : Core) : Mem 64 :=
  storeAll 8 (Cpu.exitMem m vmcb g out) (svmFields.map fun off => (at64 vmcb off, g.sys off))

theorem exitMem_only (m : Mem 64) (vmcb : Word) (g : GuestRun) (out : Core) :
    Only [(vmcb, 4096)] m (Cpu.exitMem m vmcb g out) := by
  intro x hx
  unfold Cpu.exitMem
  have hin : ∀ y ∈ [(at64 vmcb saveRax, out.gpr .rax), (at64 vmcb saveRsp, out.gpr .rsp), (at64 vmcb saveRip, out.rip)],
      Inside y.1 8 vmcb 4096 := by
    simp only [List.forall_mem_cons]
    exact ⟨at64_inside _ (by decide), at64_inside _ (by decide), at64_inside _ (by decide), by simp⟩
  rw [storeAll_only hin (by decide) _ x hx, if_neg]
  have := hx (vmcb, 4096) List.mem_cons_self
  simp only at this
  omega

theorem svmFields_inside (vmcb : Word) (v : ℕ → Word) :
    ∀ x ∈ svmFields.map fun off => (at64 vmcb off, v off), Inside x.1 8 vmcb 4096 := by
  intro x hx
  obtain ⟨off, hoff, rfl⟩ := List.mem_map.1 hx
  have hle : ∀ off ∈ svmFields, off + 8 ≤ 4096 := by decide
  exact at64_inside _ (hle off hoff)

theorem vmsave_only (c : Cpu) (pa : Word) : Only [(physToVirt pa, 4096)] c.mem (c.vmsave pa).mem :=
  storeAll_only (n := 8) (k := 4096) (svmFields_inside (physToVirt pa) c.sys) (by decide) c.mem

/-- `vmrun` leaves the registers of the context to the guest. -/
theorem enter_gpr (c : Cpu) (vmcb : Word) {r : Reg} (hr : r ∈ contextFields) : (c.enter vmcb).gpr r = c.gpr r := by
  have hne : ∀ r ∈ contextFields, r ≠ .rax ∧ r ≠ .rsp := by decide
  obtain ⟨h1, h2⟩ := hne r hr
  cases r <;> first | rfl | contradiction

theorem svmExit_only (m : Mem 64) (vmcb : Word) (g : GuestRun) (out : Core) :
    Only [(vmcb, 4096)] m (svmExit m vmcb g out) := by
  intro x hx
  unfold svmExit
  rw [storeAll_only (svmFields_inside vmcb g.sys) (by decide) _ x hx, exitMem_only m vmcb g out x hx]

/-- What an exit writes does not depend on the rest of memory. -/
theorem svmExit_congr {m m' : Mem 64} {x : Word} (vmcb : Word) (g : GuestRun) (out : Core) (h : m x = m' x) :
    svmExit m vmcb g out x = svmExit m' vmcb g out x := by
  unfold svmExit Cpu.exitMem
  apply storeAll_congr
  apply storeAll_congr
  simp only [h]

/-- What an exit stores. -/
theorem exitMem_regs (m : Mem 64) (vmcb : Word) (g : GuestRun) (out : Core) :
    load64 (Cpu.exitMem m vmcb g out) (at64 vmcb saveRax) = out.gpr .rax ∧
    load64 (Cpu.exitMem m vmcb g out) (at64 vmcb saveRsp) = out.gpr .rsp ∧
    load64 (Cpu.exitMem m vmcb g out) (at64 vmcb saveRip) = out.rip := by
  have hpair : ([(at64 vmcb saveRax, out.gpr .rax), (at64 vmcb saveRsp, out.gpr .rsp), (at64 vmcb saveRip, out.rip)] :
      List (Word × Word)).Pairwise fun x y => Apart x.1 8 y.1 8 := by
    simp only [List.pairwise_cons, List.forall_mem_cons]
    refine ⟨⟨?_, ?_, by simp⟩, ⟨?_, by simp⟩, by simp⟩ <;> exact apart_same vmcb (by decide) (by decide) (by decide)
  unfold Cpu.exitMem
  exact ⟨load64_storeAll_mem hpair (by simp) _, load64_storeAll_mem hpair (by simp) _,
    load64_storeAll_mem hpair (by simp) _⟩

/-- `vmsave` leaves the registers of `vmrun` alone. -/
theorem svmExit_keeps (m : Mem 64) (vmcb : Word) (g : GuestRun) (out : Core) {off : ℕ}
    (hoff : off ∈ [saveRax, saveRsp, saveRip]) :
    load64 (svmExit m vmcb g out) (at64 vmcb off) = load64 (Cpu.exitMem m vmcb g out) (at64 vmcb off) := by
  apply load_storeAll_apart
  intro x hx
  obtain ⟨f, hf, rfl⟩ := List.mem_map.1 hx
  have hsep : ∀ off ∈ [saveRax, saveRsp, saveRip], ∀ f ∈ svmFields, (off + 8 ≤ f ∨ f + 8 ≤ off) ∧ off ≤ 4096 ∧ f ≤ 4096 := by
    decide
  obtain ⟨h1, h2, h3⟩ := hsep off hoff f hf
  exact apart_same _ h1 h2 h3

section Blocks

variable {p : Ranges}

/-- **Into the guest**: the host's registers go to `hctx`, the three arguments to the stack,
and the guest's registers come from `gctx`. -/
theorem exec_enter (hrdi : c.gpr .rdi = p.gctx) (hrsi : c.gpr .rsi = p.hctx) (hrsp : c.gpr .rsp = at64 p.stack 24) :
    let c' := execAll g (saves hostRegs .rsi ++ [.push .rsi, .push .rdi, .push .rdx, .mov .rdi .rax] ++
      loads contextFields .rax) c
    (∀ r ∈ contextFields, c'.gpr r = load64 c.mem (at64 p.gctx (offsetofContext r))) ∧
    c'.gpr .rsp = at64 p.stack 0 ∧ Only [(at64 p.hctx 8, 112), (p.stack, 24)] c.mem c'.mem ∧
    load64 c'.mem (at64 p.stack 0) = c.gpr .rdx ∧ load64 c'.mem (at64 p.stack 8) = p.gctx ∧
    load64 c'.mem (at64 p.stack 16) = p.hctx ∧
    (∀ r ∈ hostRegs, load64 c'.mem (at64 p.hctx (offsetofContext r)) = c.gpr r) ∧ c'.trace = c.trace := by
  intro c'
  have hhost : ∀ r ∈ hostRegs, r ∈ contextFields := by decide
  obtain ⟨hgh, -, hgs, -, hhs, -⟩ := p.all
  -- the stores to `hctx`
  set c₁ : Cpu := { c with mem := storeAll 8 c.mem (saveWords hostRegs (c.gpr .rsi) c.gpr) } with hc₁
  have hm₁ : Only [(at64 p.hctx 8, 112)] c.mem c₁.mem := by
    rw [hc₁, hrsi]
    exact storeAll_only (saveWords_inside hhost p.hctx c.gpr) (by decide) c.mem
  have hsaved : ∀ r ∈ hostRegs, load64 c₁.mem (at64 p.hctx (offsetofContext r)) = c.gpr r := by
    intro r hr
    rw [hc₁, hrsi]
    exact load64_storeAll_mem (saveWords_pairwise (by decide) hhost p.hctx c.gpr) (List.mem_map.2 ⟨r, hr, rfl⟩) c.mem
  -- the stack
  set c₂ : Cpu := ((c₁.push (c.gpr .rsi)).push (c.gpr .rdi)).push (c.gpr .rdx) with hc₂
  obtain ⟨hgpr, hrsp₂, hm₂, hz, hy, hx, htr⟩ := push_three (c := c₁) (x := c.gpr .rsi) (y := c.gpr .rdi)
    (z := c.gpr .rdx) hrsp
  rw [← hc₂] at hgpr hrsp₂ hm₂ hz hy hx htr
  have hall : c' = execAll g (loads contextFields .rax) (c₂.setReg .rax (c.gpr .rdi)) := by
    simp only [c', execAll_append, execAll_saves]
    congr 1
  have hrax : (c₂.setReg .rax (c.gpr .rdi)).gpr .rax = p.gctx := by
    rw [setReg_same, hrdi]
  rw [execAll_loads contextFields _ (by decide), hrax] at hall
  have hmem : Only [(at64 p.hctx 8, 112), (p.stack, 24)] c.mem c₂.mem := hm₁.trans hm₂
  rw [hall]
  refine ⟨?_, ?_, hmem, hz, hy.trans hrdi, hx.trans hrsi, ?_, htr⟩
  · intro r hr
    have hle := (offsetofContext_le r).2 hr
    simp only [if_pos hr]
    apply load64_only hmem
    simp only [List.forall_mem_cons]
    exact ⟨apart_slots (apart_word hgh hle (by decide)) (by decide), apart_pushed (apart_word hgs hle (by decide)) (by decide), by simp⟩
  · have hnot : Reg.rsp ∉ contextFields := by decide
    simp only [if_neg hnot]
    rw [setReg_ne _ _ (by decide)]
    exact hrsp₂
  · intro r hr
    rw [← hsaved r hr]
    apply load64_only hm₂
    have hle := (offsetofContext_le r).2 (hhost r hr)
    simp only [List.forall_mem_cons]
    exact ⟨apart_pushed (apart_word hhs hle (by decide)) (by decide), by simp⟩

/-- **The guest runs**: it receives what is in the registers and in the save area, and leaves
its results there. -/
theorem exec_vmrun {pa : Word} (hrsp : c.gpr .rsp = at64 p.stack 0) (hpa : load64 c.mem (at64 p.stack 0) = pa)
    (hvirt : physToVirt pa = p.vmcb) (hgctx : load64 c.mem (at64 p.stack 8) = p.gctx) :
    let c' := execAll g [.pop .rax, .vmload .rax, .vmrun .rax, .vmsave .rax, .pop .rax] c
    let out := g.regs (c.enter p.vmcb)
    c'.gpr .rax = p.gctx ∧ c'.gpr .rsp = at64 p.stack 16 ∧ (∀ r, r ≠ .rax → r ≠ .rsp → c'.gpr r = out.gpr r) ∧
    c'.mem = svmExit c.mem p.vmcb g out ∧
    c'.trace = .vmsave pa :: .vmrun pa (c.enter p.vmcb) :: .vmload pa :: c.trace := by
  intro c' out
  -- the first `pop`
  set c₁ : Cpu := (c.setReg .rsp (at64 p.stack 8)).setReg .rax pa with hc₁
  have hrax₁ : c₁.gpr .rax = pa := setReg_same ..
  have hrsp₁ : c₁.gpr .rsp = at64 p.stack 8 := by
    rw [hc₁, setReg_ne _ _ (by decide), setReg_same]
  have henter : (c₁.vmload pa).enter p.vmcb = c.enter p.vmcb := by
    unfold Cpu.enter
    congr 1
    funext r
    cases r <;> rfl
  set c₂ : Cpu := (c₁.vmload pa).vmrun pa g with hc₂
  have hgpr₂ : ∀ r, r ≠ .rax → r ≠ .rsp → c₂.gpr r = out.gpr r := by
    intro r h1 h2
    simp only [hc₂, Cpu.vmrun, hvirt, henter]
    cases r <;> rfl
  have hrsp₂ : c₂.gpr .rsp = at64 p.stack 8 := hrsp₁
  have hrax₂ : c₂.gpr .rax = pa := hrax₁
  set c₃ : Cpu := c₂.vmsave pa with hc₃
  have hm₃ : c₃.mem = svmExit c.mem p.vmcb g out := by
    simp only [hc₃, hc₂, Cpu.vmsave, Cpu.vmrun, hvirt, henter]
    rfl
  -- the stack is not in the control block
  have hstack : load64 c₃.mem (at64 p.stack 8) = p.gctx := by
    rw [hm₃, load64_only (svmExit_only c.mem p.vmcb g out), hgctx]
    obtain ⟨-, -, -, -, -, hvs⟩ := p.all
    have hap := apart_word hvs.symm (show 8 + 8 ≤ 32 by decide) (by decide)
    simpa using hap
  have hall : c' = (c₃.setReg .rsp (c₃.gpr .rsp + 8)).setReg .rax (load64 c₃.mem (c₃.gpr .rsp)) := by
    have hpop : Instr.exec g (.pop .rax) c = c₁ := by
      simp only [Instr.exec, hrsp, hpa, at64_add_eight, hc₁]
    simp only [c', execAll, List.foldl_cons, List.foldl_nil, hpop]
    simp only [Instr.exec, hrax₁]
    rfl
  have hrsp₃ : c₃.gpr .rsp = at64 p.stack 8 := hrsp₂
  rw [hall, hrsp₃, hstack]
  refine ⟨setReg_same .., ?_, ?_, hm₃, ?_⟩
  · rw [setReg_ne _ _ (by decide), setReg_same, at64_add_eight]
  · intro r hr1 hr2
    rw [setReg_ne _ _ hr1, setReg_ne _ _ hr2]
    exact hgpr₂ r hr1 hr2
  · simp only [setReg_trace, hc₃, hc₂, Cpu.vmsave, Cpu.vmrun, hvirt, henter]
    rfl

theorem exec_ret {s : Word} (hrsp : c.gpr .rsp = at64 s i) :
    let c' := execAll g [.ret] c
    (∀ r, r ≠ .rsp → c'.gpr r = c.gpr r) ∧ c'.gpr .rsp = at64 s (i + 8) ∧ c'.rip = load64 c.mem (at64 s i) ∧
    c'.mem = c.mem ∧ c'.trace = c.trace := by
  intro c'
  have hc : c' = { c.setReg .rsp (at64 s (i + 8)) with rip := load64 c.mem (at64 s i) } := by
    simp only [c', execAll, List.foldl_cons, List.foldl_nil, Instr.exec, hrsp, at64_add_eight]
  rw [hc]
  exact ⟨fun r hr => setReg_ne c _ hr, setReg_same c .rsp _, rfl, rfl, rfl⟩

/-- **Back in the host**: the guest's registers go to `gctx`, the host's come from `hctx`, and
the return address from the stack. -/
theorem exec_leave (hrax : c.gpr .rax = p.gctx) (hrsp : c.gpr .rsp = at64 p.stack 16)
    (hhctx : load64 c.mem (at64 p.stack 16) = p.hctx) :
    let c' := execAll g (saves contextFields .rax ++ [.pop .rsi] ++ loads hostRegs.reverse .rsi ++ [.ret]) c
    c'.mem = storeAll 8 c.mem (saveWords contextFields p.gctx c.gpr) ∧ c'.gpr .rsp = at64 p.stack 32 ∧
    c'.rip = load64 c.mem (at64 p.stack 24) ∧
    (∀ r ∈ hostRegs, c'.gpr r = load64 c.mem (at64 p.hctx (offsetofContext r))) ∧ c'.trace = c.trace := by
  intro c'
  obtain ⟨hgh, -, hgs, -⟩ := p.all
  set c₁ : Cpu := { c with mem := storeAll 8 c.mem (saveWords contextFields p.gctx c.gpr) } with hc₁
  have honly : Only [(at64 p.gctx 8, 112)] c.mem c₁.mem :=
    storeAll_only (saveWords_inside (fun _ hr => hr) p.gctx c.gpr) (by decide) c.mem
  -- the stores to `gctx` are not on the stack
  have hstack : ∀ i, i + 8 ≤ 32 → load64 c₁.mem (at64 p.stack i) = load64 c.mem (at64 p.stack i) := by
    intro i hi
    apply load64_only honly
    simp only [List.forall_mem_cons]
    exact ⟨apart_slots (apart_word hgs.symm hi (by decide)) (by decide), by simp⟩
  set c₂ : Cpu := (c₁.setReg .rsp (at64 p.stack 24)).setReg .rsi p.hctx with hc₂
  have hpop : execAll g [.pop .rsi] c₁ = c₂ := by
    have hrsp₁ : c₁.gpr .rsp = at64 p.stack 16 := hrsp
    simp only [execAll, List.foldl_cons, List.foldl_nil, Instr.exec, hrsp₁, hstack 16 (by decide), hhctx, at64_add_eight,
      hc₂]
  have hrsi₂ : c₂.gpr .rsi = p.hctx := setReg_same ..
  have hrsp₂ : c₂.gpr .rsp = at64 p.stack 24 := by
    rw [hc₂, setReg_ne _ _ (by decide), setReg_same]
  have hmem₂ : c₂.mem = c₁.mem := rfl
  have hall : c' = execAll g [.ret] (execAll g (loads hostRegs.reverse .rsi) c₂) := by
    simp only [c', execAll_append, execAll_saves, hrax, ← hc₁, hpop]
  rw [execAll_loads _ _ (by decide), hrsi₂] at hall
  set c₃ : Cpu := { c₂ with gpr := fun r =>
    if r ∈ hostRegs.reverse then load64 c₂.mem (at64 p.hctx (offsetofContext r)) else c₂.gpr r } with hc₃
  have hnot : Reg.rsp ∉ hostRegs.reverse := by decide
  have hrsp₃ : c₃.gpr .rsp = at64 p.stack 24 := by
    simp only [hc₃, if_neg hnot, hrsp₂]
  obtain ⟨hgpr, hrsp', hrip, hmem, htr⟩ := exec_ret (g := g) hrsp₃
  rw [← hall] at hgpr hrsp' hrip hmem htr
  refine ⟨hmem, hrsp', hrip.trans (hstack 24 (by decide)), ?_, htr⟩
  intro r hr
  have hhost : ∀ r ∈ hostRegs, r ≠ .rsp ∧ r ∈ contextFields := by decide
  have hle := (offsetofContext_le r).2 (hhost r hr).2
  rw [hgpr r (hhost r hr).1, hc₃]
  simp only [if_pos (List.mem_reverse.2 hr), hmem₂]
  apply load64_only honly
  simp only [List.forall_mem_cons]
  exact ⟨apart_slots (apart_word hgh.symm hle (by decide)) (by decide), by simp⟩

/-- **`_yakvm_vcpu_run`.** The guest starts with its registers from `gctx` and the save area;
the host's registers and the stack pointer are back at the end; and besides what the SVM
instructions write, only registers in the contexts and three words on the stack change. -/
theorem exec_vcpuRunCode (hrdi : c.gpr .rdi = p.gctx) (hrsi : c.gpr .rsi = p.hctx)
    (hrdx : physToVirt (c.gpr .rdx) = p.vmcb) (hrsp : c.gpr .rsp = at64 p.stack 24) :
    ∃ entered : Core,
    let c' := execAll g vcpuRunCode c
    let out := g.regs entered
    (∀ r ∈ contextFields, entered.gpr r = load64 c.mem (at64 p.gctx (offsetofContext r))) ∧
    entered.gpr .rax = load64 c.mem (at64 p.vmcb saveRax) ∧ entered.gpr .rsp = load64 c.mem (at64 p.vmcb saveRsp) ∧
    entered.rip = load64 c.mem (at64 p.vmcb saveRip) ∧
    (∀ r ∈ contextFields, load64 c'.mem (at64 p.gctx (offsetofContext r)) = out.gpr r) ∧
    Only [(at64 p.hctx 8, 112), (p.stack, 24), (at64 p.gctx 8, 112)] (svmExit c.mem p.vmcb g out) c'.mem ∧
    (∀ r ∈ hostRegs, c'.gpr r = c.gpr r) ∧ c'.gpr .rsp = at64 p.stack 32 ∧
    c'.rip = load64 c.mem (at64 p.stack 24) ∧
    c'.trace = .vmsave (c.gpr .rdx) :: .vmrun (c.gpr .rdx) entered :: .vmload (c.gpr .rdx) :: c.trace := by
  obtain ⟨hregs₁, hrsp₁, honly₁, hpa₁, hg₁, hh₁, hsaved₁, htr₁⟩ := exec_enter (g := g) hrdi hrsi hrsp
  set c₁ := execAll g (saves hostRegs .rsi ++ [.push .rsi, .push .rdi, .push .rdx, .mov .rdi .rax] ++
      loads contextFields .rax) c with hc₁
  obtain ⟨hrax₂, hrsp₂, hgpr₂, hm₂, htr₂⟩ := exec_vmrun (g := g) hrsp₁ hpa₁ hrdx hg₁
  set c₂ := execAll g [.pop .rax, .vmload .rax, .vmrun .rax, .vmsave .rax, .pop .rax] c₁ with hc₂
  have hsvm := svmExit_only c₁.mem p.vmcb g (g.regs (c₁.enter p.vmcb))
  rw [← hm₂] at hsvm
  obtain ⟨-, hgv, -, hhv, hhs, hvs⟩ := p.all
  have hkeep : ∀ {b : Word} {k i : ℕ}, Apart b k p.vmcb 4096 → i + 8 ≤ k → load64 c₂.mem (at64 b i) = load64 c₁.mem (at64 b i) := by
    intro b k i hb hi
    apply load64_only hsvm
    simp only [List.forall_mem_cons]
    exact ⟨apart_word hb hi (by decide), by simp⟩
  obtain ⟨hm₃, hrsp₃, hrip₃, hregs₃, htr₃⟩ :=
    exec_leave (g := g) hrax₂ hrsp₂ ((hkeep hvs.symm (by decide)).trans hh₁)
  have hc : execAll g vcpuRunCode c =
      execAll g (saves contextFields .rax ++ [.pop .rsi] ++ loads hostRegs.reverse .rsi ++ [.ret]) c₂ := by
    simp only [vcpuRunCode_eq, execAll_append, hc₂, hc₁]
  rw [← hc] at hm₃ hrsp₃ hrip₃ hregs₃ htr₃
  have hhost : ∀ r ∈ hostRegs, r ∈ contextFields := by decide
  have hsave : ∀ off, off + 8 ≤ 4096 → load64 c₁.mem (at64 p.vmcb off) = load64 c.mem (at64 p.vmcb off) := by
    intro off hoff
    apply load64_only honly₁
    simp only [List.forall_mem_cons]
    exact ⟨apart_slots (apart_word hhv.symm hoff (by decide)) (by decide), apart_pushed (apart_word hvs hoff (by decide)) (by decide),
      by simp⟩
  refine ⟨c₁.enter p.vmcb, ?_, hsave saveRax (by decide), hsave saveRsp (by decide), hsave saveRip (by decide), ?_, ?_, ?_,
    hrsp₃, ?_, ?_⟩
  · intro r hr
    rw [← hregs₁ r hr]
    exact enter_gpr c₁ p.vmcb hr
  · intro r hr
    have hne : ∀ r ∈ contextFields, r ≠ .rax ∧ r ≠ .rsp := by decide
    rw [hm₃, ← hgpr₂ r (hne r hr).1 (hne r hr).2]
    exact load64_storeAll_mem (saveWords_pairwise (by decide) (fun _ hr => hr) p.gctx c₂.gpr)
      (List.mem_map.2 ⟨r, hr, rfl⟩) c₂.mem
  · intro x hx
    simp only [List.forall_mem_cons] at hx
    rw [hm₃, storeAll_only (saveWords_inside (fun _ hr => hr) p.gctx c₂.gpr) (by decide) c₂.mem x (by simpa using hx.2.2.1),
      hm₂]
    exact svmExit_congr _ _ _ (honly₁ x (by simpa using ⟨hx.1, hx.2.1⟩))
  · intro r hr
    rw [hregs₃ r hr, hkeep hhv ((offsetofContext_le r).2 (hhost r hr)), hsaved₁ r hr]
  · rw [hrip₃, hkeep hvs.symm (by decide)]
    apply load64_only honly₁
    simp only [List.forall_mem_cons]
    refine ⟨apart_slots (apart_word hhs.symm (by decide) (by decide)) (by decide), ?_, by simp⟩
    have hret := apart_offsets (i := 0) (j := 24) (n := 24) (k := 8) p.stack (by decide) (by decide) (by decide) (by decide)
    simpa [at64] using hret.symm
  · rw [htr₃, htr₂, htr₁]

end Blocks

section Run

variable {vc : VcpuAt} {h : Host}

/-- **The call**: the arguments are in place, and the return address is on the stack. -/
theorem call_spec (hr : vc.Ready m) :
    let c := vc.call h m
    c.gpr .rdi = vc.gctx ∧ c.gpr .rsi = vc.hctx ∧ c.gpr .rdx = virtToPhys vc.gvmcb ∧ c.gpr .rsp = at64 h.stack 24 ∧
    Only [(vc.hvmcb, 4096), (h.stack, 32)] m c.mem ∧ c.trace = [.vmsave (virtToPhys vc.hvmcb)] := by
  intro c
  obtain ⟨hg, hh⟩ := hr
  obtain ⟨-, -, hgw, -⟩ := vc.apart_all
  have hrsp : h.gpr .rsp - 8 = at64 h.stack 24 := by
    unfold Host.stack at64
    bv_omega
  -- the host's control block is not in `gctx`
  set c₁ : Cpu := Cpu.vmsave ⟨h.gpr, 0, h.sys, m, []⟩ (virtToPhys vc.hvmcb) with hc₁
  have hm₁ : Only [(vc.hvmcb, 4096)] m c₁.mem := by
    have := vmsave_only ⟨h.gpr, 0, h.sys, m, []⟩ (virtToPhys vc.hvmcb)
    rwa [physToVirt_virtToPhys] at this
  have hptr : vc.gvmcbPtr c₁.mem = vc.gvmcb := by
    rw [← hg]
    apply load64_only hm₁
    simpa using apart_word hgw (show contextVmcbOff + 8 ≤ 120 by decide) (by decide)
  have hc : c = ((((c₁.setReg .rdi vc.gctx).setReg .rsi vc.hctx).setReg .rdx (virtToPhys vc.gvmcb)).push h.ret) := by
    simp only [c, VcpuAt.call, hh, ← hc₁, hptr]
  rw [hc]
  refine ⟨rfl, rfl, rfl, hrsp, ?_, rfl⟩
  have hm₂ : Only [(h.stack, 32)] c₁.mem (store64 c₁.mem (at64 h.stack 24) h.ret) :=
    store_only _ _ (at64_inside _ (by decide)) (by decide)
  rw [← hrsp] at hm₂
  exact hm₁.trans hm₂

/-- The ranges of a switch of the vcpu on a stack that is not in it. -/
def VcpuAt.ranges (vc : VcpuAt) (h : Host) (hs : vc.Stacked h) : Ranges where
  gctx := vc.gctx
  hctx := vc.hctx
  vmcb := vc.gvmcb
  stack := h.stack
  apart := by
    obtain ⟨hgh, hgv, -, -, hhv, -⟩ := vc.apart_all
    obtain ⟨hgs, hhs, hvs, -⟩ := hs.all
    simp only [List.pairwise_cons, List.forall_mem_cons]
    exact ⟨⟨hgh, hgv, hgs, by simp⟩, ⟨hhv, hhs, by simp⟩, ⟨hvs, by simp⟩, by simp⟩

/-- The pointers to the control blocks are in none of the ranges that the switch writes. -/
theorem ready_of_only (hr : vc.Ready m) (hs : vc.Stacked h)
    (honly : Only [(vc.hvmcb, 4096), (h.stack, 32), (vc.gvmcb, 4096), (at64 vc.hctx 8, 112), (h.stack, 24),
      (at64 vc.gctx 8, 112)] m m') : vc.Ready m' := by
  obtain ⟨hgh, hgv, hgw, -, hhv, hhw, -, -, -⟩ := vc.apart_all
  obtain ⟨hgs, hhs, -, -⟩ := hs.all
  have hslot : contextVmcbOff + 8 ≤ 120 := by decide
  have hown : ∀ b : Word, Apart (at64 b contextVmcbOff) 8 (at64 b 8) 112 := fun b =>
    apart_offsets b (by decide) (by decide) (by decide) (by decide)
  refine ⟨?_, ?_⟩
  · rw [← hr.1]
    apply load64_only honly
    simp only [List.forall_mem_cons]
    exact ⟨apart_word hgw hslot (by decide), apart_word hgs hslot (by decide), apart_word hgv hslot (by decide),
      apart_slots (apart_word hgh hslot (by decide)) (by decide), apart_pushed (apart_word hgs hslot (by decide)) (by decide), hown _,
      by simp⟩
  · rw [← hr.2]
    apply load64_only honly
    simp only [List.forall_mem_cons]
    exact ⟨apart_word hhw hslot (by decide), apart_word hhs hslot (by decide), apart_word hhv hslot (by decide), hown _,
      apart_pushed (apart_word hhs hslot (by decide)) (by decide), apart_slots (apart_word hgh.symm hslot (by decide)) (by decide),
      by simp⟩

/-- **The whole switch.** The guest starts with the registers that the driver has, and the
driver has the guest's registers afterwards. -/
theorem switch_spec (hr : vc.Ready m) (hs : vc.Stacked h) :
    let c := execAll g vcpuRunCode (vc.call h m)
    vc.Ready c.mem ∧ vc.core c.mem = g.regs (vc.core m) ∧
    c.trace.reverse.filterMap Mark.seen = [.entered (vc.core m)] := by
  intro c
  obtain ⟨hrdi, hrsi, hrdx, hrsp, honly₀, htr₀⟩ := call_spec (h := h) hr
  have hvirt : physToVirt ((vc.call h m).gpr .rdx) = vc.gvmcb := by rw [hrdx, physToVirt_virtToPhys]
  obtain ⟨entered, hctx, hrax, hrsp', hrip, hout, honly, -, -, -, htr⟩ :=
    exec_vcpuRunCode (g := g) (p := vc.ranges h hs) hrdi hrsi hvirt hrsp
  simp only [VcpuAt.ranges] at hctx hrax hrsp' hrip hout honly
  obtain ⟨-, hgv, hgw, -, hhv, -, -, hvw, -⟩ := vc.apart_all
  obtain ⟨hgs, -, hvs, -⟩ := hs.all
  -- before the guest, only the host's control block and the stack have changed
  have hbefore : ∀ {b : Word} {k i : ℕ}, Apart b k vc.hvmcb 4096 → Apart b k h.stack 32 → i + 8 ≤ k →
      load64 (vc.call h m).mem (at64 b i) = load64 m (at64 b i) := by
    intro b k i hw hst hi
    apply load64_only honly₀
    simp only [List.forall_mem_cons]
    exact ⟨apart_word hw hi (by decide), apart_word hst hi (by decide), by simp⟩
  have henter : entered = vc.core m := by
    apply Core.ext
    · funext r
      cases r
      case rax => exact hrax.trans (hbefore hvw hvs (by decide))
      case rsp => exact hrsp'.trans (hbefore hvw hvs (by decide))
      all_goals exact (hctx _ (by decide)).trans (hbefore hgw hgs (by decide))
    · exact hrip.trans (hbefore hvw hvs (by decide))
  subst henter
  refine ⟨?_, ?_, ?_⟩
  · have hsvm := svmExit_only (vc.call h m).mem vc.gvmcb g (g.regs (vc.core m))
    exact ready_of_only hr hs ((honly₀.trans hsvm).trans honly)
  · -- the code does not write to the control block
    have hafter : ∀ off ∈ [saveRax, saveRsp, saveRip], load64 c.mem (at64 vc.gvmcb off) =
        load64 (Cpu.exitMem (vc.call h m).mem vc.gvmcb g (g.regs (vc.core m))) (at64 vc.gvmcb off) := by
      intro off hoff
      have hle : ∀ off ∈ [saveRax, saveRsp, saveRip], off + 8 ≤ 4096 := by decide
      rw [← svmExit_keeps _ _ _ _ hoff]
      apply load64_only honly
      simp only [List.forall_mem_cons]
      exact ⟨apart_slots (apart_word hhv.symm (hle off hoff) (by decide)) (by decide),
        apart_pushed (apart_word hvs (hle off hoff) (by decide)) (by decide),
        apart_slots (apart_word hgv.symm (hle off hoff) (by decide)) (by decide), by simp⟩
    obtain ⟨h1, h2, h3⟩ := exitMem_regs (vc.call h m).mem vc.gvmcb g (g.regs (vc.core m))
    apply Core.ext
    · funext r
      cases r
      case rax => exact (hafter saveRax (by simp)).trans h1
      case rsp => exact (hafter saveRsp (by simp)).trans h2
      all_goals exact hout _ (by decide)
    · exact (hafter saveRip (by simp)).trans h3
  · rw [htr, htr₀]
    rfl

end Run

/-! ## The copies in C -/

section Copies

variable {vc : VcpuAt}

/-- `yakvm_vcpu_share_err_to_user` writes to the shared page only. -/
theorem shareErrToUser_only (vc : VcpuAt) (m : Mem 64) :
    Only [(vc.state, 40), (vc.state, 40), (vc.state, 40), (vc.state, 40), (vc.state, 40)] m (vc.shareErrToUser m) := by
  have hfirst : Inside vc.state 4 vc.state 40 := ⟨0, by simp, by decide⟩
  have hin : ∀ i, i + 8 ≤ 40 → Inside (at64 vc.state i) 8 vc.state 40 := fun i hi => at64_inside _ hi
  have h₁ : ∀ (m : Mem 64) v, Only [(vc.state, 40)] m (store m vc.state 4 v) := fun m v => store_only m v hfirst (by decide)
  have h₂ : ∀ (m : Mem 64) i v, i + 8 ≤ 40 → Only [(vc.state, 40)] m (store64 m (at64 vc.state i) v) :=
    fun m i v hi => store_only (n := 8) m v (hin i hi) (by decide)
  exact ((((h₁ m _).trans (h₂ _ 8 _ (by decide))).trans (h₂ _ 16 _ (by decide))).trans (h₂ _ 24 _ (by decide))).trans
    (h₂ _ 32 _ (by decide))

theorem shareErrToUser_spec (vc : VcpuAt) (m : Mem 64) :
    (vc.Ready m → vc.Ready (vc.shareErrToUser m)) ∧ vc.core (vc.shareErrToUser m) = vc.core m := by
  obtain ⟨-, -, -, hgs, -, -, hhs, -, hvs⟩ := vc.apart_all
  have hkeep : ∀ {b : Word} {k i : ℕ}, Apart b k vc.state 40 → i + 8 ≤ k →
      load64 (vc.shareErrToUser m) (at64 b i) = load64 m (at64 b i) := by
    intro b k i hb hi
    apply load64_only (shareErrToUser_only vc m)
    have hw := apart_word hb hi (show 0 < 40 by decide)
    simp only [List.forall_mem_cons]
    exact ⟨hw, hw, hw, hw, hw, by simp⟩
  refine ⟨?_, ?_⟩
  · rintro ⟨hg, hh⟩
    exact ⟨(hkeep hgs (by decide)).trans hg, (hkeep hhs (by decide)).trans hh⟩
  · have hctx : ∀ r ∈ contextFields, load64 (vc.shareErrToUser m) (at64 vc.gctx (offsetofContext r)) =
        load64 m (at64 vc.gctx (offsetofContext r)) := fun r hr => hkeep hgs ((offsetofContext_le r).2 hr)
    apply Core.ext
    · funext r
      cases r
      case rax => exact hkeep hvs (by decide)
      case rsp => exact hkeep hvs (by decide)
      all_goals exact hctx _ (by decide)
    · exact hkeep hvs (by decide)

/-- **`YAKVM_RUN`**: the guest starts with the registers of the vcpu, and these are the
guest's afterwards. -/
theorem vcpuRun_spec {h : Host} (hr : vc.Ready m) (hs : vc.Stacked h) :
    vc.Ready (vc.vcpuRun h g m).1 ∧ vc.core (vc.vcpuRun h g m).1 = g.regs (vc.core m) ∧
    (vc.vcpuRun h g m).2.reverse.filterMap Mark.seen = [.entered (vc.core m)] := by
  obtain ⟨hr', hcore, htrace⟩ := switch_spec (g := g) hr hs
  obtain ⟨hready, hsame⟩ := shareErrToUser_spec vc (execAll g vcpuRunCode (vc.call h m)).mem
  exact ⟨hready hr', hsame.trans hcore, htrace⟩

/-- **`YAKVM_GET_REGS`** shows the registers of the vcpu. -/
theorem vcpuGetRegs_core (hr : vc.Ready m) : (vc.vcpuGetRegs m).core = vc.core m := by
  unfold VcpuAt.vcpuGetRegs Registers.core VcpuAt.core
  rw [hr.1]
  apply Core.ext
  · funext r
    cases r <;> rfl
  · rfl

/-- The address of a place, when the pointer to the control block is in place. -/
def VcpuAt.Place.home (vc : VcpuAt) : VcpuAt.Place → Word
  | .context r => at64 vc.gctx (offsetofContext r)
  | .save off => at64 vc.gvmcb off

/-- The place is a register of the context, or a word of the control block. -/
def VcpuAt.Place.Proper : VcpuAt.Place → Prop
  | .context r => r ∈ contextFields
  | .save off => off + 8 ≤ 4096

instance : DecidablePred VcpuAt.Place.Proper
  | .context r => inferInstanceAs (Decidable (r ∈ contextFields))
  | .save off => inferInstanceAs (Decidable (off + 8 ≤ 4096))

/-- Different words of one structure, or words of different structures. -/
def VcpuAt.Place.Other : VcpuAt.Place → VcpuAt.Place → Prop
  | .context r, .context x => offsetofContext r + 8 ≤ offsetofContext x ∨ offsetofContext x + 8 ≤ offsetofContext r
  | .save off, .save off' => off + 8 ≤ off' ∨ off' + 8 ≤ off
  | _, _ => True

instance : DecidableRel VcpuAt.Place.Other
  | .context r, .context x =>
    inferInstanceAs (Decidable (offsetofContext r + 8 ≤ offsetofContext x ∨ offsetofContext x + 8 ≤ offsetofContext r))
  | .save off, .save off' => inferInstanceAs (Decidable (off + 8 ≤ off' ∨ off' + 8 ≤ off))
  | .context _, .save _ => isTrue trivial
  | .save _, .context _ => isTrue trivial

open VcpuAt (Place setRegsAssigns)

theorem home_apart {x y : Place} (hx : x.Proper) (hy : y.Proper) (h : x.Other y) :
    Apart (x.home vc) 8 (y.home vc) 8 := by
  obtain ⟨-, hgv, -⟩ := vc.apart_all
  cases x with
  | context r =>
    have hr := (offsetofContext_le r).2 hx
    cases y with
    | context r' => exact apart_same _ h (by omega) (by have := (offsetofContext_le r').2 hy; omega)
    | save off => exact apart_words hgv hr hy
  | save off =>
    have hoff : off + 8 ≤ 4096 := hx
    cases y with
    | context r' => exact apart_words hgv.symm hx ((offsetofContext_le r').2 hy)
    | save off' => exact apart_same _ h (by omega) (by have : off' + 8 ≤ 4096 := hy; omega)

/-- A proper place is not a pointer to a control block. -/
theorem home_apart_ptr (vc : VcpuAt) {x : Place} (hx : x.Proper) :
    Apart (at64 vc.gctx contextVmcbOff) 8 (x.home vc) 8 ∧ Apart (at64 vc.hctx contextVmcbOff) 8 (x.home vc) 8 := by
  obtain ⟨hgh, hgv, -, -, hhv, -⟩ := vc.apart_all
  cases x with
  | context r =>
    obtain ⟨hle, hlt⟩ := offsetofContext_le r
    have hlt' := hlt hx
    exact ⟨apart_same _ (Or.inl hle) (by decide) (by omega), apart_words hgh.symm (by decide) hlt'⟩
  | save off => exact ⟨apart_words hgv (by decide) hx, apart_words hhv (by decide) hx⟩

/-- While the pointer stays in place, assignments are stores to fixed addresses. -/
theorem assigns_eq : ∀ (l : List (Place × Word)) (m : Mem 64), (∀ x ∈ l, x.1.Proper) → vc.gvmcbPtr m = vc.gvmcb →
    l.foldl (fun m x => store64 m (x.1.addr vc m) x.2) m = storeAll 8 m (l.map fun x => (x.1.home vc, x.2)) := by
  intro l
  induction l with
  | nil => intro m _ _; rfl
  | cons x l ih =>
    intro m hp hptr
    have haddr : x.1.addr vc m = x.1.home vc := by
      unfold VcpuAt.Place.addr VcpuAt.Place.home
      cases x.1 with
      | context r => rfl
      | save off => rw [hptr]
    have hx := hp x List.mem_cons_self
    have hptr' : vc.gvmcbPtr (store64 m (x.1.home vc) x.2) = vc.gvmcb := by
      rw [← hptr]
      exact load64_store64_apart m x.2 (home_apart_ptr vc hx).1
    rw [List.foldl_cons, List.map_cons, storeAll_cons, haddr]
    exact ih _ (fun y hy => hp y (List.mem_cons_of_mem _ hy)) hptr'

/-- The places of the assignments; they do not depend on the values. -/
theorem setRegsAssigns_places (regs : Registers) :
    (setRegsAssigns regs).map Prod.fst =
      [.save saveRax, .context .rbx, .context .rcx, .context .rdx, .context .rdi, .context .rsi, .context .rbp,
        .save saveRsp, .context .r8, .context .r9, .context .r10, .context .r11, .context .r12, .context .r13,
        .context .r14, .context .r15, .save saveRip, .save saveCsBase, .save saveSsBase] := rfl

theorem setRegsAssigns_proper (regs : Registers) : ∀ x ∈ setRegsAssigns regs, x.1.Proper := by
  have h : ∀ p ∈ (setRegsAssigns regs).map Prod.fst, p.Proper := by
    rw [setRegsAssigns_places]
    decide
  exact fun x hx => h x.1 (List.mem_map_of_mem hx)

/-- No two assignments have the same place. -/
theorem setRegsAssigns_other (regs : Registers) : (setRegsAssigns regs).Pairwise fun x y => x.1.Other y.1 := by
  have h : ((setRegsAssigns regs).map Prod.fst).Pairwise VcpuAt.Place.Other := by
    rw [setRegsAssigns_places]
    decide
  exact List.pairwise_map.1 h

/-- `YAKVM_SET_REGS` as stores to fixed addresses. -/
theorem vcpuSetRegs_eq (regs : Registers) (hr : vc.Ready m) :
    vc.vcpuSetRegs regs m = storeAll 8 m ((setRegsAssigns regs).map fun x => (x.1.home vc, x.2)) :=
  assigns_eq _ m (setRegsAssigns_proper regs) hr.1

/-- Each assignment holds in the end. -/
theorem load64_setRegs {regs : Registers} {x : Place × Word} (hr : vc.Ready m) (hx : x ∈ setRegsAssigns regs) :
    load64 (vc.vcpuSetRegs regs m) (x.1.home vc) = x.2 := by
  have hproper := setRegsAssigns_proper regs
  have hpair : ((setRegsAssigns regs).map fun x => (x.1.home vc, x.2)).Pairwise fun x y => Apart x.1 8 y.1 8 := by
    rw [List.pairwise_map]
    exact (setRegsAssigns_other regs).imp_of_mem fun hx hy hxy => home_apart (hproper _ hx) (hproper _ hy) hxy
  rw [vcpuSetRegs_eq regs hr]
  exact load64_storeAll_mem hpair (List.mem_map.2 ⟨x, hx, rfl⟩) m

/-- **`YAKVM_SET_REGS`** overwrites the registers of the vcpu. -/
theorem vcpuSetRegs_spec (regs : Registers) (hr : vc.Ready m) :
    vc.Ready (vc.vcpuSetRegs regs m) ∧ vc.core (vc.vcpuSetRegs regs m) = regs.core := by
  have hproper := setRegsAssigns_proper regs
  have hset := vcpuSetRegs_eq regs hr
  refine ⟨⟨?_, ?_⟩, ?_⟩
  · rw [← hr.1, hset]
    apply load_storeAll_apart
    intro y hy
    obtain ⟨x, hx, rfl⟩ := List.mem_map.1 hy
    exact (home_apart_ptr vc (hproper x hx)).1
  · rw [← hr.2, hset]
    apply load_storeAll_apart
    intro y hy
    obtain ⟨x, hx, rfl⟩ := List.mem_map.1 hy
    exact (home_apart_ptr vc (hproper x hx)).2
  · apply Core.ext
    · funext r
      cases r
      case rax => exact load64_setRegs (x := (.save saveRax, regs.rax)) hr (by simp [setRegsAssigns])
      case rsp => exact load64_setRegs (x := (.save saveRsp, regs.rsp)) hr (by simp [setRegsAssigns])
      all_goals exact load64_setRegs (x := (.context _, regs.gpr _)) hr (by simp [setRegsAssigns, Registers.gpr])
    · exact load64_setRegs (x := (.save saveRip, regs.rip)) hr (by simp [setRegsAssigns])

end Copies

/-! ## The refinement -/

/-- The stack of a `YAKVM_RUN` is not in the vcpu. -/
def VcpuCall.Stacked (vc : VcpuAt) (call : VcpuCall) : Prop :=
  match call.cmd with
  | .run h _ => vc.Stacked h
  | _ => True

/-- A reply, as the register machine shows it. -/
def shownReply (r : ℤ × List Seen) : ℤ × List Shown := (r.1, r.2.map Seen.shown)

/-- **One request** on the vcpu is the request on the register machine. -/
theorem vcpuIoctl_refines {vc : VcpuAt} {call : VcpuCall} (hr : vc.Ready m) (hs : call.Stacked vc) :
    vc.Ready (vc.vcpuIoctl call m).2 ∧
    shownReply (vc.vcpuIoctl call m).1 = (Core.ioctl call (vc.core m)).1 ∧
    vc.core (vc.vcpuIoctl call m).2 = (Core.ioctl call (vc.core m)).2 := by
  obtain ⟨killed, cmd⟩ := call
  unfold VcpuAt.vcpuIoctl Core.ioctl
  cases killed with
  | true => exact ⟨hr, rfl, rfl⟩
  | false =>
    cases cmd with
    | run h g =>
      obtain ⟨hr', hcore, htrace⟩ := vcpuRun_spec (g := g) hr hs
      refine ⟨hr', ?_, hcore⟩
      simp only [Bool.false_eq_true, if_false, shownReply]
      rw [htrace]
      rfl
    | getRegs copied =>
      cases copied with
      | false => exact ⟨hr, rfl, rfl⟩
      | true =>
        refine ⟨hr, ?_, rfl⟩
        have hget := vcpuGetRegs_core hr
        simp only [Bool.false_eq_true, if_false, if_true, shownReply, List.map_cons, List.map_nil, Seen.shown, hget]
    | setRegs src =>
      cases src with
      | none => exact ⟨hr, rfl, rfl⟩
      | some regs =>
        obtain ⟨hr', hcore⟩ := vcpuSetRegs_spec regs hr
        exact ⟨hr', rfl, hcore⟩
    | unknown => exact ⟨hr, rfl, rfl⟩

/-- **A vcpu refines the register machine.** From any content of memory with the two pointers
in place, any sequence of requests is answered as by the machine: each `YAKVM_GET_REGS` shows
the machine's registers, and each guest receives them. -/
theorem vcpu_refines (vc : VcpuAt) (m : Mem 64) (calls : List VcpuCall) (hr : vc.Ready m)
    (hs : ∀ call ∈ calls, call.Stacked vc) :
    (vc.vcpuCalls calls m).1.map shownReply = (Core.calls calls (vc.core m)).1 ∧
    vc.core (vc.vcpuCalls calls m).2 = (Core.calls calls (vc.core m)).2 := by
  induction calls generalizing m with
  | nil => exact ⟨rfl, rfl⟩
  | cons call calls ih =>
    obtain ⟨hr', hreply, hcore⟩ := vcpuIoctl_refines hr (hs call List.mem_cons_self)
    obtain ⟨hreplies, hend⟩ := ih (vc.vcpuIoctl call m).2 hr' fun x hx => hs x (List.mem_cons_of_mem _ hx)
    unfold VcpuAt.vcpuCalls Core.calls
    rw [hcore] at hreplies hend
    exact ⟨congrArg₂ List.cons hreply hreplies, hend⟩

/-- A vcpu in the direct map. -/
def vcpuHere : VcpuAt where
  gctx := 0xffff888000001020
  hctx := 0xffff888000001098
  gvmcb := 0xffff888000002000
  hvmcb := 0xffff888000003000
  state := 0xffff888000004000
  apart := by decide

/-- A host with its stack elsewhere. -/
def hostHere : Host := ⟨fun _ => 0xffffc90000010000, fun _ => 0, 0xffffffff81000000⟩

/-- A guest that exchanges `rax` and `rbx`, and goes on by three bytes. -/
def swapGuest : GuestRun where
  regs c := ⟨fun
    | .rax => c.gpr .rbx
    | .rbx => c.gpr .rax
    | r => c.gpr r, c.rip + 3⟩
  area _ := 0
  sys _ := 0

def regsHere : Registers := ⟨1, 2, 3, 4, 5, 6, 7, 8, 9, 10, 11, 12, 13, 14, 15, 16, 0x1000, 0, 0⟩

/-- The requests `YAKVM_SET_REGS`, `YAKVM_RUN`, `YAKVM_GET_REGS`. -/
theorem vcpu_refines_swap :
    (vcpuHere.vcpuCalls [⟨false, .setRegs (some regsHere)⟩, ⟨false, .run hostHere swapGuest⟩, ⟨false, .getRegs true⟩]
      (vcpuHere.initPtrs fun _ => 0)).1.map shownReply =
    [(0, []), (0, [.entered regsHere.core]), (0, [.got (swapGuest.regs regsHere.core)])] := by
  have hstack : vcpuHere.Stacked hostHere := by decide
  refine (vcpu_refines vcpuHere _ _ (vcpuHere.initPtrs_ready _) ?_).1
  simp only [List.forall_mem_cons]
  exact ⟨trivial, hstack, trivial, by simp⟩

end Yakvm
