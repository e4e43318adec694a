import Yakvm.Proof.Switch
import Yakvm.Spec.Copy

/-!
# What a copy of the registers discloses

`struct registers` is 144 bytes long, of which its members take 140; `yakvm_vcpu_get_regs` copies
all of them from the stack.

* `getRegs_registers`: the members that userspace gets are those of `vcpuGetRegs`.
* `getRegs_same_iff`: two calls with the same registers give the same bytes exactly when the last
  four bytes of the local variable were the same before. These are what a guest's owner learns
  about the kernel's stack.
-/

namespace Yakvm

open Bytes VcpuAt

/-- A call of `yakvm_vcpu_get_regs`: a vcpu with its pointers in place, and a place on the stack
for the local variable. -/
structure GetRegsCall extends VcpuAt where
  mem : Mem 64
  regs : Word
  ready : toVcpuAt.Ready mem
  stacked : ∀ r ∈ toVcpuAddr.regions, Apart r.1 r.2 regs sizeofRegisters

variable {c d : GetRegsCall} {m : Mem 64} {x : Place} {i left : ℕ}

/-! ## The members -/

theorem registersLayout_inside : ∀ x ∈ registersLayout, 0 < x.2 ∧ x.1 + x.2 ≤ sizeofRegisters := by decide

theorem registersLayout_pairwise : registersLayout.Pairwise fun x y => x.1 + x.2 ≤ y.1 :=
  layout_pairwise (by decide)

/-- The padding of `struct registers`. -/
theorem registersLayout_uncovered (hi : i < sizeofRegisters) :
    (∀ x ∈ registersLayout, ¬(x.1 ≤ i ∧ i < x.1 + x.2)) ↔ 140 ≤ i := by
  have h : ∀ i < sizeofRegisters, (∀ x ∈ registersLayout, ¬(x.1 ≤ i ∧ i < x.1 + x.2)) ↔ 140 ≤ i := by decide
  exact h i hi

theorem getRegsPlaces_proper : ∀ x ∈ getRegsPlaces, x.Proper := by decide

namespace GetRegsCall

/-- What a place of the vcpu holds. -/
def value (c : GetRegsCall) (x : Place) : Word := load64 c.mem (x.home c.toVcpuAt)

/-- The assignment of a place to a member. -/
def field (c : GetRegsCall) (x : (ℕ × ℕ) × Place) : Field := ⟨x.1.1, x.1.2, (c.value x.2).setWidth (8 * x.1.2)⟩

def fields (c : GetRegsCall) : List Field := (registersLayout.zip getRegsPlaces).map c.field

/-- A place of the vcpu is not on the stack. -/
theorem home_apart (c : GetRegsCall) (hx : x.Proper) : Apart (x.home c.toVcpuAt) 8 c.regs sizeofRegisters := by
  have h := c.stacked
  simp only [VcpuAddr.regions, List.forall_mem_cons, sizeofContext] at h
  obtain ⟨hg, -, hv, -⟩ := h
  cases x with
  | context r => exact apart_word hg ((offsetofContext_le r).2 hx) (by decide)
  | save off => exact apart_word hv hx (by decide)

/-- While only the local variable changes, each place is read from where it is. -/
theorem read_place (h : Only [(c.regs, sizeofRegisters)] c.mem m) (hx : x.Proper) :
    load64 m (x.addr c.toVcpuAt m) = c.value x := by
  have hptr : c.gvmcbPtr m = c.gvmcb := by
    rw [← c.ready.1]
    apply load64_only h
    have hstack := c.stacked
    simp only [VcpuAddr.regions, List.forall_mem_cons, sizeofContext] at hstack
    simpa using apart_word (i := contextVmcbOff) hstack.1 (by decide) (by decide)
  have haddr : x.addr c.toVcpuAt m = x.home c.toVcpuAt := by
    unfold VcpuAt.Place.addr VcpuAt.Place.home
    cases x with
    | context r => rfl
    | save off => rw [hptr]
  rw [haddr]
  apply load64_only h
  simpa using c.home_apart hx

/-- The assignments are stores of the vcpu's registers to the members. -/
theorem getRegsLocal_eq (c : GetRegsCall) : c.getRegsLocal c.regs c.mem = storeFields c.mem c.regs c.fields := by
  have hstep : ∀ (l : List ((ℕ × ℕ) × Place)) (m : Mem 64), (∀ x ∈ l, x.1 ∈ registersLayout ∧ x.2 ∈ getRegsPlaces) →
      Only [(c.regs, sizeofRegisters)] c.mem m →
      l.foldl (fun m x => store m (at64 c.regs x.1.1) x.1.2 ((load64 m (x.2.addr c.toVcpuAt m)).setWidth (8 * x.1.2))) m =
        storeFields m c.regs (l.map c.field) := by
    intro l
    induction l with
    | nil => intro m _ _; rfl
    | cons x l ih =>
      intro m hl hm
      obtain ⟨hx, hplace⟩ := hl x List.mem_cons_self
      have hin := (registersLayout_inside x.1 hx).2
      rw [List.foldl_cons, List.map_cons, storeFields_cons, read_place hm (getRegsPlaces_proper _ hplace)]
      apply ih _ fun y hy => hl y (List.mem_cons_of_mem _ hy)
      intro y hy
      rw [store_only m _ (at64_inside c.regs hin) (by decide) y hy, hm y hy]
  exact hstep _ c.mem (fun x hx => ⟨(List.of_mem_zip hx).1, (List.of_mem_zip hx).2⟩) fun _ _ => rfl

/-- The members are in the structure, one after the other. -/
theorem fields_fits (c : GetRegsCall) : ∀ f ∈ c.fields, f.Fits 64 := by
  intro f hf
  obtain ⟨x, hx, rfl⟩ := List.mem_map.1 hf
  obtain ⟨hpos, hle⟩ := registersLayout_inside x.1 (List.of_mem_zip hx).1
  exact ⟨hpos, hle.trans (by decide)⟩

theorem fields_pairwise (c : GetRegsCall) : c.fields.Pairwise fun f g => f.off + f.size ≤ g.off := by
  have h : ((registersLayout.zip getRegsPlaces).map Prod.fst).Pairwise fun x y => x.1 + x.2 ≤ y.1 := by
    rw [List.map_fst_zip (by decide)]
    exact registersLayout_pairwise
  unfold fields
  rw [List.pairwise_map]
  exact List.pairwise_map.1 h

theorem fields_uncovered (c : GetRegsCall) (hi : i < sizeofRegisters) :
    (∀ f ∈ c.fields, ¬(f.off ≤ i ∧ i < f.off + f.size)) ↔ 140 ≤ i := by
  rw [← registersLayout_uncovered hi]
  have hplaces : registersLayout = (registersLayout.zip getRegsPlaces).map Prod.fst :=
    (List.map_fst_zip (by decide)).symm
  conv_rhs => rw [hplaces]
  unfold fields
  rw [List.forall_mem_map, List.forall_mem_map]
  rfl

/-- A member after the assignments. -/
theorem load_member (c : GetRegsCall) {k off n : ℕ} {x : Place}
    (hk : (registersLayout.zip getRegsPlaces)[k]? = some ((off, n), x)) :
    load (c.getRegsLocal c.regs c.mem) (at64 c.regs off) n = (c.value x).setWidth (8 * n) := by
  rw [getRegsLocal_eq]
  exact load_storeFields c.fields_fits c.fields_pairwise (f := c.field ((off, n), x))
    (List.mem_map_of_mem (List.mem_of_getElem? hk)) c.mem

theorem load64_member (c : GetRegsCall) {k off : ℕ} {x : Place}
    (hk : (registersLayout.zip getRegsPlaces)[k]? = some ((off, 8), x)) :
    load64 (c.getRegsLocal c.regs c.mem) (at64 c.regs off) = c.value x :=
  (c.load_member hk).trans (BitVec.setWidth_eq _)

/-- **The members** of the local variable are the registers of the vcpu. -/
theorem getRegs_registers (c : GetRegsCall) :
    registersAt (c.getRegsLocal c.regs c.mem) c.regs = c.vcpuGetRegs c.mem := by
  unfold registersAt vcpuGetRegs
  rw [c.ready.1, Registers.mk.injEq]
  refine ⟨c.load64_member (k := 0) (x := .save saveRax) rfl, c.load64_member (k := 1) (x := .context .rbx) rfl,
    c.load64_member (k := 2) (x := .context .rcx) rfl, c.load64_member (k := 3) (x := .context .rdx) rfl,
    c.load64_member (k := 4) (x := .context .rdi) rfl, c.load64_member (k := 5) (x := .context .rsi) rfl,
    c.load64_member (k := 6) (x := .context .rbp) rfl, c.load64_member (k := 7) (x := .save saveRsp) rfl,
    c.load64_member (k := 8) (x := .context .r8) rfl, c.load64_member (k := 9) (x := .context .r9) rfl,
    c.load64_member (k := 10) (x := .context .r10) rfl, c.load64_member (k := 11) (x := .context .r11) rfl,
    c.load64_member (k := 12) (x := .context .r12) rfl, c.load64_member (k := 13) (x := .context .r13) rfl,
    c.load64_member (k := 14) (x := .context .r14) rfl, c.load64_member (k := 15) (x := .context .r15) rfl,
    c.load64_member (k := 16) (x := .save saveRip) rfl, c.load_member (k := 17) (x := .save saveCsBase) rfl,
    c.load_member (k := 18) (x := .save saveSsBase) rfl⟩

/-! ## The padding -/

/-- The padding keeps what was on the stack. -/
theorem getRegsLocal_padding (c : GetRegsCall) (h : 140 ≤ i) (hi : i < sizeofRegisters) :
    c.getRegsLocal c.regs c.mem (at64 c.regs i) = c.mem (at64 c.regs i) := by
  have hlt : i < 2 ^ 64 := hi.trans (by decide)
  rw [getRegsLocal_eq, at64, storeFields_byte c.fields_fits c.regs hlt,
    fieldsByte_none_iff.2 ((c.fields_uncovered hi).2 h), Option.getD_none]

/-- The same registers, the same assignments. -/
theorem fields_congr (hcore : c.core c.mem = d.core d.mem)
    (hcs : load64 c.mem (at64 c.gvmcb saveCsBase) = load64 d.mem (at64 d.gvmcb saveCsBase))
    (hss : load64 c.mem (at64 c.gvmcb saveSsBase) = load64 d.mem (at64 d.gvmcb saveSsBase)) : c.fields = d.fields := by
  have hgpr : ∀ r, (c.core c.mem).gpr r = (d.core d.mem).gpr r := fun r => by rw [hcore]
  have hrip : (c.core c.mem).rip = (d.core d.mem).rip := by rw [hcore]
  have hvalue : ∀ x ∈ getRegsPlaces, c.value x = d.value x := by
    unfold getRegsPlaces
    simp only [List.forall_mem_cons]
    exact ⟨hgpr .rax, hgpr .rbx, hgpr .rcx, hgpr .rdx, hgpr .rdi, hgpr .rsi, hgpr .rbp, hgpr .rsp, hgpr .r8, hgpr .r9,
      hgpr .r10, hgpr .r11, hgpr .r12, hgpr .r13, hgpr .r14, hgpr .r15, hrip, hcs, hss, by simp⟩
  unfold fields
  apply List.map_congr_left
  intro x hx
  unfold field
  rw [hvalue x.2 (List.of_mem_zip hx).2]

end GetRegsCall

/-- **What `YAKVM_GET_REGS` discloses besides the registers.** Two calls on vcpus with the same
registers and bases return the same, and give userspace the same bytes, exactly when the stacks
agree in those of the last four bytes that are copied. -/
theorem getRegs_same_iff (c d : GetRegsCall) (left : ℕ) (hcore : c.core c.mem = d.core d.mem)
    (hcs : load64 c.mem (at64 c.gvmcb saveCsBase) = load64 d.mem (at64 d.gvmcb saveCsBase))
    (hss : load64 c.mem (at64 c.gvmcb saveSsBase) = load64 d.mem (at64 d.gvmcb saveSsBase)) :
    c.getRegsCopy c.regs left c.mem = d.getRegsCopy d.regs left d.mem ↔
      ∀ i, 140 ≤ i → i + left < 144 → c.mem (at64 c.regs i) = d.mem (at64 d.regs i) := by
  have hsize : sizeofRegisters = 144 := by decide
  have hfit : sizeofRegisters - left ≤ 2 ^ 64 := by omega
  unfold VcpuAt.getRegsCopy
  simp only [c.getRegsLocal_eq, d.getRegsLocal_eq, GetRegsCall.fields_congr hcore hcs hss, Prod.mk.injEq, true_and]
  rw [bytesAt_storeFields_iff d.fields_fits hfit]
  constructor
  · intro h i hge hlt
    exact h i (by omega) ((d.fields_uncovered (by omega)).2 hge)
  · intro h i hlt hout
    exact h i ((d.fields_uncovered (by omega)).1 hout) (by omega)

/-- A stack with the bytes `f` where the local variable will be. -/
def stackHere (f : ℕ → BitVec 8) : Mem 64 := fun x =>
  if (x - 0xffffc90000020000).toNat < sizeofRegisters then f (x - 0xffffc90000020000).toNat
  else vcpuHere.initPtrs (fun _ => 0) x

theorem stackHere_only (f : ℕ → BitVec 8) :
    Only [(0xffffc90000020000, sizeofRegisters)] (vcpuHere.initPtrs fun _ => 0) (stackHere f) := by
  intro x hx
  have hout : sizeofRegisters ≤ (x - 0xffffc90000020000).toNat := hx _ List.mem_cons_self
  unfold stackHere
  rw [if_neg (by omega)]

/-- A vcpu in the direct map, and that stack. -/
def getRegsHere (f : ℕ → BitVec 8) : GetRegsCall where
  toVcpuAt := vcpuHere
  mem := stackHere f
  regs := 0xffffc90000020000
  ready := by
    obtain ⟨hg, hh⟩ := vcpuHere.initPtrs_ready fun _ => 0
    exact ⟨(load64_only (stackHere_only f) (by decide)).trans hg, (load64_only (stackHere_only f) (by decide)).trans hh⟩
  stacked := by decide

theorem getRegsHere_at (f : ℕ → BitVec 8) (hi : i < sizeofRegisters) :
    (getRegsHere f).mem (at64 (getRegsHere f).regs i) = f i := by
  have hlt : i < 2 ^ 64 := hi.trans (by decide)
  show stackHere f (0xffffc90000020000 + BitVec.ofNat 64 i) = f i
  unfold stackHere
  rw [add_ofNat_sub _ hlt, if_pos hi]

/-- The registers do not depend on the stack. -/
theorem getRegsHere_value (f g : ℕ → BitVec 8) (hx : x.Proper) :
    (getRegsHere f).value x = (getRegsHere g).value x := by
  have hkeep : ∀ f, (getRegsHere f).value x = load64 (vcpuHere.initPtrs fun _ => 0) (x.home vcpuHere) := by
    intro f
    apply load64_only (stackHere_only f)
    intro r hr
    rw [List.mem_singleton.1 hr]
    exact (getRegsHere f).home_apart hx
  rw [hkeep f, hkeep g]

theorem getRegsHere_registers (f g : ℕ → BitVec 8) :
    (getRegsHere f).core (getRegsHere f).mem = (getRegsHere g).core (getRegsHere g).mem ∧
    (getRegsHere f).value (.save saveCsBase) = (getRegsHere g).value (.save saveCsBase) ∧
    (getRegsHere f).value (.save saveSsBase) = (getRegsHere g).value (.save saveSsBase) := by
  have hctx : ∀ r ∈ contextFields, (getRegsHere f).value (.context r) = (getRegsHere g).value (.context r) :=
    fun r hr => getRegsHere_value f g hr
  have hsave : ∀ off, off + 8 ≤ 4096 → (getRegsHere f).value (.save off) = (getRegsHere g).value (.save off) :=
    fun off hoff => getRegsHere_value f g hoff
  refine ⟨Core.ext ?_ ?_, hsave _ (by decide), hsave _ (by decide)⟩
  · funext r
    cases r
    case rax => exact hsave saveRax (by decide)
    case rsp => exact hsave saveRsp (by decide)
    all_goals exact hctx _ (by decide)
  · exact hsave saveRip (by decide)

/-- Stacks that differ everywhere but in the padding. -/
theorem getRegs_same_padding :
    (getRegsHere fun _ => 0).getRegsCopy 0xffffc90000020000 0 (stackHere fun _ => 0) =
      (getRegsHere fun i => if i < 140 then 0xff else 0).getRegsCopy 0xffffc90000020000 0
        (stackHere fun i => if i < 140 then 0xff else 0) := by
  obtain ⟨hcore, hcs, hss⟩ := getRegsHere_registers (fun _ => 0) fun i => if i < 140 then 0xff else 0
  refine (getRegs_same_iff (getRegsHere fun _ => 0) (getRegsHere fun i => if i < 140 then 0xff else 0) 0 hcore hcs hss).2 ?_
  intro i hge hlt
  have hi : i < sizeofRegisters := hlt
  rw [getRegsHere_at _ hi, getRegsHere_at _ hi, if_neg (by omega)]

/-- **Four bytes of the kernel's stack**: two calls on vcpus with the same registers, one with
zeros and one with `0xff` on the stack, give userspace different bytes. -/
theorem getRegs_discloses : ∃ c d : GetRegsCall, c.core c.mem = d.core d.mem ∧
    load64 c.mem (at64 c.gvmcb saveCsBase) = load64 d.mem (at64 d.gvmcb saveCsBase) ∧
    load64 c.mem (at64 c.gvmcb saveSsBase) = load64 d.mem (at64 d.gvmcb saveSsBase) ∧
    c.getRegsCopy c.regs 0 c.mem ≠ d.getRegsCopy d.regs 0 d.mem := by
  obtain ⟨hcore, hcs, hss⟩ := getRegsHere_registers (fun _ => 0) fun _ => 0xff
  refine ⟨getRegsHere fun _ => 0, getRegsHere fun _ => 0xff, hcore, hcs, hss, ?_⟩
  intro h
  have hin : 140 < sizeofRegisters := by decide
  have hbyte := bytesAt_eq_iff.1 (Prod.ext_iff.1 h).2 140 hin
  have hpad : ∀ f, (getRegsHere f).getRegsLocal (getRegsHere f).regs (getRegsHere f).mem
      (at64 (getRegsHere f).regs 140) = f 140 := fun f =>
    ((getRegsHere f).getRegsLocal_padding le_rfl hin).trans (getRegsHere_at f hin)
  have hzero : (0 : BitVec 8) = 0xff := (hpad fun _ => 0).symm.trans (hbyte.trans (hpad fun _ => 0xff))
  exact absurd hzero (by decide)

end Yakvm
