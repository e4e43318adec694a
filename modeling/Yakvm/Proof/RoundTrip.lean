import Yakvm.Proof.Switch

/-!
# Reading the registers and writing them back

`struct registers` has 16 bits for the bases of `cs` and `ss`, of which the control block has 64.
`getSetRegs_iff`: `YAKVM_GET_REGS` and then `YAKVM_SET_REGS` of the same buffer change nothing
exactly when both bases fit.
-/

namespace Yakvm

open Bytes

variable {m : Mem 64} {vc : VcpuAt} {off : ℕ}

open VcpuAt (Place setRegsAssigns)

/-- What a base is after a round trip: its low 16 bits. -/
def cut16 (base : Word) : Word := (base.setWidth 16).setWidth 64

theorem cut16_eq_iff (base : Word) : cut16 base = base ↔ base.toNat < 2 ^ 16 := by
  unfold cut16
  rw [← BitVec.toNat_inj, BitVec.toNat_setWidth, BitVec.toNat_setWidth]
  have hlt : base.toNat % 2 ^ 16 < 2 ^ 64 := by omega
  rw [Nat.mod_eq_of_lt hlt]
  constructor
  · intro h
    rw [← h]
    exact Nat.mod_lt _ (by decide)
  · exact Nat.mod_eq_of_lt

/-- The registers of the vcpu, as `YAKVM_SET_REGS` assigns them after `YAKVM_GET_REGS`. -/
theorem getRegs_assigns (hr : vc.Ready m) : ∀ x ∈ setRegsAssigns (vc.vcpuGetRegs m),
    x.2 = load64 m (x.1.home vc) ∨
      (x.1 = .save saveCsBase ∨ x.1 = .save saveSsBase) ∧ x.2 = cut16 (load64 m (x.1.home vc)) := by
  unfold VcpuAt.vcpuGetRegs
  rw [hr.1]
  unfold setRegsAssigns
  -- seventeen registers are copied whole
  iterate 17 refine List.forall_mem_cons.2 ⟨Or.inl rfl, ?_⟩
  refine List.forall_mem_cons.2 ⟨Or.inr ⟨Or.inl rfl, rfl⟩, ?_⟩
  refine List.forall_mem_cons.2 ⟨Or.inr ⟨Or.inr rfl, rfl⟩, ?_⟩
  simp

/-- A base after the round trip. -/
theorem setRegs_getRegs_base (hr : vc.Ready m) (hoff : off = saveCsBase ∨ off = saveSsBase) :
    load64 (vc.vcpuSetRegs (vc.vcpuGetRegs m) m) (at64 vc.gvmcb off) = cut16 (load64 m (at64 vc.gvmcb off)) := by
  have hget : ∀ off, load64 m (at64 (vc.gvmcbPtr m) off) = load64 m (at64 vc.gvmcb off) := fun off => by rw [hr.1]
  rcases hoff with rfl | rfl
  · rw [← hget]
    exact load64_setRegs hr (x := (.save saveCsBase, _)) (List.mem_of_getElem? (i := 17) rfl)
  · rw [← hget]
    exact load64_setRegs hr (x := (.save saveSsBase, _)) (List.mem_of_getElem? (i := 18) rfl)

/-- **When the round trip is the identity**: `YAKVM_GET_REGS` succeeds with some registers, and
`YAKVM_SET_REGS` of these leaves all memory as it was, exactly if the bases of `cs` and `ss` are
below `2^16`. -/
theorem getSetRegs_iff (vc : VcpuAt) (m : Mem 64) (hr : vc.Ready m) :
    ∃ regs, vc.vcpuIoctl ⟨false, .getRegs true⟩ m = ((0, [.got regs]), m) ∧
      (vc.vcpuIoctl ⟨false, .setRegs (some regs)⟩ m = ((0, []), m) ↔
        (load64 m (at64 vc.gvmcb saveCsBase)).toNat < 2 ^ 16 ∧ (load64 m (at64 vc.gvmcb saveSsBase)).toNat < 2 ^ 16) := by
  refine ⟨vc.vcpuGetRegs m, rfl, ?_⟩
  have hset : vc.vcpuIoctl ⟨false, .setRegs (some (vc.vcpuGetRegs m))⟩ m =
      ((0, []), vc.vcpuSetRegs (vc.vcpuGetRegs m) m) := rfl
  rw [hset, Prod.mk.injEq, ← cut16_eq_iff, ← cut16_eq_iff]
  constructor
  · rintro ⟨-, hm⟩
    have hcs := setRegs_getRegs_base hr (Or.inl rfl)
    have hss := setRegs_getRegs_base hr (Or.inr rfl)
    rw [hm] at hcs hss
    exact ⟨hcs.symm, hss.symm⟩
  · rintro ⟨hcs, hss⟩
    refine ⟨rfl, ?_⟩
    rw [vcpuSetRegs_eq _ hr]
    apply storeAll_load_same
    intro y hy
    obtain ⟨x, hx, rfl⟩ := List.mem_map.1 hy
    rcases getRegs_assigns hr x hx with h | ⟨h | h, h2⟩
    · exact h.symm
    · rw [h2, h]
      exact hcs.symm
    · rw [h2, h]
      exact hss.symm

/-- A vcpu whose bases fit. -/
theorem getSetRegs_small : ∃ regs, vcpuHere.vcpuIoctl ⟨false, .getRegs true⟩ (vcpuHere.initPtrs fun _ => 0) =
      ((0, [.got regs]), vcpuHere.initPtrs fun _ => 0) ∧
    vcpuHere.vcpuIoctl ⟨false, .setRegs (some regs)⟩ (vcpuHere.initPtrs fun _ => 0) =
      ((0, []), vcpuHere.initPtrs fun _ => 0) := by
  obtain ⟨regs, hget, hset⟩ := getSetRegs_iff vcpuHere (vcpuHere.initPtrs fun _ => 0) (vcpuHere.initPtrs_ready _)
  exact ⟨regs, hget, hset.2 (by decide +kernel)⟩

/-- A vcpu in the reset state: the base of `cs` is `0xffff0000`, and `0` after the round trip. -/
theorem getSetRegs_reset : ∃ regs,
    let m := store64 (vcpuHere.initPtrs fun _ => 0) (at64 vcpuHere.gvmcb saveCsBase) 0xffff0000
    vcpuHere.vcpuIoctl ⟨false, .getRegs true⟩ m = ((0, [.got regs]), m) ∧
    load64 m (at64 vcpuHere.gvmcb saveCsBase) = 0xffff0000 ∧
    load64 (vcpuHere.vcpuIoctl ⟨false, .setRegs (some regs)⟩ m).2 (at64 vcpuHere.gvmcb saveCsBase) = 0 := by
  set m := store64 (vcpuHere.initPtrs fun _ => 0) (at64 vcpuHere.gvmcb saveCsBase) 0xffff0000 with hm
  have hcs : load64 m (at64 vcpuHere.gvmcb saveCsBase) = 0xffff0000 := load64_store64_same _ _ _
  have hr : vcpuHere.Ready m := by decide +kernel
  refine ⟨vcpuHere.vcpuGetRegs m, rfl, hcs, ?_⟩
  have hbase := setRegs_getRegs_base hr (Or.inl rfl)
  rw [hcs] at hbase
  exact hbase.trans (by decide)

end Yakvm
