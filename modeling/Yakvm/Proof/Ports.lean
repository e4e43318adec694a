import Yakvm.Proof.Isolation
import Yakvm.Proof.Switch
import Yakvm.Spec.Ports

/-!
# Which port accesses exit

`yakvm_vcpu_init_vmcb` intercepts port accesses and sets one bit of the permission map, that of the
port of the emulated device. `portOutcome_calls`: whatever requests follow, exactly the accesses
that cover this port exit, and all others reach the host.
-/

namespace Yakvm

open Bytes

variable {m m' : Mem 64} {s s' : Phys} {f : Frame} {vc : Vcpu} {p : VcpuIo} {off : ℕ}

/-! ## What `yakvm_vcpu_init_vmcb` leaves -/

/-- The intercept of port accesses, the address of the permission map, and the map. -/
theorem vcpuInitVmcb_io {nasid asid asid' : BitVec 32} {ncr3 : Word} (hne : vc.gvmcb ≠ vc.iopm)
    (h : vcpuInitVmcb nasid vc ncr3 asid s = .ok (asid', s')) :
    (s'.mem vc.gvmcb 1).getLsbD 59 = true ∧ s'.mem vc.gvmcb iopmBasePa = pageToPhys vc.iopm ∧
      (∀ i, s'.mem vc.iopm i = if i = 0 then s.mem vc.iopm 0 ||| 1 else s.mem vc.iopm i) ∧
      ∀ f, f ≠ vc.gvmcb → f ≠ vc.iopm → s'.mem f = s.mem f := by
  have htouch : Touches [vc.gvmcb, vc.iopm] s s' := by
    rcases vcpuInitVmcb_spec nasid vc ncr3 asid s with hp | ⟨_, _, hok, ht, -⟩
    · rw [hp] at h; simp at h
    · rw [hok] at h
      obtain ⟨-, rfl⟩ := Prod.mk.inj (Except.ok.inj h)
      exact ht
  unfold vcpuInitVmcb at h
  simp only at h
  split at h
  swap
  · simp at h
  obtain ⟨-, rfl⟩ := Prod.mk.inj (Except.ok.inj h)
  unfold vmcbSetIntercept
  refine ⟨?_, ?_, ?_, fun f hg hi => htouch.mem f (by simp [hg, hi])⟩
  · -- the stores after `INTERCEPT_IOIO_PROT` are to other words
    have hslot : (1 : Slot) = BitVec.ofNat 9 (interceptIoioProt / 64) := by decide
    rw [hslot, Phys.store_ne _ _ (Or.inr (by decide)), Phys.setBit_first _ _ (by decide),
      Phys.store_ne _ _ (Or.inr (by decide)), Phys.store_ne _ _ (Or.inr (by decide)), Phys.store_ne _ _ (Or.inr (by decide)),
      Phys.store_ne _ _ (Or.inr (by decide)), Phys.setBit_first _ _ (by decide), Phys.store_ne _ _ (Or.inl hne),
      Phys.store_ne _ _ (Or.inr (by decide)), Phys.setBit_first _ _ (by decide), Phys.store_same]
    rw [BitVec.getLsbD_or, BitVec.getLsbD_twoPow]
    simp [interceptIoioProt]
  · rw [Phys.store_ne _ _ (Or.inr (by decide)), Phys.setBit_first _ _ (by decide),
      Phys.store_ne _ _ (Or.inr (by decide)), Phys.store_ne _ _ (Or.inr (by decide)), Phys.store_ne _ _ (Or.inr (by decide)),
      Phys.store_ne _ _ (Or.inr (by decide)), Phys.setBit_first _ _ (by decide), Phys.store_ne _ _ (Or.inl hne),
      Phys.store_same]
  · intro i
    have hother : ∀ (s : Phys) (j : Slot) (w : Word) (i : Slot), (s.store vc.gvmcb j w).mem vc.iopm i = s.mem vc.iopm i :=
      fun s j w i => Phys.store_ne s w (Or.inl hne.symm)
    have hsave : ∀ i, (s.storeAll vc.gvmcb vmcbSave).mem vc.iopm i = s.mem vc.iopm i := fun i => by
      rw [(Touches.storeAll (List.mem_singleton_self vc.gvmcb) vmcbSave s).mem vc.iopm (by simpa using hne.symm)]
    rw [hother, Phys.setBit_first _ _ (by decide), hother, hother, hother, hother, Phys.setBit_first _ _ (by decide)]
    have hzero : BitVec.ofNat 9 (pioHawk.toNat / 64) = (0 : Slot) := by decide
    rw [hzero]
    by_cases hi : i = 0
    · subst hi
      rw [Phys.store_same, if_pos rfl, hother, Phys.setBit_first _ _ (by decide), hother, Phys.setBit_first _ _ (by decide),
        hother, Phys.setBit_first _ _ (by decide), hother, hsave]
      rfl
    · rw [Phys.store_ne _ _ (Or.inr hi), if_neg hi, hother, Phys.setBit_first _ _ (by decide), hother,
        Phys.setBit_first _ _ (by decide), hother, Phys.setBit_first _ _ (by decide), hother, hsave]

/-! ## Pages by byte -/

theorem virtToPhys_physToVirt (pa : Word) : virtToPhys (physToVirt pa) = pa := BitVec.add_sub_cancel ..

theorem toNat_pageToPhys (f : Frame) : (pageToPhys f).toNat = f.toNat * 4096 := by
  have hf := f.isLt
  unfold pageToPhys pageShift
  rw [BitVec.toNat_shiftLeft, BitVec.toNat_setWidth, Nat.shiftLeft_eq]
  omega

/-- The direct map shows every page. -/
theorem bytes_shownAt (s : Phys) (f : Frame) : s.ShownAt f s.bytes := by
  intro off hoff
  have hf := f.isLt
  have hpa : virtToPhys (at64 (pageAddress f) off) = at64 (pageToPhys f) off := by
    unfold at64 pageAddress
    rw [show physToVirt (pageToPhys f) + BitVec.ofNat 64 off = physToVirt (pageToPhys f + BitVec.ofNat 64 off) by
      unfold physToVirt; rw [BitVec.add_assoc, BitVec.add_comm pageOffset, ← BitVec.add_assoc]]
    exact virtToPhys_physToVirt _
  have hnat : (at64 (pageToPhys f) off).toNat = f.toNat * 4096 + off := by
    unfold at64
    rw [BitVec.toNat_add, toNat_pageToPhys, BitVec.toNat_ofNat]
    omega
  unfold Phys.bytes
  simp only [hpa]
  have hframe : (at64 (pageToPhys f) off).extractLsb' 12 40 = f := by
    apply BitVec.eq_of_toNat_eq
    rw [BitVec.extractLsb'_toNat, hnat, Nat.shiftRight_eq_div_pow]
    omega
  rw [hframe, hnat, show (f.toNat * 4096 + off) % 4096 = off by omega]

/-- A bit of a page. -/
theorem bitAt_shown (h : s.ShownAt f m) {bit : ℕ} (hb : bit < 32768) :
    bitAt m (pageAddress f) bit = (s.mem f (BitVec.ofNat 9 (bit / 64))).getLsbD (bit % 64) := by
  unfold bitAt
  rw [h (bit / 8) (by omega)]
  unfold Phys.byte
  rw [BitVec.getLsbD_extractLsb', show bit / 8 / 8 = bit / 64 by omega, show 8 * (bit / 8 % 8) + bit % 8 = bit % 64 by omega]
  simp [Nat.mod_lt]

/-- A word of a page. -/
theorem load64_shown (h : s.ShownAt f m) {i : ℕ} (hi : i < 512) :
    load64 m (at64 (pageAddress f) (8 * i)) = s.mem f (BitVec.ofNat 9 i) := by
  apply BitVec.eq_of_getLsbD_eq
  intro j hj
  unfold load64
  rw [getLsbD_load m 8 _ j hj]
  have haddr : at64 (pageAddress f) (8 * i) + BitVec.ofNat 64 (j / 8) = at64 (pageAddress f) (8 * i + j / 8) := by
    unfold at64
    rw [BitVec.add_assoc, BitVec.ofNat_add]
  rw [haddr, h _ (by omega)]
  unfold Phys.byte
  rw [BitVec.getLsbD_extractLsb', show (8 * i + j / 8) / 8 = i by omega, show 8 * ((8 * i + j / 8) % 8) + j % 8 = j by omega]
  simp [Nat.mod_lt]

/-- The pages of an aligned block follow each other. -/
theorem pageAddress_add {j : ℕ} (ha : f.toNat % 4 = 0) (hj : j < 4) :
    pageAddress (f + BitVec.ofNat 40 j) = at64 (pageAddress f) (4096 * j) := by
  have hf := f.isLt
  have hadd : (f + BitVec.ofNat 40 j).toNat = f.toNat + j := by
    rw [BitVec.toNat_add, BitVec.toNat_ofNat]
    omega
  have hphys : pageToPhys (f + BitVec.ofNat 40 j) = pageToPhys f + BitVec.ofNat 64 (4096 * j) := by
    apply BitVec.eq_of_toNat_eq
    rw [toNat_pageToPhys, hadd, BitVec.toNat_add, toNat_pageToPhys, BitVec.toNat_ofNat]
    omega
  unfold pageAddress at64 physToVirt
  rw [hphys, BitVec.add_assoc, BitVec.add_assoc, BitVec.add_comm pageOffset]

/-! ## What the requests write -/

theorem byte_offset (b : Word) {i j k : ℕ} (h : i < j ∨ j + k ≤ i) (hk : 0 < k) (hi : i ≤ 4096) (hj : j + k ≤ 4096) :
    k ≤ (at64 b i - at64 b j).toNat := by
  rcases h with h | h
  · exact (apart_offsets b Nat.one_pos (by omega) hk (by omega)).2
  · exact (apart_offsets (n := k) (k := 1) b hk h Nat.one_pos (by omega)).1

/-- What an exit leaves in the control area. -/
theorem svmExit_control (m : Mem 64) (vmcb : Word) (g : GuestRun) (out : Core) (hoff : off < 0x400) :
    svmExit m vmcb g out (at64 vmcb off) = g.area off := by
  have hsave : ∀ {f : ℕ}, 0x400 ≤ f → f + 8 ≤ 4096 → 8 ≤ (at64 vmcb off - at64 vmcb f).toNat := fun hf hf' =>
    byte_offset vmcb (Or.inl (by omega)) (by decide) (by omega) (by omega)
  have hfields : ∀ f ∈ svmFields, 0x400 ≤ f ∧ f + 8 ≤ 4096 := by decide
  unfold svmExit Cpu.exitMem
  rw [storeAll_other, storeAll_other]
  · have hin : (at64 vmcb off - vmcb).toNat = off := add_ofNat_sub vmcb (by omega)
    simp only [hin]
    exact if_pos (by omega)
  · simp only [List.forall_mem_cons]
    exact ⟨hsave (by decide) (by decide), hsave (by decide) (by decide), hsave (by decide) (by decide), by simp⟩
  · intro y hy
    obtain ⟨f, hf, rfl⟩ := List.mem_map.1 hy
    exact hsave (hfields f hf).1 (hfields f hf).2

/-- What a `YAKVM_RUN` writes, before and after the exit. -/
theorem vcpuRun_writes {vc : VcpuAt} {h : Host} {g : GuestRun} (hr : vc.Ready m) (hs : vc.Stacked h) : ∃ m₁ out,
    Only [(vc.hvmcb, 4096), (h.stack, 32)] m m₁ ∧
    Only [(at64 vc.hctx 8, 112), (h.stack, 24), (at64 vc.gctx 8, 112), (vc.state, 40), (vc.state, 40), (vc.state, 40),
      (vc.state, 40), (vc.state, 40)] (svmExit m₁ vc.gvmcb g out) (vc.vcpuRun h g m).1 := by
  obtain ⟨hrdi, hrsi, hrdx, hrsp, honly, -⟩ := call_spec (h := h) hr
  have hvirt : physToVirt ((vc.call h m).gpr .rdx) = vc.gvmcb := by rw [hrdx, physToVirt_virtToPhys]
  obtain ⟨entered, -, -, -, -, -, hcode, -⟩ :=
    exec_vcpuRunCode (g := g) (p := vc.ranges h hs) hrdi hrsi hvirt hrsp
  exact ⟨_, _, honly, hcode.trans (shareErrToUser_only vc _)⟩

/-- The bytes that decide on port accesses: the control block up to the address space identifier,
and the permission map. -/
structure SamePorts (p : VcpuIo) (m m' : Mem 64) : Prop where
  control : ∀ off < 0x58, m' (at64 p.gvmcb off) = m (at64 p.gvmcb off)
  iopm : ∀ off < 16384, m' (at64 p.iopm off) = m (at64 p.iopm off)

theorem SamePorts.refl (p : VcpuIo) (m : Mem 64) : SamePorts p m m := ⟨fun _ _ => rfl, fun _ _ => rfl⟩

theorem SamePorts.trans {m'' : Mem 64} (h : SamePorts p m m') (h' : SamePorts p m' m'') : SamePorts p m m'' :=
  ⟨fun off ho => (h'.control off ho).trans (h.control off ho), fun off ho => (h'.iopm off ho).trans (h.iopm off ho)⟩

/-- The permission map is apart from the parts of the vcpu. -/
theorem VcpuIo.apart_iopm (p : VcpuIo) : Apart p.iopm 16384 p.gctx 120 ∧ Apart p.iopm 16384 p.hctx 120 ∧
    Apart p.iopm 16384 p.gvmcb 4096 ∧ Apart p.iopm 16384 p.hvmcb 4096 ∧ Apart p.iopm 16384 p.state 40 := by
  have h := p.iopm_apart
  simp only [VcpuAddr.regions, List.forall_mem_cons, sizeofContext] at h
  exact ⟨h.1, h.2.1, h.2.2.1, h.2.2.2.1, h.2.2.2.2.1⟩

theorem vcpuRun_samePorts {h : Host} {g : GuestRun} (hr : p.Ready m) (hf : p.Fair m ⟨false, .run h g⟩) :
    SamePorts p m (p.vcpuRun h g m).1 := by
  obtain ⟨hs, his, hkeep⟩ := hf
  obtain ⟨m₁, out, h₁, h₂⟩ := vcpuRun_writes (g := g) hr hs
  obtain ⟨-, hgv, -, -, hhv, -, -, hvw, hvs⟩ := p.apart_all
  obtain ⟨-, -, hvk, -⟩ := VcpuAt.Stacked.all hs
  obtain ⟨hig, hih, hiv, hiw, hit⟩ := p.apart_iopm
  refine ⟨?_, ?_⟩
  · intro off hoff
    have hbyte : ∀ {b : Word} {k : ℕ}, Apart p.gvmcb 4096 b k → k ≤ (at64 p.gvmcb off - b).toNat := fun hb =>
      hb.byte (by omega)
    rw [h₂, svmExit_control _ _ _ _ (by omega), hkeep off hoff]
    simp only [List.forall_mem_cons]
    exact ⟨hbyte (apart_slots hhv.symm (by decide)), hbyte (apart_pushed hvk (by decide)),
      hbyte (apart_slots hgv.symm (by decide)), hbyte hvs, hbyte hvs, hbyte hvs, hbyte hvs, hbyte hvs, by simp⟩
  · intro off hoff
    have hbyte : ∀ {b : Word} {k : ℕ}, Apart p.iopm 16384 b k → k ≤ (at64 p.iopm off - b).toNat := fun hb => hb.byte hoff
    rw [h₂, svmExit_only _ _ _ _ _ (by simpa using hbyte hiv), h₁]
    · simpa using ⟨hbyte hiw, hbyte his⟩
    · simp only [List.forall_mem_cons]
      exact ⟨hbyte (apart_slots hih (by decide)), hbyte (apart_pushed his (by decide)),
        hbyte (apart_slots hig (by decide)), hbyte hit, hbyte hit, hbyte hit, hbyte hit, hbyte hit, by simp⟩

/-- The place is not in the control area. -/
def VcpuAt.Place.Saved : VcpuAt.Place → Prop
  | .context r => r ∈ contextFields
  | .save off => 0x400 ≤ off ∧ off + 8 ≤ 4096

instance : DecidablePred VcpuAt.Place.Saved
  | .context r => inferInstanceAs (Decidable (r ∈ contextFields))
  | .save off => inferInstanceAs (Decidable (0x400 ≤ off ∧ off + 8 ≤ 4096))

theorem vcpuSetRegs_samePorts (regs : Registers) (hr : p.Ready m) : SamePorts p m (p.vcpuSetRegs regs m) := by
  have hsaved : ∀ x ∈ VcpuAt.setRegsAssigns regs, x.1.Saved := by
    have h : ∀ pl ∈ (VcpuAt.setRegsAssigns regs).map Prod.fst, pl.Saved := by
      rw [setRegsAssigns_places]
      decide
    exact fun x hx => h x.1 (List.mem_map_of_mem hx)
  obtain ⟨-, hgv, -⟩ := p.apart_all
  obtain ⟨hig, -, hiv, -⟩ := p.apart_iopm
  rw [vcpuSetRegs_eq regs hr]
  refine ⟨?_, ?_⟩
  · intro off hoff
    apply storeAll_other
    intro y hy
    obtain ⟨⟨pl, v⟩, hx, rfl⟩ := List.mem_map.1 hy
    have hpl := hsaved _ hx
    cases pl with
    | context r =>
      have hin := (offsetofContext_le r).2 hpl
      exact (hgv.symm.inside (n := 1) Nat.one_pos (at64_inside _ (by omega)) (by decide) (at64_inside _ hin)).2
    | save off' =>
      obtain ⟨hlo, hhi⟩ := hpl
      exact byte_offset p.gvmcb (Or.inl (by omega)) (by decide) (by omega) hhi
  · intro off hoff
    apply storeAll_other
    intro y hy
    obtain ⟨⟨pl, v⟩, hx, rfl⟩ := List.mem_map.1 hy
    have hpl := hsaved _ hx
    cases pl with
    | context r =>
      have hin := (offsetofContext_le r).2 hpl
      exact (hig.inside (n := 1) Nat.one_pos (at64_inside _ (by omega)) (by decide) (at64_inside _ hin)).2
    | save off' =>
      exact (hiv.inside (n := 1) Nat.one_pos (at64_inside _ (by omega)) (by decide) (at64_inside _ hpl.2)).2

/-- **One request** leaves the bytes that decide on port accesses alone. -/
theorem vcpuIoctl_samePorts {call : VcpuCall} (hr : p.Ready m) (hf : p.Fair m call) :
    p.Ready (p.vcpuIoctl call m).2 ∧ SamePorts p m (p.vcpuIoctl call m).2 := by
  have hstack : call.Stacked p.toVcpuAt := by
    unfold VcpuCall.Stacked
    unfold VcpuIo.Fair at hf
    split
    · rename_i h g hcmd
      rw [hcmd] at hf
      exact hf.1
    · trivial
  refine ⟨(vcpuIoctl_refines hr hstack).1, ?_⟩
  obtain ⟨killed, cmd⟩ := call
  unfold VcpuAt.vcpuIoctl
  cases killed with
  | true => exact .refl p m
  | false =>
    cases cmd with
    | run h g => exact vcpuRun_samePorts hr hf
    | getRegs copied => cases copied <;> exact .refl p m
    | setRegs src =>
      cases src with
      | none => exact .refl p m
      | some regs => exact vcpuSetRegs_samePorts regs hr
    | unknown => exact .refl p m

/-- A sequence of requests. -/
theorem vcpuCalls_samePorts : ∀ (calls : List VcpuCall) (m : Mem 64), p.Ready m → p.FairAll calls m →
    SamePorts p m (p.vcpuCalls calls m).2 := by
  intro calls
  induction calls with
  | nil => intro m _ _; exact .refl p m
  | cons call calls ih =>
    intro m hr hf
    obtain ⟨hcall, hrest⟩ := hf
    obtain ⟨hr', hsame⟩ := vcpuIoctl_samePorts hr hcall
    exact hsame.trans (ih _ hr' hrest)

/-! ## The outcome -/

/-- The vcpu that `yakvm_create_vcpu` has returned, in memory: its pages are in the direct map, and
the pointers to the control blocks are set. -/
structure VcpuIo.Made (p : VcpuIo) (vc : Vcpu) (s : Phys) (m : Mem 64) : Prop where
  gvmcb : p.gvmcb = pageAddress vc.gvmcb
  hvmcb : p.hvmcb = pageAddress vc.hvmcb
  state : p.state = pageAddress vc.state
  iopm : p.iopm = pageAddress vc.iopm
  shown : ∀ f ∈ vc.pages, s.ShownAt f m
  ready : p.Ready m

theorem mem_block {f : Frame} {order j : ℕ} (hj : j < 2 ^ order) : f + BitVec.ofNat 40 j ∈ block f order :=
  List.mem_map.2 ⟨j, List.mem_range.2 hj, rfl⟩

/-- The bits of the permission map. -/
theorem bitAt_iopm {base : Frame} (ha : base.toNat % 4 = 0) (hshown : ∀ f ∈ block base iopmOrder, s.ShownAt f m)
    (hfirst : ∀ i, s.mem base i = if i = 0 then 1 else 0) (hrest : ∀ f ∈ block base iopmOrder, f ≠ base → s.mem f = 0)
    {bit : ℕ} (hb : bit < 131072) : bitAt m (pageAddress base) bit = true ↔ bit = pioHawk.toNat := by
  have hawk : pioHawk.toNat = 0 := by decide
  obtain ⟨j, hj, r, hr, rfl⟩ : ∃ j < 4, ∃ r < 32768, bit = 32768 * j + r :=
    ⟨bit / 32768, by omega, bit % 32768, by omega, by omega⟩
  have hpage : bitAt m (pageAddress base) (32768 * j + r) = bitAt m (pageAddress (base + BitVec.ofNat 40 j)) r := by
    unfold bitAt
    rw [pageAddress_add ha hj]
    have haddr : at64 (pageAddress base) ((32768 * j + r) / 8) = at64 (at64 (pageAddress base) (4096 * j)) (r / 8) := by
      unfold at64
      rw [BitVec.add_assoc, ← BitVec.ofNat_add, show (32768 * j + r) / 8 = 4096 * j + r / 8 by omega]
    rw [haddr, show (32768 * j + r) % 8 = r % 8 by omega]
  have hmem : base + BitVec.ofNat 40 j ∈ block base iopmOrder := mem_block hj
  rw [hpage, bitAt_shown (hshown _ hmem) hr, hawk]
  -- the bit is in a word that is zero, unless it is in the first one
  have hnone : ∀ w : Word, w = 0 → (w.getLsbD (r % 64) = true ↔ False) := by
    rintro w rfl
    simp
  by_cases h0 : j = 0
  · subst h0
    rw [BitVec.add_zero]
    by_cases hslot : r / 64 = 0
    · have hword : s.mem base (BitVec.ofNat 9 (r / 64)) = 1#64 := by
        rw [hfirst, hslot]
        rfl
      have hmod : r % 64 = r := by omega
      rw [hword, hmod, BitVec.getLsbD_one]
      simp only [Nat.reduceLT, decide_true, Bool.true_and, decide_eq_true_iff]
      omega
    · have hne : BitVec.ofNat 9 (r / 64) ≠ (0 : Slot) := by
        intro h
        have hnat : (BitVec.ofNat 9 (r / 64)).toNat = 0 := by rw [h]; rfl
        rw [BitVec.toNat_ofNat] at hnat
        omega
      rw [hnone _ (by rw [hfirst, if_neg hne]), false_iff]
      omega
  · have hne : base + BitVec.ofNat 40 j ≠ base := by
      intro h
      have := congrArg BitVec.toNat h
      rw [BitVec.toNat_add, BitVec.toNat_ofNat] at this
      have := base.isLt
      omega
    rw [hnone _ (by rw [hrest _ hmem hne]; rfl), false_iff]
    omega

/-- The access covers the port of the emulated device. -/
def PortAccess.Covers (x : PortAccess) (port : BitVec 16) : Prop :=
  x.port.toNat ≤ port.toNat ∧ port.toNat < x.port.toNat + x.size

instance (x : PortAccess) (port : BitVec 16) : Decidable (x.Covers port) := inferInstanceAs (Decidable (_ ∧ _))

theorem portOutcome_samePorts (h : SamePorts p m m') (hptr : physToVirt (load64 m (at64 p.gvmcb controlIopmBasePa)) = p.iopm)
    (x : PortAccess) : portOutcome m' p.gvmcb x = portOutcome m p.gvmcb x := by
  have hbase : load64 m' (at64 p.gvmcb controlIopmBasePa) = load64 m (at64 p.gvmcb controlIopmBasePa) := by
    apply load_congr
    intro i hi
    have haddr : at64 p.gvmcb controlIopmBasePa + BitVec.ofNat 64 i = at64 p.gvmcb (controlIopmBasePa + i) := by
      unfold at64
      rw [BitVec.add_assoc, BitVec.ofNat_add]
    rw [haddr]
    exact h.control _ (by unfold controlIopmBasePa; omega)
  have hprot : bitAt m' p.gvmcb interceptIoioProt = bitAt m p.gvmcb interceptIoioProt := by
    unfold bitAt
    rw [h.control _ (by decide)]
  have hsize : x.size ≤ 4 := by
    have := x.size_mem
    simp only [List.mem_cons, List.not_mem_nil, or_false] at this
    omega
  have hport := x.port.isLt
  have hbit : ∀ i < x.size, bitAt m' p.iopm (x.port.toNat + i) = bitAt m p.iopm (x.port.toNat + i) := by
    intro i hi
    unfold bitAt
    rw [h.iopm _ (by omega)]
  unfold portOutcome
  simp only [hbase, hptr, hprot]
  congr 1
  rw [eq_iff_iff]
  exact and_congr_right fun _ => ⟨fun ⟨i, hi, hs⟩ => ⟨i, hi, by rwa [← hbit i hi]⟩, fun ⟨i, hi, hs⟩ => ⟨i, hi, by rwa [hbit i hi]⟩⟩

/-- A vcpu when it has just been made. -/
theorem portOutcome_made {nasid : BitVec 32} {a : VcpuAsk} {vm c : ℕ} {k k' : Kernel}
    (hc : createVcpu nasid a vm k = .ok (.ok c, k')) (hvc : k'.vcpus c = some vc) (hm : p.Made vc k'.phys m)
    (x : PortAccess) : physToVirt (load64 m (at64 p.gvmcb controlIopmBasePa)) = p.iopm ∧
      portOutcome m p.gvmcb x = if x.Covers pioHawk then .exit else .host := by
  obtain ⟨vc', ncr3, s, asid, hvc', hnodup, halign, hgzero, hizero, hinit, -⟩ := createVcpu_returned hc
  rw [hvc', Function.update_self] at hvc
  obtain rfl := (Option.some.inj hvc).symm
  -- the control block is no page of the permission map
  have hapart : ∀ f ∈ block vc.iopm iopmOrder, f ≠ vc.gvmcb := by
    have hperm := vc.pages_perm.nodup_iff.2 hnodup
    rw [List.nodup_append] at hperm
    exact fun f hf => hperm.2.2 f hf vc.gvmcb (by simp)
  have hfirst : vc.iopm ∈ block vc.iopm iopmOrder := by
    have hzero : vc.iopm + BitVec.ofNat 40 0 ∈ block vc.iopm iopmOrder := mem_block (by decide)
    rwa [BitVec.add_zero] at hzero
  obtain ⟨hprot, hbase, hmap, hother⟩ := vcpuInitVmcb_io (Ne.symm (hapart _ hfirst)) hinit
  have hshown : ∀ f ∈ block vc.iopm iopmOrder, k'.phys.ShownAt f m := fun f hf =>
    hm.shown f (vc.pages_perm.mem_iff.1 (List.mem_append_left _ hf))
  have hbits : ∀ bit < 131072, (bitAt m p.iopm bit = true ↔ bit = pioHawk.toNat) := by
    intro bit hb
    rw [hm.iopm]
    refine bitAt_iopm halign hshown ?_ ?_ hb
    · intro i
      rw [hmap i, hizero _ hfirst]
      rfl
    · intro f hf hne
      rw [hother f (hapart f hf) hne, hizero f hf]
  have hgshown := hm.shown vc.gvmcb vc.gvmcb_mem
  have hload : load64 m (at64 p.gvmcb controlIopmBasePa) = pageToPhys vc.iopm := by
    rw [hm.gvmcb, ← hbase]
    exact load64_shown (i := 8) hgshown (by decide)
  have hptr : physToVirt (load64 m (at64 p.gvmcb controlIopmBasePa)) = p.iopm := by rw [hload, hm.iopm]; rfl
  have hioio : bitAt m p.gvmcb interceptIoioProt = true := by
    rw [hm.gvmcb, bitAt_shown hgshown (by decide)]
    exact hprot
  refine ⟨hptr, ?_⟩
  have hport := x.port.isLt
  have hsize : x.size ≤ 4 := by
    have := x.size_mem
    simp only [List.mem_cons, List.not_mem_nil, or_false] at this
    omega
  unfold portOutcome
  simp only [hptr, hioio, true_and]
  congr 1
  rw [eq_iff_iff]
  unfold PortAccess.Covers
  constructor
  · rintro ⟨i, hi, hbit⟩
    have := (hbits _ (by omega)).1 hbit
    omega
  · rintro ⟨hle, hlt⟩
    exact ⟨pioHawk.toNat - x.port.toNat, by omega, (hbits _ (by omega)).2 (by omega)⟩

/-- A kernel with a vm and free pages. -/
def kernelHere : Kernel where
  phys := ⟨fun _ _ => 0, {1, 2, 3, 4, 5}, {0, 1}, 2⟩
  vms := Function.update (fun _ => none) 0 (some ⟨0x1000, 1, none, 1⟩)
  vmms := Function.update (fun _ => none) 1 (some ⟨pageToPhys 1⟩)
  vcpus := fun _ => none
  asid := 1

/-- Where the vcpu is that it creates. -/
def ioHere : VcpuIo where
  gctx := 0xffff888000020020
  hctx := 0xffff888000020098
  gvmcb := 0xffff888000007000
  hvmcb := 0xffff888000008000
  state := 0xffff88800000a000
  apart := by decide
  iopm := 0xffff88800000c000
  iopm_apart := by decide

def ioVcpu : Vcpu := ⟨7, 8, 9, 12, 10, 0⟩

theorem ioHere_made : ∃ k', createVcpu 16 vcpuAsk 0 kernelHere = .ok (.ok 2, k') ∧ k'.vcpus 2 = some ioVcpu ∧
    ioHere.Made ioVcpu k'.phys (ioHere.initPtrs k'.phys.bytes) := by
  have hasid : kernelHere.asid + 1 < (16 : BitVec 32) := by decide
  have hv : kernelHere.vms 0 = some ⟨0x1000, 1, none, 1⟩ := rfl
  have hm : kernelHere.vmms 1 = some ⟨pageToPhys 1⟩ := rfl
  obtain ⟨k', hc, hvc⟩ := createVcpu_returns hv hm (by simp [kernelHere]) hasid
  refine ⟨k', hc, hvc, by decide, by decide, by decide, by decide, ?_, ioHere.initPtrs_ready _⟩
  -- the pointers are in none of the pages
  have hpages : ioVcpu.pages.map pageAddress = [0xffff88800000a000, 0xffff88800000c000, 0xffff88800000d000,
      0xffff88800000e000, 0xffff88800000f000, 0xffff888000009000, 0xffff888000008000, 0xffff888000007000] := by decide
  have hapart : ∀ a ∈ ioVcpu.pages.map pageAddress, Apart a 4096 (at64 ioHere.gctx contextVmcbOff) 8 ∧
      Apart a 4096 (at64 ioHere.hctx contextVmcbOff) 8 := by
    rw [hpages]
    simp only [List.forall_mem_cons]
    refine ⟨⟨?_, ?_⟩, ⟨?_, ?_⟩, ⟨?_, ?_⟩, ⟨?_, ?_⟩, ⟨?_, ?_⟩, ⟨?_, ?_⟩, ⟨?_, ?_⟩, ⟨?_, ?_⟩, by simp⟩ <;> decide
  intro f hf off hoff
  obtain ⟨hg, hh⟩ := hapart _ (List.mem_map_of_mem hf)
  rw [← bytes_shownAt k'.phys f off hoff]
  exact (store_other (k := 8) _ _ (hh.byte hoff)).trans (store_other (k := 8) _ _ (hg.byte hoff))

/-- A guest's access to port `0x70`, of one byte. -/
def cmosAccess : PortAccess := ⟨0x70, 1, by decide⟩

/-- It reaches the host. -/
theorem portOutcome_cmos : ∃ k', createVcpu 16 vcpuAsk 0 kernelHere = .ok (.ok 2, k') ∧ k'.vcpus 2 = some ioVcpu ∧
    ioHere.Made ioVcpu k'.phys (ioHere.initPtrs k'.phys.bytes) ∧
    portOutcome (ioHere.initPtrs k'.phys.bytes) ioHere.gvmcb cmosAccess = .host := by
  obtain ⟨k', hc, hvc, hm⟩ := ioHere_made
  exact ⟨k', hc, hvc, hm, (portOutcome_made hc hvc hm cmosAccess).2.trans (by decide)⟩

/-- **Which port accesses exit**: for a vcpu that `yakvm_create_vcpu` has returned, after any
sequence of requests, exactly those that cover the port of the emulated device; every other access
reaches the ports of the host. -/
theorem portOutcome_calls {nasid : BitVec 32} {a : VcpuAsk} {vm c : ℕ} {k k' : Kernel}
    (hc : createVcpu nasid a vm k = .ok (.ok c, k')) (hvc : k'.vcpus c = some vc) (hm : p.Made vc k'.phys m)
    {calls : List VcpuCall} (hf : p.FairAll calls m) (x : PortAccess) :
    portOutcome (p.vcpuCalls calls m).2 p.gvmcb x = if x.Covers pioHawk then .exit else .host := by
  obtain ⟨hptr, hmade⟩ := portOutcome_made hc hvc hm x
  rw [portOutcome_samePorts (vcpuCalls_samePorts calls m hm.ready hf) hptr x, hmade]

/-- A guest whose exit leaves the control area as it is in `m`. -/
def quietGuest (m : Mem 64) : GuestRun := ⟨fun c => c, fun off => m (at64 ioHere.gvmcb off), fun _ => 0⟩

/-- After a `YAKVM_SET_REGS` and a `YAKVM_RUN`, an access of two bytes at port 0 exits. -/
theorem portOutcome_run : ∃ k' m, createVcpu 16 vcpuAsk 0 kernelHere = .ok (.ok 2, k') ∧
    portOutcome (ioHere.vcpuCalls [⟨false, .setRegs (some regsHere)⟩, ⟨false, .run hostHere (quietGuest m)⟩] m).2
      ioHere.gvmcb ⟨0, 2, by decide⟩ = .exit := by
  obtain ⟨k', hc, hvc, hm⟩ := ioHere_made
  set m := ioHere.initPtrs k'.phys.bytes
  have hfair : ioHere.FairAll [⟨false, .setRegs (some regsHere)⟩, ⟨false, .run hostHere (quietGuest m)⟩] m := by
    refine ⟨trivial, ⟨by decide, by decide, ?_⟩, trivial⟩
    exact fun off hoff => ((vcpuSetRegs_samePorts regsHere hm.ready).control off hoff).symm
  exact ⟨k', m, hc, (portOutcome_calls hc hvc hm hfair ⟨0, 2, by decide⟩).trans (by decide)⟩

end Yakvm
