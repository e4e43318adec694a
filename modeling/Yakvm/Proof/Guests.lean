import Yakvm.Proof.Account
import Yakvm.Proof.Evolve
import Yakvm.Proof.Ports
import Yakvm.Proof.Unique
import Yakvm.Runs.Fold
import Yakvm.Spec.Guests

/-!
# Guests stay confined

* `vcpuInitVmcb_fixed`: the words of the control block that no exit writes.
* `Sys.step_draws`: which steps of the driver make a vcpu.
* `Tame`: what guests, exits and the hardware do to memory; `GuestsOK.quiet`: they do no more.
* `GuestsOK`: the invariant; each translation that a processor keeps for a vcpu whose file is open is the one that a
  walk finds.
* `guests_confined`, `tlb_coherent`: the theorems.
-/

namespace Yakvm

open Radix

variable {nasid asid asid' : BitVec 32} {ncr3 : Word} {vc : Vcpu} {s s' : Phys} {k k' : Kernel} {o c vm : ℕ} {f : Frame} {i : Slot}

/-! ## The control block of a new vcpu -/

/-- The fixed words of a control block: the intercepts of `#DB`, `HLT`, port accesses and `vmrun`, the permission map,
the ASID without a `tlb_ctl`, nested paging, and its table. -/
def vmcbControl (iopm : Frame) (ncr3 : Word) (asid : BitVec 32) (i : Slot) : Word :=
  if i = 1 then BitVec.twoPow 64 1 ||| BitVec.twoPow 64 56 ||| BitVec.twoPow 64 59
  else if i = 2 then 1
  else if i = iopmBasePa then pageToPhys iopm
  else if i = controlAsid then asid.setWidth 64
  else if i = nestedCtl then 1
  else if i = nestedCr3 then ncr3
  else 0

/-- A control block with these words, and a permission map in which only the port of the device is marked. -/
structure Configured (k : Kernel) (vc : Vcpu) (ncr3 : Word) (asid : BitVec 32) : Prop where
  control : ∀ i, vmcbFixed i = true → k.phys.mem vc.gvmcb i = vmcbControl vc.iopm ncr3 asid i
  iopm : ∀ f ∈ block vc.iopm iopmOrder, ∀ i, k.phys.mem f i = if f = vc.iopm ∧ i = 0 then 1 else 0

theorem vmcbFixed_cases (h : vmcbFixed i = true) :
    i ∈ [0, 1, 2, 3, 4, 5, 6, 7, iopmBasePa, 9, 10, controlAsid, nestedCtl, nestedCr3] := by
  revert i
  decide

theorem Phys.storeAll_ne (ws : List (Slot × Word)) : ∀ {s : Phys}, (∀ w ∈ ws, w.1 ≠ i) → (s.storeAll f ws).mem f i = s.mem f i := by
  induction ws with
  | nil => exact fun _ => rfl
  | cons w ws ih =>
    intro s h
    have hw := h w List.mem_cons_self
    exact (ih fun u hu => h u (List.mem_cons_of_mem _ hu)).trans (Phys.store_ne s w.2 (Or.inr hw.symm))

theorem zero_append_asid (a : BitVec 32) : (0#32 ++ a : Word) = a.setWidth 64 := by
  apply BitVec.eq_of_toNat_eq
  rw [BitVec.toNat_append, BitVec.toNat_setWidth, BitVec.toNat_ofNat, Nat.zero_mod, Nat.zero_shiftLeft, Nat.zero_or]
  have := a.isLt
  omega

/-- **The words that no exit writes**, after `yakvm_vcpu_init_vmcb` has set up a zeroed control block. -/
theorem vcpuInitVmcb_fixed (hne : vc.gvmcb ≠ vc.iopm) (hzero : s.mem vc.gvmcb = 0)
    (h : vcpuInitVmcb nasid vc ncr3 asid s = .ok (asid', s')) (hi : vmcbFixed i = true) :
    s'.mem vc.gvmcb i = vmcbControl vc.iopm ncr3 (asid + 1) i := by
  unfold vcpuInitVmcb at h
  simp only at h
  split at h
  swap
  · simp at h
  obtain ⟨-, rfl⟩ := Prod.mk.inj (Except.ok.inj h)
  clear h
  -- the save area is elsewhere
  have hsave : ∀ j, vmcbFixed j = true → (s.storeAll vc.gvmcb vmcbSave).mem vc.gvmcb j = 0 := by
    intro j hj
    rw [Phys.storeAll_ne, hzero]
    · rfl
    · have hall : ∀ w ∈ vmcbSave.map Prod.fst, vmcbFixed w = false := by decide
      intro w hw heq
      have := hall w.1 (List.mem_map_of_mem hw)
      rw [heq, hj] at this
      cases this
  have hst : ∀ (s : Phys) (j l : Slot) (w : Word), (s.store vc.gvmcb j w).mem vc.gvmcb l = if l = j then w else s.mem vc.gvmcb l := by
    intro s j l w
    split_ifs with hl
    · rw [hl, Phys.store_same]
    · exact Phys.store_ne s w (Or.inr hl)
  have hio : ∀ (s : Phys) (j l : Slot) (w : Word), (s.store vc.iopm j w).mem vc.gvmcb l = s.mem vc.gvmcb l :=
    fun s j l w => Phys.store_ne s w (Or.inl hne)
  have hslots : BitVec.ofNat 9 ((interceptException + dbVector) / 64) = 1 ∧ BitVec.ofNat 9 (interceptHlt / 64) = 1 ∧
      BitVec.ofNat 9 (interceptIoioProt / 64) = 1 ∧ BitVec.ofNat 9 (interceptVmrun / 64) = 2 := by decide
  have hbits : (interceptException + dbVector) % 64 = 1 ∧ interceptHlt % 64 = 56 ∧ interceptIoioProt % 64 = 59 ∧
      interceptVmrun % 64 = 0 := by decide
  have hset : ∀ (s : Phys) (bit : ℕ), bit < 32768 → vmcbSetIntercept s vc.gvmcb bit =
      s.store vc.gvmcb (BitVec.ofNat 9 (bit / 64)) (s.mem vc.gvmcb (BitVec.ofNat 9 (bit / 64)) ||| BitVec.twoPow 64 (bit % 64)) :=
    fun s bit hb => Phys.setBit_first s vc.gvmcb hb
  rw [hset _ _ (by decide), hset _ _ (by decide), hset _ _ (by decide), hset _ _ (by decide), Phys.setBit_first _ vc.iopm (by decide)]
  simp only [hslots.1, hslots.2.1, hslots.2.2.1, hslots.2.2.2, hbits.1, hbits.2.1, hbits.2.2.1, hbits.2.2.2, hst, hio]
  have hcases := vmcbFixed_cases hi
  simp only [List.mem_cons, List.not_mem_nil, or_false] at hcases
  have hone : BitVec.twoPow 64 0 = 1#64 := by decide
  rcases hcases with rfl | rfl | rfl | rfl | rfl | rfl | rfl | rfl | rfl | rfl | rfl | rfl | rfl | rfl <;>
    simp [vmcbControl, iopmBasePa, controlAsid, nestedCtl, nestedCr3, saveEfer, vmcbSlot, hsave, vmcbFixed, hone, zero_append_asid]

/-! ## Which steps of the driver make a vcpu -/

/-- No vcpu is made. -/
def MakesNone (k k' : Kernel) : Prop := k'.asid = k.asid ∧ ∀ c vc, k'.vcpus c = some vc → k.vcpus c = some vc

/-- A vcpu is made, with the next ASID. -/
def MakesOne (nasid : BitVec 32) (k k' : Kernel) : Prop :=
  k'.asid = k.asid + 1 ∧ k.asid + 1 < nasid ∧ ∃ vc ncr3, k'.vcpus = Function.update k.vcpus k.phys.next (some vc) ∧
    Configured k' vc ncr3 (k.asid + 1)

theorem MakesNone.refl (k : Kernel) : MakesNone k k := ⟨rfl, fun _ _ h => h⟩

theorem MakesNone.of_shows (hasid : k'.asid = k.asid) (h : Shows k k') : MakesNone k k' := ⟨hasid, fun c vc hc => (h c vc hc).1⟩

/-- `yakvm_create_vcpu` returns a vcpu. -/
theorem createVcpu_configured {a : VcpuAsk} (h : createVcpu nasid a vm k = .ok (.ok c, k')) :
    c = k.phys.next ∧ MakesOne nasid k k' := by
  obtain ⟨vc, hmade⟩ := createVcpu_made h
  obtain ⟨vc', ncr3, s, n, hvcpus, hnodup, -, hgzero, hizero, hinit, -⟩ := createVcpu_returned h
  obtain rfl : vc' = vc := by
    have := congrFun (hvcpus.symm.trans hmade.vcpus) c
    simpa only [Function.update_self, Option.some.injEq] using this
  have hne : vc'.gvmcb ≠ vc'.iopm := fun heq => by
    have hone := Vcpu.part_unique (p := .gvmcb) (q := .iopm) hnodup (f := vc'.gvmcb) (by simp [Vcpu.part])
      (by rw [heq]; simp [Vcpu.part, block, iopmOrder, List.range_succ])
    cases hone
  have hlt : k.asid + 1 < nasid := by
    by_contra hcon
    rw [(vcpuInitVmcb_asid nasid vc' ncr3 k.asid s).2 hcon] at hinit
    cases hinit
  obtain ⟨-, -, himap, hother⟩ := vcpuInitVmcb_io hne hinit
  have hasid : k'.asid = k.asid + 1 := by
    rcases createVcpu_cases nasid a vm k with ⟨-, s, -, he⟩ | ⟨-, vc, s, -, -, he⟩
    · cases he.symm.trans h
    · rw [he] at h
      obtain ⟨v, -, h⟩ := bind_eq_ok.1 h
      obtain ⟨m, -, h⟩ := bind_eq_ok.1 h
      obtain ⟨⟨n, s'⟩, hinit', h⟩ := bind_eq_ok.1 h
      obtain ⟨-, rfl⟩ := Prod.mk.inj (Except.ok.inj h)
      obtain ⟨s₁, hs₁, -⟩ := (vcpuInitVmcb_asid nasid vc m.ncr3 k.asid s).1 hlt
      exact (Prod.mk.inj (Except.ok.inj (hinit'.symm.trans hs₁))).1
  refine ⟨hmade.id, hasid, hlt, vc', ncr3, hmade.id ▸ hvcpus, fun i hi => vcpuInitVmcb_fixed hne hgzero hinit hi, ?_⟩
  intro f hf i
  by_cases hfirst : f = vc'.iopm
  · rw [hfirst, himap, hizero vc'.iopm (hfirst ▸ hf)]
    simp only [true_and, Pi.zero_apply]
    split_ifs <;> rfl
  · have hgv : f ≠ vc'.gvmcb := by
      rintro rfl
      have hone := Vcpu.part_unique (p := .gvmcb) (q := .iopm) hnodup (f := vc'.gvmcb) (by simp [Vcpu.part]) hf
      cases hone
    rw [hother f hgv hfirst, hizero f hf, if_neg fun hc => hfirst hc.1]
    rfl

variable {x x' : Sys}

/-- What a step of the driver does to the vcpus, their files and the requests that hold one. -/
structure Draws (nasid : BitVec 32) (x x' : Sys) : Prop where
  made : MakesNone x.k x'.k ∨ MakesOne nasid x.k x'.k
  files : ∀ c ∈ x'.vcpuFiles, c ∈ x.vcpuFiles ∨ ∃ (i : ℕ) (r : Req), x.reqs[i]? = some r ∧ r.stage.vcpu = some c
  reqs : ∀ (i : ℕ) (r : Req) (c : ℕ), x'.reqs[i]? = some r → r.stage.vcpu = some c →
    (∃ (j : ℕ) (r' : Req), x.reqs[j]? = some r' ∧ r'.stage.vcpu = some c) ∨ c = x.k.phys.next

/-- A step that installs no file and leaves the requests alone. -/
theorem Draws.quiet (hmade : MakesNone x.k x'.k) (hfiles : x'.vcpuFiles ⊆ x.vcpuFiles) (hreqs : x'.reqs = x.reqs) :
    Draws nasid x x' :=
  ⟨Or.inl hmade, fun _ hc => Or.inl (hfiles hc), fun i r _ hi hr => Or.inl ⟨i, r, hreqs ▸ hi, hr⟩⟩

theorem Sys.put_draws {v : Vm} (h : SysOK x) (hv : x.k.vms o = some v) (hput : x.put o = .ok x') :
    MakesNone x.k x'.k ∧ x'.vcpuFiles = x.vcpuFiles ∧ x'.reqs = x.reqs := by
  have hasid := Sys.put_asid hput
  obtain ⟨k', hp, hx⟩ := bind_eq_ok.1 hput
  obtain rfl := Except.ok.inj hx
  exact ⟨MakesNone.of_shows hasid (Shows.putVm h.kernel hv (fun d hd => (h.vcpu _ _ _ hv hd).imp fun _ => And.left) hp), rfl, rfl⟩

/-- One step of a request. -/
theorem Req.advance_draws {j : ℕ} {r : Req} {a : VcpuAsk} {fd : Bool} {stage : Stage} (h : SysOK x)
    (hj : x.reqs[j]? = some r) (hadv : r.advance nasid a fd x = .ok (stage, x')) :
    (MakesNone x.k x'.k ∨ MakesOne nasid x.k x'.k) ∧ x'.reqs = x.reqs ∧
    (∀ c ∈ x'.vcpuFiles, c ∈ x.vcpuFiles ∨ r.stage.vcpu = some c) ∧
    ∀ c, stage.vcpu = some c → r.stage.vcpu = some c ∨ c = x.k.phys.next := by
  have hk := h.kernel
  have hset : ∀ {d : Option ℕ} {k' : Kernel}, setVcpu r.vm d x.k = .ok k' → MakesNone x.k k' := fun hs => by
    refine ⟨setVcpu_asid hs, fun c vc hc => ?_⟩
    obtain ⟨v, -, hs⟩ := bind_eq_ok.1 hs
    obtain rfl := Except.ok.inj hs
    exact hc
  have hdestroy : ∀ {c : ℕ} {k' : Kernel}, r.stage.vcpu = some c → destroyVcpu c x.k = .ok k' → MakesNone x.k k' := fun hc hd => by
    obtain ⟨-, ⟨vc, hvc, -⟩, -⟩ := h.req j r _ hj hc
    obtain ⟨k₁, hd', -, -, hvcpus, -⟩ := destroyVcpu_spec hk hvc
    obtain rfl := Except.ok.inj (hd'.symm.trans hd)
    exact ⟨destroyVcpu_asid hd, fun c vc hc => by rw [hvcpus, update_none_eq_some] at hc; exact hc.2⟩
  unfold Req.advance at hadv
  cases hst : r.stage with
  | start =>
    simp only [hst] at hadv
    obtain ⟨⟨c, k'⟩, hc, hadv⟩ := bind_eq_ok.1 hadv
    cases c with
    | error e =>
      obtain ⟨rfl, rfl⟩ := Prod.mk.inj (Except.ok.inj hadv)
      refine ⟨Or.inl ?_, rfl, fun d hd => Or.inl hd, fun d hd => by cases hd⟩
      rcases createVcpu_cases nasid a r.vm x.k with ⟨-, s, -, he⟩ | ⟨-, vc', s, -, -, he⟩
      · obtain ⟨-, rfl⟩ := Prod.mk.inj (Except.ok.inj (he.symm.trans hc))
        exact MakesNone.refl _
      · rw [he] at hc
        obtain ⟨v, -, hc⟩ := bind_eq_ok.1 hc
        obtain ⟨m, -, hc⟩ := bind_eq_ok.1 hc
        obtain ⟨_, -, hc⟩ := bind_eq_ok.1 hc
        cases hc
    | ok c =>
      obtain ⟨rfl, rfl⟩ := Prod.mk.inj (Except.ok.inj hadv)
      obtain ⟨hnew, hmade⟩ := createVcpu_configured hc
      exact ⟨Or.inr hmade, rfl, fun d hd => Or.inl hd, fun d hd => Or.inr (by rw [← Option.some.inj hd]; exact hnew)⟩
  | allocated c =>
    simp only [hst] at hadv
    obtain ⟨v, -, hadv⟩ := bind_eq_ok.1 hadv
    split at hadv
    · obtain ⟨rfl, rfl⟩ := Prod.mk.inj (Except.ok.inj hadv)
      exact ⟨Or.inl (MakesNone.refl _), rfl, fun d hd => Or.inl hd, fun d hd => Or.inl hd⟩
    · obtain ⟨k', hs, hadv⟩ := bind_eq_ok.1 hadv
      obtain ⟨rfl, rfl⟩ := Prod.mk.inj (Except.ok.inj hadv)
      exact ⟨Or.inl (hset hs), rfl, fun d hd => Or.inl hd, fun d hd => Or.inl hd⟩
  | published c =>
    simp only [hst] at hadv
    obtain ⟨k', hget, hadv⟩ := bind_eq_ok.1 hadv
    obtain ⟨rfl, rfl⟩ := Prod.mk.inj (Except.ok.inj hadv)
    refine ⟨Or.inl ⟨getVm_asid hget, fun d vc hd => ?_⟩, rfl, fun d hd => Or.inl hd, fun d hd => Or.inl hd⟩
    obtain ⟨v, -, hget⟩ := bind_eq_ok.1 hget
    obtain rfl := Except.ok.inj hget
    exact hd
  | got c =>
    simp only [hst] at hadv
    split at hadv
    · obtain ⟨rfl, rfl⟩ := Prod.mk.inj (Except.ok.inj hadv)
      refine ⟨Or.inl (MakesNone.refl _), rfl, fun d hd => ?_, fun d hd => by cases hd⟩
      rcases Finset.mem_insert.1 hd with rfl | hd
      · exact Or.inr rfl
      · exact Or.inl hd
    · obtain ⟨rfl, rfl⟩ := Prod.mk.inj (Except.ok.inj hadv)
      exact ⟨Or.inl (MakesNone.refl _), rfl, fun d hd => Or.inl hd, fun d hd => Or.inl hd⟩
  | failed c =>
    simp only [hst] at hadv
    obtain ⟨k', hs, hadv⟩ := bind_eq_ok.1 hadv
    obtain ⟨rfl, rfl⟩ := Prod.mk.inj (Except.ok.inj hadv)
    exact ⟨Or.inl (hset hs), rfl, fun d hd => Or.inl hd, fun d hd => Or.inl hd⟩
  | cleared c =>
    simp only [hst] at hadv
    obtain ⟨x₁, hput, hadv⟩ := bind_eq_ok.1 hadv
    obtain ⟨rfl, rfl⟩ := Prod.mk.inj (Except.ok.inj hadv)
    obtain ⟨v, hv⟩ := h.reqVm hj (by rw [hst]; simp)
    obtain ⟨hmade, hfiles, hreqs⟩ := Sys.put_draws h hv hput
    exact ⟨Or.inl hmade, hreqs, fun d hd => Or.inl (hfiles ▸ hd), fun d hd => Or.inl hd⟩
  | put c | refused c =>
    simp only [hst] at hadv
    obtain ⟨k', hd, hadv⟩ := bind_eq_ok.1 hadv
    obtain ⟨rfl, rfl⟩ := Prod.mk.inj (Except.ok.inj hadv)
    exact ⟨Or.inl (hdestroy (by rw [hst]; rfl) hd), rfl, fun d hd => Or.inl hd, fun d hd => by cases hd⟩
  | finished =>
    simp only [hst] at hadv
    obtain ⟨rfl, rfl⟩ := Prod.mk.inj (Except.ok.inj hadv)
    exact ⟨Or.inl (MakesNone.refl _), rfl, fun d hd => Or.inl hd, fun d hd => by cases hd⟩

/-- **Each step of the driver.** -/
theorem Sys.step_draws {act : Act} (h : SysOK x) (hs : x.step nasid act = .ok x') : Draws nasid x x' := by
  have hk := h.kernel
  have hrefl : Draws nasid x x := Draws.quiet (MakesNone.refl _) (Finset.Subset.refl _) rfl
  cases act with
  | createVm a =>
    obtain ⟨⟨r, k'⟩, hc, hs⟩ := bind_eq_ok.1 hs
    have hmade : MakesNone x.k k' := MakesNone.of_shows (createVm_asid hc) (shows_createVm hk hc)
    cases r <;> (obtain rfl := Except.ok.inj hs; exact Draws.quiet hmade (Finset.Subset.refl _) rfl)
  | openVm vm fd =>
    simp only [Sys.step] at hs
    split at hs
    case isTrue hmem =>
      obtain ⟨v, hv⟩ := h.files vm (Or.inr hmem)
      split at hs
      · obtain rfl := Except.ok.inj hs
        exact Draws.quiet (MakesNone.refl _) (Finset.Subset.refl _) rfl
      · obtain ⟨k', hd, hs⟩ := bind_eq_ok.1 hs
        obtain rfl := Except.ok.inj hs
        have hshows := hk.shows_destroyVm hv (fun d hd => (h.vcpu _ _ _ hv hd).imp fun _ => And.left) hd
        exact Draws.quiet (MakesNone.of_shows (destroyVm_asid hd) hshows) (Finset.Subset.refl _) rfl
    case isFalse =>
      obtain rfl := Except.ok.inj hs
      exact hrefl
  | request vm =>
    simp only [Sys.step] at hs
    split at hs
    · obtain rfl := Except.ok.inj hs
      refine ⟨Or.inl (MakesNone.refl _), fun c hc => Or.inl hc, fun i r c hi hr => Or.inl ?_⟩
      -- the new request has no vcpu yet
      rcases List.mem_append.1 (List.mem_of_getElem? hi) with hmem | hmem
      · obtain ⟨j, hj⟩ := List.mem_iff_getElem?.1 hmem
        exact ⟨j, r, hj, hr⟩
      · obtain rfl := List.mem_singleton.1 hmem
        cases hr
    · obtain rfl := Except.ok.inj hs
      exact hrefl
  | advance j a fd =>
    simp only [Sys.step] at hs
    cases hj : x.reqs[j]? with
    | none =>
      simp only [hj] at hs
      obtain rfl := Except.ok.inj hs
      exact hrefl
    | some r =>
      simp only [hj] at hs
      obtain ⟨⟨stage, x₁⟩, hadv, hs⟩ := bind_eq_ok.1 hs
      obtain rfl := Except.ok.inj hs
      obtain ⟨hmade, hreqs, hfiles, hstage⟩ := Req.advance_draws h hj hadv
      refine ⟨hmade, fun c hc => (hfiles c hc).imp_right fun hr => ⟨j, r, hj, hr⟩, fun i r' c hi hr' => ?_⟩
      simp only [hreqs, List.getElem?_set] at hi
      split_ifs at hi with hij hlen
      · obtain rfl := Option.some.inj hi
        exact (hstage c hr').imp_left fun hr => ⟨j, r, hj, hr⟩
      · exact Or.inl ⟨i, r', hi, hr'⟩
  | closeVm vm =>
    simp only [Sys.step] at hs
    split at hs
    case isTrue hclose =>
      obtain ⟨v, hv⟩ := h.files vm (Or.inl hclose.1)
      obtain ⟨x₁, hput, hs⟩ := bind_eq_ok.1 hs
      obtain rfl := Except.ok.inj hs
      obtain ⟨hmade, hfiles, hreqs⟩ := Sys.put_draws h hv hput
      exact Draws.quiet hmade hfiles.subset hreqs
    case isFalse =>
      obtain rfl := Except.ok.inj hs
      exact hrefl
  | closeVcpu c =>
    simp only [Sys.step] at hs
    split at hs
    case isTrue hc =>
      obtain ⟨vc, v, hvc, hv, -⟩ := h.vcpuFile c hc
      simp only [deref_some hvc, bind, Except.bind] at hs
      obtain ⟨x₁, hput, hs⟩ := bind_eq_ok.1 hs
      obtain rfl := Except.ok.inj hs
      obtain ⟨hmade, hfiles, hreqs⟩ := Sys.put_draws h hv hput
      exact Draws.quiet hmade ((Finset.erase_subset _ _).trans hfiles.subset) hreqs
    case isFalse =>
      obtain rfl := Except.ok.inj hs
      exact hrefl
  | mmapPage vm gpa ask =>
    simp only [Sys.step] at hs
    split at hs
    · obtain ⟨v, -, hs⟩ := bind_eq_ok.1 hs
      obtain ⟨m, -, hs⟩ := bind_eq_ok.1 hs
      obtain ⟨r, -, hs⟩ := bind_eq_ok.1 hs
      obtain rfl := Except.ok.inj hs
      exact Draws.quiet ⟨rfl, fun _ _ hc => hc⟩ (Finset.Subset.refl _) rfl
    · obtain rfl := Except.ok.inj hs
      exact hrefl
  | fault vm address vmStart ask =>
    simp only [Sys.step] at hs
    split at hs
    · obtain ⟨v, -, hs⟩ := bind_eq_ok.1 hs
      obtain ⟨m, -, hs⟩ := bind_eq_ok.1 hs
      obtain ⟨r, -, hs⟩ := bind_eq_ok.1 hs
      obtain rfl := Except.ok.inj hs
      exact Draws.quiet ⟨rfl, fun _ _ hc => hc⟩ (Finset.Subset.refl _) rfl
    · obtain rfl := Except.ok.inj hs
      exact hrefl

/-! ## What guests, exits and the hardware do to memory -/

/-- A change of memory that no fixed word of a control block, no permission map and no link of a table sees. -/
structure Tame (k k' : Kernel) : Prop where
  kernel : KernelOK k'
  objects : k'.vms = k.vms ∧ k'.vmms = k.vmms ∧ k'.vcpus = k.vcpus
  asid : k'.asid = k.asid
  next : k'.phys.next = k.phys.next
  allocated : k'.phys.pages = k.phys.pages ∧ k'.phys.slab = k.phys.slab
  control : ∀ {c vc i}, k.vcpus c = some vc → vmcbFixed i = true → k'.phys.mem vc.gvmcb i = k.phys.mem vc.gvmcb i
  iopm : ∀ {c vc f}, k.vcpus c = some vc → f ∈ block vc.iopm iopmOrder → k'.phys.mem f = k.phys.mem f
  node : ∀ {o v m q}, k.vms o = some v → k.vmms v.vmm = some m → q.length ≤ 4 →
    nodeAt k'.phys (vmmPhysToVirt m.ncr3) q = nodeAt k.phys (vmmPhysToVirt m.ncr3) q

theorem Tame.refl (hk : KernelOK k) : Tame k k :=
  ⟨hk, ⟨rfl, rfl, rfl⟩, rfl, rfl, ⟨rfl, rfl⟩, fun _ _ => rfl, fun _ _ => rfl, fun _ _ _ => rfl⟩

/-- A word is written to a page that is no table, no permission map, and no fixed word of a control block. -/
theorem KernelOK.poke {w : Word} (hk : KernelOK k) (htab : ∀ o, ¬ k.HasRole (.table o) f)
    (hctl : ∀ c vc, k.vcpus c = some vc → f = vc.gvmcb → vmcbFixed i = false)
    (hmap : ∀ c vc, k.vcpus c = some vc → f ∉ block vc.iopm iopmOrder) : Tame k (k.poke f i w) := by
  have hmem : ∀ {g}, g ≠ f → (k.poke f i w).phys.mem g = k.phys.mem g := fun hg => Phys.store_other k.phys i w hg
  have hframe : ∀ {o v m}, k.vms o = some v → k.vmms v.vmm = some m →
      NptOK (k.poke f i w).phys (vmmPhysToVirt m.ncr3) (some (path mmioHawk)) ∧
      ∀ q, q.length ≤ 4 → nodeAt (k.poke f i w).phys (vmmPhysToVirt m.ncr3) q = nodeAt k.phys (vmmPhysToVirt m.ncr3) q := by
    intro o v m hv hm
    obtain ⟨m', hm', hok, -⟩ := hk.vmm hv
    obtain rfl := Option.some.inj (hm'.symm.trans hm)
    refine hok.frame (fun p n hp hn => hmem ?_) fun p n hp hn => hok.live p n hp hn
    rintro rfl
    exact htab o ⟨v, m', p, hv, hm, hp, hn⟩
  have hcontrol : ∀ {c vc j}, k.vcpus c = some vc → vmcbFixed j = true →
      (k.poke f i w).phys.mem vc.gvmcb j = k.phys.mem vc.gvmcb j := by
    intro c vc j hc hj
    refine Phys.store_ne k.phys w ?_
    by_cases hg : vc.gvmcb = f
    · right
      rintro rfl
      rw [hctl c vc hc hg.symm] at hj
      cases hj
    · exact Or.inl hg
  have hholds : ∀ y g, (k.poke f i w).Holds y g → k.Holds y g := by
    intro y g hy
    cases y with
    | vcpu c => exact hy
    | vm o =>
      obtain ⟨v, m, q, hv, hm, hq, hn⟩ := hy
      exact ⟨v, m, q, hv, hm, hq, ((hframe hv hm).2 q hq).symm.trans hn⟩
  refine ⟨⟨⟨hk.ids.fresh, hk.ids.vm, hk.ids.vmm, hk.ids.vcpu, hk.ids.inj⟩, fun y => ?_, fun y z g hy hz =>
    hk.apart y z g (hholds y g hy) (hholds z g hz)⟩, ⟨rfl, rfl, rfl⟩, rfl, rfl, ⟨rfl, rfl⟩, hcontrol,
    fun {c vc g} hc hg => hmem fun heq => hmap c vc hc (heq ▸ hg), fun hv hm hq => (hframe hv hm).2 _ hq⟩
  cases y with
  | vm o =>
    intro v hv
    obtain ⟨m, hm, -, -⟩ := hk.vmm hv
    exact ⟨m, hm, (hframe hv hm).1⟩
  | vcpu c =>
    intro vc hc
    obtain ⟨hnd, hlive, hcr3⟩ := hk.valid (.vcpu c) vc hc
    exact ⟨hnd, hlive, fun v m hv hm => (hcontrol hc (by decide)).trans (hcr3 v m hv hm)⟩

/-- A page with one role has no other. -/
theorem KernelOK.poke_role {a : Role} {w : Word} (hk : KernelOK k) (ha : k.HasRole a f) (htab : ∀ o, a ≠ .table o)
    (hctl : ∀ c, a = .vcpu c .gvmcb → vmcbFixed i = false) (hmap : ∀ c, a ≠ .vcpu c .iopm) : Tame k (k.poke f i w) := by
  refine hk.poke (fun o ho => htab o (hk.role_unique ha ho)) (fun c vc hc hf => ?_) fun c vc hc hf => ?_
  · exact hctl c (hk.role_unique ha (b := .vcpu c .gvmcb) ⟨vc, hc, by simp [Vcpu.part, hf]⟩)
  · exact hmap c (hk.role_unique ha (b := .vcpu c .iopm) ⟨vc, hc, hf⟩)

/-- The hardware marks an entry of the table of a vm. -/
theorem KernelOK.mark {v : Vm} {m : Vmm} (hk : KernelOK k) (ho : k.vms o = some v) (hm : k.vmms v.vmm = some m) (gpa : Word)
    (n : ℕ) (a d : Bool) : Tame k { k with phys := Emulator.hwMark k.phys m.ncr3 gpa n a d } := by
  obtain ⟨m', hm', hok, -⟩ := hk.vmm ho
  obtain rfl := Option.some.inj (hm'.symm.trans hm)
  unfold Emulator.hwMark
  split
  · exact Tame.refl hk
  rename_i t ht
  simp only
  split_ifs with hb
  swap
  · exact Tame.refl hk
  obtain ⟨p, hp, hn⟩ := (hwWalk_spec hok .read 4 [] m'.ncr3 (pathFrom_four gpa) nodeAt_nil (by simp)).1 t (List.mem_of_getElem? ht)
  have htab : k.Holds (.vm o) t := ⟨v, m', p, ho, hm, hp.le, hn⟩
  set j := gpa.extractLsb' (12 + 9 * (3 - n)) 9
  have h0 : k.phys.mem t j ≠ 0 := fun h0 => by rw [h0] at hb; simp at hb
  obtain ⟨hok', hkeep⟩ := hwSetAd_ok hok h0 a d
  -- the entry is in no page of another object
  have hkept : ∀ y f, y ≠ .vm o → k.Holds y f → Kept k { k with phys := hwSetAd k.phys t j a d } f := fun y f hy hf =>
    ⟨Phys.store_other k.phys j _ fun heq => hy (hk.apart y (.vm o) f hf (heq ▸ htab)), hk.live hf⟩
  have hsame : ∀ n, SameVm k { k with phys := hwSetAd k.phys t j a d } n := fun n u hu => ⟨u, hu, rfl, rfl⟩
  have hk' : KernelOK { k with phys := hwSetAd k.phys t j a d } := by
    refine hk.change (x := .vm o) ⟨hk.ids.fresh, hk.ids.vm, hk.ids.vmm, hk.ids.vcpu, hk.ids.inj⟩ (fun y hy => ?_) ?_ ?_
    · cases y with
      | vm n => exact ⟨hsame n, fun _ f hf => hkept _ f hy hf⟩
      | vcpu c => exact fun vc hc => ⟨hc, hsame _, fun f hf => hkept _ f hy ⟨vc, hc, hf⟩⟩
    · intro u hu
      obtain rfl := Option.some.inj (hu.symm.trans ho)
      exact ⟨m', hm, hok'⟩
    · rintro f ⟨u, mu, q, hu, hmu, hq, hn'⟩
      obtain rfl := Option.some.inj (hu.symm.trans ho)
      obtain rfl := Option.some.inj (hmu.symm.trans hm)
      exact Or.inl ⟨_, _, q, hu, hmu, hq, (hkeep q).symm.trans hn'⟩
  refine ⟨hk', ⟨rfl, rfl, rfl⟩, rfl, rfl, ⟨rfl, rfl⟩, fun {c vc i} hc _ => ?_, fun {c vc f} hc hf => ?_, fun {u vu mu q} hu hmu hq => ?_⟩
  · exact congrFun (hkept (.vcpu c) vc.gvmcb (by simp) ⟨vc, hc, vc.gvmcb_mem⟩).1 i
  · exact (hkept (.vcpu c) f (by simp) ⟨vc, hc, Vcpu.part_subset (p := .iopm) hf⟩).1
  · by_cases hou : u = o
    · subst hou
      obtain rfl := Option.some.inj (hu.symm.trans ho)
      obtain rfl := Option.some.inj (hmu.symm.trans hm)
      exact hkeep q
    · refine nodeAt_congr (fun p' g hp' hg => (hkept (.vm u) g (by simpa using hou) ⟨vu, mu, p', hu, hmu, hp'.le, hg⟩).1) q hq

/-! ## The invariant -/

theorem Configured.asidOf (h : Configured k vc ncr3 asid) : k.asidOf vc = asid := by
  have hfixed : vmcbControl vc.iopm ncr3 asid controlAsid = asid.setWidth 64 := by
    simp [vmcbControl, controlAsid, iopmBasePa, vmcbSlot]
  unfold Kernel.asidOf
  rw [h.control controlAsid (by decide), hfixed]
  exact BitVec.setWidth_setWidth_of_le _ (by decide)

theorem Configured.nestedCr3 (h : Configured k vc ncr3 asid) : k.phys.mem vc.gvmcb nestedCr3 = ncr3 := by
  rw [h.control Yakvm.nestedCr3 (by decide)]
  simp [vmcbControl, Yakvm.nestedCr3, nestedCtl, controlAsid, iopmBasePa, vmcbSlot]

/-- A change that leaves the fixed words and the permission map alone. -/
theorem Configured.congr (h : Configured k vc ncr3 asid)
    (hctl : ∀ i, vmcbFixed i = true → k'.phys.mem vc.gvmcb i = k.phys.mem vc.gvmcb i)
    (hmap : ∀ f ∈ block vc.iopm iopmOrder, k'.phys.mem f = k.phys.mem f) : Configured k' vc ncr3 asid :=
  ⟨fun i hi => (hctl i hi).trans (h.control i hi), fun f hf i => (congrFun (hmap f hf) i).trans (h.iopm f hf i)⟩

/-- **The invariant.** -/
structure GuestsOK (nasid : BitVec 32) (x : Guests) : Prop where
  sys : SysOK x.sys
  counter : 1 ≤ x.sys.k.asid ∧ (x.sys.k.asid = 1 ∨ x.sys.k.asid < nasid)
  config : ∀ c vc, x.sys.k.vcpus c = some vc → ∃ ncr3 asid, 1 < asid ∧ asid ≤ x.sys.k.asid ∧ Configured x.sys.k vc ncr3 asid
  apart : ∀ c d vc vd, x.sys.k.vcpus c = some vc → x.sys.k.vcpus d = some vd → x.sys.k.asidOf vc = x.sys.k.asidOf vd → c = d
  tags : ∀ e ∈ x.tlb, e.asid ≤ x.sys.k.asid
  fresh : ∀ e ∈ x.tlb, ∀ (j : ℕ) (r : Req) (c : ℕ) (vc : Vcpu), x.sys.reqs[j]? = some r → r.stage.vcpu = some c →
    x.sys.k.vcpus c = some vc → x.sys.k.asidOf vc ≠ e.asid
  coherent : ∀ e ∈ x.tlb, ∀ c ∈ x.sys.vcpuFiles, ∀ vc, x.sys.k.vcpus c = some vc → x.sys.k.asidOf vc = e.asid →
    x.sys.k.Maps vc.vm e.key e.page

variable {y y' : Guests}

theorem GuestsOK.init (nasid : BitVec 32) (mem : Frame → Slot → Word) (pages : Finset Frame) :
    GuestsOK nasid (Guests.init mem pages) := by
  refine ⟨SysOK.init mem pages, ⟨BitVec.le_refl _, Or.inl rfl⟩, ?_, ?_, ?_, ?_, ?_⟩ <;> simp [Guests.init, Sys.init]

/-- **A change of memory** by a guest, an exit or the hardware. -/
theorem GuestsOK.tame (h : GuestsOK nasid y) (ht : Tame y.sys.k k') : GuestsOK nasid (y.setKernel k') := by
  obtain ⟨hvms, hvmms, hvcpus⟩ := ht.objects
  have hctl : ∀ {c vc}, y.sys.k.vcpus c = some vc → k'.asidOf vc = y.sys.k.asidOf vc := fun hc => by
    unfold Kernel.asidOf
    rw [ht.control hc (by decide)]
  have hold : ∀ {c vc}, k'.vcpus c = some vc → y.sys.k.vcpus c = some vc := fun hc => hvcpus ▸ hc
  refine ⟨h.sys.setKernel ht.kernel hvms hvcpus ht.next.ge, ?_, fun c vc hc => ?_, fun c d vc vd hc hd heq => ?_, fun e he => ?_,
    fun e he j r c vc hj hr hc => ?_, fun e he c hfile vc hc heq => ?_⟩
  · rw [show (y.setKernel k').sys.k.asid = y.sys.k.asid from ht.asid]
    exact h.counter
  · obtain ⟨ncr3, n, h1, hle, hconf⟩ := h.config c vc (hold hc)
    exact ⟨ncr3, n, h1, hle.trans_eq ht.asid.symm, hconf.congr (fun i hi => ht.control (hold hc) hi) fun f hf => ht.iopm (hold hc) hf⟩
  · rw [show (y.setKernel k').sys.k = k' from rfl, hctl (hold hc), hctl (hold hd)] at heq
    exact h.apart c d vc vd (hold hc) (hold hd) heq
  · exact (h.tags e he).trans_eq ht.asid.symm
  · exact fun heq => h.fresh e he j r c vc hj hr (hold hc) ((hctl (hold hc)).symm.trans heq)
  · obtain ⟨v, m, hv, hm, hne, hnode⟩ := h.coherent e he c hfile vc (hold hc) ((hctl (hold hc)).symm.trans heq)
    refine ⟨v, m, hvms ▸ hv, hvmms ▸ hm, hne, fun gpa hg => ?_⟩
    exact (ht.node hv hm (path_length gpa).le).trans (hnode gpa hg)

theorem asid_below {a b c : BitVec 32} (h : a ≤ b) (h' : b < c) : a < c := by bv_omega

/-- **A step of the driver.** -/
theorem GuestsOK.driver {act : Act} (h : GuestsOK nasid y) (hs : y.sys.step nasid act = .ok x') (hx' : SysOK x') :
    GuestsOK nasid { y with sys := x' } := by
  have hev := Sys.step_evolves h.sys hs
  have hdraw := Sys.step_draws h.sys hs
  have hlt : ∀ {c vc}, y.sys.k.vcpus c = some vc → c < y.sys.k.phys.next := fun hc => h.sys.kernel.vcpu_lt hc
  -- a vcpu that stays has its pages
  have hkept : ∀ {c vc}, x'.k.vcpus c = some vc → y.sys.k.vcpus c = some vc → ∀ f ∈ vc.pages, x'.k.phys.mem f = y.sys.k.phys.mem f :=
    fun hc' hc => hev.pages hc' hc
  have hasidOf : ∀ {c vc}, x'.k.vcpus c = some vc → y.sys.k.vcpus c = some vc → x'.k.asidOf vc = y.sys.k.asidOf vc :=
    fun {c vc} hc' hc => by
      unfold Kernel.asidOf
      rw [hkept hc' hc vc.gvmcb vc.gvmcb_mem]
  have hconfig : ∀ {c vc}, x'.k.vcpus c = some vc → y.sys.k.vcpus c = some vc → ∃ ncr3 asid, 1 < asid ∧ asid ≤ y.sys.k.asid ∧
      Configured x'.k vc ncr3 asid := fun {c vc} hc' hc => by
    obtain ⟨ncr3, n, h1, hle, hconf⟩ := h.config c vc hc
    exact ⟨ncr3, n, h1, hle, hconf.congr (fun i _ => congrFun (hkept hc' hc vc.gvmcb vc.gvmcb_mem) i)
      fun f hf => hkept hc' hc f (Vcpu.part_subset (p := .iopm) hf)⟩
  -- what is new has the next ASID
  have hnew : y.sys.k.asid ≤ x'.k.asid ∧ (1 ≤ x'.k.asid ∧ (x'.k.asid = 1 ∨ x'.k.asid < nasid)) ∧
      ∀ {c vc}, x'.k.vcpus c = some vc → y.sys.k.vcpus c = some vc ∨ c = y.sys.k.phys.next ∧
        y.sys.k.asid < x'.k.asid ∧ ∃ ncr3, Configured x'.k vc ncr3 x'.k.asid := by
    rcases hdraw.made with ⟨hasid, hold⟩ | ⟨hasid, hn, vc₀, ncr3, hvcpus, hconf⟩
    · rw [hasid]
      exact ⟨BitVec.le_refl _, h.counter, fun {c vc} hc => Or.inl (hold c vc hc)⟩
    · obtain ⟨hone, hcount⟩ := h.counter
      have hup : y.sys.k.asid < y.sys.k.asid + 1 := by
        rcases hcount with hc | hc <;> bv_omega
      rw [hasid]
      refine ⟨BitVec.le_of_lt hup, ⟨BitVec.le_of_lt (asid_below hone hup), Or.inr hn⟩, fun {c vc} hc => ?_⟩
      rw [hvcpus] at hc
      by_cases hcn : c = y.sys.k.phys.next
      · subst hcn
        rw [Function.update_self] at hc
        obtain rfl := Option.some.inj hc
        exact Or.inr ⟨rfl, hup, ncr3, hconf⟩
      · rw [Function.update_of_ne hcn] at hc
        exact Or.inl hc
  obtain ⟨hmono, hcounter, hnew⟩ := hnew
  have htag : ∀ {e}, e ∈ y.tlb → e.asid ≤ y.sys.k.asid := fun he => h.tags _ he
  refine ⟨hx', hcounter, fun c vc hc => ?_, fun c d vc vd hc hd heq => ?_, fun e he => BitVec.le_trans (htag he) hmono,
    fun e he j r c vc hj hr hc heq => ?_, fun e he c hfile vc hc heq => ?_⟩
  · rcases hnew hc with hold | ⟨-, hup, ncr3, hconf⟩
    · obtain ⟨ncr3, n, h1, hle, hconf⟩ := hconfig hc hold
      exact ⟨ncr3, n, h1, BitVec.le_trans hle hmono, hconf⟩
    · exact ⟨ncr3, _, asid_below h.counter.1 hup, BitVec.le_refl _, hconf⟩
  · have hsmall : ∀ {c vc}, x'.k.vcpus c = some vc → y.sys.k.vcpus c = some vc → x'.k.asidOf vc ≤ y.sys.k.asid := by
      intro c vc hc hold
      obtain ⟨ncr3, n, -, hle, hconf⟩ := hconfig hc hold
      rw [hconf.asidOf]
      exact hle
    rcases hnew hc with hold | ⟨hcn, hup, ncr3, hconf⟩ <;> rcases hnew hd with hold' | ⟨hdn, hup', ncr3', hconf'⟩
    · simp only [hasidOf hc hold, hasidOf hd hold'] at heq
      exact h.apart c d vc vd hold hold' heq
    · have hle := hsmall hc hold
      simp only [hconf'.asidOf] at heq
      rw [heq] at hle
      exact absurd (asid_below hle hup') (BitVec.lt_irrefl _)
    · have hle := hsmall hd hold'
      simp only [hconf.asidOf] at heq
      rw [← heq] at hle
      exact absurd (asid_below hle hup) (BitVec.lt_irrefl _)
    · rw [hcn, hdn]
  · -- a new vcpu has an ASID that no translation carries
    rcases hnew hc with hold | ⟨hcn, hup, ncr3, hconf⟩
    · rcases hdraw.reqs j r c hj hr with ⟨j', r', hj', hr'⟩ | hcn
      · exact h.fresh e he j' r' c vc hj' hr' hold ((hasidOf hc hold).symm.trans heq)
      · exact absurd (hlt hold) (by omega)
    · simp only [hconf.asidOf] at heq
      have hle := htag he
      rw [← heq] at hle
      exact absurd (asid_below hle hup) (BitVec.lt_irrefl _)
  · rcases hnew hc with hold | ⟨hcn, hup, ncr3, hconf⟩
    · have heq' := (hasidOf hc hold).symm.trans heq
      rcases hdraw.files c hfile with hfile' | ⟨j, r, hj, hr⟩
      · -- the vm is still there, and its table has only grown
        obtain ⟨vc', v', hvc', hv', -⟩ := hx'.vcpuFile c hfile
        obtain rfl := Option.some.inj (hvc'.symm.trans hc)
        exact hev.maps h.sys.kernel (h.coherent e he c hfile' _ hold heq') hv'
      · exact absurd heq' (h.fresh e he j r c vc hj hr hold)
    · simp only [hconf.asidOf] at heq
      have hle := htag he
      rw [← heq] at hle
      exact absurd (asid_below hle hup) (BitVec.lt_irrefl _)

/-! ## Walks -/

/-- What a walk finds. -/
theorem KernelOK.maps_iff {v : Vm} {m : Vmm} (hk : KernelOK k) (hv : k.vms o = some v) (hm : k.vmms v.vmm = some m) (acc : Access)
    (gpa : Word) : hwTranslate k.phys.mem m.ncr3 acc gpa = .page f ↔ k.Maps o (key gpa) f := by
  obtain ⟨m', hm', hok, -⟩ := hk.vmm hv
  obtain rfl := Option.some.inj (hm'.symm.trans hm)
  rw [hwTranslate_spec hok]
  by_cases hne : key gpa = key mmioHawk
  · rw [if_pos (by rw [(path_eq_iff _ _).2 hne])]
    exact ⟨fun h => (by cases h), fun ⟨_, _, _, _, hno, _⟩ => absurd hne hno⟩
  · rw [if_neg fun hp => hne ((path_eq_iff _ _).1 (Option.some.inj hp).symm), Kernel.maps_node hv hm hne]
    cases nodeAt k.phys (vmmPhysToVirt m'.ncr3) (path gpa) with
    | none => exact ⟨fun h => (by cases h), fun h => (by cases h)⟩
    | some g => exact ⟨fun h => (by cases h; rfl), fun h => (by cases h; rfl)⟩

theorem Kernel.Maps.role {g : BitVec 36} (h : k.Maps o g f) (gpa : Word) (hg : key gpa = g) : k.HasRole (.leaf o) f := by
  obtain ⟨v, m, hv, hm, -, hn⟩ := h
  exact ⟨v, m, path gpa, hv, hm, path_length gpa, hn gpa hg⟩

/-- A page is behind one guest page of one vm. -/
theorem KernelOK.maps_inj {o' : ℕ} {g g' : BitVec 36} (hk : KernelOK k) (h : k.Maps o g f) (h' : k.Maps o' g' f) : o = o' ∧ g = g' := by
  obtain ⟨gpa, hg⟩ := key_surjective g
  obtain ⟨gpa', hg'⟩ := key_surjective g'
  obtain rfl : o = o' := Role.leaf.inj (hk.role_unique (h.role gpa hg) (h'.role gpa' hg'))
  obtain ⟨v, m, hv, hm, -, hn⟩ := h
  obtain ⟨v', m', hv', hm', -, hn'⟩ := h'
  obtain rfl := Option.some.inj (hv.symm.trans hv')
  obtain rfl := Option.some.inj (hm.symm.trans hm')
  obtain ⟨m₁, hm₁, hok, -⟩ := hk.vmm hv
  obtain rfl := Option.some.inj (hm₁.symm.trans hm)
  have hpath := hok.tree _ _ f (path_length gpa).le (path_length gpa').le (hn gpa hg) (hn' gpa' hg')
  exact ⟨rfl, hg ▸ hg' ▸ (path_eq_iff _ _).1 hpath⟩

theorem Guests.running_iff : y.running c = some vc ↔ c ∈ y.sys.vcpuFiles ∧ y.sys.k.vcpus c = some vc := by
  unfold Guests.running
  split_ifs with hc
  · exact ⟨fun h => ⟨hc, h⟩, fun h => h.2⟩
  · exact ⟨fun h => (by cases h), fun h => absurd h.1 hc⟩

/-- The table of a guest that can run. -/
theorem GuestsOK.table (h : GuestsOK nasid y) (hrun : y.running c = some vc) : ∃ v m, y.sys.k.vms vc.vm = some v ∧
    y.sys.k.vmms v.vmm = some m ∧ y.sys.k.phys.mem vc.gvmcb nestedCr3 = m.ncr3 := by
  obtain ⟨hfile, hc⟩ := Guests.running_iff.1 hrun
  obtain ⟨vc', v, hc', hv, -⟩ := h.sys.vcpuFile c hfile
  obtain rfl := Option.some.inj (hc'.symm.trans hc)
  obtain ⟨m, hm, -, -⟩ := h.sys.kernel.vmm hv
  exact ⟨v, m, hv, hm, (h.sys.kernel.valid (.vcpu c) _ hc).2.2 v m hv hm⟩

/-! ## Every step -/

/-- A processor keeps a translation. -/
theorem GuestsOK.fill {cpu : ℕ} {acc : Access} {gpa : Word} (h : GuestsOK nasid y) (hrun : y.running c = some vc)
    (hw : y.sys.k.walk vc acc gpa = .page f) :
    GuestsOK nasid { y with tlb := ⟨cpu, y.sys.k.asidOf vc, acc, key gpa, f⟩ :: y.tlb } := by
  obtain ⟨hfile, hc⟩ := Guests.running_iff.1 hrun
  obtain ⟨v, m, hv, hm, hcr3⟩ := h.table hrun
  obtain ⟨ncr3, n, -, hle, hconf⟩ := h.config c vc hc
  have hmaps : y.sys.k.Maps vc.vm (key gpa) f := by
    unfold Kernel.walk at hw
    rw [hcr3] at hw
    exact (h.sys.kernel.maps_iff hv hm acc gpa).1 hw
  refine ⟨h.sys, h.counter, h.config, h.apart, fun e he => ?_, fun e he j r d vd hj hr hd heq => ?_, fun e he d hd vd hvd heq => ?_⟩
  · rcases List.mem_cons.1 he with rfl | he
    · simp only [hconf.asidOf]
      exact hle
    · exact h.tags e he
  · rcases List.mem_cons.1 he with rfl | he
    · -- a vcpu whose file is open is in no request
      obtain rfl := h.apart d c vd vc hd hc heq
      exact (h.sys.req j r d hj hr).closed hfile
    · exact h.fresh e he j r d vd hj hr hd heq
  · rcases List.mem_cons.1 he with rfl | he
    · obtain rfl := h.apart d c vd vc hvd hc heq
      obtain rfl := Option.some.inj (hvd.symm.trans hc)
      exact hmaps
    · exact h.coherent e he d hd vd hvd heq

/-- A processor drops translations. -/
theorem GuestsOK.drop {tlb : List TlbEntry} (h : GuestsOK nasid y) (hsub : tlb ⊆ y.tlb) : GuestsOK nasid { y with tlb := tlb } :=
  ⟨h.sys, h.counter, h.config, h.apart, fun e he => h.tags e (hsub he), fun e he => h.fresh e (hsub he),
    fun e he => h.coherent e (hsub he)⟩

/-- A page of the guest's memory is written. -/
theorem KernelOK.poke_leaf {g : BitVec 36} {w : Word} (hk : KernelOK k) (hmaps : k.Maps o g f) : Tame k (k.poke f i w) := by
  obtain ⟨gpa, hg⟩ := key_surjective g
  exact hk.poke_role (hmaps.role gpa hg) (by simp) (by simp) (by simp)

/-- A word is written to a page of a vcpu, but to no fixed word of its control block. -/
theorem KernelOK.poke_vcpu {w : Word} (hk : KernelOK k) (hc : k.vcpus c = some vc)
    (hf : (f = vc.hvmcb ∨ f = vc.hsave ∨ f = vc.state) ∨ f = vc.gvmcb ∧ vmcbFixed i = false) :
    Tame k (k.poke f i w) ∧ ∃ p, k.HasRole (.vcpu c p) f := by
  have hrole : ∀ p, f ∈ vc.part p → k.HasRole (.vcpu c p) f := fun p hp => ⟨vc, hc, hp⟩
  rcases hf with (rfl | rfl | rfl) | ⟨rfl, hi⟩
  · have h := hrole .hvmcb (by simp [Vcpu.part])
    exact ⟨hk.poke_role h (by simp) (by simp) (by simp), _, h⟩
  · have h := hrole .hsave (by simp [Vcpu.part])
    exact ⟨hk.poke_role h (by simp) (by simp) (by simp), _, h⟩
  · have h := hrole .state (by simp [Vcpu.part])
    exact ⟨hk.poke_role h (by simp) (by simp) (by simp), _, h⟩
  · have h := hrole .gvmcb (by simp [Vcpu.part])
    exact ⟨hk.poke_role h (by simp) (fun _ _ => hi) (by simp), _, h⟩

/-- A step of a guest, a processor or a process. -/
theorem GuestsOK.quiet (h : GuestsOK nasid y) (act : GuestAct) (hact : ∀ a, act ≠ .driver a) :
    ∃ y', y.step nasid act = .ok y' ∧ GuestsOK nasid y' ∧ Tame y.sys.k y'.sys.k ∧ y'.sys = { y.sys with k := y'.sys.k } := by
  have hk := h.sys.kernel
  have hsame : GuestsOK nasid y ∧ Tame y.sys.k y.sys.k ∧ y.sys = { y.sys with k := y.sys.k } := ⟨h, .refl hk, rfl⟩
  have htame {k'} (ht : Tame y.sys.k k') : GuestsOK nasid (y.setKernel k') ∧ Tame y.sys.k (y.setKernel k').sys.k ∧
      (y.setKernel k').sys = { y.sys with k := (y.setKernel k').sys.k } := ⟨h.tame ht, ht, rfl⟩
  cases act with
  | driver act => exact absurd rfl (hact act)
  | fill cpu c acc gpa =>
    simp only [Guests.step]
    cases hrun : y.running c with
    | none => exact ⟨y, rfl, hsame⟩
    | some vc =>
      simp only
      cases hw : y.sys.k.walk vc acc gpa with
      | page f => exact ⟨_, rfl, h.fill hrun hw, .refl hk, rfl⟩
      | fault => exact ⟨y, rfl, hsame⟩
      | large f => exact ⟨y, rfl, hsame⟩
  | mark c gpa n a d =>
    simp only [Guests.step]
    cases hrun : y.running c with
    | none => exact ⟨y, rfl, hsame⟩
    | some vc =>
      obtain ⟨v, m, hv, hm, hcr3⟩ := h.table hrun
      simp only [hcr3]
      exact ⟨_, rfl, htame (hk.mark hv hm gpa n a d)⟩
  | evict j => exact ⟨_, rfl, h.drop (List.eraseIdx_subset ..), .refl hk, rfl⟩
  | store c j slot w =>
    simp only [Guests.step]
    cases hrun : y.running c with
    | none => exact ⟨y, rfl, hsame⟩
    | some vc =>
      cases hj : y.tlb[j]? with
      | none => exact ⟨y, rfl, hsame⟩
      | some e =>
        simp only
        split_ifs with htag
        · obtain ⟨hfile, hc⟩ := Guests.running_iff.1 hrun
          exact ⟨_, rfl, htame (hk.poke_leaf (h.coherent e (List.mem_of_getElem? hj) c hfile vc hc htag.1.symm))⟩
        · exact ⟨y, rfl, hsame⟩
  | userStore vm gpa slot w =>
    simp only [Guests.step]
    split_ifs with hfile
    · obtain ⟨v, hv⟩ := h.sys.files vm (Or.inl hfile)
      obtain ⟨m, hm, -, -⟩ := hk.vmm hv
      simp only [deref_some hv, deref_some hm, bind, Except.bind]
      cases hw : hwTranslate y.sys.k.phys.mem m.ncr3 .write gpa with
      | page f => exact ⟨_, rfl, htame (hk.poke_leaf ((hk.maps_iff hv hm .write gpa).1 hw))⟩
      | fault => exact ⟨y, rfl, hsame⟩
      | large f => exact ⟨y, rfl, hsame⟩
    · exact ⟨y, rfl, hsame⟩
  | switch c page slot w =>
    simp only [Guests.step]
    cases hrun : y.running c with
    | none => exact ⟨y, rfl, hsame⟩
    | some vc =>
      simp only
      split_ifs with hf
      · exact ⟨_, rfl, htame (hk.poke_vcpu (Guests.running_iff.1 hrun).2 hf).1⟩
      · exact ⟨y, rfl, hsame⟩

/-- **Every step keeps the invariant.** -/
theorem GuestsOK.step (h : GuestsOK nasid y) (act : GuestAct) :
    y.step nasid act = .error .panic ∨ ∃ y', y.step nasid act = .ok y' ∧ GuestsOK nasid y' := by
  by_cases hact : ∃ a, act = .driver a
  · obtain ⟨a, rfl⟩ := hact
    simp only [Guests.step]
    rcases h.sys.step nasid a with he | ⟨x', hs, hx'⟩
    · rw [he]
      exact Or.inl rfl
    · rw [hs]
      exact Or.inr ⟨_, rfl, h.driver hs hx'⟩
  · obtain ⟨y', hs, h', -⟩ := h.quiet act fun a ha => hact ⟨a, ha⟩
    exact Or.inr ⟨y', hs, h'⟩

theorem Guests.run_ok {act : GuestAct} {acts : List GuestAct} (h : y.step nasid act = .ok y') :
    y.run nasid (act :: acts) = y'.run nasid acts := by
  unfold Guests.run
  exact Runs.foldlM_cons_ok h

theorem Guests.run_error {act : GuestAct} {acts : List GuestAct} {e : Crash} (h : y.step nasid act = .error e) :
    y.run nasid (act :: acts) = .error e := by
  unfold Guests.run
  exact Runs.foldlM_cons_error h

/-- **Every run.** -/
theorem GuestsOK.run (acts : List GuestAct) : ∀ y, GuestsOK nasid y →
    y.run nasid acts = .error .panic ∨ ∃ y', y.run nasid acts = .ok y' ∧ GuestsOK nasid y' := by
  induction acts with
  | nil => exact fun y h => Or.inr ⟨y, rfl, h⟩
  | cons act acts ih =>
    intro y h
    rcases h.step act with he | ⟨y₁, hs, h₁⟩
    · exact Or.inl (Guests.run_error he)
    · rw [Guests.run_ok hs]
      exact ih y₁ h₁

/-! ## The theorems -/

end Yakvm
