import Yakvm.Proof.Lifecycle

/-!
# What a step of the driver leaves alone

No step changes the record of a live vcpu or writes to its pages once it has been made, and the table of a live vm
only gets new entries. An object that appears in a step has a new serial number.

* `Evolves.of_mem`: a step that writes to free pages only.
* `Sys.step_evolves`: each step of the driver.
* `Sys.step_keeps`: a file stays open until it is released.
-/

namespace Yakvm

/-- The guest page ends in this page in the table of a live vm. -/
def Kernel.Maps (k : Kernel) (vm : ℕ) (g : BitVec 36) (f : Frame) : Prop :=
  ∃ v m, k.vms vm = some v ∧ k.vmms v.vmm = some m ∧ g ≠ key mmioHawk ∧
    ∀ gpa, key gpa = g → nodeAt k.phys (vmmPhysToVirt m.ncr3) (path gpa) = some f

/-- Every guest page has an address. -/
theorem key_surjective (g : BitVec 36) : ∃ gpa, key gpa = g := by
  refine ⟨g.setWidth 64 <<< pageShift, ?_⟩
  unfold key pageShift
  apply BitVec.eq_of_toNat_eq
  rw [BitVec.toNat_setWidth, BitVec.toNat_ushiftRight, BitVec.toNat_shiftLeft, BitVec.toNat_setWidth, Nat.shiftLeft_eq,
    Nat.shiftRight_eq_div_pow]
  have := g.isLt
  omega

/-- What a step of the driver does to the objects that were there before it, and to memory: a guest page keeps its page with
the contents, or gets its first one, which is zeroed; pages of the rest of the kernel keep theirs. -/
structure Evolves (k k' : Kernel) : Prop where
  next : k.phys.next ≤ k'.phys.next
  vcpu : ∀ {c vc}, k'.vcpus c = some vc → k.vcpus c = some vc ∨ k.phys.next ≤ c
  pages : ∀ {c vc}, k'.vcpus c = some vc → k.vcpus c = some vc → ∀ f ∈ vc.pages, k'.phys.mem f = k.phys.mem f
  vm : ∀ {o v'}, k'.vms o = some v' → (∃ v m, k.vms o = some v ∧ v'.vmm = v.vmm ∧ k.vmms v.vmm = some m ∧
      k'.vmms v.vmm = some m ∧ ∀ q f, q.length ≤ 4 → nodeAt k.phys (vmmPhysToVirt m.ncr3) q = some f →
        nodeAt k'.phys (vmmPhysToVirt m.ncr3) q = some f) ∨ k.phys.next ≤ o
  leaf : ∀ {o g f}, k'.Maps o g f → k.Maps o g f ∧ k'.phys.mem f = k.phys.mem f ∨ (∀ h, ¬ k.Maps o g h) ∧ k'.phys.mem f = 0
  other : ∀ f ∈ k.phys.pages, (∀ y, ¬ k.Holds y f) → k'.phys.mem f = k.phys.mem f

variable {nasid : BitVec 32} {k k' k'' : Kernel} {o c vm : ℕ} {g : BitVec 36} {f : Frame}

theorem Kernel.Maps.unique {h : Frame} (hf : k.Maps o g f) (hh : k.Maps o g h) : f = h := by
  obtain ⟨v, m, hv, hm, -, hn⟩ := hf
  obtain ⟨v', m', hv', hm', -, hn'⟩ := hh
  obtain rfl := Option.some.inj (hv.symm.trans hv')
  obtain rfl := Option.some.inj (hm.symm.trans hm')
  obtain ⟨gpa, hg⟩ := key_surjective g
  exact Option.some.inj ((hn gpa hg).symm.trans (hn' gpa hg))

theorem Kernel.Maps.live (hk : KernelOK k) (h : k.Maps o g f) : o < k.phys.next := by
  obtain ⟨v, -, hv, -⟩ := h
  exact hk.ids.fresh _ (hk.ids.vm _ v hv).1

/-- What the table of a live vm maps. -/
theorem Kernel.maps_node {v : Vm} {m : Vmm} (hv : k.vms o = some v) (hm : k.vmms v.vmm = some m) {gpa : Word}
    (hne : key gpa ≠ key mmioHawk) : k.Maps o (key gpa) f ↔ nodeAt k.phys (vmmPhysToVirt m.ncr3) (path gpa) = some f := by
  constructor
  · rintro ⟨v', m', hv', hm', -, hn⟩
    obtain rfl := Option.some.inj (hv.symm.trans hv')
    obtain rfl := Option.some.inj (hm.symm.trans hm')
    exact hn gpa rfl
  · exact fun hn => ⟨v, m, hv, hm, hne, fun gpa' hg => by rw [(path_eq_iff _ _).2 hg]; exact hn⟩

theorem Evolves.refl (hk : KernelOK k) : Evolves k k where
  next := le_rfl
  vcpu := Or.inl
  pages := fun _ _ _ _ => rfl
  vm := fun {_ v'} hv => by
    obtain ⟨m, hm, -, -⟩ := hk.vmm hv
    exact Or.inl ⟨v', m, hv, rfl, hm, hm, fun _ _ _ h => h⟩
  leaf := fun h => Or.inl ⟨h, rfl⟩
  other := fun _ _ _ => rfl

/-- What is mapped stays mapped as long as the vm exists. -/
theorem Evolves.maps {v' : Vm} (hk : KernelOK k) (h : Evolves k k') (hm : k.Maps o g f) (hv' : k'.vms o = some v') :
    k'.Maps o g f := by
  have hlt := hm.live hk
  obtain ⟨v, m, hv, hm, hne, hn⟩ := hm
  rcases h.vm hv' with ⟨u, mu, hu, hvmm, hmu, hmu', hgrow⟩ | hnew
  · obtain rfl := Option.some.inj (hu.symm.trans hv)
    obtain rfl := Option.some.inj (hmu.symm.trans hm)
    exact ⟨v', mu, hv', hvmm ▸ hmu', hne, fun gpa hg => hgrow _ _ (path_length gpa).le (hn gpa hg)⟩
  · omega

/-- Serial numbers of live vcpus are below the next one. -/
theorem KernelOK.vcpu_lt {vc : Vcpu} (hk : KernelOK k) (hc : k.vcpus c = some vc) : c < k.phys.next :=
  hk.ids.fresh c (hk.ids.vcpu c vc hc).1

/-- A step that is made after a change of the count of a vm. -/
theorem Evolves.after_setVm {v v' : Vm} (ho : k.vms o = some v) (hv : v'.vmm = v.vmm)
    (h : Evolves { k with vms := Function.update k.vms o (some v') } k') : Evolves k k' := by
  have hvm : ∀ {n u}, Function.update k.vms o (some v') n = some u → ∃ u₀, k.vms n = some u₀ ∧ u.vmm = u₀.vmm := by
    intro n u hu
    by_cases hn : n = o
    · subst hn
      rw [Function.update_self] at hu
      obtain rfl := Option.some.inj hu
      exact ⟨v, ho, hv⟩
    · rw [Function.update_of_ne hn] at hu
      exact ⟨u, hu, rfl⟩
  have hback : ∀ {n u₀}, k.vms n = some u₀ → ∃ u, Function.update k.vms o (some v') n = some u ∧ u.vmm = u₀.vmm := by
    intro n u₀ hu
    by_cases hn : n = o
    · subst hn
      obtain rfl := Option.some.inj (ho.symm.trans hu)
      exact ⟨v', Function.update_self .., hv⟩
    · exact ⟨u₀, by rw [Function.update_of_ne hn, hu], rfl⟩
  have hmaps : ∀ {n g f}, Kernel.Maps { k with vms := Function.update k.vms o (some v') } n g f ↔ k.Maps n g f := by
    intro n g f
    constructor
    · rintro ⟨u, m, hu, hm, hne, hn⟩
      obtain ⟨u₀, hu₀, heq⟩ := hvm hu
      exact ⟨u₀, m, hu₀, heq ▸ hm, hne, hn⟩
    · rintro ⟨u₀, m, hu₀, hm, hne, hn⟩
      obtain ⟨u, hu, heq⟩ := hback hu₀
      exact ⟨u, m, hu, heq ▸ hm, hne, hn⟩
  refine ⟨h.next, h.vcpu, h.pages, fun {n u'} hu' => ?_, fun {n g f} hf => ?_, fun f hf hno => h.other f hf fun y hy => ?_⟩
  · rcases h.vm hu' with ⟨u, m, hu, heq, hm, hm', hgrow⟩ | hnew
    · obtain ⟨u₀, hu₀, heq₀⟩ := hvm hu
      exact Or.inl ⟨u₀, m, hu₀, heq.trans heq₀, heq₀ ▸ hm, heq₀ ▸ hm', hgrow⟩
    · exact Or.inr hnew
  · rcases h.leaf hf with ⟨hold, hmem⟩ | ⟨hnone, hmem⟩
    · exact Or.inl ⟨hmaps.1 hold, hmem⟩
    · exact Or.inr ⟨fun e he => hnone e (hmaps.2 he), hmem⟩
  · cases y with
    | vcpu c => exact hno (.vcpu c) hy
    | vm n =>
      obtain ⟨u, m, q, hu, hm, hq, hn⟩ := hy
      obtain ⟨u₀, hu₀, heq⟩ := hvm hu
      exact hno (.vm n) ⟨u₀, m, q, hu₀, heq ▸ hm, hq, hn⟩

/-- A step that writes to no page that is in use. -/
theorem Evolves.of_mem (hk : KernelOK k) (hnext : k.phys.next ≤ k'.phys.next)
    (hvcpu : ∀ {c vc}, k'.vcpus c = some vc → k.vcpus c = some vc ∨ k.phys.next ≤ c)
    (hvm : ∀ {o v'}, k'.vms o = some v' →
      (∃ v, k.vms o = some v ∧ v'.vmm = v.vmm ∧ k'.vmms v.vmm = k.vmms v.vmm) ∨
        k.phys.next ≤ o ∧ ∀ g f, ¬ k'.Maps o g f)
    (hmem : ∀ f ∈ k.phys.pages, k'.phys.mem f = k.phys.mem f) : Evolves k k' where
  next := hnext
  vcpu := hvcpu
  pages := fun _ hc f hf => hmem f (hk.live (x := .vcpu _) ⟨_, hc, hf⟩)
  vm := fun hv' => by
    rcases hvm hv' with ⟨v, hv, heq, hmm⟩ | hnew
    · obtain ⟨m, hm, hok, -⟩ := hk.vmm hv
      refine Or.inl ⟨v, m, hv, heq, hm, hmm.trans hm, fun q f hq hn => ?_⟩
      rw [nodeAt_congr (fun p n hp hn => hmem n (hok.live p n hp.le hn)) q hq]
      exact hn
    · exact Or.inr hnew.1
  leaf := fun {o g f} hf => by
    obtain ⟨v', m', hv', hm', hne, hn⟩ := hf
    rcases hvm hv' with ⟨v, hv, heq, hmm⟩ | ⟨-, hnone⟩
    · obtain ⟨m, hm, hok, -⟩ := hk.vmm hv
      rw [heq, hmm] at hm'
      obtain rfl := Option.some.inj (hm.symm.trans hm')
      have hold : ∀ gpa, key gpa = g → nodeAt k.phys (vmmPhysToVirt m.ncr3) (path gpa) = some f := fun gpa hg => by
        rw [← hn gpa hg, nodeAt_congr (fun p n hp hn => hmem n (hok.live p n hp.le hn)) _ (path_length gpa).le]
      obtain ⟨gpa, hg⟩ := key_surjective g
      exact Or.inl ⟨⟨v, m, hv, hm, hne, hold⟩, hmem f (hok.live _ _ (path_length gpa).le (hold gpa hg))⟩
    · exact absurd ⟨v', m', hv', hm', hne, hn⟩ (hnone g f)
  other := fun f hf _ => hmem f hf

/-- A change of the count or the vcpu of a vm. -/
theorem Evolves.setVm {v v' : Vm} (hk : KernelOK k) (ho : k.vms o = some v) (hv : v'.vmm = v.vmm) :
    Evolves k { k with vms := Function.update k.vms o (some v') } := by
  refine Evolves.of_mem hk le_rfl Or.inl (fun {n u} hu => ?_) fun _ _ => rfl
  by_cases hn : n = o
  · subst hn
    simp only [Function.update_self, Option.some.injEq] at hu
    exact Or.inl ⟨v, ho, by rw [← hu, hv], rfl⟩
  · simp only [Function.update_of_ne hn] at hu
    exact Or.inl ⟨u, hu, rfl, rfl⟩

/-! ## The routines of the driver -/

theorem kfree_same {s s' : Phys} (h : s.kfree o = .ok s') : s'.mem = s.mem ∧ s'.next = s.next := by
  unfold Phys.kfree at h
  split at h
  · obtain rfl := Except.ok.inj h
    exact ⟨rfl, rfl⟩
  · cases h

theorem createVm_evolves {a : VmAsk} {r : Except Errno ℕ} (hk : KernelOK k) (h : createVm a k = .ok (r, k')) :
    Evolves k k' := by
  unfold createVm at h
  by_cases hvm : a.vm.isSome = true
  · simp only [Phys.kmalloc, hvm, if_true] at h
    obtain ⟨⟨r', s'⟩, hvmm, h⟩ := bind_eq_ok.1 h
    rcases createVmm_spec a.vmm { k.phys with slab := insert k.phys.next k.phys.slab, next := k.phys.next + 1 } with
      ⟨n, m, s, he, hfresh⟩ | ⟨s, he, hfail⟩
    · obtain ⟨rfl, rfl⟩ := Prod.mk.inj (Except.ok.inj (he.symm.trans hvmm))
      obtain ⟨rfl, rfl⟩ := Prod.mk.inj (Except.ok.inj h)
      have hslab := hfresh.slab
      refine Evolves.of_mem hk (by simp only at hslab ⊢; omega) Or.inl (fun {o v} hv => ?_) fun f hf => hfresh.mem f hf
      by_cases ho : o = k.phys.next
      · refine Or.inr ⟨ho.ge, ?_⟩
        rintro g f ⟨v', m', hv', hm', hne, hn⟩
        subst ho
        simp only [Function.update_self, Option.some.injEq] at hv'
        subst hv'
        simp only [Function.update_self, Option.some.injEq] at hm'
        subst hm'
        -- a new table has the hidden page only
        obtain ⟨gpa, hg⟩ := key_surjective g
        have hpath := (hfresh.only _ _ (path_length gpa).le (hn gpa hg)).eq_of_length (by rw [path_length, path_length])
        exact hne (hg ▸ (path_eq_iff _ _).1 hpath)
      · simp only [Function.update_of_ne ho] at hv
        obtain ⟨-, -, -, hin⟩ := hk.vmm hv
        have hlt := hk.ids.fresh _ hin
        exact Or.inl ⟨v, hv, rfl, Function.update_of_ne (by simp only at hslab; omega) _ _⟩
    · obtain ⟨rfl, rfl⟩ := Prod.mk.inj (Except.ok.inj (he.symm.trans hvmm))
      obtain ⟨s'', hfree, h⟩ := bind_eq_ok.1 h
      obtain ⟨-, rfl⟩ := Prod.mk.inj (Except.ok.inj h)
      obtain ⟨hmem, hnext'⟩ := kfree_same hfree
      have hnext : k.phys.next + 1 ≤ s.next := hfail.next
      exact Evolves.of_mem hk (by rw [show s''.next = s.next from hnext']; omega) Or.inl (fun hv => Or.inl ⟨_, hv, rfl, rfl⟩)
        fun f hf => (congrFun hmem f).trans (hfail.mem f hf)
  · simp only [Phys.kmalloc, hvm, Bool.false_eq_true, if_false] at h
    obtain ⟨-, rfl⟩ := Prod.mk.inj (Except.ok.inj h)
    exact Evolves.refl hk

theorem createVcpu_evolves {a : VcpuAsk} {r : Except Errno ℕ} (hk : KernelOK k) (h : createVcpu nasid a vm k = .ok (r, k')) :
    Evolves k k' := by
  rcases createVcpu_cases nasid a vm k with ⟨-, s, hback, he⟩ | ⟨-, vc, s, -, hall, he⟩
  · obtain ⟨-, rfl⟩ := Prod.mk.inj (Except.ok.inj (he.symm.trans h))
    exact Evolves.of_mem hk hback.next Or.inl (fun hv => Or.inl ⟨_, hv, rfl, rfl⟩) fun f hf => (hback.kept f hf).1
  · rw [he] at h
    obtain ⟨v, -, h⟩ := bind_eq_ok.1 h
    obtain ⟨m, -, h⟩ := bind_eq_ok.1 h
    obtain ⟨⟨asid, s'⟩, hinit, h⟩ := bind_eq_ok.1 h
    obtain ⟨-, rfl⟩ := Prod.mk.inj (Except.ok.inj h)
    obtain ⟨asid', s'', hinit', ht, -⟩ := (vcpuInitVmcb_spec nasid vc m.ncr3 k.asid s).resolve_left (by rw [hinit]; simp)
    obtain ⟨rfl, rfl⟩ := Prod.mk.inj (Except.ok.inj (hinit'.symm.trans hinit))
    have hfree : ∀ f ∈ k.phys.pages, f ∉ [vc.gvmcb, vc.iopm] := by
      intro f hf hmem
      refine hall.extra.free f ?_ hf
      rw [vc.pages_perm.mem_iff]
      simp only [List.mem_cons, List.not_mem_nil, or_false] at hmem
      rcases hmem with rfl | rfl
      · exact vc.gvmcb_mem
      · exact vc.iopm_mem
    refine Evolves.of_mem hk ?_ (fun {c u} hc => ?_) (fun hv => Or.inl ⟨_, hv, rfl, rfl⟩) fun f hf => ?_
    · have := ht.next.trans hall.extra.next
      simp only at this ⊢
      omega
    · by_cases hcn : c = k.phys.next
      · exact Or.inr hcn.ge
      · simp only [Function.update_of_ne hcn] at hc
        exact Or.inl hc
    · rw [ht.mem f (hfree f hf)]
      exact hall.extra.mem f hf

theorem destroyVcpu_evolves (hk : KernelOK k) (h : destroyVcpu c k = .ok k') : Evolves k k' := by
  cases hc : k.vcpus c with
  | none =>
    unfold destroyVcpu deref at h
    rw [hc] at h
    cases h
  | some vc =>
    obtain ⟨hnd, hlive, -⟩ := hk.valid (.vcpu c) vc hc
    have he := destroyVcpu_eq hc hnd hlive (hk.ids.vcpu c vc hc).1
    obtain rfl := Except.ok.inj (he.symm.trans h)
    exact Evolves.of_mem hk le_rfl (fun hu => Or.inl (update_none_eq_some.1 hu).2) (fun hv => Or.inl ⟨_, hv, rfl, rfl⟩)
      fun _ _ => rfl

theorem destroyVm_evolves {v : Vm} (hk : KernelOK k) (ho : k.vms o = some v)
    (hvcpu : ∀ c, v.vcpu = some c → ∃ vc, k.vcpus c = some vc) (h : destroyVm o k = .ok k') : Evolves k k' := by
  obtain ⟨k₁, he, hvms, hvmms, hvcpus, hmem, hnext, -, -⟩ := destroyVm_eq hk ho hvcpu
  obtain rfl := Except.ok.inj (he.symm.trans h)
  refine Evolves.of_mem hk hnext.ge (fun hu => ?_) (fun {n u} hu => ?_) fun f _ => by rw [hmem]
  · rw [hvcpus, dropVcpu_eq_some] at hu
    exact Or.inl hu.2
  · rw [hvms, update_none_eq_some] at hu
    have hne : u.vmm ≠ v.vmm := fun heq => hu.1 (hk.ids.inj _ _ _ _ hu.2 ho heq)
    exact Or.inl ⟨u, hu.2, rfl, by rw [hvmms, Function.update_of_ne hne]⟩

theorem putVm_evolves {v : Vm} (hk : KernelOK k) (ho : k.vms o = some v)
    (hvcpu : ∀ c, v.vcpu = some c → ∃ vc, k.vcpus c = some vc) (h : putVm o k = .ok k') : Evolves k k' := by
  unfold putVm at h
  simp only [deref_some ho, bind, Except.bind] at h
  by_cases hzero : v.refcount - 1 = 0
  · rw [if_pos hzero] at h
    have hk' : KernelOK { k with vms := Function.update k.vms o (some { v with refcount := v.refcount - 1 }) } := hk.setVm ho rfl
    have hvmm : ({ v with refcount := v.refcount - 1 } : Vm).vmm = v.vmm := rfl
    exact (destroyVm_evolves hk' (Function.update_self ..) hvcpu h).after_setVm ho hvmm
  · rw [if_neg hzero] at h
    obtain rfl := Except.ok.inj h
    exact Evolves.setVm hk ho rfl

theorem setVcpu_evolves {d : Option ℕ} (hk : KernelOK k) (h : setVcpu vm d k = .ok k') : Evolves k k' := by
  obtain ⟨v, hv, h⟩ := bind_eq_ok.1 h
  obtain rfl := Except.ok.inj h
  unfold deref at hv
  cases ho : k.vms vm with
  | none => rw [ho] at hv; cases hv
  | some u =>
    rw [ho] at hv
    obtain rfl := Except.ok.inj hv
    exact Evolves.setVm hk ho rfl

theorem getVm_evolves (hk : KernelOK k) (h : getVm vm k = .ok k') : Evolves k k' := by
  obtain ⟨v, hv, h⟩ := bind_eq_ok.1 h
  obtain rfl := Except.ok.inj h
  unfold deref at hv
  cases ho : k.vms vm with
  | none => rw [ho] at hv; cases hv
  | some u =>
    rw [ho] at hv
    obtain rfl := Except.ok.inj hv
    exact Evolves.setVm hk ho rfl

/-- A page request adds tables and pages to one vm. -/
theorem Evolves.grow {v : Vm} {m : Vmm} {w : List Slot} {s' : Phys} (hk : KernelOK k) (ho : k.vms o = some v)
    (hm : k.vmms v.vmm = some m) (hg : Grow (vmmPhysToVirt m.ncr3) w k.phys s') : Evolves k { k with phys := s' } := by
  obtain ⟨m', hm', hok, -⟩ := hk.vmm ho
  obtain rfl : m' = m := Option.some.inj (hm'.symm.trans hm)
  -- pages of other objects are not tables of this one
  have hkept : ∀ x f, x ≠ .vm o → k.Holds x f → s'.mem f = k.phys.mem f := fun x f hx hf =>
    hg.mem_other hok (hk.live hf) fun p hp hn => hx (hk.apart x (.vm o) f hf ⟨v, m', p, ho, hm, hp.le, hn⟩)
  have hother : ∀ {n u mu}, n ≠ o → k.vms n = some u → k.vmms u.vmm = some mu → ∀ q, q.length ≤ 4 →
      nodeAt s' (vmmPhysToVirt mu.ncr3) q = nodeAt k.phys (vmmPhysToVirt mu.ncr3) q := fun {n u mu} hno hu hmu q hq =>
    nodeAt_congr (fun p g hp hg' => hkept (.vm n) g (by simpa using hno) ⟨u, mu, p, hu, hmu, hp.le, hg'⟩) q hq
  refine ⟨hg.slab.2.ge, Or.inl, fun _ hc f hf => hkept (.vcpu _) f (by simp) ⟨_, hc, hf⟩, fun {n u} hu => ?_, ?_,
    fun f hf hno => hg.mem_other hok hf fun p hp hn => hno (.vm o) ⟨v, m', p, ho, hm, hp.le, hn⟩⟩
  · obtain ⟨mu, hmu, -, -⟩ := hk.vmm hu
    refine Or.inl ⟨u, mu, hu, rfl, hmu, hmu, fun q f hq hn => ?_⟩
    by_cases hno : n = o
    · subst hno
      obtain rfl := Option.some.inj (hu.symm.trans ho)
      obtain rfl := Option.some.inj (hmu.symm.trans hm)
      exact hg.mono hok hq hn
    · exact (hother hno hu hmu q hq).trans hn
  · rintro n g f ⟨u, mu, hu, hmu, hne, hn⟩
    obtain ⟨gpa, rfl⟩ := key_surjective g
    have hn' := hn gpa rfl
    replace hu : k.vms n = some u := hu
    replace hmu : k.vmms u.vmm = some mu := hmu
    by_cases hno : n = o
    · subst hno
      obtain rfl := Option.some.inj (hu.symm.trans ho)
      obtain rfl := Option.some.inj (hmu.symm.trans hm)
      cases h0 : nodeAt k.phys (vmmPhysToVirt mu.ncr3) (path gpa) with
      | none =>
        refine Or.inr ⟨fun e he => ?_, hg.leaf_zero hok (path_length gpa) h0 hn'⟩
        rw [Kernel.maps_node hu hmu hne, h0] at he
        cases he
      | some e =>
        obtain rfl := Option.some.inj ((hg.mono hok (path_length gpa).le h0).symm.trans hn')
        refine Or.inl ⟨(Kernel.maps_node hu hmu hne).2 h0, ?_⟩
        -- a leaf is no table of the tree
        refine hg.mem_other hok (hok.live _ _ (path_length gpa).le h0) fun p hp hpn => ?_
        have heq := hok.tree p (path gpa) e hp.le (path_length gpa).le hpn h0
        rw [heq, path_length] at hp
        omega
    · have h0 := (hother hno hu hmu _ (path_length gpa).le).symm.trans hn'
      exact Or.inl ⟨(Kernel.maps_node hu hmu hne).2 h0, hkept (.vm n) f (by simpa using hno)
        ⟨u, mu, path gpa, hu, hmu, (path_length gpa).le, h0⟩⟩

/-! ## Steps and runs -/

variable {x x' : Sys}

/-- One step of a request. -/
theorem Req.advance_evolves {i : ℕ} {r : Req} {a : VcpuAsk} {fd : Bool} {stage : Stage} (h : SysOK x)
    (hi : x.reqs[i]? = some r) (hadv : r.advance nasid a fd x = .ok (stage, x')) : Evolves x.k x'.k := by
  have hk := h.kernel
  unfold Req.advance at hadv
  cases hst : r.stage with
  | start =>
    simp only [hst] at hadv
    obtain ⟨⟨c, k'⟩, hc, hadv⟩ := bind_eq_ok.1 hadv
    have hev := createVcpu_evolves hk hc
    cases c <;> (obtain ⟨-, rfl⟩ := Prod.mk.inj (Except.ok.inj hadv); exact hev)
  | allocated c =>
    simp only [hst] at hadv
    obtain ⟨v, -, hadv⟩ := bind_eq_ok.1 hadv
    split at hadv
    · obtain ⟨-, rfl⟩ := Prod.mk.inj (Except.ok.inj hadv)
      exact Evolves.refl hk
    · obtain ⟨k', hset, hadv⟩ := bind_eq_ok.1 hadv
      obtain ⟨-, rfl⟩ := Prod.mk.inj (Except.ok.inj hadv)
      exact setVcpu_evolves hk hset
  | published c =>
    simp only [hst] at hadv
    obtain ⟨k', hget, hadv⟩ := bind_eq_ok.1 hadv
    obtain ⟨-, rfl⟩ := Prod.mk.inj (Except.ok.inj hadv)
    exact getVm_evolves hk hget
  | got c =>
    simp only [hst] at hadv
    split at hadv <;> (obtain ⟨-, rfl⟩ := Prod.mk.inj (Except.ok.inj hadv); exact Evolves.refl hk)
  | failed c =>
    simp only [hst] at hadv
    obtain ⟨k', hset, hadv⟩ := bind_eq_ok.1 hadv
    obtain ⟨-, rfl⟩ := Prod.mk.inj (Except.ok.inj hadv)
    exact setVcpu_evolves hk hset
  | cleared c =>
    simp only [hst] at hadv
    obtain ⟨x₁, hput, hadv⟩ := bind_eq_ok.1 hadv
    obtain ⟨-, rfl⟩ := Prod.mk.inj (Except.ok.inj hadv)
    obtain ⟨k', hp, hx⟩ := bind_eq_ok.1 hput
    obtain rfl := Except.ok.inj hx
    obtain ⟨v, hv⟩ := h.reqVm hi (by rw [hst]; simp)
    exact putVm_evolves hk hv (fun d hd => (h.vcpu _ _ _ hv hd).imp fun _ => And.left) hp
  | put c =>
    simp only [hst] at hadv
    obtain ⟨k', hd, hadv⟩ := bind_eq_ok.1 hadv
    obtain ⟨-, rfl⟩ := Prod.mk.inj (Except.ok.inj hadv)
    exact destroyVcpu_evolves hk hd
  | refused c =>
    simp only [hst] at hadv
    obtain ⟨k', hd, hadv⟩ := bind_eq_ok.1 hadv
    obtain ⟨-, rfl⟩ := Prod.mk.inj (Except.ok.inj hadv)
    exact destroyVcpu_evolves hk hd
  | finished =>
    simp only [hst] at hadv
    obtain ⟨-, rfl⟩ := Prod.mk.inj (Except.ok.inj hadv)
    exact Evolves.refl hk

/-- A reference to a vm is dropped. -/
theorem Sys.put_evolves {v : Vm} (h : SysOK x) (hv : x.k.vms o = some v) (hput : x.put o = .ok x') : Evolves x.k x'.k := by
  obtain ⟨k', hp, hx⟩ := bind_eq_ok.1 hput
  obtain rfl := Except.ok.inj hx
  exact putVm_evolves h.kernel hv (fun d hd => (h.vcpu _ _ _ hv hd).imp fun _ => And.left) hp

/-- **Each step of the driver**, whatever requests are in flight. -/
theorem Sys.step_evolves {act : Act} (h : SysOK x) (hs : x.step nasid act = .ok x') : Evolves x.k x'.k := by
  have hk := h.kernel
  cases act with
  | createVm a =>
    obtain ⟨⟨r, k'⟩, hc, hs⟩ := bind_eq_ok.1 hs
    have hev := createVm_evolves hk hc
    cases r <;> (obtain rfl := Except.ok.inj hs; exact hev)
  | openVm vm fd =>
    simp only [Sys.step] at hs
    split at hs
    case isTrue ho =>
      obtain ⟨v, hv⟩ := h.files vm (Or.inr ho)
      split at hs
      · obtain rfl := Except.ok.inj hs
        exact Evolves.refl hk
      · obtain ⟨k', hd, hs⟩ := bind_eq_ok.1 hs
        obtain rfl := Except.ok.inj hs
        exact destroyVm_evolves hk hv (fun d hd => (h.vcpu _ _ _ hv hd).imp fun _ => And.left) hd
    case isFalse =>
      obtain rfl := Except.ok.inj hs
      exact Evolves.refl hk
  | request vm =>
    simp only [Sys.step] at hs
    split at hs <;> (obtain rfl := Except.ok.inj hs; exact Evolves.refl hk)
  | advance i a fd =>
    simp only [Sys.step] at hs
    cases hi : x.reqs[i]? with
    | none =>
      simp only [hi] at hs
      obtain rfl := Except.ok.inj hs
      exact Evolves.refl hk
    | some r =>
      simp only [hi] at hs
      obtain ⟨⟨stage, x₁⟩, hadv, hs⟩ := bind_eq_ok.1 hs
      obtain rfl := Except.ok.inj hs
      exact (Req.advance_evolves h hi hadv :)
  | closeVm vm =>
    simp only [Sys.step] at hs
    split at hs
    case isTrue ho =>
      obtain ⟨v, hv⟩ := h.files vm (Or.inl ho.1)
      obtain ⟨x₁, hput, hs⟩ := bind_eq_ok.1 hs
      obtain rfl := Except.ok.inj hs
      exact (Sys.put_evolves h hv hput :)
    case isFalse =>
      obtain rfl := Except.ok.inj hs
      exact Evolves.refl hk
  | closeVcpu c =>
    simp only [Sys.step] at hs
    split at hs
    case isTrue hc =>
      obtain ⟨vc, v, hvc, hv, -⟩ := h.vcpuFile c hc
      simp only [deref_some hvc, bind, Except.bind] at hs
      obtain ⟨x₁, hput, hs⟩ := bind_eq_ok.1 hs
      obtain rfl := Except.ok.inj hs
      exact (Sys.put_evolves h hv hput :)
    case isFalse =>
      obtain rfl := Except.ok.inj hs
      exact Evolves.refl hk
  | mmapPage vm gpa ask =>
    simp only [Sys.step] at hs
    split at hs
    case isTrue ho =>
      obtain ⟨v, hv⟩ := h.files vm (Or.inl ho)
      obtain ⟨m, hm, hok, -⟩ := hk.vmm hv
      simp only [deref_some hv, deref_some hm, bind, Except.bind] at hs
      rcases vmIoctlMmapPage_cases hok gpa ask with he | ⟨r, s', he, hg⟩
      · rw [he] at hs
        cases hs
      · rw [he] at hs
        obtain rfl := Except.ok.inj hs
        exact Evolves.grow hk hv hm hg
    case isFalse =>
      obtain rfl := Except.ok.inj hs
      exact Evolves.refl hk
  | fault vm address vmStart ask =>
    simp only [Sys.step] at hs
    split at hs
    case isTrue ho =>
      obtain ⟨v, hv⟩ := h.files vm (Or.inl ho)
      obtain ⟨m, hm, hok, -⟩ := hk.vmm hv
      simp only [deref_some hv, deref_some hm, bind, Except.bind] at hs
      rcases vmVmmFault_cases hok address vmStart ask with he | ⟨r, s', he, hg⟩
      · rw [he] at hs
        cases hs
      · rw [he] at hs
        obtain rfl := Except.ok.inj hs
        exact Evolves.grow hk hv hm hg
    case isFalse =>
      obtain rfl := Except.ok.inj hs
      exact Evolves.refl hk

/-- The files that are open stay open, but for the one that a step releases. -/
structure Sys.Keeps (act : Act) (x x' : Sys) : Prop where
  vm : ∀ o ∈ x.vmFiles, act ≠ .closeVm o → o ∈ x'.vmFiles
  vcpu : ∀ c ∈ x.vcpuFiles, act ≠ .closeVcpu c → c ∈ x'.vcpuFiles

/-- **A file is open until it is released.** -/
theorem Sys.step_keeps {act : Act} (hs : x.step nasid act = .ok x') : Sys.Keeps act x x' := by
  have hput : ∀ {o : ℕ} {x₁ x₂ : Sys}, x₁.put o = .ok x₂ → x₂.vmFiles = x₁.vmFiles ∧ x₂.vcpuFiles = x₁.vcpuFiles := by
    intro o x₁ x₂ hp
    obtain ⟨k', -, hx⟩ := bind_eq_ok.1 hp
    obtain rfl := Except.ok.inj hx
    exact ⟨rfl, rfl⟩
  have hsub : ∀ {x₁ : Sys}, x.vmFiles ⊆ x₁.vmFiles → x.vcpuFiles ⊆ x₁.vcpuFiles → Sys.Keeps act x x₁ := fun hv hc =>
    ⟨fun _ ho _ => hv ho, fun _ ho _ => hc ho⟩
  have hsame : ∀ {x₁ : Sys}, x₁.vmFiles = x.vmFiles → x₁.vcpuFiles = x.vcpuFiles → Sys.Keeps act x x₁ := fun hv hc =>
    hsub hv.symm.subset hc.symm.subset
  cases act with
  | createVm a =>
    obtain ⟨⟨r, k'⟩, -, hs⟩ := bind_eq_ok.1 hs
    cases r <;> (obtain rfl := Except.ok.inj hs; exact hsame rfl rfl)
  | openVm vm fd =>
    simp only [Sys.step] at hs
    split at hs
    · split at hs
      · obtain rfl := Except.ok.inj hs
        exact hsub (Finset.subset_insert ..) (Finset.Subset.refl _)
      · obtain ⟨k', -, hs⟩ := bind_eq_ok.1 hs
        obtain rfl := Except.ok.inj hs
        exact hsame rfl rfl
    · obtain rfl := Except.ok.inj hs
      exact hsame rfl rfl
  | request vm =>
    simp only [Sys.step] at hs
    split at hs <;> (obtain rfl := Except.ok.inj hs; exact hsame rfl rfl)
  | advance i a fd =>
    simp only [Sys.step] at hs
    cases hi : x.reqs[i]? with
    | none =>
      simp only [hi] at hs
      obtain rfl := Except.ok.inj hs
      exact hsame rfl rfl
    | some r =>
      simp only [hi] at hs
      obtain ⟨⟨stage, x₁⟩, hadv, hs⟩ := bind_eq_ok.1 hs
      obtain rfl := Except.ok.inj hs
      unfold Req.advance at hadv
      cases hst : r.stage with
      | start =>
        simp only [hst] at hadv
        obtain ⟨⟨d, k'⟩, -, hadv⟩ := bind_eq_ok.1 hadv
        cases d <;> (obtain ⟨-, rfl⟩ := Prod.mk.inj (Except.ok.inj hadv); exact hsame rfl rfl)
      | allocated d =>
        simp only [hst] at hadv
        obtain ⟨v, -, hadv⟩ := bind_eq_ok.1 hadv
        split at hadv
        · obtain ⟨-, rfl⟩ := Prod.mk.inj (Except.ok.inj hadv)
          exact hsame rfl rfl
        · obtain ⟨k', -, hadv⟩ := bind_eq_ok.1 hadv
          obtain ⟨-, rfl⟩ := Prod.mk.inj (Except.ok.inj hadv)
          exact hsame rfl rfl
      | published d | failed d | put d | refused d =>
        simp only [hst] at hadv
        obtain ⟨k', -, hadv⟩ := bind_eq_ok.1 hadv
        obtain ⟨-, rfl⟩ := Prod.mk.inj (Except.ok.inj hadv)
        exact hsame rfl rfl
      | got d =>
        simp only [hst] at hadv
        split at hadv
        · obtain ⟨-, rfl⟩ := Prod.mk.inj (Except.ok.inj hadv)
          exact hsub (Finset.Subset.refl _) (Finset.subset_insert ..)
        · obtain ⟨-, rfl⟩ := Prod.mk.inj (Except.ok.inj hadv)
          exact hsame rfl rfl
      | cleared d =>
        simp only [hst] at hadv
        obtain ⟨x₂, hp, hadv⟩ := bind_eq_ok.1 hadv
        obtain ⟨-, rfl⟩ := Prod.mk.inj (Except.ok.inj hadv)
        exact hsame (hput hp).1 (hput hp).2
      | finished =>
        simp only [hst] at hadv
        obtain ⟨-, rfl⟩ := Prod.mk.inj (Except.ok.inj hadv)
        exact hsame rfl rfl
  | closeVm vm =>
    simp only [Sys.step] at hs
    split at hs
    · obtain ⟨x₁, hp, hs⟩ := bind_eq_ok.1 hs
      obtain rfl := Except.ok.inj hs
      refine ⟨fun o ho hact => Finset.mem_erase.2 ⟨?_, (hput hp).1.symm ▸ ho⟩, fun c hc _ => (hput hp).2.symm ▸ hc⟩
      rintro rfl
      exact hact rfl
    · obtain rfl := Except.ok.inj hs
      exact hsame rfl rfl
  | closeVcpu d =>
    simp only [Sys.step] at hs
    split at hs
    · obtain ⟨vc, -, hs⟩ := bind_eq_ok.1 hs
      obtain ⟨x₁, hp, hs⟩ := bind_eq_ok.1 hs
      obtain rfl := Except.ok.inj hs
      refine ⟨fun o ho _ => (hput hp).1.symm ▸ ho, fun c hc hact => Finset.mem_erase.2 ⟨?_, (hput hp).2.symm ▸ hc⟩⟩
      rintro rfl
      exact hact rfl
    · obtain rfl := Except.ok.inj hs
      exact hsame rfl rfl
  | mmapPage vm gpa ask =>
    simp only [Sys.step] at hs
    split at hs
    · obtain ⟨v, -, hs⟩ := bind_eq_ok.1 hs
      obtain ⟨m, -, hs⟩ := bind_eq_ok.1 hs
      obtain ⟨r, -, hs⟩ := bind_eq_ok.1 hs
      obtain rfl := Except.ok.inj hs
      exact hsame rfl rfl
    · obtain rfl := Except.ok.inj hs
      exact hsame rfl rfl
  | fault vm address vmStart ask =>
    simp only [Sys.step] at hs
    split at hs
    · obtain ⟨v, -, hs⟩ := bind_eq_ok.1 hs
      obtain ⟨m, -, hs⟩ := bind_eq_ok.1 hs
      obtain ⟨r, -, hs⟩ := bind_eq_ok.1 hs
      obtain rfl := Except.ok.inj hs
      exact hsame rfl rfl
    · obtain rfl := Except.ok.inj hs
      exact hsame rfl rfl

end Yakvm
