import Yakvm.Proof.Unwind

/-!
# What the driver has allocated

Every page and object that is allocated belongs to a live vm or vcpu, every vcpu is shown by its vm or held by the
request that made it, and a request that returns leaves it so. The only step after which this fails is a
`YAKVM_CREATE_VM` that had begun the table of the MMIO page: its pages stay allocated for good.

* `Accounted.change`: what a step has to show.
* `Sys.Owned`: who holds the vcpus.
* `leak_free_iff`: the runs after which every page has an owner.
* `all_returned`: what is left when all files are closed.
-/

namespace Yakvm

variable {nasid : BitVec 32} {k k' : Kernel} {o c n vm : ℕ} {f : Frame} {base : Finset Frame}

/-- An object is live. -/
def Kernel.Live (k : Kernel) (n : ℕ) : Prop :=
  (∃ v, k.vms n = some v) ∨ (∃ m, k.vmms n = some m) ∨ ∃ vc, k.vcpus n = some vc

/-- Everything that is allocated has an owner, except the pages `base`, which have none. -/
structure Accounted (base : Finset Frame) (k : Kernel) : Prop where
  kept : ∀ f ∈ base, f ∈ k.phys.pages ∧ ∀ y, ¬ k.Holds y f
  pages : ∀ f ∈ k.phys.pages, f ∈ base ∨ ∃ y, k.Holds y f
  slab : ∀ n ∈ k.phys.slab, k.Live n
  vmm : ∀ n m, k.vmms n = some m → ∃ o v, k.vms o = some v ∧ v.vmm = n

/-- A step that keeps the pages of what it keeps, and gives an owner to what it allocates. -/
theorem Accounted.change (h : Accounted base k) (hbase : ∀ f ∈ base, f ∈ k'.phys.pages)
    (hold : ∀ y f, k.Holds y f → f ∈ k'.phys.pages → ∃ z, k'.Holds z f)
    (hnew : ∀ f ∈ k'.phys.pages, f ∈ k.phys.pages ∨ ∃ y, k'.Holds y f)
    (hfresh : ∀ y f, k'.Holds y f → k.Holds y f ∨ f ∉ k.phys.pages) (hslab : ∀ n ∈ k'.phys.slab, k'.Live n)
    (hvmm : ∀ n m, k'.vmms n = some m → ∃ o v, k'.vms o = some v ∧ v.vmm = n) : Accounted base k' where
  kept := fun f hf => by
    refine ⟨hbase f hf, fun y hy => ?_⟩
    rcases hfresh y f hy with hy' | hfree
    · exact (h.kept f hf).2 y hy'
    · exact hfree (h.kept f hf).1
  pages := fun f hf => by
    rcases hnew f hf with hf' | hy
    · rcases h.pages f hf' with hb | ⟨y, hy⟩
      · exact Or.inl hb
      · exact Or.inr (hold y f hy hf)
    · exact Or.inr hy
  slab := hslab
  vmm := hvmm

/-- The pages of a vm whose table has not been written to. -/
theorem KernelOK.holds_vm_congr {v v' : Vm} (hk : KernelOK k) (ho : k.vms o = some v) (ho' : k'.vms o = some v')
    (hv : v'.vmm = v.vmm) (hm : k'.vmms v.vmm = k.vmms v.vmm) (hmem : ∀ f ∈ k.phys.pages, k'.phys.mem f = k.phys.mem f) :
    k'.Holds (.vm o) f ↔ k.Holds (.vm o) f := by
  obtain ⟨m, hmk, hok, -⟩ := hk.vmm ho
  have hmk' : k'.vmms v'.vmm = some m := by rw [hv, hm, hmk]
  rw [KernelOK.holds_vm ho' hmk', KernelOK.holds_vm ho hmk]
  have heq := nodeAt_congr (s := k.phys) (fun p n hp hn => hmem n (hok.live p n hp.le hn))
  constructor
  · rintro ⟨q, hq, hn⟩
    exact ⟨q, hq, by rw [← heq q hq]; exact hn⟩
  · rintro ⟨q, hq, hn⟩
    exact ⟨q, hq, by rw [heq q hq]; exact hn⟩

/-- The objects and their pages stay as they are. -/
theorem holds_same (hk : KernelOK k) (hvms : ∀ o, (k'.vms o).map Vm.vmm = (k.vms o).map Vm.vmm) (hvmms : k'.vmms = k.vmms)
    (hvcpus : k'.vcpus = k.vcpus) (hmem : ∀ f ∈ k.phys.pages, k'.phys.mem f = k.phys.mem f) (y : Owner) (f : Frame) :
    k'.Holds y f ↔ k.Holds y f := by
  cases y with
  | vcpu c => simp only [Kernel.Holds, hvcpus]
  | vm o =>
    have hmap := hvms o
    cases ho : k.vms o with
    | none =>
      rw [ho, Option.map_none, Option.map_eq_none_iff] at hmap
      simp only [Kernel.Holds, ho, hmap, reduceCtorEq, false_and, exists_false]
    | some v =>
      rw [ho, Option.map_some, Option.map_eq_some_iff] at hmap
      obtain ⟨v', ho', hv⟩ := hmap
      exact hk.holds_vm_congr ho ho' hv (by rw [hvmms]) hmem

theorem Accounted.same (h : Accounted base k) (hk : KernelOK k) (hvms : ∀ o, (k'.vms o).map Vm.vmm = (k.vms o).map Vm.vmm)
    (hvmms : k'.vmms = k.vmms) (hvcpus : k'.vcpus = k.vcpus) (hpages : k'.phys.pages = k.phys.pages)
    (hslab : k'.phys.slab = k.phys.slab) (hmem : ∀ f ∈ k.phys.pages, k'.phys.mem f = k.phys.mem f) : Accounted base k' := by
  have hiff := holds_same hk hvms hvmms hvcpus hmem
  refine h.change (fun f hf => hpages ▸ (h.kept f hf).1) (fun y f hy _ => ⟨y, (hiff y f).2 hy⟩) (fun f hf => Or.inl (hpages ▸ hf))
    (fun y f hy => Or.inl ((hiff y f).1 hy)) (fun n hn => ?_) (fun n m hm => ?_)
  · rcases h.slab n (hslab ▸ hn) with ⟨v, hv⟩ | ⟨m, hm⟩ | ⟨vc, hvc⟩
    · have hmap := hvms n
      rw [hv, Option.map_some, Option.map_eq_some_iff] at hmap
      obtain ⟨v', hv', -⟩ := hmap
      exact Or.inl ⟨v', hv'⟩
    · exact Or.inr (Or.inl ⟨m, by rw [hvmms, hm]⟩)
    · exact Or.inr (Or.inr ⟨vc, by rw [hvcpus, hvc]⟩)
  · rw [hvmms] at hm
    obtain ⟨o, v, ho, hv⟩ := h.vmm n m hm
    have hmap := hvms o
    rw [ho, Option.map_some, Option.map_eq_some_iff] at hmap
    obtain ⟨v', ho', hv'⟩ := hmap
    exact ⟨o, v', ho', hv'.trans hv⟩

/-! ## The routines of the driver -/

theorem Accounted.setVm {v v' : Vm} (h : Accounted base k) (hk : KernelOK k) (ho : k.vms o = some v) (hv : v'.vmm = v.vmm) :
    Accounted base { k with vms := Function.update k.vms o (some v') } := by
  refine h.same hk (fun n => ?_) rfl rfl rfl rfl fun _ _ => rfl
  by_cases hn : n = o
  · subst hn
    simp only [Function.update_self, ho, Option.map_some, hv]
  · simp only [Function.update_of_ne hn]

/-- `yakvm_create_vm` returns a vm. -/
theorem Accounted.createVm {a : VmAsk} (h : Accounted base k) (hk : KernelOK k) (hc : createVm a k = .ok (.ok o, k')) :
    Accounted base k' := by
  have hev := hc
  unfold Yakvm.createVm at hc
  by_cases hvm : a.vm.isSome = true
  · simp only [Phys.kmalloc, hvm, if_true] at hc
    obtain ⟨⟨r, s'⟩, hvmm, hc⟩ := bind_eq_ok.1 hc
    rcases createVmm_spec a.vmm { k.phys with slab := insert k.phys.next k.phys.slab, next := k.phys.next + 1 } with
      ⟨i, m, s, he, hfresh⟩ | ⟨s, he, -⟩
    · obtain ⟨rfl, rfl⟩ := Prod.mk.inj (Except.ok.inj (he.symm.trans hvmm))
      obtain ⟨-, rfl⟩ := Prod.mk.inj (Except.ok.inj hc)
      obtain ⟨hi, hslab, -⟩ := hfresh.slab
      simp only at hi hslab
      set k₁ : Kernel := { k with
        phys := s
        vms := Function.update k.vms k.phys.next (some ⟨a.vm.getD 0, 1, none, i⟩)
        vmms := Function.update k.vmms i (some m) } with hk₁
      have hnew : k₁.vms k.phys.next = some ⟨a.vm.getD 0, 1, none, i⟩ := Function.update_self ..
      have hnewm : k₁.vmms i = some m := Function.update_self ..
      have holdvm : ∀ {p v}, k.vms p = some v → p ≠ k.phys.next ∧ v.vmm ≠ i := by
        intro p v hp
        obtain ⟨-, -, -, hin⟩ := hk.vmm hp
        have h1 := hk.ids.fresh _ hin
        have h2 := hk.ids.fresh _ (hk.ids.vm p v hp).1
        omega
      -- a vm that was there has the pages it had
      have hsame : ∀ {p v}, k.vms p = some v → ∀ f, k₁.Holds (.vm p) f ↔ k.Holds (.vm p) f := by
        intro p v hp f
        have hne := holdvm hp
        exact hk.holds_vm_congr hp (by rw [hk₁]; simp only [Function.update_of_ne hne.1, hp]) rfl
          (by rw [hk₁]; simp only [Function.update_of_ne hne.2]) fun g hg => hfresh.mem g hg
      refine h.change (fun f hf => hfresh.owns.base (h.kept f hf).1) (fun y f hy _ => ⟨y, ?_⟩) (fun f hf => ?_) (fun y f hy => ?_)
        (fun j hj => ?_) (fun j u hj => ?_)
      · cases y with
        | vcpu c => exact hy
        | vm p =>
          obtain ⟨v, -, -, hp, -⟩ := id hy
          exact (hsame hp f).2 hy
      · by_cases hfk : f ∈ k.phys.pages
        · exact Or.inl hfk
        · obtain ⟨q, hq, hn⟩ := hfresh.owns.cover f hf hfk
          exact Or.inr ⟨.vm k.phys.next, _, m, q, hnew, hnewm, hq, hn⟩
      · cases y with
        | vcpu c => exact Or.inl hy
        | vm p =>
          by_cases hp : p = k.phys.next
          · subst hp
            obtain ⟨q, hq, hn⟩ := (KernelOK.holds_vm hnew hnewm).1 hy
            exact Or.inr (hfresh.owns.apart q f hq hn)
          · obtain ⟨v, -, -, hv, -⟩ := id hy
            rw [hk₁] at hv
            simp only [Function.update_of_ne hp] at hv
            exact Or.inl ((hsame hv f).1 hy)
      · rw [show k₁.phys.slab = _ from hslab, Finset.mem_insert, Finset.mem_insert] at hj
        rcases hj with rfl | rfl | hj
        · exact Or.inr (Or.inl ⟨m, hnewm⟩)
        · exact Or.inl ⟨_, hnew⟩
        · have hlt := hk.ids.fresh j hj
          rcases h.slab j hj with ⟨v, hv⟩ | ⟨u, hu⟩ | hvc
          · exact Or.inl ⟨v, (Function.update_of_ne (by omega) _ _).trans hv⟩
          · exact Or.inr (Or.inl ⟨u, (Function.update_of_ne (by omega) _ _).trans hu⟩)
          · exact Or.inr (Or.inr hvc)
      · by_cases hji : j = i
        · exact ⟨k.phys.next, _, hnew, hji.symm⟩
        · rw [hk₁] at hj
          simp only [Function.update_of_ne hji] at hj
          obtain ⟨p, v, hp, hv⟩ := h.vmm j u hj
          exact ⟨p, v, (Function.update_of_ne (holdvm hp).1 _ _).trans hp, hv⟩
    · obtain ⟨rfl, rfl⟩ := Prod.mk.inj (Except.ok.inj (he.symm.trans hvmm))
      obtain ⟨s', -, hc⟩ := bind_eq_ok.1 hc
      cases hc
  · simp only [Phys.kmalloc, hvm, Bool.false_eq_true, if_false] at hc
    cases hc

/-- A routine that has given back what it allocated. -/
theorem Accounted.gaveBack {s : Phys} (h : Accounted base k) (hk : KernelOK k) (hmem : ∀ f ∈ k.phys.pages, s.mem f = k.phys.mem f)
    (hpages : s.pages = k.phys.pages) (hslab : s.slab = k.phys.slab) : Accounted base { k with phys := s } :=
  h.same hk (fun _ => rfl) rfl rfl hpages hslab hmem

theorem Accounted.createVcpu {a : VcpuAsk} {r : Except Errno ℕ} (h : Accounted base k) (hk : KernelOK k)
    (hc : createVcpu nasid a vm k = .ok (r, k')) : Accounted base k' := by
  rcases createVcpu_cases nasid a vm k with ⟨-, s, hback, he⟩ | ⟨-, vc, s, -, -, he⟩
  · obtain ⟨-, rfl⟩ := Prod.mk.inj (Except.ok.inj (he.symm.trans hc))
    exact h.gaveBack hk (fun f hf => (hback.kept f hf).1) hback.pages (hback.slab hk.next_notMem)
  · have hr : r = .ok k.phys.next := by
      rw [he] at hc
      obtain ⟨v, -, hc⟩ := bind_eq_ok.1 hc
      obtain ⟨m, -, hc⟩ := bind_eq_ok.1 hc
      obtain ⟨_, -, hc⟩ := bind_eq_ok.1 hc
      exact (Prod.mk.inj (Except.ok.inj hc)).1.symm
    subst hr
    obtain ⟨vc, hmade⟩ := createVcpu_made hc
    have hsame : ∀ p f, k'.Holds (.vm p) f ↔ k.Holds (.vm p) f := by
      intro p f
      cases hp : k.vms p with
      | none => simp only [Kernel.Holds, hmade.vms, hp, reduceCtorEq, false_and, exists_false]
      | some v => exact hk.holds_vm_congr hp (by rw [hmade.vms, hp]) rfl (by rw [hmade.vmms]) hmade.mem
    have hother : ∀ {d}, d ≠ k.phys.next → k'.vcpus d = k.vcpus d := fun hd => by
      rw [hmade.vcpus, Function.update_of_ne hd]
    have hnew : k'.vcpus k.phys.next = some vc := by rw [hmade.vcpus, Function.update_self]
    refine h.change (fun f hf => ?_) (fun y f hy _ => ⟨y, ?_⟩) (fun f hf => ?_) (fun y f hy => ?_) (fun n hn => ?_) (fun n m hm => ?_)
    · rw [hmade.pages]
      exact Finset.mem_union_left _ (h.kept f hf).1
    · cases y with
      | vm p => exact (hsame p f).2 hy
      | vcpu d =>
        obtain ⟨u, hu, hf⟩ := hy
        exact ⟨u, (hother (hk.ids.fresh d (hk.ids.vcpu d u hu).1).ne).trans hu, hf⟩
    · rw [hmade.pages, Finset.mem_union, List.mem_toFinset] at hf
      rcases hf with hf | hf
      · exact Or.inl hf
      · exact Or.inr ⟨.vcpu k.phys.next, vc, hnew, hf⟩
    · cases y with
      | vm p => exact Or.inl ((hsame p f).1 hy)
      | vcpu d =>
        obtain ⟨u, hu, hf⟩ := hy
        by_cases hd : d = k.phys.next
        · subst hd
          obtain rfl := Option.some.inj (hu.symm.trans hnew)
          exact Or.inr (hmade.free f hf)
        · exact Or.inl ⟨u, (hother hd).symm.trans hu, hf⟩
    · rw [hmade.slab, Finset.mem_insert] at hn
      rcases hn with rfl | hn
      · exact Or.inr (Or.inr ⟨vc, hnew⟩)
      · rcases h.slab n hn with hv | hm | ⟨u, hu⟩
        · exact Or.inl (by rw [hmade.vms]; exact hv)
        · exact Or.inr (Or.inl (by rw [hmade.vmms]; exact hm))
        · exact Or.inr (Or.inr ⟨u, (hother (hk.ids.fresh n hn).ne).trans hu⟩)
    · rw [hmade.vmms] at hm
      rw [hmade.vms]
      exact h.vmm n m hm

/-- The pages of an object that is not destroyed. -/
theorem Accounted.destroyVcpu (h : Accounted base k) (hk : KernelOK k) (hd : destroyVcpu c k = .ok k') : Accounted base k' := by
  cases hc : k.vcpus c with
  | none =>
    unfold Yakvm.destroyVcpu deref at hd
    rw [hc] at hd
    cases hd
  | some vc =>
    obtain ⟨hnd, hlive, -⟩ := hk.valid (.vcpu c) vc hc
    obtain rfl := Except.ok.inj ((destroyVcpu_eq hc hnd hlive (hk.ids.vcpu c vc hc).1).symm.trans hd)
    have hnot : ∀ y f, k.Holds y f → y ≠ .vcpu c → f ∉ vc.pages := fun y f hy hne hf =>
      hne (hk.apart y (.vcpu c) f hy ⟨vc, hc, hf⟩)
    refine h.change (fun f hf => ?_) (fun y f hy hf => ⟨y, ?_⟩) (fun f hf => Or.inl (Finset.mem_sdiff.1 hf).1) (fun y f hy => Or.inl ?_)
      (fun n hn => ?_) (fun n m hm => h.vmm n m hm)
    · have hkept := h.kept f hf
      exact Finset.mem_sdiff.2 ⟨hkept.1, fun hmem => hkept.2 (.vcpu c) ⟨vc, hc, List.mem_toFinset.1 hmem⟩⟩
    · cases y with
      | vm p => exact hy
      | vcpu d =>
        obtain ⟨u, hu, hfu⟩ := hy
        refine ⟨u, update_none_eq_some.2 ⟨?_, hu⟩, hfu⟩
        rintro rfl
        obtain rfl := Option.some.inj (hu.symm.trans hc)
        exact (Finset.mem_sdiff.1 hf).2 (List.mem_toFinset.2 hfu)
    · cases y with
      | vm p => exact hy
      | vcpu d =>
        obtain ⟨u, hu, hfu⟩ := hy
        exact ⟨u, (update_none_eq_some.1 hu).2, hfu⟩
    · obtain ⟨hne, hn⟩ := Finset.mem_erase.1 hn
      rcases h.slab n hn with hv | hm | ⟨u, hu⟩
      · exact Or.inl hv
      · exact Or.inr (Or.inl hm)
      · exact Or.inr (Or.inr ⟨u, update_none_eq_some.2 ⟨hne, hu⟩⟩)

theorem Accounted.destroyVm {v : Vm} (h : Accounted base k) (hk : KernelOK k) (ho : k.vms o = some v)
    (hvcpu : ∀ c, v.vcpu = some c → ∃ vc, k.vcpus c = some vc) (hd : destroyVm o k = .ok k') : Accounted base k' := by
  obtain ⟨k₁, he, hvms, hvmms, hvcpus, hmem, -, hslab, hpages⟩ := destroyVm_eq hk ho hvcpu
  obtain rfl := Except.ok.inj (he.symm.trans hd)
  have hne : ∀ {p u}, k.vms p = some u → p ≠ o → u.vmm ≠ v.vmm := fun hp hne heq => hne (hk.ids.inj _ _ _ _ hp ho heq)
  -- an object that is left has the pages it had
  have hsame : ∀ p, p ≠ o → ∀ f, k₁.Holds (.vm p) f ↔ k.Holds (.vm p) f := by
    intro p hpo f
    cases hp : k.vms p with
    | none =>
      have hp' : k₁.vms p = none := by rw [hvms, Function.update_of_ne hpo, hp]
      simp only [Kernel.Holds, hp, hp', reduceCtorEq, false_and, exists_false]
    | some u =>
      exact hk.holds_vm_congr hp (by rw [hvms, Function.update_of_ne hpo, hp]) rfl
        (by rw [hvmms, Function.update_of_ne (hne hp hpo)]) fun g _ => by rw [hmem]
  have hgone : ∀ f, ¬ k₁.Holds (.vm o) f := by
    rintro f ⟨u, -, -, hu, -⟩
    rw [hvms, Function.update_self] at hu
    cases hu
  refine h.change (fun f hf => ?_) (fun y f hy hf => ⟨y, ?_⟩) (fun f hf => Or.inl ((hpages f).1 hf).1) (fun y f hy => Or.inl ?_)
    (fun n hn => ?_) (fun n m hm => ?_)
  · have hkept := h.kept f hf
    exact (hpages f).2 ⟨hkept.1, hkept.2 _, fun c _ => hkept.2 _⟩
  · obtain ⟨-, hfo, hfc⟩ := (hpages f).1 hf
    cases y with
    | vm p => exact (hsame p (fun hpo => hfo (hpo ▸ hy)) f).2 hy
    | vcpu d =>
      obtain ⟨u, hu, hfu⟩ := id hy
      exact ⟨u, by rw [hvcpus]; exact dropVcpu_eq_some.2 ⟨fun hd => hfc d hd hy, hu⟩, hfu⟩
  · cases y with
    | vm p =>
      by_cases hpo : p = o
      · exact absurd (hpo ▸ hy) (hgone f)
      · exact (hsame p hpo f).1 hy
    | vcpu d =>
      obtain ⟨u, hu, hfu⟩ := hy
      rw [hvcpus] at hu
      exact ⟨u, (dropVcpu_eq_some.1 hu).2, hfu⟩
  · obtain ⟨hn, hnm, hnc, hno⟩ := (hslab n).1 hn
    rcases h.slab n hn with ⟨u, hu⟩ | ⟨m, hm⟩ | ⟨u, hu⟩
    · exact Or.inl ⟨u, by rw [hvms, Function.update_of_ne hno, hu]⟩
    · exact Or.inr (Or.inl ⟨m, by rw [hvmms, Function.update_of_ne hnm, hm]⟩)
    · exact Or.inr (Or.inr ⟨u, by rw [hvcpus]; exact dropVcpu_eq_some.2 ⟨hnc, hu⟩⟩)
  · rw [hvmms, update_none_eq_some] at hm
    obtain ⟨p, u, hp, hu⟩ := h.vmm n m hm.2
    have hpo : p ≠ o := by
      rintro rfl
      obtain rfl := Option.some.inj (hp.symm.trans ho)
      exact hm.1 hu.symm
    exact ⟨p, u, by rw [hvms, Function.update_of_ne hpo, hp], hu⟩

theorem Accounted.putVm {v : Vm} (h : Accounted base k) (hk : KernelOK k) (ho : k.vms o = some v)
    (hvcpu : ∀ c, v.vcpu = some c → ∃ vc, k.vcpus c = some vc) (hp : putVm o k = .ok k') : Accounted base k' := by
  unfold Yakvm.putVm at hp
  simp only [deref_some ho, bind, Except.bind] at hp
  have hset : Accounted base { k with vms := Function.update k.vms o (some { v with refcount := v.refcount - 1 }) } :=
    h.setVm hk ho rfl
  by_cases hzero : v.refcount - 1 = 0
  · rw [if_pos hzero] at hp
    exact hset.destroyVm (v := { v with refcount := v.refcount - 1 }) (hk.setVm ho rfl) (Function.update_self ..) hvcpu hp
  · rw [if_neg hzero] at hp
    obtain rfl := Except.ok.inj hp
    exact hset

/-- A page request. -/
theorem Accounted.grow {v : Vm} {m : Vmm} {w : List Slot} {s' : Phys} (h : Accounted base k) (hk : KernelOK k)
    (ho : k.vms o = some v) (hm : k.vmms v.vmm = some m) (hg : Grow (vmmPhysToVirt m.ncr3) w k.phys s') :
    Accounted base { k with phys := s' } := by
  obtain ⟨m', hm', hok, -⟩ := hk.vmm ho
  obtain rfl : m' = m := Option.some.inj (hm'.symm.trans hm)
  have hsame : ∀ p, p ≠ o → ∀ f, Kernel.Holds { k with phys := s' } (.vm p) f ↔ k.Holds (.vm p) f := by
    intro p hpo f
    cases hp : k.vms p with
    | none => simp only [Kernel.Holds, hp, reduceCtorEq, false_and, exists_false]
    | some u =>
      obtain ⟨mu, hmu, -, -⟩ := hk.vmm hp
      rw [KernelOK.holds_vm (k := { k with phys := s' }) hp hmu, KernelOK.holds_vm hp hmu]
      -- the tables of another vm are not written to
      have heq : ∀ q, q.length ≤ 4 → nodeAt s' (vmmPhysToVirt mu.ncr3) q = nodeAt k.phys (vmmPhysToVirt mu.ncr3) q :=
        nodeAt_congr fun q g hq hg' => hg.mem_other hok (hk.live (x := .vm p) ⟨u, mu, q, hp, hmu, hq.le, hg'⟩) fun q' hq' hn' =>
          hpo (by simpa using hk.apart (.vm p) (.vm o) g ⟨u, mu, q, hp, hmu, hq.le, hg'⟩ ⟨v, m', q', ho, hm, hq'.le, hn'⟩)
      constructor
      · rintro ⟨q, hq, hn⟩
        exact ⟨q, hq, by rw [← heq q hq]; exact hn⟩
      · rintro ⟨q, hq, hn⟩
        exact ⟨q, hq, by rw [heq q hq]; exact hn⟩
  have hiff : ∀ f, Kernel.Holds { k with phys := s' } (.vm o) f ↔ ∃ q, q.length ≤ 4 ∧ nodeAt s' (vmmPhysToVirt m'.ncr3) q = some f :=
    fun f => KernelOK.holds_vm (k := { k with phys := s' }) ho hm
  refine h.change (fun f hf => hg.pages_mono (h.kept f hf).1) (fun y f hy _ => ⟨y, ?_⟩) (fun f hf => ?_) (fun y f hy => ?_)
    (fun n hn => h.slab n (hg.slab.1 ▸ hn)) h.vmm
  · cases y with
    | vcpu c => exact hy
    | vm p =>
      by_cases hpo : p = o
      · subst hpo
        obtain ⟨q, hq, hn⟩ := (KernelOK.holds_vm ho hm).1 hy
        exact (hiff f).2 ⟨q, hq, hg.mono hok hq hn⟩
      · exact (hsame p hpo f).2 hy
  · by_cases hfk : f ∈ k.phys.pages
    · exact Or.inl hfk
    · obtain ⟨q, hq, -, hn⟩ := hg.cover hok hf hfk
      exact Or.inr ⟨.vm o, (hiff f).2 ⟨q, hq, hn⟩⟩
  · cases y with
    | vcpu c => exact Or.inl hy
    | vm p =>
      by_cases hpo : p = o
      · subst hpo
        obtain ⟨q, hq, hn⟩ := (hiff f).1 hy
        cases h0 : nodeAt k.phys (vmmPhysToVirt m'.ncr3) q with
        | none => exact Or.inr (hg.fresh hok hq h0 hn)
        | some g =>
          have hmono := hg.mono hok hq h0
          obtain rfl := Option.some.inj (hn.symm.trans hmono)
          exact Or.inl ((KernelOK.holds_vm ho hm).2 ⟨q, hq, h0⟩)
      · exact Or.inl ((hsame p hpo f).1 hy)

/-- `yakvm_create_vm` fails: it has given everything back, or the pages of the table it had begun are lost. -/
theorem Accounted.createVm_failed {a : VmAsk} {e : Errno} (h : Accounted base k) (hk : KernelOK k)
    (hc : Yakvm.createVm a k = .ok (.error e, k')) : ∃ lost : Finset Frame, Disjoint lost k.phys.pages ∧
      (lost = ∅ ↔ a.partly k.phys.pages = false) ∧ Accounted (base ∪ lost) k' := by
  obtain ⟨k₁, he, hslab, hpages⟩ : ∃ k', Yakvm.createVm a k = .ok (.error .ENOMEM, k') ∧ k'.phys.slab = k.phys.slab ∧
      (k'.phys.pages = k.phys.pages ↔ a.partly k.phys.pages = false) := by
    rcases createVm_outcome hk a with ⟨-, o, k₁, he⟩ | ⟨-, k₁, he, h1, h2⟩
    · rw [hc] at he
      cases he
    · exact ⟨k₁, he, h1, h2⟩
  obtain ⟨-, rfl⟩ := Prod.mk.inj (Except.ok.inj (he.symm.trans hc))
  obtain ⟨hobj, hmem, hmono⟩ : (k₁.vms = k.vms ∧ k₁.vmms = k.vmms ∧ k₁.vcpus = k.vcpus) ∧
      (∀ f ∈ k.phys.pages, k₁.phys.mem f = k.phys.mem f) ∧ k.phys.pages ⊆ k₁.phys.pages := by
    unfold Yakvm.createVm at hc
    by_cases hvm : a.vm.isSome = true
    · simp only [Phys.kmalloc, hvm, if_true] at hc
      obtain ⟨⟨r, s'⟩, hvmm, hc⟩ := bind_eq_ok.1 hc
      rcases createVmm_spec a.vmm { k.phys with slab := insert k.phys.next k.phys.slab, next := k.phys.next + 1 } with
        ⟨i, m, s, he', -⟩ | ⟨s, he', hfail⟩
      · obtain ⟨rfl, rfl⟩ := Prod.mk.inj (Except.ok.inj (he'.symm.trans hvmm))
        cases hc
      · obtain ⟨rfl, rfl⟩ := Prod.mk.inj (Except.ok.inj (he'.symm.trans hvmm))
        obtain ⟨s'', hfree, hc⟩ := bind_eq_ok.1 hc
        obtain ⟨-, rfl⟩ := Prod.mk.inj (Except.ok.inj hc)
        unfold Phys.kfree at hfree
        split at hfree
        · obtain rfl := Except.ok.inj hfree
          exact ⟨⟨rfl, rfl, rfl⟩, hfail.mem, hfail.pages⟩
        · cases hfree
    · simp only [Phys.kmalloc, hvm, Bool.false_eq_true, if_false] at hc
      obtain ⟨-, rfl⟩ := Prod.mk.inj (Except.ok.inj hc)
      exact ⟨⟨rfl, rfl, rfl⟩, fun _ _ => rfl, Finset.Subset.refl _⟩
  obtain ⟨h1, h2, h3⟩ := hobj
  have hiff := holds_same hk (fun o => by rw [h1]) h2 h3 hmem
  refine ⟨k₁.phys.pages \ k.phys.pages, Finset.sdiff_disjoint, ?_, fun f hf => ?_, fun f hf => ?_, fun n hn => ?_, fun n m hm => ?_⟩
  · rw [Finset.sdiff_eq_empty_iff_subset, ← hpages]
    exact ⟨fun hsub => Finset.Subset.antisymm hsub hmono, fun heq => heq.subset⟩
  · rcases Finset.mem_union.1 hf with hf | hf
    · exact ⟨hmono (h.kept f hf).1, fun y hy => (h.kept f hf).2 y ((hiff y f).1 hy)⟩
    · obtain ⟨hin, hout⟩ := Finset.mem_sdiff.1 hf
      exact ⟨hin, fun y hy => hout (hk.live ((hiff y f).1 hy))⟩
  · by_cases hfk : f ∈ k.phys.pages
    · rcases h.pages f hfk with hb | ⟨y, hy⟩
      · exact Or.inl (Finset.mem_union_left _ hb)
      · exact Or.inr ⟨y, (hiff y f).2 hy⟩
    · exact Or.inl (Finset.mem_union_right _ (Finset.mem_sdiff.2 ⟨hf, hfk⟩))
  · have hlive := h.slab n (hslab ▸ hn)
    unfold Kernel.Live at hlive ⊢
    rw [h1, h2, h3]
    exact hlive
  · rw [h2] at hm
    rw [h1]
    exact h.vmm n m hm

/-! ## Who holds the vcpus -/

variable {x x' : Sys}

/-- A vcpu is shown by its vm. -/
def Kernel.Shown (k : Kernel) (c : ℕ) (vc : Vcpu) : Prop := ∃ v, k.vms vc.vm = some v ∧ v.vcpu = some c

/-- Every vcpu is shown by its vm, or a request in flight has it. -/
def Sys.Owned (x : Sys) : Prop :=
  ∀ c vc, x.k.vcpus c = some vc → x.k.Shown c vc ∨ ∃ (i : ℕ) (r : Req), x.reqs[i]? = some r ∧ r.stage.vcpu = some c

/-- The vcpus that are left were there, and are shown as before. -/
def Shows (k k' : Kernel) : Prop := ∀ c vc, k'.vcpus c = some vc → k.vcpus c = some vc ∧ (k.Shown c vc → k'.Shown c vc)

theorem Shows.of_eq (hvms : k'.vms = k.vms) (hvcpus : k'.vcpus = k.vcpus) : Shows k k' := fun c vc hc =>
  ⟨hvcpus ▸ hc, by simp only [Kernel.Shown, hvms]; exact id⟩

theorem Shows.setVm {v v' : Vm} (ho : k.vms o = some v) (hv : v'.vcpu = v.vcpu) :
    Shows k { k with vms := Function.update k.vms o (some v') } := by
  refine fun c vc hc => ⟨hc, ?_⟩
  rintro ⟨u, hu, hs⟩
  by_cases hvm : vc.vm = o
  · rw [hvm, ho] at hu
    obtain rfl := Option.some.inj hu
    exact ⟨v', by simp only [hvm, Function.update_self], hv.trans hs⟩
  · exact ⟨u, by simp only [Function.update_of_ne hvm, hu], hs⟩

theorem KernelOK.shows_destroyVm {v : Vm} (hk : KernelOK k) (ho : k.vms o = some v)
    (hvcpu : ∀ c, v.vcpu = some c → ∃ vc, k.vcpus c = some vc) (hd : destroyVm o k = .ok k') : Shows k k' := by
  obtain ⟨k₁, he, hvms, -, hvcpus, -⟩ := destroyVm_eq hk ho hvcpu
  obtain rfl := Except.ok.inj (he.symm.trans hd)
  intro c vc hc
  rw [hvcpus, dropVcpu_eq_some] at hc
  refine ⟨hc.2, ?_⟩
  rintro ⟨u, hu, hs⟩
  refine ⟨u, ?_, hs⟩
  rw [hvms, Function.update_of_ne, hu]
  intro hvm
  rw [hvm, ho] at hu
  obtain rfl := Option.some.inj hu
  exact hc.1 hs

theorem Shows.putVm {v : Vm} (hk : KernelOK k) (ho : k.vms o = some v)
    (hvcpu : ∀ c, v.vcpu = some c → ∃ vc, k.vcpus c = some vc) (hp : putVm o k = .ok k') : Shows k k' := by
  unfold Yakvm.putVm at hp
  simp only [deref_some ho, bind, Except.bind] at hp
  have hset : Shows k { k with vms := Function.update k.vms o (some { v with refcount := v.refcount - 1 }) } :=
    Shows.setVm ho rfl
  by_cases hzero : v.refcount - 1 = 0
  · rw [if_pos hzero] at hp
    have hk' : KernelOK { k with vms := Function.update k.vms o (some { v with refcount := v.refcount - 1 }) } :=
      hk.setVm ho rfl
    have hd := hk'.shows_destroyVm (Function.update_self ..) hvcpu hp
    intro c vc hc
    obtain ⟨hc', hs'⟩ := hd c vc hc
    obtain ⟨hc'', hs''⟩ := hset c vc hc'
    exact ⟨hc'', fun hs => hs' (hs'' hs)⟩
  · rw [if_neg hzero] at hp
    obtain rfl := Except.ok.inj hp
    exact hset

/-- A step that leaves the requests alone. -/
theorem Sys.Owned.of_shows (h : x.Owned) (hreqs : ∀ (i : ℕ) (r : Req), x.reqs[i]? = some r → x'.reqs[i]? = some r) (hk : Shows x.k x'.k) :
    x'.Owned := by
  intro c vc hc
  obtain ⟨hc', hs⟩ := hk c vc hc
  rcases h c vc hc' with hshown | ⟨i, r, hi, hr⟩
  · exact Or.inl (hs hshown)
  · exact Or.inr ⟨i, r, hreqs i r hi, hr⟩

/-- A step of the request `i`, of the vcpus that it does not have. -/
theorem Sys.Owned.of_request {i : ℕ} {r : Req} {stage : Stage} (h : x.Owned) (hi : x.reqs[i]? = some r)
    (hreqs : x'.reqs = x.reqs.set i ⟨r.vm, stage⟩)
    (hown : ∀ c vc, x'.k.vcpus c = some vc → stage.vcpu ≠ some c → r.stage.vcpu = some c → x'.k.Shown c vc)
    (hother : ∀ c vc, x'.k.vcpus c = some vc → stage.vcpu ≠ some c → r.stage.vcpu ≠ some c →
      x.k.vcpus c = some vc ∧ (x.k.Shown c vc → x'.k.Shown c vc)) : x'.Owned := by
  intro c vc hc
  have hlen : i < x.reqs.length := (List.getElem?_eq_some_iff.1 hi).1
  by_cases hst : stage.vcpu = some c
  · exact Or.inr ⟨i, ⟨r.vm, stage⟩, by rw [hreqs, List.getElem?_set_self hlen], hst⟩
  by_cases hr : r.stage.vcpu = some c
  · exact Or.inl (hown c vc hc hst hr)
  obtain ⟨hc', hs⟩ := hother c vc hc hst hr
  rcases h c vc hc' with hshown | ⟨j, r', hj, hr'⟩
  · exact Or.inl (hs hshown)
  · have hij : i ≠ j := by
      rintro rfl
      obtain rfl := Option.some.inj (hj.symm.trans hi)
      exact hr hr'
    exact Or.inr ⟨j, r', by rw [hreqs, List.getElem?_set_ne hij, hj], hr'⟩

/-- **One step of a request** in flight. -/
theorem Req.advance_owned {i : ℕ} {r : Req} {a : VcpuAsk} {fd : Bool} {stage : Stage} (h : SysOK x) (ho : x.Owned)
    (ha : Accounted base x.k) (hi : x.reqs[i]? = some r) (hadv : r.advance nasid a fd x = .ok (stage, x')) :
    Sys.Owned { x' with reqs := x'.reqs.set i ⟨r.vm, stage⟩ } ∧ Accounted base x'.k := by
  have hk := h.kernel
  have hlookup : ∀ {k : Kernel} {v : Vm}, deref k.vms r.vm = .ok v → k.vms r.vm = some v := by
    intro k v hv
    unfold deref at hv
    cases hvm : k.vms r.vm with
    | none => rw [hvm] at hv; cases hv
    | some u => rw [hvm] at hv; rw [Except.ok.inj hv]
  unfold Req.advance at hadv
  cases hst : r.stage with
  | start =>
    simp only [hst] at hadv
    obtain ⟨⟨c, k'⟩, hc, hadv⟩ := bind_eq_ok.1 hadv
    have hacc := ha.createVcpu hk hc
    cases c with
    | error e =>
      obtain ⟨rfl, rfl⟩ := Prod.mk.inj (Except.ok.inj hadv)
      refine ⟨ho.of_request hi rfl (fun d vc _ _ hd => by rw [hst] at hd; cases hd) fun d vc hd _ _ => ?_, hacc⟩
      rcases createVcpu_cases nasid a r.vm x.k with ⟨-, s, -, he⟩ | ⟨-, vc', s, -, -, he⟩
      · obtain ⟨-, rfl⟩ := Prod.mk.inj (Except.ok.inj (he.symm.trans hc))
        exact ⟨hd, id⟩
      · rw [he] at hc
        obtain ⟨v, -, hc⟩ := bind_eq_ok.1 hc
        obtain ⟨m, -, hc⟩ := bind_eq_ok.1 hc
        obtain ⟨_, -, hc⟩ := bind_eq_ok.1 hc
        cases hc
    | ok c =>
      obtain ⟨rfl, rfl⟩ := Prod.mk.inj (Except.ok.inj hadv)
      obtain ⟨vc, hmade⟩ := createVcpu_made hc
      refine ⟨ho.of_request hi rfl (fun d vc _ _ hd => by rw [hst] at hd; cases hd) fun d vc' hd hne _ => ?_, hacc⟩
      have hdc : d ≠ c := fun heq => hne (by rw [heq]; rfl)
      simp only [hmade.vcpus, Function.update_of_ne hdc] at hd
      exact ⟨hd, by simp only [Kernel.Shown, hmade.vms]; exact id⟩
  | allocated c =>
    simp only [hst] at hadv
    obtain ⟨v, hv, hadv⟩ := bind_eq_ok.1 hadv
    have hv := hlookup hv
    split at hadv
    · obtain ⟨rfl, rfl⟩ := Prod.mk.inj (Except.ok.inj hadv)
      exact ⟨ho.of_request hi rfl (fun d vc _ hne hd => absurd (by rw [hst] at hd; exact hd) hne) fun d vc hd _ _ => ⟨hd, id⟩, ha⟩
    · rename_i hnone
      obtain ⟨k', hset, hadv⟩ := bind_eq_ok.1 hadv
      obtain ⟨rfl, rfl⟩ := Prod.mk.inj (Except.ok.inj hadv)
      simp only [setVcpu, deref_some hv, bind, Except.bind] at hset
      obtain rfl := Except.ok.inj hset
      refine ⟨ho.of_request hi rfl (fun d vc _ hne hd => absurd (by rw [hst] at hd; exact hd) hne) fun d vc hd _ _ => ⟨hd, ?_⟩,
        ha.setVm hk hv rfl⟩
      rintro ⟨u, hu, hs⟩
      refine ⟨u, ?_, hs⟩
      simp only
      rw [Function.update_of_ne, hu]
      intro hvm
      rw [hvm, hv] at hu
      obtain rfl := Option.some.inj hu
      rw [hs] at hnone
      exact hnone rfl
  | published c =>
    simp only [hst] at hadv
    obtain ⟨k', hget, hadv⟩ := bind_eq_ok.1 hadv
    obtain ⟨rfl, rfl⟩ := Prod.mk.inj (Except.ok.inj hadv)
    obtain ⟨v, hv, hget⟩ := bind_eq_ok.1 hget
    have hv := hlookup hv
    obtain rfl := Except.ok.inj hget
    have hshows : Shows x.k { x.k with vms := Function.update x.k.vms r.vm (some { v with refcount := v.refcount + 1 }) } :=
      Shows.setVm hv rfl
    exact ⟨ho.of_request hi rfl (fun d vc _ hne hd => absurd (by rw [hst] at hd; exact hd) hne)
      fun d vc hd _ _ => hshows d vc hd, ha.setVm hk hv rfl⟩
  | got c =>
    simp only [hst] at hadv
    split at hadv
    · obtain ⟨rfl, rfl⟩ := Prod.mk.inj (Except.ok.inj hadv)
      refine ⟨ho.of_request hi rfl (fun d vc hd _ hown => ?_) fun d vc hd _ _ => ⟨hd, id⟩, ha⟩
      -- the vcpu that gets a file is shown
      rw [hst] at hown
      obtain rfl := Option.some.inj hown
      obtain ⟨v, hv⟩ := h.reqVm hi (by rw [hst]; simp)
      obtain ⟨-, ⟨vc', hvc', hvm⟩, hshown⟩ := h.req i r c hi (by rw [hst]; rfl)
      obtain rfl := Option.some.inj (hvc'.symm.trans hd)
      exact ⟨v, by rw [hvm]; exact hv, (hshown v hv).1 (by rw [hst]; rfl)⟩
    · obtain ⟨rfl, rfl⟩ := Prod.mk.inj (Except.ok.inj hadv)
      exact ⟨ho.of_request hi rfl (fun d vc _ hne hd => absurd (by rw [hst] at hd; exact hd) hne) fun d vc hd _ _ => ⟨hd, id⟩, ha⟩
  | failed c =>
    simp only [hst] at hadv
    obtain ⟨k', hset, hadv⟩ := bind_eq_ok.1 hadv
    obtain ⟨rfl, rfl⟩ := Prod.mk.inj (Except.ok.inj hadv)
    obtain ⟨v, hv, hset⟩ := bind_eq_ok.1 hset
    have hv := hlookup hv
    obtain rfl := Except.ok.inj hset
    obtain ⟨-, -, hshown⟩ := h.req i r c hi (by rw [hst]; rfl)
    refine ⟨ho.of_request hi rfl (fun d vc _ hne hd => absurd (by rw [hst] at hd; exact hd) hne) fun d vc hd hne _ => ⟨hd, ?_⟩,
      ha.setVm hk hv rfl⟩
    rintro ⟨u, hu, hs⟩
    refine ⟨u, ?_, hs⟩
    simp only
    rw [Function.update_of_ne, hu]
    intro hvm
    rw [hvm, hv] at hu
    obtain rfl := Option.some.inj hu
    exact hne (((hshown v hv).1 (by rw [hst]; rfl)).symm.trans hs)
  | cleared c =>
    simp only [hst] at hadv
    obtain ⟨x₁, hput, hadv⟩ := bind_eq_ok.1 hadv
    obtain ⟨rfl, rfl⟩ := Prod.mk.inj (Except.ok.inj hadv)
    obtain ⟨k', hp, hx⟩ := bind_eq_ok.1 hput
    obtain rfl := Except.ok.inj hx
    obtain ⟨v, hv⟩ := h.reqVm hi (by rw [hst]; simp)
    have hvcpu : ∀ d, v.vcpu = some d → ∃ vc, x.k.vcpus d = some vc := fun d hd => (h.vcpu _ _ _ hv hd).imp fun _ => And.left
    exact ⟨ho.of_request hi rfl (fun d vc _ hne hd => absurd (by rw [hst] at hd; exact hd) hne)
      fun d vc hd _ _ => Shows.putVm hk hv hvcpu hp d vc hd, ha.putVm hk hv hvcpu hp⟩
  | put c | refused c =>
    simp only [hst] at hadv
    obtain ⟨k', hd, hadv⟩ := bind_eq_ok.1 hadv
    obtain ⟨rfl, rfl⟩ := Prod.mk.inj (Except.ok.inj hadv)
    have hacc := ha.destroyVcpu hk hd
    obtain ⟨-, ⟨vc, hvc, -⟩, -⟩ := h.req i r c hi (by rw [hst]; rfl)
    obtain ⟨k₁, hd', -, hvms, hvcpus, -⟩ := destroyVcpu_spec hk hvc
    obtain rfl := Except.ok.inj (hd'.symm.trans hd)
    refine ⟨ho.of_request hi rfl (fun d vc' hd _ hown => ?_) (fun d vc' hd _ _ => ?_), hacc⟩
    · rw [hst] at hown
      obtain rfl := Option.some.inj hown
      simp only [hvcpus, Function.update_self] at hd
      cases hd
    · simp only [hvcpus, update_none_eq_some] at hd
      exact ⟨hd.2, by simp only [Kernel.Shown, hvms]; exact id⟩
  | finished =>
    simp only [hst] at hadv
    obtain ⟨rfl, rfl⟩ := Prod.mk.inj (Except.ok.inj hadv)
    exact ⟨ho.of_request hi rfl (fun d vc _ _ hd => by rw [hst] at hd; cases hd) fun d vc hd _ _ => ⟨hd, id⟩, ha⟩

/-! ## Steps and runs -/

/-- A step loses pages. -/
def Act.loses (pages : Finset Frame) : Act → Bool
  | .createVm a => a.partly pages
  | _ => false

theorem Sys.put_owned {v : Vm} (h : SysOK x) (ho : x.Owned) (ha : Accounted base x.k) (hv : x.k.vms o = some v)
    (hput : x.put o = .ok x') : x'.Owned ∧ Accounted base x'.k := by
  obtain ⟨k', hp, hx⟩ := bind_eq_ok.1 hput
  obtain rfl := Except.ok.inj hx
  have hvcpu : ∀ c, v.vcpu = some c → ∃ vc, x.k.vcpus c = some vc := fun c hc => (h.vcpu _ _ _ hv hc).imp fun _ => And.left
  exact ⟨ho.of_shows (fun _ _ hr => hr) (Shows.putVm h.kernel hv hvcpu hp), ha.putVm h.kernel hv hvcpu hp⟩

/-- **One step of the driver** that loses nothing. -/
theorem Sys.step_owned {act : Act} (h : SysOK x) (ho : x.Owned) (ha : Accounted base x.k) (hs : x.step nasid act = .ok x')
    (hact : ∀ a, act ≠ .createVm a) : x'.Owned ∧ Accounted base x'.k := by
  have hk := h.kernel
  cases act with
  | createVm a => exact absurd rfl (hact a)
  | openVm vm fd =>
    simp only [Sys.step] at hs
    split at hs
    case isTrue hmem =>
      obtain ⟨v, hv⟩ := h.files vm (Or.inr hmem)
      have hvcpu : ∀ c, v.vcpu = some c → ∃ vc, x.k.vcpus c = some vc := fun c hc => (h.vcpu _ _ _ hv hc).imp fun _ => And.left
      split at hs
      · obtain rfl := Except.ok.inj hs
        exact ⟨ho, ha⟩
      · obtain ⟨k', hd, hs⟩ := bind_eq_ok.1 hs
        obtain rfl := Except.ok.inj hs
        exact ⟨ho.of_shows (fun _ _ hr => hr) (hk.shows_destroyVm hv hvcpu hd), ha.destroyVm hk hv hvcpu hd⟩
    case isFalse =>
      obtain rfl := Except.ok.inj hs
      exact ⟨ho, ha⟩
  | request vm =>
    simp only [Sys.step] at hs
    split at hs
    · obtain rfl := Except.ok.inj hs
      refine ⟨ho.of_shows (fun i r hi => ?_) (Shows.of_eq rfl rfl), ha⟩
      exact (List.getElem?_append_left (List.getElem?_eq_some_iff.1 hi).1).trans hi
    · obtain rfl := Except.ok.inj hs
      exact ⟨ho, ha⟩
  | advance i a fd =>
    simp only [Sys.step] at hs
    cases hi : x.reqs[i]? with
    | none =>
      simp only [hi] at hs
      obtain rfl := Except.ok.inj hs
      exact ⟨ho, ha⟩
    | some r =>
      simp only [hi] at hs
      obtain ⟨⟨stage, x₁⟩, hadv, hs⟩ := bind_eq_ok.1 hs
      obtain rfl := Except.ok.inj hs
      exact (Req.advance_owned h ho ha hi hadv :)
  | closeVm vm =>
    simp only [Sys.step] at hs
    split at hs
    case isTrue hclose =>
      obtain ⟨v, hv⟩ := h.files vm (Or.inl hclose.1)
      obtain ⟨x₁, hput, hs⟩ := bind_eq_ok.1 hs
      obtain rfl := Except.ok.inj hs
      exact (Sys.put_owned h ho ha hv hput :)
    case isFalse =>
      obtain rfl := Except.ok.inj hs
      exact ⟨ho, ha⟩
  | closeVcpu c =>
    simp only [Sys.step] at hs
    split at hs
    case isTrue hc =>
      obtain ⟨vc, v, hvc, hv, -⟩ := h.vcpuFile c hc
      simp only [deref_some hvc, bind, Except.bind] at hs
      obtain ⟨x₁, hput, hs⟩ := bind_eq_ok.1 hs
      obtain rfl := Except.ok.inj hs
      exact (Sys.put_owned h ho ha hv hput :)
    case isFalse =>
      obtain rfl := Except.ok.inj hs
      exact ⟨ho, ha⟩
  | mmapPage vm gpa ask =>
    simp only [Sys.step] at hs
    split at hs
    case isTrue hmem =>
      obtain ⟨v, hv⟩ := h.files vm (Or.inl hmem)
      obtain ⟨m, hm, hok, -⟩ := hk.vmm hv
      simp only [deref_some hv, deref_some hm, bind, Except.bind] at hs
      rcases vmIoctlMmapPage_cases hok gpa ask with he | ⟨r, s', he, hg⟩
      · rw [he] at hs
        cases hs
      · rw [he] at hs
        obtain rfl := Except.ok.inj hs
        exact ⟨ho.of_shows (fun _ _ hr => hr) (Shows.of_eq rfl rfl), ha.grow hk hv hm hg⟩
    case isFalse =>
      obtain rfl := Except.ok.inj hs
      exact ⟨ho, ha⟩
  | fault vm address vmStart ask =>
    simp only [Sys.step] at hs
    split at hs
    case isTrue hmem =>
      obtain ⟨v, hv⟩ := h.files vm (Or.inl hmem)
      obtain ⟨m, hm, hok, -⟩ := hk.vmm hv
      simp only [deref_some hv, deref_some hm, bind, Except.bind] at hs
      rcases vmVmmFault_cases hok address vmStart ask with he | ⟨r, s', he, hg⟩
      · rw [he] at hs
        cases hs
      · rw [he] at hs
        obtain rfl := Except.ok.inj hs
        exact ⟨ho.of_shows (fun _ _ hr => hr) (Shows.of_eq rfl rfl), ha.grow hk hv hm hg⟩
    case isFalse =>
      obtain rfl := Except.ok.inj hs
      exact ⟨ho, ha⟩

/-- A vm that was made shows the vcpus as before. -/
theorem shows_createVm {a : VmAsk} {r : Except Errno ℕ} (hk : KernelOK k) (hc : createVm a k = .ok (r, k')) :
    Shows k k' := by
  unfold createVm at hc
  by_cases hvm : a.vm.isSome = true
  · simp only [Phys.kmalloc, hvm, if_true] at hc
    obtain ⟨⟨r', s'⟩, hvmm, hc⟩ := bind_eq_ok.1 hc
    cases r' with
    | error e =>
      obtain ⟨s'', -, hc⟩ := bind_eq_ok.1 hc
      obtain ⟨-, rfl⟩ := Prod.mk.inj (Except.ok.inj hc)
      exact Shows.of_eq rfl rfl
    | ok i =>
      obtain ⟨-, rfl⟩ := Prod.mk.inj (Except.ok.inj hc)
      refine fun c vc hvc => ⟨hvc, ?_⟩
      rintro ⟨v, hv, hs⟩
      have hlt := hk.ids.fresh _ (hk.ids.vm _ v hv).1
      exact ⟨v, (Function.update_of_ne hlt.ne _ _).trans hv, hs⟩
  · simp only [Phys.kmalloc, hvm, Bool.false_eq_true, if_false] at hc
    obtain ⟨-, rfl⟩ := Prod.mk.inj (Except.ok.inj hc)
    exact Shows.of_eq rfl rfl

/-- **One step of the driver**, with the pages that it loses. -/
theorem Sys.step_accounted {act : Act} (h : SysOK x) (ho : x.Owned) (ha : Accounted base x.k)
    (hs : x.step nasid act = .ok x') : x'.Owned ∧ ∃ lost : Finset Frame, Disjoint lost base ∧
      (lost = ∅ ↔ act.loses x.k.phys.pages = false) ∧ Accounted (base ∪ lost) x'.k := by
  have hk := h.kernel
  by_cases hact : ∀ a, act ≠ .createVm a
  · obtain ⟨ho', ha'⟩ := Sys.step_owned h ho ha hs hact
    refine ⟨ho', ∅, Finset.disjoint_empty_left _, ?_, by rw [Finset.union_empty]; exact ha'⟩
    cases act with
    | createVm a => exact absurd rfl (hact a)
    | _ => simp only [Act.loses]
  · push Not at hact
    obtain ⟨a, rfl⟩ := hact
    obtain ⟨⟨r, k'⟩, hc, hs⟩ := bind_eq_ok.1 hs
    have hshows := shows_createVm hk hc
    cases r with
    | error e =>
      obtain rfl := Except.ok.inj hs
      obtain ⟨lost, hdis, hiff, ha'⟩ := ha.createVm_failed hk hc
      exact ⟨ho.of_shows (fun _ _ hr => hr) hshows, lost, hdis.mono_right fun f hf => (ha.kept f hf).1, hiff, ha'⟩
    | ok i =>
      obtain rfl := Except.ok.inj hs
      refine ⟨ho.of_shows (fun _ _ hr => hr) hshows, ∅, Finset.disjoint_empty_left _, ?_,
        by rw [Finset.union_empty]; exact ha.createVm hk hc⟩
      have hall : a.granted x.k.phys.pages = true := by
        rcases createVm_outcome hk a with ⟨hall, -⟩ | ⟨-, k₁, he, -⟩
        · exact hall
        · cases he.symm.trans hc
      unfold VmAsk.granted VmmAsk.granted at hall
      simp only [Bool.and_eq_true] at hall
      simp only [Act.loses, VmAsk.partly, VmmAsk.partly, hall.2.2, Bool.not_true, Bool.and_false]

/-- No `YAKVM_CREATE_VM` of a run begins the table of the MMIO page and cannot finish it. -/
def Lossless (nasid : BitVec 32) (x : Sys) (acts : List Act) : Prop :=
  ∀ done a rest y, acts = done ++ .createVm a :: rest → x.run nasid done = .ok y → a.partly y.k.phys.pages = false

theorem lossless_cons {act : Act} {acts : List Act} (hs : x.step nasid act = .ok x') :
    Lossless nasid x (act :: acts) ↔ act.loses x.k.phys.pages = false ∧ Lossless nasid x' acts := by
  have hrun : ∀ done, x.run nasid (act :: done) = x'.run nasid done := fun done => by
    simp only [Sys.run, List.foldlM_cons, hs, bind, Except.bind]
  constructor
  · refine fun h => ⟨?_, fun done a rest y heq hy => h (act :: done) a rest y (by rw [heq, List.cons_append]) ((hrun done).trans hy)⟩
    cases act with
    | createVm a => exact h [] a acts x rfl rfl
    | _ => rfl
  · rintro ⟨hact, h⟩ done a rest y heq hy
    cases done with
    | nil =>
      obtain ⟨rfl, -⟩ := List.cons.inj heq
      obtain rfl := Except.ok.inj hy
      exact hact
    | cons d done =>
      obtain ⟨rfl, hrest⟩ := List.cons.inj heq
      exact h done a rest y hrest ((hrun done).symm.trans hy)

/-- **A run of the driver**, with the pages that it has lost. -/
theorem Sys.run_accounted {acts : List Act} (h : SysOK x) (ho : x.Owned) (ha : Accounted base x.k)
    (hrun : x.run nasid acts = .ok x') : x'.Owned ∧ ∃ lost : Finset Frame, Disjoint lost base ∧
      (lost = ∅ ↔ Lossless nasid x acts) ∧ Accounted (base ∪ lost) x'.k := by
  induction acts generalizing x base with
  | nil =>
    obtain rfl := Except.ok.inj hrun
    refine ⟨ho, ∅, Finset.disjoint_empty_left _, ?_, by rw [Finset.union_empty]; exact ha⟩
    exact ⟨fun _ done a rest y heq => by simp at heq, fun _ => rfl⟩
  | cons act acts ih =>
    obtain ⟨x₁, hs, hrest⟩ := bind_eq_ok.1 (by simpa only [Sys.run, List.foldlM_cons] using hrun)
    have h₁ : SysOK x₁ := by
      rcases h.step nasid act with he | ⟨x₂, he, h₂⟩
      · cases he.symm.trans hs
      · rw [Except.ok.inj (hs.symm.trans he)]
        exact h₂
    obtain ⟨ho₁, lost₁, hdis₁, hiff₁, ha₁⟩ := Sys.step_accounted h ho ha hs
    obtain ⟨ho', lost₂, hdis₂, hiff₂, ha'⟩ := ih h₁ ho₁ ha₁ hrest
    rw [Finset.disjoint_union_right] at hdis₂
    refine ⟨ho', lost₁ ∪ lost₂, Finset.disjoint_union_left.2 ⟨hdis₁, hdis₂.1⟩, ?_, by rw [← Finset.union_assoc]; exact ha'⟩
    rw [Finset.union_eq_empty, hiff₁, hiff₂, lossless_cons hs]

theorem Accounted.init (mem : Frame → Slot → Word) (pages : Finset Frame) : Accounted pages (Sys.init mem pages).k where
  kept := fun f hf => by
    refine ⟨hf, fun y hy => ?_⟩
    cases y <;> simp [Kernel.Holds, Sys.init] at hy
  pages := fun f hf => Or.inl hf
  slab := by simp [Sys.init]
  vmm := by simp [Sys.init]

theorem Sys.Owned.init (mem : Frame → Slot → Word) (pages : Finset Frame) : (Sys.init mem pages).Owned := by
  intro c vc hc
  simp [Sys.init] at hc

/-- A run of a driver that has just been loaded. -/
theorem Accounted.of_run {mem : Frame → Slot → Word} {pages : Finset Frame} {acts : List Act}
    (h : (Sys.init mem pages).run nasid acts = .ok x) : x.Owned ∧ ∃ lost : Finset Frame, Disjoint lost pages ∧
      (lost = ∅ ↔ Lossless nasid (Sys.init mem pages) acts) ∧ Accounted (pages ∪ lost) x.k :=
  Sys.run_accounted (SysOK.init mem pages) (Sys.Owned.init mem pages) (Accounted.init mem pages) h

end Yakvm
