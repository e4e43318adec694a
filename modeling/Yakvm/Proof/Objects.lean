import Yakvm.Proof.Teardown
import Yakvm.Spec.Vm

/-!
# Ownership of pages

Every page that a live object uses belongs to that object alone: the pages of its nested
page table to a vm, the five allocations of `yakvm_create_vcpu` to a vcpu. `KernelOK` states
this together with the bookkeeping of objects. Each driver routine changes the pages of
one object and keeps those of all others (`Keeps`), so each preserves the invariant:

* `createVm_spec`, `createVcpu_spec`: creation takes free pages, and on failure leaves every
  other object alone. `createVcpu_cases` follows the paths of `yakvm_create_vcpu`.
* `destroyVcpu_spec`, `destroyVm_spec`: destruction never frees a page twice and frees the
  pages of the object only.
* `KernelOK.grow`: a page request changes the tables of its own vm.
-/

namespace Yakvm

/-! ## The invariant -/

/-- What pages belong to. -/
inductive Owner
  | vm (o : ℕ)
  | vcpu (c : ℕ)
  deriving DecidableEq

/-- The page `f` belongs to the live object `x`. -/
def Kernel.Holds (k : Kernel) : Owner → Frame → Prop
  | .vm o, f => ∃ v m q, k.vms o = some v ∧ k.vmms v.vmm = some m ∧ q.length ≤ 4 ∧
      nodeAt k.phys (vmmPhysToVirt m.ncr3) q = some f
  | .vcpu c, f => ∃ vc, k.vcpus c = some vc ∧ f ∈ vc.pages

/-- The object `x`, if it is live, is well formed. -/
def Kernel.Valid (k : Kernel) : Owner → Prop
  | .vm o => ∀ v, k.vms o = some v → ∃ m, k.vmms v.vmm = some m ∧
      NptOK k.phys (vmmPhysToVirt m.ncr3) (some (path mmioHawk))
  | .vcpu c => ∀ vc, k.vcpus c = some vc → vc.pages.Nodup ∧ (∀ f ∈ vc.pages, f ∈ k.phys.pages) ∧
      ∀ v m, k.vms vc.vm = some v → k.vmms v.vmm = some m → k.phys.mem vc.gvmcb nestedCr3 = m.ncr3

/-- The objects of the three kinds are different objects, all allocated. -/
structure IdsOK (k : Kernel) : Prop where
  fresh : ∀ n ∈ k.phys.slab, n < k.phys.next
  vm : ∀ o v, k.vms o = some v → o ∈ k.phys.slab ∧ k.vmms o = none ∧ k.vcpus o = none
  vmm : ∀ n m, k.vmms n = some m → n ∈ k.phys.slab ∧ k.vcpus n = none
  vcpu : ∀ c vc, k.vcpus c = some vc → c ∈ k.phys.slab ∧ vc.vm < k.phys.next
  inj : ∀ o o' v v', k.vms o = some v → k.vms o' = some v' → v.vmm = v'.vmm → o = o'

/-- **The ownership invariant.** -/
structure KernelOK (k : Kernel) : Prop where
  ids : IdsOK k
  valid : ∀ x, k.Valid x
  apart : ∀ x y f, k.Holds x f → k.Holds y f → x = y

variable {k k' : Kernel} {x y : Owner} {f : Frame} {o c : ℕ}

theorem Kernel.Valid.live (h : k.Valid x) (hf : k.Holds x f) : f ∈ k.phys.pages := by
  cases x with
  | vm o =>
    obtain ⟨v, m, q, hv, hm, hq, hn⟩ := hf
    obtain ⟨m', hm', hok⟩ := h v hv
    obtain rfl : m' = m := Option.some.inj (hm'.symm.trans hm)
    exact hok.live q f hq hn
  | vcpu c =>
    obtain ⟨vc, hvc, hf⟩ := hf
    exact (h vc hvc).2.1 f hf

theorem KernelOK.live (h : KernelOK k) (hf : k.Holds x f) : f ∈ k.phys.pages := (h.valid x).live hf

theorem Vcpu.gvmcb_mem (vc : Vcpu) : vc.gvmcb ∈ vc.pages := by simp [Vcpu.pages]

/-! ## Objects that are left alone -/

/-- The vm `o`, if it is live after a step, was live before and has the same table. -/
def SameVm (k k' : Kernel) (o : ℕ) : Prop :=
  ∀ v', k'.vms o = some v' → ∃ v, k.vms o = some v ∧ v'.vmm = v.vmm ∧ k'.vmms v.vmm = k.vmms v.vmm

/-- The page `f` is allocated after a step and was not written by it. -/
def Kept (k k' : Kernel) (f : Frame) : Prop := k'.phys.mem f = k.phys.mem f ∧ f ∈ k'.phys.pages

/-- A step left the object `x` alone, or removed it. -/
def Keeps (k k' : Kernel) : Owner → Prop
  | .vm o => SameVm k k' o ∧ (k'.vms o ≠ none → ∀ f, k.Holds (.vm o) f → Kept k k' f)
  | .vcpu c => ∀ vc, k'.vcpus c = some vc →
      k.vcpus c = some vc ∧ SameVm k k' vc.vm ∧ ∀ f ∈ vc.pages, Kept k k' f

/-- An object that was left alone is still well formed and has no new pages. -/
theorem Keeps.valid (h : Keeps k k' x) (hv : k.Valid x) : k'.Valid x ∧ ∀ f, k'.Holds x f → k.Holds x f := by
  cases x with
  | vm o =>
    obtain ⟨hsame, hkept⟩ := h
    -- the table at the root is the old one, page for page
    have hroot : ∀ v', k'.vms o = some v' → ∃ v m, k.vms o = some v ∧ k.vmms v.vmm = some m ∧
        k'.vmms v'.vmm = some m ∧ NptOK k'.phys (vmmPhysToVirt m.ncr3) (some (path mmioHawk)) ∧
        ∀ q, q.length ≤ 4 → nodeAt k'.phys (vmmPhysToVirt m.ncr3) q = nodeAt k.phys (vmmPhysToVirt m.ncr3) q := by
      intro v' hv'
      obtain ⟨v, hvo, hvmm, hmm⟩ := hsame v' hv'
      obtain ⟨m, hm, hok⟩ := hv v hvo
      have hpage : ∀ p n, p.length ≤ 4 → nodeAt k.phys (vmmPhysToVirt m.ncr3) p = some n → Kept k k' n :=
        fun p n hp hn => hkept (by rw [hv']; simp) n ⟨v, m, p, hvo, hm, hp, hn⟩
      obtain ⟨h1, h2⟩ := hok.frame (fun p n hp hn => (hpage p n hp.le hn).1) (fun p n hp hn => (hpage p n hp hn).2)
      exact ⟨v, m, hvo, hm, by rw [hvmm, hmm, hm], h1, h2⟩
    refine ⟨?_, ?_⟩
    · intro v' hv'
      obtain ⟨v, m, -, -, hm', hok, -⟩ := hroot v' hv'
      exact ⟨m, hm', hok⟩
    · rintro f ⟨v', m', q, hv', hm', hq, hn⟩
      obtain ⟨v, m, hvo, hm, hm'', -, heq⟩ := hroot v' hv'
      obtain rfl : m' = m := Option.some.inj (hm'.symm.trans hm'')
      rw [heq q hq] at hn
      exact ⟨v, m', q, hvo, hm, hq, hn⟩
  | vcpu c =>
    refine ⟨?_, ?_⟩
    · intro vc hvc
      obtain ⟨hc, hsame, hkept⟩ := h vc hvc
      obtain ⟨hnd, -, hcr3⟩ := hv vc hc
      refine ⟨hnd, fun f hf => (hkept f hf).2, ?_⟩
      intro v' m' hv' hm'
      obtain ⟨v, hvo, hvmm, hmm⟩ := hsame v' hv'
      rw [(hkept vc.gvmcb vc.gvmcb_mem).1]
      exact hcr3 v m' hvo (by rw [← hmm, ← hvmm]; exact hm')
    · rintro f ⟨vc, hvc, hf⟩
      exact ⟨vc, (h vc hvc).1, hf⟩

/-- **A step that changes one object.** All others are left alone; the new pages of the
one that changes were free. -/
theorem KernelOK.change (hk : KernelOK k) (hids : IdsOK k') (hkeep : ∀ y, y ≠ x → Keeps k k' y)
    (hx : k'.Valid x) (hnew : ∀ f, k'.Holds x f → k.Holds x f ∨ f ∉ k.phys.pages) : KernelOK k' := by
  have hold : ∀ y, y ≠ x → ∀ f, k'.Holds y f → k.Holds y f := fun y hy =>
    ((hkeep y hy).valid (hk.valid y)).2
  -- a page of `x` is not a page of another object
  have hmix : ∀ y f, y ≠ x → k'.Holds y f → ¬ k'.Holds x f := by
    intro y f hy hyf hxf
    have hyf' := hold y hy f hyf
    rcases hnew f hxf with h | h
    · exact hy (hk.apart y x f hyf' h)
    · exact h (hk.live hyf')
  refine ⟨hids, ?_, ?_⟩
  · intro y
    by_cases hy : y = x
    · rw [hy]; exact hx
    · exact ((hkeep y hy).valid (hk.valid y)).1
  · intro y z f hyf hzf
    by_cases hy : y = x
    · by_cases hz : z = x
      · rw [hy, hz]
      · exact absurd (hy ▸ hyf) (hmix z f hz hzf)
    · by_cases hz : z = x
      · exact absurd (hz ▸ hzf) (hmix y f hy hyf)
      · exact hk.apart y z f (hold y hy f hyf) (hold z hz f hzf)

/-- **A step that changes no object** other than by removing it. -/
theorem KernelOK.keep (hk : KernelOK k) (hids : IdsOK k') (hkeep : ∀ y, Keeps k k' y) : KernelOK k' :=
  hk.change (x := .vm 0) hids (fun y _ => hkeep y) ((hkeep _).valid (hk.valid _)).1
    (fun f hf => Or.inl (((hkeep _).valid (hk.valid _)).2 f hf))

/-- Only the reference count and the vcpu of a vm record change. -/
theorem KernelOK.setVm {v v' : Vm} (hk : KernelOK k) (ho : k.vms o = some v) (hv : v'.vmm = v.vmm) :
    KernelOK { k with vms := Function.update k.vms o (some v') } := by
  have hsame : ∀ n u', Function.update k.vms o (some v') n = some u' → ∃ u, k.vms n = some u ∧ u'.vmm = u.vmm := by
    intro n u' hu
    by_cases hn : n = o
    · subst hn
      rw [Function.update_self] at hu
      obtain rfl := Option.some.inj hu
      exact ⟨v, ho, hv⟩
    · rw [Function.update_of_ne hn] at hu
      exact ⟨u', hu, rfl⟩
  have hsameVm : ∀ n, SameVm k { k with vms := Function.update k.vms o (some v') } n := by
    intro n u' hu
    obtain ⟨u, hu1, hu2⟩ := hsame n u' hu
    exact ⟨u, hu1, hu2, rfl⟩
  refine hk.keep ⟨hk.ids.fresh, ?_, hk.ids.vmm, hk.ids.vcpu, ?_⟩ ?_
  · intro n u' hu
    obtain ⟨u, hu1, -⟩ := hsame n u' hu
    exact hk.ids.vm n u hu1
  · intro n n' u u' hu hu' heq
    obtain ⟨w, hw1, hw2⟩ := hsame n u hu
    obtain ⟨w', hw1', hw2'⟩ := hsame n' u' hu'
    exact hk.ids.inj n n' w w' hw1 hw1' (by rw [← hw2, ← hw2', heq])
  · intro y
    cases y with
    | vm n => exact ⟨hsameVm n, fun _ f hf => ⟨rfl, hk.live hf⟩⟩
    | vcpu c =>
      intro vc hvc
      exact ⟨hvc, hsameVm vc.vm, fun f hf => ⟨rfl, hk.live (x := .vcpu c) ⟨vc, hvc, hf⟩⟩⟩

/-- Pages are allocated or returned, and no object changes. -/
theorem KernelOK.setPhys {s' : Phys} (hk : KernelOK k)
    (hpages : ∀ g ∈ k.phys.pages, s'.mem g = k.phys.mem g ∧ g ∈ s'.pages)
    (hslab : s'.slab = k.phys.slab) (hnext : k.phys.next ≤ s'.next) : KernelOK { k with phys := s' } := by
  have hsame : ∀ n, SameVm k { k with phys := s' } n := fun n v hv => ⟨v, hv, rfl, rfl⟩
  refine hk.keep ⟨?_, ?_, ?_, ?_, hk.ids.inj⟩ ?_
  · intro n hn
    simp only [hslab] at hn
    have := hk.ids.fresh n hn
    simp only
    omega
  · intro n v hv
    simp only [hslab]
    exact hk.ids.vm n v hv
  · intro n m hm
    simp only [hslab]
    exact hk.ids.vmm n m hm
  · intro n vc hvc
    obtain ⟨h1, h2⟩ := hk.ids.vcpu n vc hvc
    simp only [hslab]
    exact ⟨h1, by omega⟩
  · intro y
    cases y with
    | vm n => exact ⟨hsame n, fun _ f hf => hpages f (hk.live hf)⟩
    | vcpu n =>
      intro vc hvc
      exact ⟨hvc, hsame vc.vm, fun f hf => hpages f (hk.live (x := .vcpu n) ⟨vc, hvc, hf⟩)⟩

/-! ## Creating a vm -/

theorem KernelOK.next_notMem (hk : KernelOK k) : k.phys.next ∉ k.phys.slab := fun h =>
  (hk.ids.fresh _ h).ne rfl

/-- The table of a live vm. -/
theorem KernelOK.vmm {v : Vm} (hk : KernelOK k) (ho : k.vms o = some v) :
    ∃ m, k.vmms v.vmm = some m ∧ NptOK k.phys (vmmPhysToVirt m.ncr3) (some (path mmioHawk)) ∧
      v.vmm ∈ k.phys.slab := by
  obtain ⟨m, hm, hok⟩ := hk.valid (.vm o) v ho
  exact ⟨m, hm, hok, (hk.ids.vmm _ _ hm).1⟩

/-- A new vm with a new table. -/
theorem KernelOK.addVm {s' : Phys} {n : ℕ} {m : Vmm} (hk : KernelOK k) (addr : Word)
    (h : Fresh { k.phys with slab := insert k.phys.next k.phys.slab, next := k.phys.next + 1 } n m s') :
    KernelOK { k with
      phys := s'
      vms := Function.update k.vms k.phys.next (some ⟨addr, 1, none, n⟩)
      vmms := Function.update k.vmms n (some m) } := by
  obtain ⟨hn, hslab, hnext⟩ := h.slab
  simp only at hn hslab hnext
  have hlt := hk.ids.fresh
  -- old objects have old serial numbers
  have hvm : ∀ {o v}, k.vms o = some v → o ≠ k.phys.next ∧ o ≠ n ∧ v.vmm ≠ n ∧ v.vmm ≠ k.phys.next := by
    intro o v ho
    obtain ⟨_, -, -, hv⟩ := hk.vmm ho
    have h1 := hlt _ hv
    have h2 := hlt _ (hk.ids.vm o v ho).1
    omega
  have hvmm : ∀ {i u}, k.vmms i = some u → i ≠ k.phys.next ∧ i ≠ n := by
    intro i u hi
    have := hlt _ (hk.ids.vmm i u hi).1
    omega
  have hvcpu : ∀ {c vc}, k.vcpus c = some vc → c ≠ k.phys.next ∧ c ≠ n ∧ vc.vm ≠ k.phys.next := by
    intro c vc hc
    obtain ⟨h1, h2⟩ := hk.ids.vcpu c vc hc
    have := hlt _ h1
    omega
  have hold : ∀ i ∈ k.phys.slab, i ∈ s'.slab := by
    intro i hi
    rw [hslab]
    exact Finset.mem_insert_of_mem (Finset.mem_insert_of_mem hi)
  have hnone : ∀ i, i = k.phys.next ∨ i = n → k.vms i = none ∧ k.vmms i = none ∧ k.vcpus i = none := by
    intro i hi
    refine ⟨?_, ?_, ?_⟩
    · cases hx : k.vms i with
      | none => rfl
      | some v => have := hvm hx; omega
    · cases hx : k.vmms i with
      | none => rfl
      | some v => have := hvmm hx; omega
    · cases hx : k.vcpus i with
      | none => rfl
      | some v => have := hvcpu hx; omega
  have hne : k.phys.next ≠ n := by omega
  have hsame : ∀ i, i ≠ k.phys.next → SameVm k { k with
      phys := s'
      vms := Function.update k.vms k.phys.next (some ⟨addr, 1, none, n⟩)
      vmms := Function.update k.vmms n (some m) } i := by
    intro i hi v hv
    simp only [Function.update_of_ne hi] at hv
    exact ⟨v, hv, rfl, by simp only [Function.update_of_ne (hvm hv).2.2.1]⟩
  have hkept : ∀ f ∈ k.phys.pages, s'.mem f = k.phys.mem f ∧ f ∈ s'.pages := fun f hf =>
    ⟨h.mem f hf, h.owns.base hf⟩
  refine hk.change (x := .vm k.phys.next) ⟨?_, ?_, ?_, ?_, ?_⟩ ?_ ?_ ?_
  · intro i hi
    simp only [hslab, Finset.mem_insert] at hi
    simp only [hnext]
    rcases hi with rfl | rfl | hi
    · omega
    · omega
    · have := hlt i hi; omega
  · intro i v hi
    simp only at hi ⊢
    by_cases h1 : i = k.phys.next
    · rw [Function.update_of_ne (by omega), hslab]
      exact ⟨by simp [h1], (hnone i (Or.inl h1)).2⟩
    · rw [Function.update_of_ne h1] at hi
      obtain ⟨h2, h3⟩ := hk.ids.vm i v hi
      rw [Function.update_of_ne (hvm hi).2.1]
      exact ⟨hold i h2, h3⟩
  · intro i u hi
    simp only at hi ⊢
    by_cases h1 : i = n
    · exact ⟨by rw [hslab, h1]; exact Finset.mem_insert_self _ _, (hnone i (Or.inr h1)).2.2⟩
    · rw [Function.update_of_ne h1] at hi
      exact ⟨hold i (hk.ids.vmm i u hi).1, (hk.ids.vmm i u hi).2⟩
  · intro i vc hi
    obtain ⟨h1, h2⟩ := hk.ids.vcpu i vc hi
    simp only [hnext]
    exact ⟨hold i h1, by omega⟩
  · intro i j v u hv hu heq
    simp only at hv hu
    by_cases h1 : i = k.phys.next <;> by_cases h2 : j = k.phys.next
    · rw [h1, h2]
    · subst h1
      rw [Function.update_self] at hv
      rw [Function.update_of_ne h2] at hu
      obtain rfl := Option.some.inj hv
      exact absurd heq.symm (hvm hu).2.2.1
    · subst h2
      rw [Function.update_self] at hu
      rw [Function.update_of_ne h1] at hv
      obtain rfl := Option.some.inj hu
      exact absurd heq (hvm hv).2.2.1
    · rw [Function.update_of_ne h1] at hv
      rw [Function.update_of_ne h2] at hu
      exact hk.ids.inj i j v u hv hu heq
  · intro y hy
    cases y with
    | vm i => exact ⟨hsame i (fun h => hy (by rw [h])), fun _ f hf => hkept f (hk.live hf)⟩
    | vcpu c =>
      intro vc hvc
      exact ⟨hvc, hsame vc.vm (hvcpu hvc).2.2, fun f hf => hkept f (hk.live (x := .vcpu c) ⟨vc, hvc, hf⟩)⟩
  · intro v hv
    simp only [Function.update_self] at hv
    obtain rfl := Option.some.inj hv
    exact ⟨m, Function.update_self .., h.ok⟩
  · rintro f ⟨v, u, q, hv, hu, hq, hf⟩
    simp only [Function.update_self] at hv
    obtain rfl := Option.some.inj hv
    simp only [Function.update_self] at hu
    obtain rfl := Option.some.inj hu
    exact Or.inr (h.owns.apart q f hq hf)

/-- **`yakvm_create_vm`** makes a vm with one reference and no vcpu, or changes no object. -/
theorem createVm_spec (hk : KernelOK k) (a : VmAsk) :
    (∃ v k', createVm a k = .ok (.ok k.phys.next, k') ∧ KernelOK k' ∧ v.refcount = 1 ∧ v.vcpu = none ∧
      k'.vms = Function.update k.vms k.phys.next (some v) ∧ k'.vcpus = k.vcpus ∧
      k.phys.next < k'.phys.next) ∨
    (∃ k', createVm a k = .ok (.error .ENOMEM, k') ∧ KernelOK k' ∧ k'.vms = k.vms ∧ k'.vcpus = k.vcpus ∧
      k.phys.next ≤ k'.phys.next) := by
  unfold createVm
  by_cases hvm : a.vm.isSome = true
  · set s₁ : Phys := { k.phys with slab := insert k.phys.next k.phys.slab, next := k.phys.next + 1 } with hs₁
    have hkm : k.phys.kmalloc a.vm.isSome = some (k.phys.next, s₁) := by simp only [Phys.kmalloc, hvm, if_true, hs₁]
    rw [hkm]
    rcases createVmm_spec a.vmm s₁ with ⟨n, m, s', he, hfresh⟩ | ⟨s', he, hfail⟩
    · refine Or.inl ⟨⟨a.vm.getD 0, 1, none, n⟩, _, by simp only [he, bind, Except.bind],
        hk.addVm _ hfresh, rfl, rfl, rfl, rfl, ?_⟩
      have := hfresh.slab.2.2
      simp only [hs₁] at this
      simp only [this]
      omega
    · have hnotin : s₁.next ∉ s₁.slab := by
        simp only [hs₁, Finset.mem_insert, not_or]
        exact ⟨by omega, fun h => by have := hk.ids.fresh _ h; omega⟩
      have hslab : s'.slab = insert k.phys.next k.phys.slab := hfail.slab hnotin
      have hnext : k.phys.next + 1 ≤ s'.next := hfail.next
      have hfree : s'.kfree k.phys.next = .ok { s' with slab := s'.slab.erase k.phys.next } :=
        Phys.kfree_ok (by rw [hslab]; exact Finset.mem_insert_self _ _)
      refine Or.inr ⟨{ k with phys := { s' with slab := s'.slab.erase k.phys.next } },
        by simp only [he, hfree, bind, Except.bind], ?_, rfl, rfl, by simp only; omega⟩
      refine hk.setPhys (fun g hg => ⟨hfail.mem g hg, hfail.pages hg⟩) ?_ (by simp only; omega)
      simp only [hslab, Finset.erase_insert hk.next_notMem]
  · have hkm : k.phys.kmalloc a.vm.isSome = none := by simp only [Phys.kmalloc, hvm, if_false, Bool.false_eq_true]
    rw [hkm]
    exact Or.inr ⟨k, rfl, hk, rfl, rfl, le_rfl⟩

/-! ## Creating a vcpu -/

/-- The pages `fs`, all free in `s`, have been allocated on the way from `s` to `s'`, and
nothing that was allocated in `s` has changed. -/
structure Extra (s : Phys) (fs : List Frame) (s' : Phys) : Prop where
  pages : s'.pages = s.pages ∪ fs.toFinset
  nodup : fs.Nodup
  free : ∀ f ∈ fs, f ∉ s.pages
  mem : ∀ g ∈ s.pages, s'.mem g = s.mem g
  slab : s'.slab = s.slab
  next : s'.next = s.next

section Extra

variable {s s' s'' : Phys} {fs : List Frame}

theorem Extra.refl (s : Phys) : Extra s [] s := ⟨by simp, List.nodup_nil, by simp, fun _ _ => rfl, rfl, rfl⟩

theorem Extra.alloc {a : Option Frame} (h : Extra s fs s') (ha : s'.allocPage a = some (f, s'')) :
    Extra s (f :: fs) s'' := by
  obtain ⟨-, hf, rfl⟩ := Phys.allocPage_some ha
  rw [h.pages, Finset.mem_union, not_or, List.mem_toFinset] at hf
  refine ⟨?_, List.nodup_cons.2 ⟨hf.2, h.nodup⟩, ?_, ?_, h.slab, h.next⟩
  · simp only [h.pages, List.toFinset_cons, Finset.union_insert]
  · intro g hg
    rcases List.mem_cons.1 hg with rfl | hg
    · exact hf.1
    · exact h.free g hg
  · intro g hg
    have hgf : g ≠ f := fun he => hf.1 (he ▸ hg)
    simp only [Function.update_of_ne hgf]
    exact h.mem g hg

theorem block_nodup (f : Frame) {order : ℕ} (ho : order ≤ 40) : (block f order).Nodup := by
  unfold block
  refine List.Nodup.map_on ?_ List.nodup_range
  intro a ha b hb hab
  rw [List.mem_range] at ha hb
  have hle : 2 ^ order ≤ 2 ^ 40 := Nat.pow_le_pow_right (by omega) ho
  have := congrArg BitVec.toNat (BitVec.add_right_inj f |>.1 hab)
  rwa [BitVec.toNat_ofNat, BitVec.toNat_ofNat, Nat.mod_eq_of_lt (by omega), Nat.mod_eq_of_lt (by omega)] at this

theorem Extra.allocs {a : Option Frame} {order : ℕ} (h : Extra s fs s') (ho : order ≤ 40)
    (ha : s'.allocPages order a = some (f, s'')) : Extra s (block f order ++ fs) s'' := by
  unfold Phys.allocPages at ha
  cases a with
  | none => simp at ha
  | some g =>
    simp only at ha
    split at ha
    · rename_i hfree
      obtain ⟨rfl, rfl⟩ := Prod.mk.inj (Option.some.inj ha)
      have hnew : ∀ x ∈ block g order, x ∉ s.pages ∧ x ∉ fs := by
        intro x hx
        have := hfree.2 x hx
        rwa [h.pages, Finset.mem_union, not_or, List.mem_toFinset] at this
      refine ⟨?_, List.Nodup.append (block_nodup g ho) h.nodup ?_, ?_, ?_, h.slab, h.next⟩
      · simp only [h.pages, List.toFinset_append]
        rw [Finset.union_assoc, Finset.union_comm fs.toFinset]
      · rw [List.disjoint_left]
        exact fun x hx => (hnew x hx).2
      · intro x hx
        rcases List.mem_append.1 hx with hx | hx
        · exact (hnew x hx).1
        · exact h.free x hx
      · intro x hx
        simp only
        rw [if_neg (fun hb => (hnew x hb).1 hx), h.mem x hx]
    · simp at ha

/-- Freeing the extra pages gives back the pages there were. -/
theorem Extra.freePages (h : Extra s fs s') : s'.freePages fs = .ok { s' with pages := s.pages } := by
  rw [freePages_ok fs s' h.nodup (fun f hf => by rw [h.pages, Finset.mem_union, List.mem_toFinset]; exact Or.inr hf)]
  congr 2
  rw [h.pages, Finset.union_sdiff_right]
  exact Finset.sdiff_eq_self_of_disjoint (Finset.disjoint_left.2 fun x hx hf => h.free x (List.mem_toFinset.1 hf) hx)

end Extra

/-- Stores that touch only the pages in `fs`. -/
structure Touches (fs : List Frame) (s s' : Phys) : Prop where
  mem : ∀ g, g ∉ fs → s'.mem g = s.mem g
  pages : s'.pages = s.pages
  slab : s'.slab = s.slab
  next : s'.next = s.next

section Touches

variable {s s' s'' : Phys} {fs : List Frame}

theorem Touches.store (s : Phys) (i : Slot) (w : Word) (hf : f ∈ fs) : Touches fs s (s.store f i w) :=
  ⟨fun _ hg => Phys.store_other s i w (fun h => hg (h ▸ hf)), rfl, rfl, rfl⟩

theorem Touches.trans (h : Touches fs s s') (h' : Touches fs s' s'') : Touches fs s s'' :=
  ⟨fun g hg => (h'.mem g hg).trans (h.mem g hg), h'.pages.trans h.pages, h'.slab.trans h.slab, h'.next.trans h.next⟩

theorem Touches.storeAll (hf : f ∈ fs) (ws : List (Slot × Word)) : ∀ s : Phys, Touches fs s (s.storeAll f ws) := by
  induction ws with
  | nil => intro s; exact ⟨fun _ _ => rfl, rfl, rfl, rfl⟩
  | cons w ws ih => intro s; exact (Touches.store s w.1 w.2 hf).trans (ih _)

/-- `set_bit` in the first page of a bitmap. -/
theorem Phys.setBit_first (s : Phys) (f : Frame) {bit : ℕ} (hb : bit < 32768) :
    s.setBit f bit = s.store f (BitVec.ofNat 9 (bit / 64))
      (s.mem f (BitVec.ofNat 9 (bit / 64)) ||| BitVec.twoPow 64 (bit % 64)) := by
  have h0 : bit / 64 / ptrsPerPage = 0 := by unfold ptrsPerPage; omega
  unfold Phys.setBit
  simp only [h0, BitVec.add_zero]

theorem Touches.setBit (s : Phys) {bit : ℕ} (hb : bit < 32768) (hf : f ∈ fs) : Touches fs s (s.setBit f bit) := by
  rw [Phys.setBit_first s f hb]
  exact Touches.store s _ _ hf

end Touches

/-- **`yakvm_vcpu_init_vmcb`** writes the control block and the permission map only, and
leaves the root of the vm's table in `nested_cr3`. It fails its assertion when the address
space identifiers have run out. -/
theorem vcpuInitVmcb_spec (nasid : BitVec 32) (vc : Vcpu) (ncr3 : Word) (asid : BitVec 32) (s : Phys) :
    vcpuInitVmcb nasid vc ncr3 asid s = .error .panic ∨
    ∃ asid' s', vcpuInitVmcb nasid vc ncr3 asid s = .ok (asid', s') ∧ Touches [vc.gvmcb, vc.iopm] s s' ∧
      s'.mem vc.gvmcb nestedCr3 = ncr3 := by
  unfold vcpuInitVmcb
  simp only
  split
  · refine Or.inr ⟨_, _, rfl, ?_, ?_⟩
    · unfold vmcbSetIntercept
      have hg : vc.gvmcb ∈ [vc.gvmcb, vc.iopm] := by simp
      have hi : vc.iopm ∈ [vc.gvmcb, vc.iopm] := by simp
      refine Touches.trans ?_ (Touches.store _ _ _ hg)
      refine Touches.trans ?_ (Touches.setBit _ (by decide) hg)
      refine Touches.trans ?_ (Touches.store _ _ _ hg)
      refine Touches.trans ?_ (Touches.store _ _ _ hg)
      refine Touches.trans ?_ (Touches.store _ _ _ hg)
      refine Touches.trans ?_ (Touches.setBit _ (by decide) hi)
      refine Touches.trans ?_ (Touches.store _ _ _ hg)
      refine Touches.trans ?_ (Touches.setBit _ (by decide) hg)
      refine Touches.trans ?_ (Touches.setBit _ (by decide) hg)
      refine Touches.trans ?_ (Touches.setBit _ (by decide) hg)
      exact Touches.storeAll hg vmcbSave s
    · -- the stores after the one to `nested_cr3` are to other fields
      rw [Phys.store_ne _ _ (Or.inr (by decide)), vmcbSetIntercept, Phys.setBit_first _ _ (by decide),
        Phys.store_ne _ _ (Or.inr (by decide)), Phys.store_ne _ _ (Or.inr (by decide)), Phys.store_same]
  · exact Or.inl rfl

/-- The ASID is the next value of the counter. The low half of the word at `vmcb->control.asid`
holds it when the assertion reads it. -/
theorem vcpuInitVmcb_asid (nasid : BitVec 32) (vc : Vcpu) (ncr3 : Word) (asid : BitVec 32) (s : Phys) :
    (asid + 1 < nasid → ∃ s', vcpuInitVmcb nasid vc ncr3 asid s = .ok (asid + 1, s') ∧
      (s'.mem vc.gvmcb controlAsid).setWidth 32 = asid + 1) ∧
    (¬ asid + 1 < nasid → vcpuInitVmcb nasid vc ncr3 asid s = .error .panic) := by
  unfold vcpuInitVmcb
  refine ⟨?_, ?_⟩
  · intro h
    simp only [if_pos h]
    refine ⟨_, rfl, ?_⟩
    rw [Phys.store_same, BitVec.setWidth_append]
    simp
  · intro h
    simp only [if_neg h]

/-- The vcpu's pages are the ones that were allocated for it. -/
theorem Vcpu.pages_perm (vc : Vcpu) :
    (block vc.iopm iopmOrder ++ [vc.state, vc.hsave, vc.hvmcb, vc.gvmcb]).Perm vc.pages := by
  unfold Vcpu.pages
  rw [List.append_assoc]
  exact List.perm_middle

theorem Vcpu.iopm_mem (vc : Vcpu) : vc.iopm ∈ vc.pages := by
  simp [Vcpu.pages, block, iopmOrder, List.range_succ]

/-- A new vcpu in free pages. -/
theorem KernelOK.addVcpu {s s' : Phys} {vc : Vcpu} {v : Vm} {m : Vmm} (hk : KernelOK k) (asid : BitVec 32)
    (hv : k.vms vc.vm = some v) (hm : k.vmms v.vmm = some m)
    (he : Extra { k.phys with slab := insert k.phys.next k.phys.slab, next := k.phys.next + 1 }
      (block vc.iopm iopmOrder ++ [vc.state, vc.hsave, vc.hvmcb, vc.gvmcb]) s)
    (ht : Touches [vc.gvmcb, vc.iopm] s s') (hcr3 : s'.mem vc.gvmcb nestedCr3 = m.ncr3) :
    KernelOK { k with
      phys := s'
      vcpus := Function.update k.vcpus k.phys.next (some vc)
      asid := asid } := by
  have hperm := vc.pages_perm
  have hfree : ∀ f ∈ vc.pages, f ∉ k.phys.pages := fun f hf => he.free f (hperm.mem_iff.2 hf)
  have hpages : s'.pages = k.phys.pages ∪ vc.pages.toFinset := by
    rw [ht.pages, he.pages, List.toFinset_eq_of_perm _ _ hperm]
  have hslab : s'.slab = insert k.phys.next k.phys.slab := ht.slab.trans he.slab
  have hnext : s'.next = k.phys.next + 1 := ht.next.trans he.next
  have hkept : ∀ f ∈ k.phys.pages, s'.mem f = k.phys.mem f ∧ f ∈ s'.pages := by
    intro f hf
    refine ⟨?_, by rw [hpages]; exact Finset.mem_union_left _ hf⟩
    rw [ht.mem f ?_, he.mem f hf]
    simp only [List.mem_cons, List.not_mem_nil, or_false, not_or]
    exact ⟨fun h => hfree _ vc.gvmcb_mem (h ▸ hf), fun h => hfree _ vc.iopm_mem (h ▸ hf)⟩
  have hlt := hk.ids.fresh
  have hold : ∀ i ∈ k.phys.slab, i ∈ s'.slab := fun i hi => by rw [hslab]; exact Finset.mem_insert_of_mem hi
  have hne : ∀ i ∈ k.phys.slab, i ≠ k.phys.next := fun i hi => (hlt i hi).ne
  have hsame : ∀ i, SameVm k { k with
      phys := s'
      vcpus := Function.update k.vcpus k.phys.next (some vc)
      asid := asid } i := fun i u hu => ⟨u, hu, rfl, rfl⟩
  refine hk.change (x := .vcpu k.phys.next) ⟨?_, ?_, ?_, ?_, hk.ids.inj⟩ ?_ ?_ ?_
  · intro i hi
    simp only [hslab, Finset.mem_insert] at hi
    simp only [hnext]
    rcases hi with rfl | hi
    · omega
    · have := hlt i hi; omega
  · intro i u hu
    obtain ⟨h1, h2, h3⟩ := hk.ids.vm i u hu
    exact ⟨hold i h1, h2, by simp only [Function.update_of_ne (hne i h1)]; exact h3⟩
  · intro i u hu
    obtain ⟨h1, h2⟩ := hk.ids.vmm i u hu
    exact ⟨hold i h1, by simp only [Function.update_of_ne (hne i h1)]; exact h2⟩
  · intro i u hu
    simp only at hu ⊢
    rw [hnext]
    by_cases hi : i = k.phys.next
    · subst hi
      rw [Function.update_self] at hu
      obtain rfl := Option.some.inj hu
      have := hlt _ (hk.ids.vm _ _ hv).1
      exact ⟨by rw [hslab]; exact Finset.mem_insert_self _ _, by omega⟩
    · rw [Function.update_of_ne hi] at hu
      obtain ⟨h1, h2⟩ := hk.ids.vcpu i u hu
      exact ⟨hold i h1, by omega⟩
  · intro y hy
    cases y with
    | vm i => exact ⟨hsame i, fun _ f hf => hkept f (hk.live hf)⟩
    | vcpu i =>
      intro u hu
      have hi : i ≠ k.phys.next := fun h => hy (by rw [h])
      simp only [Function.update_of_ne hi] at hu
      exact ⟨hu, hsame u.vm, fun f hf => hkept f (hk.live (x := .vcpu i) ⟨u, hu, hf⟩)⟩
  · intro u hu
    simp only [Function.update_self] at hu
    obtain rfl := Option.some.inj hu
    refine ⟨(hperm.nodup_iff).1 he.nodup, ?_, ?_⟩
    · intro f hf
      simp only [hpages, Finset.mem_union, List.mem_toFinset]
      exact Or.inr hf
    · intro v' m' hv' hm'
      simp only at hv' hm'
      rw [hv] at hv'
      obtain rfl := Option.some.inj hv'
      rw [hm] at hm'
      obtain rfl := Option.some.inj hm'
      exact hcr3
  · rintro f ⟨u, hu, hf⟩
    simp only [Function.update_self] at hu
    obtain rfl := Option.some.inj hu
    exact Or.inr (hfree f hf)

/-- The outcomes of `yakvm_create_vcpu` on a live vm. -/
def VcpuOutcome (vm : ℕ) (k : Kernel) (r : Except Crash (Except Errno ℕ × Kernel)) : Prop :=
  (∃ vc k', r = .ok (.ok k.phys.next, k') ∧ KernelOK k' ∧ vc.vm = vm ∧ k'.vms = k.vms ∧
    k'.vcpus = Function.update k.vcpus k.phys.next (some vc) ∧ k.phys.next < k'.phys.next) ∨
  (∃ k', r = .ok (.error .ENOMEM, k') ∧ KernelOK k' ∧ k'.vms = k.vms ∧ k'.vcpus = k.vcpus ∧
    k.phys.next ≤ k'.phys.next) ∨
  r = .error .panic

theorem deref_some {α : Type} {objs : ℕ → Option α} {n : ℕ} {a : α} (h : objs n = some a) :
    deref objs n = .ok a := by
  simp only [deref, h]

theorem Phys.allocPages_some {s s' : Phys} {order : ℕ} {a : Option Frame} (h : s.allocPages order a = some (f, s')) :
    f.toNat % 2 ^ order = 0 ∧ (∀ g ∈ block f order, s'.mem g = 0) ∧ ∀ g, g ∉ block f order → s'.mem g = s.mem g := by
  unfold Phys.allocPages at h
  cases a with
  | none => simp at h
  | some g =>
    simp only at h
    split at h
    · rename_i hfree
      obtain ⟨rfl, rfl⟩ := Prod.mk.inj (Option.some.inj h)
      exact ⟨hfree.1, fun x hx => if_pos hx, fun x hx => if_neg hx⟩
    · simp at h

/-- What is left when `yakvm_create_vcpu` has given back what it allocated. -/
structure GaveBack (s s' : Phys) : Prop where
  kept : ∀ g ∈ s.pages, s'.mem g = s.mem g ∧ g ∈ s'.pages
  pages : s'.pages = s.pages
  slab : s.next ∉ s.slab → s'.slab = s.slab
  next : s.next ≤ s'.next

/-- The labels `free_state` to `free_vcpu`: the pages allocated so far are given back. -/
theorem Extra.giveBack {s : Phys} {fs : List Frame}
    (he : Extra { k.phys with slab := insert k.phys.next k.phys.slab, next := k.phys.next + 1 } fs s) :
    ∃ s', GaveBack k.phys s' ∧ (do
      let s ← s.freePages fs
      let s ← s.kfree k.phys.next
      .ok (.error .ENOMEM, { k with phys := s }) : Except Crash (Except Errno ℕ × Kernel)) =
      .ok (.error .ENOMEM, { k with phys := s' }) := by
  have hfree : Phys.kfree { s with pages := k.phys.pages } k.phys.next =
      .ok { s with pages := k.phys.pages, slab := s.slab.erase k.phys.next } :=
    Phys.kfree_ok (by simp only [he.slab]; exact Finset.mem_insert_self _ _)
  refine ⟨{ s with pages := k.phys.pages, slab := s.slab.erase k.phys.next },
    ⟨fun g hg => ⟨he.mem g hg, hg⟩, rfl, ?_, ?_⟩, ?_⟩
  · intro hnew
    simp only [he.slab, Finset.erase_insert hnew]
  · simp only [he.next]
    omega
  · simp only [he.freePages, bind, Except.bind, hfree]

/-- Everything has been allocated for the vcpu `vc`. -/
structure Allocated (s : Phys) (vc : Vcpu) (s' : Phys) : Prop where
  extra : Extra { s with slab := insert s.next s.slab, next := s.next + 1 }
    (block vc.iopm iopmOrder ++ [vc.state, vc.hsave, vc.hvmcb, vc.gvmcb]) s'
  aligned : vc.iopm.toNat % 2 ^ iopmOrder = 0
  gvmcb : s'.mem vc.gvmcb = 0
  iopm : ∀ f ∈ block vc.iopm iopmOrder, s'.mem f = 0

/-- **The paths of `yakvm_create_vcpu`**: an allocation fails and the others are given back, or
all succeed and `yakvm_vcpu_init_vmcb` is called. -/
theorem createVcpu_cases (nasid : BitVec 32) (a : VcpuAsk) (vm : ℕ) (k : Kernel) :
    (a.granted k.phys = false ∧ ∃ s, GaveBack k.phys s ∧
      createVcpu nasid a vm k = .ok (.error .ENOMEM, { k with phys := s })) ∨
    (a.granted k.phys = true ∧ ∃ vc s, vc.vm = vm ∧ Allocated k.phys vc s ∧ createVcpu nasid a vm k = (do
      let v ← deref k.vms vm
      let vmm ← deref k.vmms v.vmm
      let (asid, s) ← vcpuInitVmcb nasid vc vmm.ncr3 k.asid s
      .ok (.ok k.phys.next,
        { k with phys := s, vcpus := Function.update k.vcpus k.phys.next (some vc), asid := asid }))) := by
  unfold createVcpu
  by_cases hvc : a.vcpu = true
  · set s₁ : Phys := { k.phys with slab := insert k.phys.next k.phys.slab, next := k.phys.next + 1 } with hs₁
    have hkm : k.phys.kmalloc a.vcpu = some (k.phys.next, s₁) := by simp only [Phys.kmalloc, hvc, if_true, hs₁]
    rw [hkm]
    have h₁ := Extra.refl s₁
    simp only
    cases ha₂ : s₁.allocPage a.gvmcb with
    | none => exact Or.inl ⟨by simp [VcpuAsk.granted, hkm, ha₂], h₁.giveBack⟩
    | some r =>
      obtain ⟨gvmcb, s₂⟩ := r
      have h₂ := h₁.alloc ha₂
      simp only
      cases ha₃ : s₂.allocPage a.hvmcb with
      | none => exact Or.inl ⟨by simp [VcpuAsk.granted, hkm, ha₂, ha₃], h₂.giveBack⟩
      | some r =>
        obtain ⟨hvmcb, s₃⟩ := r
        have h₃ := h₂.alloc ha₃
        simp only
        cases ha₄ : s₃.allocPage a.hsave with
        | none => exact Or.inl ⟨by simp [VcpuAsk.granted, hkm, ha₂, ha₃, ha₄], h₃.giveBack⟩
        | some r =>
          obtain ⟨hsave, s₄⟩ := r
          have h₄ := h₃.alloc ha₄
          simp only
          cases ha₅ : s₄.allocPage a.state with
          | none => exact Or.inl ⟨by simp [VcpuAsk.granted, hkm, ha₂, ha₃, ha₄, ha₅], h₄.giveBack⟩
          | some r =>
            obtain ⟨state, s₅⟩ := r
            have h₅ := h₄.alloc ha₅
            simp only
            cases ha₆ : s₅.allocPages iopmOrder a.iopm with
            | none => exact Or.inl ⟨by simp [VcpuAsk.granted, hkm, ha₂, ha₃, ha₄, ha₅, ha₆], h₅.giveBack⟩
            | some r =>
              obtain ⟨iopm, s₆⟩ := r
              -- the later allocations leave the control block as the first one made it
              have hlater := ((((Extra.refl s₂).alloc ha₃).alloc ha₄).alloc ha₅).allocs (by decide) ha₆
              obtain ⟨-, -, hs₂⟩ := Phys.allocPage_some ha₂
              obtain ⟨halign, hzero, -⟩ := Phys.allocPages_some ha₆
              have hin : gvmcb ∈ s₂.pages := by rw [hs₂]; exact Finset.mem_insert_self _ _
              have hgvmcb : s₆.mem gvmcb = 0 := by
                rw [hlater.mem gvmcb hin, hs₂]
                exact Function.update_self ..
              exact Or.inr ⟨by simp [VcpuAsk.granted, hkm, ha₂, ha₃, ha₄, ha₅, ha₆],
                ⟨gvmcb, hvmcb, hsave, iopm, state, vm⟩, s₆, rfl,
                ⟨h₅.allocs (by decide) ha₆, halign, hgvmcb, hzero⟩, rfl⟩
  · have hkm : k.phys.kmalloc a.vcpu = none := by simp only [Phys.kmalloc, hvc, if_false, Bool.false_eq_true]
    rw [hkm]
    exact Or.inl ⟨by simp [VcpuAsk.granted, hkm], k.phys, ⟨fun g hg => ⟨rfl, hg⟩, rfl, fun _ => rfl, le_rfl⟩, rfl⟩

/-- **`yakvm_create_vcpu`** makes a vcpu of the vm out of free pages, or gives back what it
allocated, or fails the assertion of `yakvm_vcpu_init_vmcb`. -/
theorem createVcpu_spec {vm : ℕ} {v : Vm} (hk : KernelOK k) (hv : k.vms vm = some v) (nasid : BitVec 32)
    (a : VcpuAsk) : VcpuOutcome vm k (createVcpu nasid a vm k) := by
  rcases createVcpu_cases nasid a vm k with ⟨-, s, hback, he⟩ | ⟨-, vc, s, rfl, hall, he⟩
  · rw [he]
    exact Or.inr (Or.inl ⟨_, rfl, hk.setPhys hback.kept (hback.slab hk.next_notMem) hback.next, rfl, rfl, hback.next⟩)
  · obtain ⟨m, hm, -⟩ := hk.vmm hv
    rw [he]
    simp only [deref_some hv, deref_some hm, bind, Except.bind]
    rcases vcpuInitVmcb_spec nasid vc m.ncr3 k.asid s with hp | ⟨asid, s', hok, ht, hcr3⟩
    · rw [hp]
      exact Or.inr (Or.inr rfl)
    · rw [hok]
      refine Or.inl ⟨vc, _, rfl, hk.addVcpu asid hv hm hall.extra ht hcr3, rfl, rfl, rfl, ?_⟩
      have hn : s'.next = k.phys.next + 1 := ht.next.trans hall.extra.next
      simp only [hn]
      omega

/-- A vcpu that `yakvm_create_vcpu` returns: its pages were free, were zero, and then
`yakvm_vcpu_init_vmcb` ran on them. -/
theorem createVcpu_returned {nasid : BitVec 32} {a : VcpuAsk} {vm c : ℕ} {k k' : Kernel}
    (h : createVcpu nasid a vm k = .ok (.ok c, k')) : ∃ vc ncr3 s asid,
    k'.vcpus = Function.update k.vcpus c (some vc) ∧ vc.pages.Nodup ∧ vc.iopm.toNat % 4 = 0 ∧
      s.mem vc.gvmcb = 0 ∧ (∀ f ∈ block vc.iopm iopmOrder, s.mem f = 0) ∧
      vcpuInitVmcb nasid vc ncr3 k.asid s = .ok (asid, k'.phys) ∧ k'.vms = k.vms := by
  rcases createVcpu_cases nasid a vm k with ⟨-, s, -, he⟩ | ⟨-, vc, s, -, hall, he⟩
  · rw [he] at h
    simp at h
  · rw [he] at h
    obtain ⟨v, -, h⟩ := bind_eq_ok.1 h
    obtain ⟨m, -, h⟩ := bind_eq_ok.1 h
    obtain ⟨⟨asid, s'⟩, hinit, h⟩ := bind_eq_ok.1 h
    obtain ⟨hc, rfl⟩ := Prod.mk.inj (Except.ok.inj h)
    obtain rfl := Except.ok.inj hc
    exact ⟨vc, m.ncr3, s, asid, rfl, vc.pages_perm.nodup_iff.1 hall.extra.nodup, hall.aligned, hall.gvmcb, hall.iopm,
      hinit, rfl⟩

/-! ## Destroying -/

/-- `yakvm_destroy_vcpu` on a vcpu whose pages and object are allocated. -/
theorem destroyVcpu_eq {vc : Vcpu} (hc : k.vcpus c = some vc) (hnd : vc.pages.Nodup)
    (hlive : ∀ f ∈ vc.pages, f ∈ k.phys.pages) (hslab : c ∈ k.phys.slab) :
    destroyVcpu c k = .ok { k with
      phys := { k.phys with pages := k.phys.pages \ vc.pages.toFinset, slab := k.phys.slab.erase c }
      vcpus := Function.update k.vcpus c none } := by
  unfold destroyVcpu
  simp only [deref_some hc, freePages_ok _ _ hnd hlive, bind, Except.bind]
  rw [Phys.kfree_ok (by exact hslab)]

theorem update_none_eq_some {α : Type} {objs : ℕ → Option α} {d n : ℕ} {a : α} :
    Function.update objs d none n = some a ↔ n ≠ d ∧ objs n = some a := by
  by_cases hn : n = d
  · subst hn; simp
  · simp [hn]

/-- Removing objects together with their pages. -/
theorem KernelOK.remove (hk : KernelOK k)
    (hvms : ∀ n v, k'.vms n = some v → k.vms n = some v ∧ k'.vmms v.vmm = k.vmms v.vmm ∧ n ∈ k'.phys.slab)
    (hvmms : ∀ n m, k'.vmms n = some m → k.vmms n = some m ∧ n ∈ k'.phys.slab)
    (hvcpus : ∀ n vc, k'.vcpus n = some vc → k.vcpus n = some vc ∧ n ∈ k'.phys.slab)
    (hmem : k'.phys.mem = k.phys.mem) (hslab : k'.phys.slab ⊆ k.phys.slab) (hnext : k'.phys.next = k.phys.next)
    (hpages : ∀ x f, k'.Holds x f → f ∈ k'.phys.pages) : KernelOK k' := by
  have hnode : ∀ r q, nodeAt k'.phys r q = nodeAt k.phys r q := fun r q => by simp only [nodeAt, hmem]
  have hsame : ∀ n, SameVm k k' n := fun n v hv => ⟨v, (hvms n v hv).1, rfl, (hvms n v hv).2.1⟩
  have hnone : ∀ {α : Type} {g h : ℕ → Option α} {n : ℕ}, (∀ n a, g n = some a → h n = some a) → h n = none →
      g n = none := by
    intro α g h n hgh hn
    cases hg : g n with
    | none => rfl
    | some a => rw [hgh n a hg] at hn; simp at hn
  have h2 : ∀ n m, k'.vmms n = some m → k.vmms n = some m := fun n m h => (hvmms n m h).1
  have h3 : ∀ n vc, k'.vcpus n = some vc → k.vcpus n = some vc := fun n vc h => (hvcpus n vc h).1
  refine hk.keep ⟨?_, ?_, ?_, ?_, ?_⟩ ?_
  · intro n hn
    rw [hnext]
    exact hk.ids.fresh n (hslab hn)
  · intro n v hv
    obtain ⟨hv', -, hs⟩ := hvms n v hv
    obtain ⟨-, h4, h5⟩ := hk.ids.vm n v hv'
    exact ⟨hs, hnone h2 h4, hnone h3 h5⟩
  · intro n m hm
    obtain ⟨hm', hs⟩ := hvmms n m hm
    exact ⟨hs, hnone h3 (hk.ids.vmm n m hm').2⟩
  · intro n vc hvc
    obtain ⟨hvc', hs⟩ := hvcpus n vc hvc
    rw [hnext]
    exact ⟨hs, (hk.ids.vcpu n vc hvc').2⟩
  · intro n n' v v' hv hv' heq
    exact hk.ids.inj n n' v v' (hvms n v hv).1 (hvms n' v' hv').1 heq
  · intro y
    cases y with
    | vm n =>
      refine ⟨hsame n, ?_⟩
      rintro hlive f ⟨u, m, q, hu, hm, hq, hf⟩
      refine ⟨by rw [hmem], ?_⟩
      obtain ⟨v', hv'⟩ := Option.ne_none_iff_exists'.1 hlive
      obtain ⟨hv, hmm, -⟩ := hvms n v' hv'
      rw [hu] at hv
      obtain rfl := Option.some.inj hv
      exact hpages (.vm n) f ⟨u, m, q, hv', by rw [hmm, hm], hq, by rw [hnode]; exact hf⟩
    | vcpu n =>
      intro vc hvc
      exact ⟨(hvcpus n vc hvc).1, hsame vc.vm, fun f hf => ⟨by rw [hmem], hpages (.vcpu n) f ⟨vc, hvc, hf⟩⟩⟩

/-- **`yakvm_destroy_vcpu`** frees the pages of the vcpu, each once, and no other. -/
theorem destroyVcpu_spec {vc : Vcpu} (hk : KernelOK k) (hc : k.vcpus c = some vc) :
    ∃ k', destroyVcpu c k = .ok k' ∧ KernelOK k' ∧ k'.vms = k.vms ∧
      k'.vcpus = Function.update k.vcpus c none ∧ k'.phys.next = k.phys.next := by
  obtain ⟨hnd, hlive, -⟩ := hk.valid (.vcpu c) vc hc
  have hslab := (hk.ids.vcpu c vc hc).1
  refine ⟨_, destroyVcpu_eq hc hnd hlive hslab, ?_, rfl, rfl, rfl⟩
  refine hk.remove ?_ ?_ ?_ rfl (Finset.erase_subset _ _) rfl ?_
  · intro n v hv
    obtain ⟨h1, -, h3⟩ := hk.ids.vm n v hv
    exact ⟨hv, rfl, Finset.mem_erase.2 ⟨by rintro rfl; rw [hc] at h3; simp at h3, h1⟩⟩
  · intro n m hm
    obtain ⟨h1, h3⟩ := hk.ids.vmm n m hm
    exact ⟨hm, Finset.mem_erase.2 ⟨by rintro rfl; rw [hc] at h3; simp at h3, h1⟩⟩
  · intro n u hu
    obtain ⟨hn, hu'⟩ := update_none_eq_some.1 hu
    exact ⟨hu', Finset.mem_erase.2 ⟨hn, (hk.ids.vcpu n u hu').1⟩⟩
  · -- a page of another object is not one of the freed pages
    intro x f hf
    have hold : k.Holds x f ∧ x ≠ .vcpu c := by
      cases x with
      | vm n => exact ⟨hf, by simp⟩
      | vcpu n =>
        obtain ⟨u, hu, hfu⟩ := hf
        obtain ⟨hn, hu'⟩ := update_none_eq_some.1 hu
        exact ⟨⟨u, hu', hfu⟩, fun h => hn (by simpa using h)⟩
    simp only [Finset.mem_sdiff, List.mem_toFinset]
    exact ⟨hk.live hold.1, fun hfc => hold.2 (hk.apart x (.vcpu c) f hold.1 ⟨vc, hc, hfc⟩)⟩

/-- The vcpus that are left when the vcpu of a vm, if it has one, is destroyed. -/
def dropVcpu (vcpus : ℕ → Option Vcpu) : Option ℕ → ℕ → Option Vcpu
  | none => vcpus
  | some c => Function.update vcpus c none

theorem dropVcpu_eq_some {vcpus : ℕ → Option Vcpu} {d : Option ℕ} {n : ℕ} {vc : Vcpu} :
    dropVcpu vcpus d n = some vc ↔ d ≠ some n ∧ vcpus n = some vc := by
  cases d with
  | none => simp [dropVcpu]
  | some c => simp only [dropVcpu, update_none_eq_some, ne_eq, Option.some.injEq, @eq_comm _ c n]

/-- The pages of a vm's table are what `yakvm_vmm_destroy_table` frees. -/
theorem KernelOK.holds_vm {v : Vm} {m : Vmm} (ho : k.vms o = some v) (hm : k.vmms v.vmm = some m) :
    k.Holds (.vm o) f ↔ ∃ q, q.length ≤ 4 ∧ nodeAt k.phys (vmmPhysToVirt m.ncr3) q = some f := by
  constructor
  · rintro ⟨v', m', q, hv', hm', hq, hn⟩
    rw [ho] at hv'
    obtain rfl := Option.some.inj hv'
    rw [hm] at hm'
    obtain rfl := Option.some.inj hm'
    exact ⟨q, hq, hn⟩
  · rintro ⟨q, hq, hn⟩
    exact ⟨v, m, q, ho, hm, hq, hn⟩

theorem KernelOK.holds_vcpu {vc : Vcpu} (hc : k.vcpus c = some vc) : k.Holds (.vcpu c) f ↔ f ∈ vc.pages := by
  constructor
  · rintro ⟨vc', hc', hf⟩
    rw [hc] at hc'
    obtain rfl := Option.some.inj hc'
    exact hf
  · intro hf
    exact ⟨vc, hc, hf⟩

/-- What `yakvm_destroy_vm` computes: the table, the vcpu if there is one, and the object go. -/
theorem destroyVm_eq {v : Vm} (hk : KernelOK k) (ho : k.vms o = some v)
    (hvcpu : ∀ c, v.vcpu = some c → ∃ vc, k.vcpus c = some vc) :
    ∃ k', destroyVm o k = .ok k' ∧ k'.vms = Function.update k.vms o none ∧
      k'.vmms = Function.update k.vmms v.vmm none ∧ k'.vcpus = dropVcpu k.vcpus v.vcpu ∧
      k'.phys.mem = k.phys.mem ∧ k'.phys.next = k.phys.next ∧
      (∀ n, n ∈ k'.phys.slab ↔ n ∈ k.phys.slab ∧ n ≠ v.vmm ∧ v.vcpu ≠ some n ∧ n ≠ o) ∧
      (∀ f, f ∈ k'.phys.pages ↔ f ∈ k.phys.pages ∧ ¬ k.Holds (.vm o) f ∧
        ∀ c, v.vcpu = some c → ¬ k.Holds (.vcpu c) f) := by
  obtain ⟨m, hm, hok, hmslab⟩ := hk.vmm ho
  obtain ⟨hoslab, honone, hocnone⟩ := hk.ids.vm o v ho
  have hmo : o ≠ v.vmm := by intro h; rw [← h, honone] at hm; simp at hm
  obtain ⟨freed, -, -, hfreed, hdvmm⟩ := destroyVmm_spec hok hmslab
  have hfree : ∀ f, f ∈ freed ↔ k.Holds (.vm o) f := fun f => by
    rw [hfreed, KernelOK.holds_vm ho hm]
  unfold destroyVm
  simp only [deref_some ho, deref_some hm, hdvmm, bind, Except.bind]
  cases hvc : v.vcpu with
  | none =>
    simp only [destroyVcpuOf]
    rw [Phys.kfree_ok (Finset.mem_erase.2 ⟨hmo, hoslab⟩)]
    refine ⟨_, rfl, rfl, rfl, rfl, rfl, rfl, ?_, ?_⟩
    · intro n
      simp only [Finset.mem_erase]
      constructor
      · rintro ⟨h1, h2, h3⟩; exact ⟨h3, h2, by simp, h1⟩
      · rintro ⟨h1, h2, -, h3⟩; exact ⟨h3, h2, h1⟩
    · intro f
      simp only [Finset.mem_sdiff, List.mem_toFinset, hfree]
      simp
  | some c =>
    obtain ⟨vc, hc⟩ := hvcpu c hvc
    obtain ⟨hnd, hlive, -⟩ := hk.valid (.vcpu c) vc hc
    have hcslab := (hk.ids.vcpu c vc hc).1
    have hcm : c ≠ v.vmm := by rintro rfl; rw [(hk.ids.vmm _ _ hm).2] at hc; simp at hc
    have hco : o ≠ c := by rintro rfl; rw [hocnone] at hc; simp at hc
    have hlive' : ∀ f ∈ vc.pages, f ∈ k.phys.pages \ freed.toFinset := by
      intro f hf
      simp only [Finset.mem_sdiff, List.mem_toFinset]
      refine ⟨hlive f hf, fun h => ?_⟩
      have := hk.apart (.vcpu c) (.vm o) f ⟨vc, hc, hf⟩ ((hfree f).1 h)
      simp at this
    simp only [destroyVcpuOf]
    rw [destroyVcpu_eq (c := c) (by exact hc) hnd hlive' (Finset.mem_erase.2 ⟨hcm, hcslab⟩)]
    simp only
    rw [Phys.kfree_ok (Finset.mem_erase.2 ⟨hco, Finset.mem_erase.2 ⟨hmo, hoslab⟩⟩)]
    refine ⟨_, rfl, rfl, rfl, rfl, rfl, rfl, ?_, ?_⟩
    · intro n
      simp only [Finset.mem_erase, ne_eq, Option.some.injEq, @eq_comm _ c n]
      constructor
      · rintro ⟨h1, h2, h3, h4⟩; exact ⟨h4, h3, h2, h1⟩
      · rintro ⟨h1, h2, h3, h4⟩; exact ⟨h4, h3, h2, h1⟩
    · intro f
      simp only [Finset.mem_sdiff, List.mem_toFinset, hfree, Option.some.injEq, forall_eq', KernelOK.holds_vcpu hc,
        and_assoc]

/-- **`yakvm_destroy_vm`** frees the pages of the vm's table and of its vcpu, each once, and
no other. -/
theorem destroyVm_spec {v : Vm} (hk : KernelOK k) (ho : k.vms o = some v)
    (hvcpu : ∀ c, v.vcpu = some c → ∃ vc, k.vcpus c = some vc) :
    ∃ k', destroyVm o k = .ok k' ∧ KernelOK k' ∧ k'.vms = Function.update k.vms o none ∧
      k'.vcpus = dropVcpu k.vcpus v.vcpu ∧ k'.phys.next = k.phys.next := by
  obtain ⟨k', hrun, h1, h2, h3, hmem, hnext, hslab, hpages⟩ := destroyVm_eq hk ho hvcpu
  refine ⟨k', hrun, ?_, h1, h3, hnext⟩
  obtain ⟨m, hm, -⟩ := hk.vmm ho
  obtain ⟨-, honone, hocnone⟩ := hk.ids.vm o v ho
  have hnotvcpu : ∀ {n}, k.vcpus n = none → v.vcpu ≠ some n := by
    intro n hn h
    obtain ⟨vc, hvc⟩ := hvcpu n h
    rw [hn] at hvc
    simp at hvc
  refine hk.remove ?_ ?_ ?_ hmem (fun n hn => ((hslab n).1 hn).1) hnext ?_
  · intro n u hu
    rw [h1, update_none_eq_some] at hu
    obtain ⟨hn, hu⟩ := hu
    obtain ⟨hs, hnone, hcnone⟩ := hk.ids.vm n u hu
    have hne : u.vmm ≠ v.vmm := fun h => hn (hk.ids.inj n o u v hu ho h)
    refine ⟨hu, by rw [h2, Function.update_of_ne hne], (hslab n).2 ⟨hs, ?_, hnotvcpu hcnone, hn⟩⟩
    rintro rfl
    rw [hm] at hnone
    simp at hnone
  · intro n u hu
    rw [h2, update_none_eq_some] at hu
    obtain ⟨hn, hu⟩ := hu
    obtain ⟨hs, hcnone⟩ := hk.ids.vmm n u hu
    refine ⟨hu, (hslab n).2 ⟨hs, hn, hnotvcpu hcnone, ?_⟩⟩
    rintro rfl
    rw [honone] at hu
    simp at hu
  · intro n u hu
    rw [h3, dropVcpu_eq_some] at hu
    obtain ⟨hn, hu⟩ := hu
    refine ⟨hu, (hslab n).2 ⟨(hk.ids.vcpu n u hu).1, ?_, hn, ?_⟩⟩
    · rintro rfl; rw [(hk.ids.vmm _ _ hm).2] at hu; simp at hu
    · rintro rfl; rw [hocnone] at hu; simp at hu
  · -- a page of an object that stays is not one of the freed pages
    intro x f hf
    have hold : k.Holds x f ∧ x ≠ .vm o ∧ ∀ c, v.vcpu = some c → x ≠ .vcpu c := by
      cases x with
      | vm n =>
        obtain ⟨u, m', q, hu, hm', hq, hnf⟩ := hf
        rw [h1, update_none_eq_some] at hu
        rw [h2, update_none_eq_some] at hm'
        simp only [nodeAt, hmem] at hnf
        exact ⟨⟨u, m', q, hu.2, hm'.2, hq, hnf⟩, fun h => hu.1 (by simpa using h), fun _ _ => by simp⟩
      | vcpu n =>
        obtain ⟨u, hu, hfu⟩ := hf
        rw [h3, dropVcpu_eq_some] at hu
        exact ⟨⟨u, hu.2, hfu⟩, by simp, fun c hc h => hu.1 (by rw [hc, Owner.vcpu.inj h])⟩
    refine (hpages f).2 ⟨hk.live hold.1, fun h => ?_, fun c hc h => ?_⟩
    · exact hold.2.1 (hk.apart x (.vm o) f hold.1 h)
    · exact hold.2.2 c hc (hk.apart x (.vcpu c) f hold.1 h)

/-! ## Page requests -/

/-- **A page request** adds free pages to the table of its own vm and writes no page of any
other object. -/
theorem KernelOK.grow {v : Vm} {m : Vmm} {w : List Slot} {s' : Phys} (hk : KernelOK k) (ho : k.vms o = some v)
    (hm : k.vmms v.vmm = some m) (hg : Grow (vmmPhysToVirt m.ncr3) w k.phys s') :
    KernelOK { k with phys := s' } := by
  obtain ⟨m', hm', hok, -⟩ := hk.vmm ho
  obtain rfl : m' = m := Option.some.inj (hm'.symm.trans hm)
  obtain ⟨hslab, hnext⟩ := hg.slab
  have hsame : ∀ n, SameVm k { k with phys := s' } n := fun n u hu => ⟨u, hu, rfl, rfl⟩
  -- pages of other objects are not tables of this one
  have hkept : ∀ x f, x ≠ .vm o → k.Holds x f → Kept k { k with phys := s' } f := by
    intro x f hx hf
    refine ⟨hg.mem_other hok (hk.live hf) ?_, hg.pages_mono (hk.live hf)⟩
    intro p hp hn
    exact hx (hk.apart x (.vm o) f hf ⟨v, m', p, ho, hm, hp.le, hn⟩)
  refine hk.change (x := .vm o) ⟨?_, ?_, ?_, ?_, hk.ids.inj⟩ ?_ ?_ ?_
  · intro n hn
    simp only [hslab] at hn
    simp only [hnext]
    exact hk.ids.fresh n hn
  · simp only [hslab]; exact hk.ids.vm
  · simp only [hslab]; exact hk.ids.vmm
  · simp only [hslab, hnext]; exact hk.ids.vcpu
  · intro y hy
    cases y with
    | vm n => exact ⟨hsame n, fun _ f hf => hkept (.vm n) f hy hf⟩
    | vcpu n =>
      intro vc hvc
      exact ⟨hvc, hsame vc.vm, fun f hf => hkept (.vcpu n) f hy ⟨vc, hvc, hf⟩⟩
  · intro u hu
    simp only at hu
    rw [ho] at hu
    obtain rfl := Option.some.inj hu
    exact ⟨m', hm, hg.ok hok⟩
  · intro f hf
    obtain ⟨q, hq, hn⟩ := (KernelOK.holds_vm (k := { k with phys := s' }) ho hm).1 hf
    cases h0 : nodeAt k.phys (vmmPhysToVirt m'.ncr3) q with
    | none => exact Or.inr (hg.fresh hok hq h0 hn)
    | some x =>
      have hx := hg.mono hok hq h0
      simp only at hn
      rw [hn] at hx
      obtain rfl := Option.some.inj hx
      exact Or.inl ⟨v, m', q, ho, hm, hq, h0⟩

end Yakvm
