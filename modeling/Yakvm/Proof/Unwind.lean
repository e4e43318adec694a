import Yakvm.Proof.Isolation

/-!
# What failed creations leave behind

* `createVcpu_restores`: a `YAKVM_CREATE_VCPU` that installs no file leaves the driver as it was, on every
  path of its two unwinding chains.
* `createVm_leaks_iff`: a `YAKVM_CREATE_VM` that fails gives back everything, except when the
  table of the MMIO page was begun and could not be finished. `yakvm_create_vmm` then frees the
  root of the table only.
-/

namespace Yakvm

variable {nasid : BitVec 32} {k k' : Kernel} {vm c : ℕ} {s s' : Phys} {f : Frame}

/-! ## Creating a vcpu -/

/-- The driver is as it was, except for the counter of ASIDs and for pages that were free. -/
structure Restored (k k' : Kernel) : Prop where
  vms : k'.vms = k.vms
  vmms : k'.vmms = k.vmms
  vcpus : k'.vcpus = k.vcpus
  pages : k'.phys.pages = k.phys.pages
  slab : k'.phys.slab = k.phys.slab
  mem : ∀ f ∈ k.phys.pages, k'.phys.mem f = k.phys.mem f

/-- `yakvm_create_vcpu` has made the vcpu `vc`, and changed nothing else. -/
structure Made (k : Kernel) (c : ℕ) (vc : Vcpu) (k' : Kernel) : Prop where
  id : c = k.phys.next
  vms : k'.vms = k.vms
  vmms : k'.vmms = k.vmms
  vcpus : k'.vcpus = Function.update k.vcpus c (some vc)
  pages : k'.phys.pages = k.phys.pages ∪ vc.pages.toFinset
  nodup : vc.pages.Nodup
  free : ∀ f ∈ vc.pages, f ∉ k.phys.pages
  slab : k'.phys.slab = insert c k.phys.slab
  mem : ∀ f ∈ k.phys.pages, k'.phys.mem f = k.phys.mem f

theorem createVcpu_made {a : VcpuAsk} (h : createVcpu nasid a vm k = .ok (.ok c, k')) : ∃ vc, Made k c vc k' := by
  rcases createVcpu_cases nasid a vm k with ⟨-, s, -, he⟩ | ⟨-, vc, s, -, hall, he⟩
  · rw [he] at h
    simp at h
  · rw [he] at h
    obtain ⟨v, -, h⟩ := bind_eq_ok.1 h
    obtain ⟨m, -, h⟩ := bind_eq_ok.1 h
    obtain ⟨⟨asid, s'⟩, hinit, h⟩ := bind_eq_ok.1 h
    obtain ⟨hc, rfl⟩ := Prod.mk.inj (Except.ok.inj h)
    obtain rfl := Except.ok.inj hc
    have hex := hall.extra
    have hfree : ∀ f ∈ vc.pages, f ∉ k.phys.pages := fun f hf => hex.free f (vc.pages_perm.mem_iff.2 hf)
    rcases vcpuInitVmcb_spec nasid vc m.ncr3 k.asid s with hp | ⟨_, _, hok, ht, -⟩
    · rw [hinit] at hp
      simp at hp
    · rw [hinit] at hok
      obtain ⟨rfl, rfl⟩ := Prod.mk.inj (Except.ok.inj hok)
      refine ⟨vc, rfl, rfl, rfl, rfl, ?_, vc.pages_perm.nodup_iff.1 hex.nodup, hfree, ?_, ?_⟩
      · rw [ht.pages, hex.pages, List.toFinset_eq_of_perm _ _ vc.pages_perm]
      · rw [ht.slab, hex.slab]
      · -- the control block and the permission map are pages of the new vcpu
        intro f hf
        rw [ht.mem f ?_, hex.mem f hf]
        simp only [List.mem_cons, List.not_mem_nil, or_false, not_or]
        exact ⟨fun he => hfree _ vc.gvmcb_mem (he ▸ hf), fun he => hfree _ vc.iopm_mem (he ▸ hf)⟩

/-- **`yakvm_destroy_vcpu` on the vcpu just made** restores the driver, if the vms are as they were. -/
theorem Made.destroy {vc : Vcpu} {k₁ : Kernel} (hk : KernelOK k) (h : Made k c vc k') (hvms : k₁.vms = k.vms)
    (hvmms : k₁.vmms = k'.vmms) (hvcpus : k₁.vcpus = k'.vcpus) (hphys : k₁.phys = k'.phys) :
    ∃ k₂, destroyVcpu c k₁ = .ok k₂ ∧ Restored k k₂ := by
  have hnew : c ∉ k.phys.slab := by
    rw [h.id]
    exact hk.next_notMem
  have hdead : k.vcpus c = none := by
    cases hc : k.vcpus c with
    | none => rfl
    | some u => exact absurd (hk.ids.vcpu c u hc).1 hnew
  have hlive : ∀ f ∈ vc.pages, f ∈ k₁.phys.pages := by
    intro f hf
    rw [hphys, h.pages, Finset.mem_union, List.mem_toFinset]
    exact Or.inr hf
  have hc : k₁.vcpus c = some vc := by rw [hvcpus, h.vcpus, Function.update_self]
  have hslab : c ∈ k₁.phys.slab := by
    rw [hphys, h.slab]
    exact Finset.mem_insert_self _ _
  refine ⟨_, destroyVcpu_eq hc h.nodup hlive hslab, hvms, hvmms.trans h.vmms, ?_, ?_, ?_, ?_⟩
  · simp only [hvcpus, h.vcpus, Function.update_idem]
    rw [← hdead, Function.update_eq_self]
  · have hdisj : Disjoint k.phys.pages vc.pages.toFinset :=
      Finset.disjoint_left.2 fun f hf hvc => h.free f (List.mem_toFinset.1 hvc) hf
    simp only [hphys, h.pages, Finset.union_sdiff_right]
    exact Finset.sdiff_eq_self_of_disjoint hdisj
  · simp only [hphys, h.slab, Finset.erase_insert hnew]
  · intro f hf
    simp only [hphys]
    exact h.mem f hf

/-- **The undo path.** Publishing a vcpu and taking a reference, then taking both back, leaves the
driver as it was. -/
theorem publish_undone {v : Vm} (hv : k.vms vm = some v) (hnone : v.vcpu = none) (hpos : 1 ≤ v.refcount) (c : ℕ) :
    ∃ k₁ k₂ k₃, setVcpu vm (some c) k = .ok k₁ ∧ getVm vm k₁ = .ok k₂ ∧ setVcpu vm none k₂ = .ok k₃ ∧
      putVm vm k₃ = .ok k := by
  -- the vm record with the vcpu, with one more reference, and without the vcpu again
  set v₁ : Vm := { v with vcpu := some c } with hv₁
  set v₂ : Vm := { v₁ with refcount := v₁.refcount + 1 } with hv₂
  set v₃ : Vm := { v₂ with vcpu := none } with hv₃
  have hback : { v₃ with refcount := v₃.refcount - 1 } = v := by
    simp only [hv₃, hv₂, hv₁]
    rw [← hnone]
    simp
  set k₁ : Kernel := { k with vms := Function.update k.vms vm (some v₁) } with hk₁
  set k₂ : Kernel := { k₁ with vms := Function.update k₁.vms vm (some v₂) } with hk₂
  set k₃ : Kernel := { k₂ with vms := Function.update k₂.vms vm (some v₃) } with hk₃
  have h₁ : k₁.vms vm = some v₁ := Function.update_self ..
  have h₂ : k₂.vms vm = some v₂ := Function.update_self ..
  have h₃ : k₃.vms vm = some v₃ := Function.update_self ..
  refine ⟨k₁, k₂, k₃, ?_, ?_, ?_, ?_⟩
  · simp only [setVcpu, deref_some hv, bind, Except.bind, hk₁, hv₁]
  · simp only [getVm, deref_some h₁, bind, Except.bind, hk₂, hv₂]
  · simp only [setVcpu, deref_some h₂, bind, Except.bind, hk₃, hv₃]
  · rw [(putVm_shared h₃ (by simp only [hv₃, hv₂, hv₁]; omega)).1, hback]
    simp only [hk₃, hk₂, hk₁, Function.update_idem]
    rw [← hv, Function.update_eq_self]

/-- A request that `yakvm_create_vcpu` fails. -/
theorem createVcpu_error_restores {a : VcpuAsk} {e : Errno} (hk : KernelOK k)
    (h : createVcpu nasid a vm k = .ok (.error e, k')) : Restored k k' := by
  rcases createVcpu_cases nasid a vm k with ⟨-, s, hback, he⟩ | ⟨-, vc, s, -, -, he⟩
  · rw [he] at h
    obtain ⟨-, rfl⟩ := Prod.mk.inj (Except.ok.inj h)
    exact ⟨rfl, rfl, rfl, hback.pages, hback.slab hk.next_notMem, fun f hf => (hback.kept f hf).1⟩
  · rw [he] at h
    obtain ⟨v, -, h⟩ := bind_eq_ok.1 h
    obtain ⟨m, -, h⟩ := bind_eq_ok.1 h
    obtain ⟨x, -, h⟩ := bind_eq_ok.1 h
    simp at h

/-- **A `YAKVM_CREATE_VCPU` that installs no file leaves the vm as it was**, and with it all other
objects, the live allocations and the contents of every allocated page: from every state of the
driver, whether the vm has a vcpu or not, and wherever the request fails or is refused. -/
theorem createVcpu_restores {acts : List Act} {mem : Frame → Slot → Word} {pages : Finset Frame} {x : Sys}
    {a : VcpuAsk} {fd : Except Errno ℕ} {r : ℤ} (h : (Sys.init mem pages).run nasid acts = .ok x)
    (ho : vm ∈ x.vmFiles) (hc : vmIoctlCreateVcpu nasid vm a fd x.k = .ok ((r, none), k')) :
    Restored x.k k' ∧ (∃ v, x.k.vms vm = some v ∧ k'.vms vm = some v ∧
      ∀ c, v.vcpu = some c → ∃ vc, x.k.vcpus c = some vc ∧ k'.vcpus c = some vc ∧
        ∀ f ∈ vc.pages, f ∈ k'.phys.pages ∧ k'.phys.mem f = x.k.phys.mem f) := by
  have hx := SysOK.of_run h
  have hk := hx.kernel
  obtain ⟨v, hv⟩ := hx.files vm (Or.inl ho)
  have hpos := (hx.count vm v hv).2
  have hback : Restored x.k k' := by
    obtain ⟨⟨vcpu, k₁⟩, hcreate, hc⟩ := bind_eq_ok.1 hc
    obtain ⟨v₁, hv₁, hc⟩ := bind_eq_ok.1 hc
    cases vcpu with
    | error e =>
      obtain ⟨-, rfl⟩ := Prod.mk.inj (Except.ok.inj hc)
      exact createVcpu_error_restores hk hcreate
    | ok c =>
      obtain ⟨vc, hmade⟩ := createVcpu_made hcreate
      have hv₁' : k₁.vms vm = some v := by rw [hmade.vms, hv]
      obtain rfl : v = v₁ := Except.ok.inj ((deref_some hv₁').symm.trans hv₁)
      cases hvc : v.vcpu with
      | some d =>
        -- the vm has a vcpu already
        simp only [hvc, Option.isSome_some, if_true] at hc
        obtain ⟨k₂, hd, hc⟩ := bind_eq_ok.1 hc
        obtain ⟨-, rfl⟩ := Prod.mk.inj (Except.ok.inj hc)
        obtain ⟨k₃, hd', hrest⟩ := hmade.destroy hk hmade.vms rfl rfl rfl
        rw [hd] at hd'
        rwa [Except.ok.inj hd']
      | none =>
        obtain ⟨k₂, k₃, k₄, hset, hget, hclear, hput⟩ := publish_undone hv₁' hvc (by omega) c
        simp only [hvc, Option.isSome_none, Bool.false_eq_true, if_false, hset, hget, bind, Except.bind] at hc
        cases fd with
        | ok fd => simp at hc
        | error e =>
          -- the file cannot be installed
          obtain ⟨k₅, hd, hrest⟩ := hmade.destroy hk hmade.vms rfl rfl rfl
          simp only [hclear, hput, hd] at hc
          obtain ⟨-, rfl⟩ := Prod.mk.inj (Except.ok.inj hc)
          exact hrest
  refine ⟨hback, v, hv, by rw [hback.vms, hv], ?_⟩
  intro c hvc
  obtain ⟨vc, hcv, -⟩ := hx.vcpu vm v c hv hvc
  refine ⟨vc, hcv, by rw [hback.vcpus, hcv], ?_⟩
  intro f hf
  have hlive : f ∈ x.k.phys.pages := hk.live ((KernelOK.holds_vcpu hcv).2 hf)
  exact ⟨by rw [hback.pages]; exact hlive, hback.mem f hlive⟩

/-- A vcpu for which the third page cannot be allocated. -/
def halfVcpu : VcpuAsk := ⟨true, some 6, some 7, none, none, none⟩

theorem createVcpu_restores_half : ∃ x v k', (Sys.init (fun _ _ => 0) ∅).run 16
      [.createVm ⟨some 0x1000, countingAsk⟩, .openVm 0 true] = .ok x ∧
    vmIoctlCreateVcpu 16 0 halfVcpu (.ok 4) x.k = .ok ((0x1000, none), k') ∧
    x.k.vms 0 = some v ∧ k'.vms 0 = some v ∧ k'.phys.pages = x.k.phys.pages := by
  have hrun : ∃ x k', (Sys.init (fun _ _ => 0) ∅).run 16
        [.createVm ⟨some 0x1000, countingAsk⟩, .openVm 0 true] = .ok x ∧
      vmIoctlCreateVcpu 16 0 halfVcpu (.ok 4) x.k = .ok ((0x1000, none), k') ∧ 0 ∈ x.vmFiles :=
    ⟨_, _, rfl, rfl, by decide⟩
  obtain ⟨x, k', hx, hc, ho⟩ := hrun
  obtain ⟨hback, v, hv, hv', -⟩ := createVcpu_restores hx ho hc
  exact ⟨x, v, k', hx, hc, hv, hv', hback.pages⟩

/-! ## Creating a vm -/

/-- The allocations `asks`, made in this order when `pages` are in use, all succeed. -/
def allGranted : List (Option Frame) → Finset Frame → Bool
  | [], _ => true
  | none :: _, _ => false
  | some f :: asks, pages => decide (f ∉ pages) && allGranted asks (insert f pages)

/-- The allocations of a walk that finds nothing from level `l` down. -/
def levelAsks (ask : ℕ → Option Frame) : ℕ → List (Option Frame)
  | 0 => []
  | l + 1 => ask (l + 1) :: levelAsks ask l

/-- Every allocation of `yakvm_create_vmm` succeeds. -/
def VmmAsk.granted (a : VmmAsk) (pages : Finset Frame) : Bool :=
  a.vmm && allGranted (a.pml4t :: levelAsks a.mmio PML4T) pages

/-- `yakvm_create_vmm` links a page below the root, and then a later allocation fails. -/
def VmmAsk.partly (a : VmmAsk) (pages : Finset Frame) : Bool :=
  a.vmm && allGranted [a.pml4t, a.mmio PML4T] pages && !allGranted (a.pml4t :: levelAsks a.mmio PML4T) pages

/-- Every allocation of `yakvm_create_vm` succeeds. -/
def VmAsk.granted (a : VmAsk) (pages : Finset Frame) : Bool := a.vm.isSome && a.vmm.granted pages

/-- `yakvm_create_vm` begins the table of the MMIO page and cannot finish it. -/
def VmAsk.partly (a : VmAsk) (pages : Finset Frame) : Bool := a.vm.isSome && a.vmm.partly pages

variable {ask : ℕ → Option Frame} {gpa : Word} {root : Frame} {np : Option (List Slot)}

theorem allGranted_cons {asks : List (Option Frame)} {pages : Finset Frame} {b : Option Frame} :
    allGranted (b :: asks) pages = true ↔ ∃ f, b = some f ∧ f ∉ pages ∧ allGranted asks (insert f pages) = true := by
  cases b with
  | none => simp [allGranted]
  | some f => simp [allGranted]

theorem allocPage_none_iff {b : Option Frame} : s.allocPage b = none ↔ allGranted [b] s.pages = false := by
  cases b with
  | none => simp [Phys.allocPage, allGranted]
  | some f => by_cases hf : f ∈ s.pages <;> simp [Phys.allocPage, allGranted, hf]

/-- When the first allocation fails, not all succeed. -/
theorem allGranted_denied {b : Option Frame} (h : s.allocPage b = none) (asks : List (Option Frame)) :
    allGranted (b :: asks) s.pages = false := by
  have hfirst := allocPage_none_iff.1 h
  cases b with
  | none => rfl
  | some f =>
    simp only [allGranted, Bool.and_true, decide_eq_false_iff_not] at hfirst
    simp only [allGranted, hfirst, decide_false, Bool.false_and]

/-- When it succeeds, the rest are asked for with its page in use. -/
theorem allGranted_taken {b : Option Frame} (h : s.allocPage b = some (f, s')) (asks : List (Option Frame)) :
    allGranted (b :: asks) s.pages = allGranted asks (insert f s.pages) := by
  obtain ⟨rfl, hf, -⟩ := Phys.allocPage_some h
  simp only [allGranted, hf, not_false_eq_true, decide_true, Bool.true_and]

/-- A walk's allocations, level by level. -/
theorem allGranted_levels : ∀ (l : ℕ) (pages : Finset Frame), allGranted (levelAsks ask l) pages = true ↔
    ∀ n, 1 ≤ n → n ≤ l → ∃ f, ask n = some f ∧ f ∉ pages ∧ ∀ n', n < n' → n' ≤ l → ask n' ≠ some f := by
  intro l
  induction l with
  | zero =>
    intro pages
    simp only [levelAsks, allGranted, true_iff]
    intro n h1 hn
    omega
  | succ l ih =>
    intro pages
    rw [levelAsks, allGranted_cons]
    constructor
    · rintro ⟨f, ha, hf, hrest⟩ n h1 hn
      rcases Nat.lt_or_ge l n with hlast | hbelow
      · obtain rfl : n = l + 1 := by omega
        exact ⟨f, ha, hf, fun n' h2 h3 => by omega⟩
      · obtain ⟨g, hg, hfree, hd⟩ := (ih _).1 hrest n h1 hbelow
        rw [Finset.mem_insert, not_or] at hfree
        refine ⟨g, hg, hfree.2, fun n' h2 h3 => ?_⟩
        rcases Nat.lt_or_ge l n' with hlast | hbelow'
        · obtain rfl : n' = l + 1 := by omega
          rw [ha]
          exact fun he => hfree.1 (Option.some.inj he).symm
        · exact hd n' h2 hbelow'
    · intro h
      obtain ⟨f, ha, hf, -⟩ := h (l + 1) (by omega) le_rfl
      refine ⟨f, ha, hf, (ih _).2 fun n h1 hn => ?_⟩
      obtain ⟨g, hg, hfree, hd⟩ := h n h1 (by omega)
      have hne : g ≠ f := fun he => hd (l + 1) (by omega) le_rfl (he ▸ ha)
      exact ⟨g, hg, by rw [Finset.mem_insert]; tauto, fun n' h2 h3 => hd n' h2 (by omega)⟩

/-- On a table with nothing below its root, a walk gets through exactly when the allocations of
all levels succeed. -/
theorem bareLoop_returns_iff (hs : NptOK s root none) (hbare : ∀ q, q ≠ [] → nodeAt s root q = none) (gpa : Word)
    (ask : ℕ → Option Frame) :
    (∃ c s', nptLoop gpa ask PML4T ⟨pageToPhys root, 0, 0⟩ s = .ok (some c, s')) ↔
      allGranted (levelAsks ask PML4T) s.pages = true := by
  have hstart : nodeAt s root [] = some (vmmPhysToVirt (pageToPhys root)) := by
    rw [nodeAt_nil, vmmPhysToVirt_pageToPhys]
  have hmiss : ∀ n, 1 ≤ n → n ≤ PML4T → Missing s root gpa n := by
    intro n h1 hn
    apply hbare
    rw [Ne, List.take_eq_nil_iff, not_or]
    exact ⟨by unfold PML4T at hn; omega, by simp [path]⟩
  rw [nptLoop_returns_iff ask PML4T s [] ⟨pageToPhys root, 0, 0⟩ hs (by simp) (pathFrom_four gpa) hstart,
    allGranted_levels]
  unfold SuppliedTo
  constructor
  · intro hsup n h1 hn
    obtain ⟨f, ha, hf, hd⟩ := hsup n h1 hn (hmiss n h1 hn)
    exact ⟨f, ha, hf, fun n' h2 h3 => hd n' h2 h3 (hmiss n' (by omega) h3)⟩
  · intro hall n h1 hn _
    obtain ⟨f, ha, hf, hd⟩ := hall n h1 hn
    exact ⟨f, ha, hf, fun n' h2 h3 _ => hd n' h2 h3⟩

/-- When it does not get through, it has taken a page exactly when the first allocation succeeded. -/
theorem bareLoop_taken_iff (hs : NptOK s root none) (hbare : ∀ q, q ≠ [] → nodeAt s root q = none)
    (he : nptLoop gpa ask PML4T ⟨pageToPhys root, 0, 0⟩ s = .ok (none, s')) :
    s'.pages = s.pages ↔ allGranted [ask PML4T] s.pages = false := by
  have hstart : nodeAt s root [] = some (vmmPhysToVirt (pageToPhys root)) := by
    rw [nodeAt_nil, vmmPhysToVirt_pageToPhys]
  rcases nptLevel_cases hs gpa PML4T (ask PML4T) (p := []) (by simp) hstart with
    ⟨hnp, -⟩ | ⟨-, c, -, hc⟩ | ⟨-, hask, hlev⟩ | ⟨c, f, s₁, hask, hlev, hl, hc⟩
  · simp at hnp
  · have hnode := hc.nodeAt
    rw [hbare _ (by simp)] at hnode
    simp at hnode
  · -- the first allocation fails: nothing has been taken
    have he' : nptLoop gpa ask PML4T ⟨pageToPhys root, 0, 0⟩ s = .ok (none, s) := by
      unfold PML4T at hlev ⊢
      simp only [nptLoop, hlev]
    rw [he] at he'
    obtain ⟨-, rfl⟩ := Prod.mk.inj (Except.ok.inj he')
    simp only [allocPage_none_iff.1 hask]
  · -- the first allocation succeeds: its page stays
    have he' : nptLoop gpa ask PML4T ⟨pageToPhys root, 0, 0⟩ s = nptLoop gpa ask 3 c s₁ := by
      unfold PML4T at hlev ⊢
      simp only [nptLoop, hlev]
    have hgrow : Grow root (path gpa) s₁ s' := by
      rcases nptLoop_spec ask 3 s₁ _ c (hl.ok hs) (pathFrom_next (pathFrom_four gpa)) hc.nodeAt (by simp) with
        ⟨c₂, s₂, h₂, -⟩ | ⟨s₂, h₂, hg₂, -⟩ | ⟨-, hnp⟩
      · rw [← he', he] at h₂
        simp at h₂
      · rw [← he', he] at h₂
        obtain ⟨-, rfl⟩ := Prod.mk.inj (Except.ok.inj h₂)
        exact hg₂
      · simp at hnp
    have htaken : f ∈ s'.pages := hgrow.pages_mono (by rw [hl.pages]; exact Finset.mem_insert_self _ _)
    constructor
    · intro hsame
      rw [hsame] at htaken
      exact absurd htaken hl.free
    · intro hfirst
      rw [hask] at hfirst
      simp [allGranted, hl.free] at hfirst

/-- **The MMIO page of a new table**: the call returns exactly when the allocations of all levels
succeed. -/
theorem mmio_outcome (hs : NptOK s root none) (hbare : ∀ q, q ≠ [] → nodeAt s root q = none) (gpa : Word)
    (ask : ℕ → Option Frame) :
    (allGranted (levelAsks ask PML4T) s.pages = true ∧
      ∃ page s', vmmNptCreate (pageToPhys root) gpa true ask s = .ok (.ok page, s')) ∨
    (allGranted (levelAsks ask PML4T) s.pages = false ∧
      ∃ s', vmmNptCreate (pageToPhys root) gpa true ask s = .ok (.error .ENOMEM, s') ∧
        (s'.pages = s.pages ↔ allGranted [ask PML4T] s.pages = false)) := by
  have hstart : nodeAt s root [] = some (vmmPhysToVirt (pageToPhys root)) := by
    rw [nodeAt_nil, vmmPhysToVirt_pageToPhys]
  have hiff := bareLoop_returns_iff hs hbare gpa ask
  rcases nptLoop_spec ask PML4T s [] ⟨pageToPhys root, 0, 0⟩ hs (pathFrom_four gpa) hstart (by simp [PML4T]) with
    ⟨c, s', he, -⟩ | ⟨s', he, -⟩ | ⟨-, hnp⟩
  · refine Or.inl ⟨hiff.1 ⟨c, s', he⟩, ?_⟩
    simp only [vmmNptCreate, he]
    exact ⟨_, _, rfl⟩
  · have hno : ¬ allGranted (levelAsks ask PML4T) s.pages = true := by
      rw [← hiff, he]
      simp
    exact Or.inr ⟨by simpa using hno, s', by simp only [vmmNptCreate, he], bareLoop_taken_iff hs hbare he⟩
  · simp at hnp

/-- **`yakvm_create_vmm`** returns exactly when all its allocations succeed. When it fails it has
kept no page, except when it had begun the table of the MMIO page. -/
theorem createVmm_outcome (a : VmmAsk) (s : Phys) :
    (a.granted s.pages = true ∧ ∃ x s', createVmm a s = .ok (.ok x, s')) ∨
    (a.granted s.pages = false ∧ ∃ s', createVmm a s = .ok (.error .ENOMEM, s') ∧
      (s'.pages = s.pages ↔ a.partly s.pages = false)) := by
  unfold VmmAsk.granted VmmAsk.partly
  rcases createVmm_cases a s with ⟨hpg, hc⟩ | ⟨f, hpg, hf, hcases⟩
  · exact Or.inr ⟨by simp [allGranted_denied hpg], s, hc, by simp [allGranted_denied hpg]⟩
  have hroot := (root_ready s hf).1
  have hmmio := mmio_outcome hroot (fun q hq => withRoot_bare s f hq) mmioHawk a.mmio
  -- the rest of the allocations are those of the walk from the new root
  simp only [allGranted_taken hpg]
  rcases hcases with ⟨hk, hc⟩ | ⟨hk, page, s₃, hcall, hc⟩ | ⟨hk, s₃, hcall, hg, hc⟩
  · exact Or.inr ⟨by rw [hk, Bool.false_and], _, hc, by simp [hk]⟩
  · rcases hmmio with ⟨hall, -⟩ | ⟨-, s₄, he, -⟩
    · exact Or.inl ⟨by rw [hk, Bool.true_and]; exact hall, _, s₃, hc⟩
    · rw [hcall] at he
      simp at he
  · rcases hmmio with ⟨-, page, s₄, he⟩ | ⟨hnot, s₄, he, hsame⟩
    · rw [hcall] at he
      simp at he
    · rw [hcall] at he
      obtain ⟨-, rfl⟩ := Prod.mk.inj (Except.ok.inj he)
      have hno : allGranted (levelAsks a.mmio PML4T) (insert f s.pages) = false := hnot
      refine Or.inr ⟨by rw [hk, Bool.true_and]; exact hno, _, hc, ?_⟩
      -- without the root, the pages are the old ones exactly if the walk took none
      have hfp : f ∈ s₃.pages := hg.pages_mono (Finset.mem_insert_self _ _)
      have hiff : s₃.pages.erase f = s.pages ↔ s₃.pages = (s.withRoot f).pages := by
        constructor
        · intro he'
          rw [← Finset.insert_erase hfp, he']
          rfl
        · intro he'
          rw [he']
          exact Finset.erase_insert hf
      simp only [hiff, hsame, hk, hno, Bool.true_and, Bool.not_false, Bool.and_true]
      exact Iff.rfl

/-- **`yakvm_create_vm`** returns exactly when all its allocations succeed; when it fails it
leaves the live allocations alone, except when it had begun the table of the MMIO page. -/
theorem createVm_outcome (hk : KernelOK k) (a : VmAsk) :
    (a.granted k.phys.pages = true ∧ ∃ o k', createVm a k = .ok (.ok o, k')) ∨
    (a.granted k.phys.pages = false ∧ ∃ k', createVm a k = .ok (.error .ENOMEM, k') ∧
      k'.phys.slab = k.phys.slab ∧ (k'.phys.pages = k.phys.pages ↔ a.partly k.phys.pages = false)) := by
  unfold createVm VmAsk.granted VmAsk.partly
  by_cases hvm : a.vm.isSome = true
  · set s₁ : Phys := { k.phys with slab := insert k.phys.next k.phys.slab, next := k.phys.next + 1 } with hs₁
    have hkm : k.phys.kmalloc a.vm.isSome = some (k.phys.next, s₁) := by simp only [Phys.kmalloc, hvm, if_true, hs₁]
    rw [hkm, hvm]
    simp only [Bool.true_and]
    rcases createVmm_outcome a.vmm s₁ with ⟨hall, ⟨o, m⟩, s', he⟩ | ⟨hnot, s', he, hsame⟩
    · refine Or.inl ⟨hall, ?_⟩
      simp only [he, bind, Except.bind]
      exact ⟨_, _, rfl⟩
    · -- the object of the vm is new, and is freed again
      have hnew : s₁.next ∉ s₁.slab := by
        simp only [hs₁, Finset.mem_insert, not_or]
        exact ⟨by omega, fun h => by have := hk.ids.fresh _ h; omega⟩
      have hslab : s'.slab = insert k.phys.next k.phys.slab := by
        rcases createVmm_spec a.vmm s₁ with ⟨o, m, s'', he', -⟩ | ⟨s'', he', hfail⟩
        · rw [he] at he'
          simp at he'
        · rw [he] at he'
          obtain ⟨-, rfl⟩ := Prod.mk.inj (Except.ok.inj he')
          exact hfail.slab hnew
      have hfree : s'.kfree k.phys.next = .ok { s' with slab := s'.slab.erase k.phys.next } :=
        Phys.kfree_ok (by rw [hslab]; exact Finset.mem_insert_self _ _)
      refine Or.inr ⟨hnot, { k with phys := { s' with slab := s'.slab.erase k.phys.next } },
        by simp only [he, hfree, bind, Except.bind], ?_, hsame⟩
      simp only [hslab, Finset.erase_insert hk.next_notMem]
  · have hno : a.vm.isSome = false := by simpa using hvm
    have hkm : k.phys.kmalloc a.vm.isSome = none := by simp only [Phys.kmalloc, hno, Bool.false_eq_true, if_false]
    rw [hkm, hno]
    exact Or.inr ⟨rfl, k, rfl, rfl, by simp⟩

/-- A vm that has just been created and whose file cannot be installed is destroyed with all it
owns. -/
theorem createVm_destroyed {a : VmAsk} {o : ℕ} {k₁ : Kernel} (hk : KernelOK k) (h : createVm a k = .ok (.ok o, k₁)) :
    ∃ k', destroyVm o k₁ = .ok k' ∧ k'.phys.pages = k.phys.pages ∧ k'.phys.slab = k.phys.slab := by
  obtain ⟨n, m, addr, s₁, rfl, hfresh, rfl⟩ : ∃ n m addr s₁, o = k.phys.next ∧
      Fresh { k.phys with slab := insert k.phys.next k.phys.slab, next := k.phys.next + 1 } n m s₁ ∧
      k₁ = { k with
        phys := s₁
        vms := Function.update k.vms k.phys.next (some ⟨addr, 1, none, n⟩)
        vmms := Function.update k.vmms n (some m) } := by
    unfold createVm at h
    by_cases hvm : a.vm.isSome = true
    · simp only [Phys.kmalloc, hvm, if_true] at h
      obtain ⟨⟨x, s₁⟩, he, h⟩ := bind_eq_ok.1 h
      cases x with
      | error e =>
        obtain ⟨s₂, -, h⟩ := bind_eq_ok.1 h
        simp at h
      | ok x =>
        obtain ⟨n, m⟩ := x
        obtain ⟨ho, rfl⟩ := Prod.mk.inj (Except.ok.inj h)
        exact ⟨n, m, _, s₁, (Except.ok.inj ho).symm, createVmm_fresh he, rfl⟩
    · simp [Phys.kmalloc, hvm] at h
  obtain ⟨hn, hslab₁, -⟩ := hfresh.slab
  simp only at hn hslab₁
  obtain ⟨k', hd, -, -, -, -, -, hslab, hpages⟩ := destroyVm_eq (hk.addVm addr hfresh) (Function.update_self ..) (by simp)
  have hholds : ∀ f, Kernel.Holds _ (.vm k.phys.next) f ↔ _ := fun f =>
    KernelOK.holds_vm (k := { k with
        phys := s₁
        vms := Function.update k.vms k.phys.next (some ⟨addr, 1, none, n⟩)
        vmms := Function.update k.vmms n (some m) }) (Function.update_self ..) (Function.update_self ..)
  refine ⟨k', hd, ?_, ?_⟩
  · ext f
    rw [hpages, hholds]
    constructor
    · rintro ⟨hf, hnot, -⟩
      by_contra hbase
      exact hnot (hfresh.owns.cover f hf hbase)
    · intro hf
      refine ⟨hfresh.owns.base hf, ?_, by simp⟩
      rintro ⟨q, hq, hnode⟩
      exact hfresh.owns.apart q f hq hnode hf
  · ext i
    rw [hslab]
    simp only [hslab₁, hn, Finset.mem_insert]
    constructor
    · rintro ⟨h1, h2, -, h3⟩
      exact (h1.resolve_left h2).resolve_left h3
    · intro hi
      have hlt := hk.ids.fresh i hi
      exact ⟨Or.inr (Or.inr hi), by omega, by simp, by omega⟩

/-- **When a failed `YAKVM_CREATE_VM` leaves nothing behind.** From every state of the driver the
request returns; if it returns a negative value, then the live allocations are what they were, if and
only if it did not fail in the middle of the table of the MMIO page. -/
theorem createVm_leaks_iff {acts : List Act} {mem : Frame → Slot → Word} {pages : Finset Frame} {x : Sys}
    (h : (Sys.init mem pages).run nasid acts = .ok x) (a : VmAsk) (fd : Except Errno ℕ) :
    ∃ r file k', devIoctlCreateVm a fd x.k = .ok ((r, file), k') ∧
      (r < 0 → ((k'.phys.pages = x.k.phys.pages ∧ k'.phys.slab = x.k.phys.slab) ↔
        a.partly x.k.phys.pages = false)) := by
  have hk := (SysOK.of_run h).kernel
  unfold devIoctlCreateVm
  rcases createVm_outcome hk a with ⟨hall, o, k₁, he⟩ | ⟨hnot, k₁, he, hslab, hpages⟩
  · have hdone : a.partly x.k.phys.pages = false := by
      unfold VmAsk.granted VmmAsk.granted at hall
      unfold VmAsk.partly VmmAsk.partly
      simp only [Bool.and_eq_true] at hall
      simp only [hall.2.2, Bool.not_true, Bool.and_false]
    simp only [he, bind, Except.bind]
    cases fd with
    | ok fd =>
      refine ⟨fd, some o, k₁, rfl, fun hneg => ?_⟩
      omega
    | error e =>
      obtain ⟨k', hd, hp, hs⟩ := createVm_destroyed hk he
      simp only [hd]
      exact ⟨e.code, none, k', rfl, fun _ => by simp only [hp, hs, hdone, and_self]⟩
  · simp only [he, bind, Except.bind]
    exact ⟨_, none, k₁, rfl, fun _ => by simp only [hslab, hpages, and_true]⟩

/-- The answers of an allocator that has a root page for a vm, and the given pages for the table of
the MMIO page. -/
def rootAnd (mmio : ℕ → Option Frame) : VmAsk := ⟨some 0x1000, some 1, true, mmio⟩

/-- On a new driver, a vm whose MMIO page gets no table leaves nothing behind. -/
theorem createVm_leaks_nothing : ∃ k', devIoctlCreateVm (rootAnd fun _ => none) (.ok 3) (Sys.init (fun _ _ => 0) ∅).k =
      .ok ((-12, none), k') ∧ k'.phys.pages = ∅ ∧ k'.phys.slab = ∅ := by
  have hrun : ∃ k', devIoctlCreateVm (rootAnd fun _ => none) (.ok 3) (Sys.init (fun _ _ => 0) ∅).k =
      .ok ((-12, none), k') := ⟨_, rfl⟩
  obtain ⟨k', hk'⟩ := hrun
  have hstart : (Sys.init (fun _ _ => 0) ∅).run 16 [] = .ok (Sys.init (fun _ _ => 0) ∅) := rfl
  obtain ⟨r, file, k₁, hr, hiff⟩ := createVm_leaks_iff hstart (rootAnd fun _ => none) (.ok 3)
  rw [hk'] at hr
  obtain ⟨hret, rfl⟩ := Prod.mk.inj (Except.ok.inj hr)
  obtain ⟨rfl, -⟩ := Prod.mk.inj hret
  obtain ⟨hpages, hslab⟩ := (hiff (by decide)).2 (by decide)
  exact ⟨k', hk', hpages, hslab⟩

/-- **A failed `YAKVM_CREATE_VM` can leak a page.** On a new driver, the table of the MMIO page gets its
first page and not its second: the request returns `-ENOMEM`, and the page stays allocated. -/
theorem createVm_leaks : ∃ k', devIoctlCreateVm (rootAnd fun level => if level = PML4T then some 2 else none) (.ok 3)
      (Sys.init (fun _ _ => 0) ∅).k = .ok ((-12, none), k') ∧
    (Sys.init (fun _ _ => 0) ∅).k.phys.pages = ∅ ∧ k'.phys.pages = {2} := ⟨_, rfl, rfl, by decide⟩

end Yakvm
