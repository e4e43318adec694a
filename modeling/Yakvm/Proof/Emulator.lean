import Yakvm.Proof.Requests
import Yakvm.Spec.Emulator

/-!
# Runs of the emulator

What the steps of a run keep (`EmuOK`): the nested page table is well formed, the pages
installed in the emulator's view are the ones the table leads to, and what has been served
stays served.

* `npf_agrees_iff`: when `yakvm_cpu_handle_npf` and the driver agree on an address.
* `npf_progress`: a served page never faults again, so a page faults at most once.
-/

namespace Yakvm

variable {e e' e'' : Emulator} {f : Frame} {gpa : Word}

/-! ## Addresses -/

theorem key_yakvmPage (pa : Word) : key (yakvmPage pa) = key pa := by
  unfold key yakvmPage pageShift pageMask
  apply BitVec.eq_of_getLsbD_eq
  intro i hi
  have hmask : (~~~(4096#64 - 1)).getLsbD (12 + i) = decide (12 + i < 64) := by
    rw [show (4096#64 - 1 : BitVec 64) = BitVec.ofNat 64 (2 ^ 12 - 1) from rfl, BitVec.getLsbD_not, BitVec.getLsbD_ofNat,
      Nat.testBit_two_pow_sub_one]
    simp
  simp only [BitVec.getLsbD_setWidth, BitVec.getLsbD_ushiftRight, BitVec.getLsbD_and, hi, decide_true, Bool.true_and]
  rw [hmask, decide_eq_true (by omega : 12 + i < 64), Bool.and_true]

/-- The guest physical address of a page of the mapping. -/
def pageOff (p : ℕ) : Word := BitVec.ofNat 64 (p * 4096)

theorem key_pageOff {p : ℕ} (hp : p < 256) : key (pageOff p) = key mmioHawk ↔ p = 0 := by
  have hk : (key (pageOff p)).toNat = p := by
    unfold key pageOff pageShift
    rw [BitVec.toNat_setWidth, BitVec.toNat_ushiftRight, BitVec.toNat_ofNat, Nat.shiftRight_eq_div_pow]
    omega
  have hk0 : (key mmioHawk).toNat = 0 := by decide
  rw [← BitVec.toNat_inj, hk, hk0]

/-! ## The invariant -/

/-- The root of the nested page table. -/
def Emulator.root (e : Emulator) : Frame := vmmPhysToVirt e.vmm.ncr3

/-- The page of `gpa` is in the table. -/
def Emulator.At (e : Emulator) (gpa : Word) (f : Frame) : Prop := nodeAt e.phys e.root (path gpa) = some f

/-- A nested page fault in the page `k`. -/
def Note.npfIn (k : BitVec 36) : Note → Bool
  | .npf a => decide (key a = k)
  | .served _ => false

/-- What holds between any two steps of the emulator's code. -/
structure EmuOK (e : Emulator) : Prop where
  table : NptOK e.phys e.root (some (path mmioHawk))
  view : ∀ p f, e.view p = some f → key (pageOff p) ≠ key mmioHawk ∧ e.At (pageOff p) f
  served : ∀ gpa, .served gpa ∈ e.log → key gpa ≠ key mmioHawk ∧ ∃ f, e.At gpa f
  once : ∀ k, k ≠ key mmioHawk → e.log.countP (Note.npfIn k) ≤ 1

/-- Every fault so far has been handled. -/
def Backed (e : Emulator) : Prop := ∀ a, .npf a ∈ e.log → key a ≠ key mmioHawk → ∃ f, e.At a f

/-- Nothing that `e` has is lost in `e'`, and no fault is new. -/
structure Ahead (e e' : Emulator) : Prop where
  vmm : e'.vmm = e.vmm
  keep : ∀ gpa f, e.At gpa f → e'.At gpa f
  npf : ∀ a, .npf a ∈ e'.log → .npf a ∈ e.log

theorem Ahead.refl (e : Emulator) : Ahead e e := ⟨rfl, fun _ _ h => h, fun _ h => h⟩

theorem Ahead.trans (h : Ahead e e') (h' : Ahead e' e'') : Ahead e e'' :=
  ⟨h'.vmm.trans h.vmm, fun gpa f hf => h'.keep gpa f (h.keep gpa f hf), fun a ha => h.npf a (h'.npf a ha)⟩

theorem Backed.ahead (hb : Backed e) (h : Ahead e e') : Backed e' := by
  intro a ha hk
  obtain ⟨f, hf⟩ := hb a (h.npf a ha) hk
  exact ⟨f, h.keep a f hf⟩

theorem Emulator.At.congr {g : Word} (h : e.At g f) (hk : key g = key gpa) : e.At gpa f := by
  unfold Emulator.At at h ⊢
  rwa [← (path_eq_iff g gpa).2 hk]

/-- A change of memory that keeps the table, and of what the invariant does not see. -/
theorem EmuOK.change (h : EmuOK e) (hvmm : e'.vmm = e.vmm) (hview : e'.view = e.view) (hlog : e'.log = e.log)
    (hok : NptOK e'.phys e.root (some (path mmioHawk)))
    (hkeep : ∀ q, q.length ≤ 4 → nodeAt e'.phys e.root q = nodeAt e.phys e.root q) : EmuOK e' ∧ Ahead e e' := by
  have hroot : e'.root = e.root := by unfold Emulator.root; rw [hvmm]
  have hat : ∀ gpa f, e'.At gpa f ↔ e.At gpa f := by
    intro gpa f
    unfold Emulator.At
    rw [hroot, hkeep _ (by simp [path_length])]
  refine ⟨⟨by rw [hroot]; exact hok, ?_, ?_, ?_⟩, hvmm, fun gpa f hf => (hat gpa f).2 hf, by rw [hlog]; exact fun _ h => h⟩
  · rw [hview]
    simpa only [hat] using h.view
  · rw [hlog]
    simpa only [hat] using h.served
  · rw [hlog]
    exact h.once

/-- A change of what the invariant does not see. -/
theorem EmuOK.same (h : EmuOK e) (hphys : e'.phys = e.phys) (hvmm : e'.vmm = e.vmm) (hview : e'.view = e.view)
    (hlog : e'.log = e.log) : EmuOK e' ∧ Ahead e e' :=
  h.change hvmm hview hlog (by rw [hphys]; exact h.table) (fun _ _ => by rw [hphys])

/-- A store to a guest page. -/
theorem EmuOK.store (h : EmuOK e) (hf : e.At gpa f) (i : Slot) (w : Word) :
    EmuOK { e with phys := e.phys.store f i w } ∧ Ahead e { e with phys := e.phys.store f i w } := by
  -- the page is a leaf, so it is not a table
  have hne : ∀ p n, p.length < 4 → nodeAt e.phys e.root p = some n → n ≠ f := by
    intro p n hp hn hnf
    subst hnf
    have heq := h.table.tree p (path gpa) n hp.le (by simp [path_length]) hn hf
    rw [heq, path_length] at hp
    omega
  have hmem : ∀ p n, p.length < 4 → nodeAt e.phys e.root p = some n → (e.phys.store f i w).mem n = e.phys.mem n :=
    fun p n hp hn => Phys.store_other _ _ _ (hne p n hp hn)
  obtain ⟨hok, hkeep⟩ := h.table.frame hmem (fun p n hp hn => h.table.live p n hp hn)
  exact h.change rfl rfl rfl hok hkeep

/-- A request for a page has been served. -/
theorem EmuOK.serve {s : Phys} (h : EmuOK e) (hg : Grow e.root (path gpa) e.phys s) (hk : key gpa ≠ key mmioHawk)
    (hf : nodeAt s e.root (path gpa) = some f) :
    EmuOK { e with phys := s, log := .served gpa :: e.log } ∧ Ahead e { e with phys := s, log := .served gpa :: e.log } := by
  have hkeep : ∀ g x, e.At g x → nodeAt s e.root (path g) = some x := fun g x hx =>
    hg.mono h.table (by simp [path_length]) hx
  refine ⟨⟨hg.ok h.table, ?_, ?_, ?_⟩, rfl, hkeep, ?_⟩
  · intro p x hp
    exact ⟨(h.view p x hp).1, hkeep _ _ (h.view p x hp).2⟩
  · intro g hgl
    rcases List.mem_cons.1 hgl with heq | hgl
    · cases heq
      exact ⟨hk, f, hf⟩
    · obtain ⟨hkg, x, hx⟩ := h.served g hgl
      exact ⟨hkg, x, hkeep g x hx⟩
  · intro k hkk
    rw [List.countP_cons_of_neg (by simp [Note.npfIn])]
    exact h.once k hkk
  · intro a ha
    simpa using ha

/-! ## The mapping -/

/-- A page that the table leads to is installed. -/
theorem EmuOK.install {p : ℕ} (h : EmuOK e) (hk : key (pageOff p) ≠ key mmioHawk) (hf : e.At (pageOff p) f) :
    EmuOK { e with view := Function.update e.view p (some f) } := by
  refine ⟨h.table, ?_, h.served, h.once⟩
  intro q x hq
  simp only at hq
  by_cases hqp : q = p
  · subst hqp
    rw [Function.update_self] at hq
    obtain rfl := Option.some.inj hq
    exact ⟨hk, hf⟩
  · rw [Function.update_of_ne hqp] at hq
    exact h.view q x hq

/-- **An access to the mapping.** The page of the device panics the host; any other page of
the mapping is installed, unless the driver cannot allocate. -/
theorem EmuOK.page_cases (h : EmuOK e) (i : ℕ) (ask : ℕ → Option Frame) :
    (i < 4096 ∧ e.page i ask = .error (.host .panic)) ∨ (4096 ≤ i ∧ e.page i ask = .error .signal) ∨
    ∃ f e', e.page i ask = .ok (f, e') ∧ EmuOK e' ∧ Ahead e e' ∧ e'.At (pageOff (i / 4096)) f ∧
      4096 ≤ i ∧ i < yakvmMemory := by
  unfold Emulator.page
  by_cases hi : i < yakvmMemory
  swap
  · rw [if_neg hi]
    exact Or.inr (Or.inl ⟨by unfold yakvmMemory at hi; omega, rfl⟩)
  rw [if_pos hi]
  have hkey := key_pageOff (p := i / 4096) (by unfold yakvmMemory at hi; omega)
  have hlow : i / 4096 = 0 ↔ i < 4096 := by omega
  cases hv : e.view (i / 4096) with
  | some f =>
    obtain ⟨hk, hf⟩ := h.view _ _ hv
    exact Or.inr (Or.inr ⟨f, e, rfl, h, Ahead.refl e, hf, by by_contra hc; exact hk (hkey.2 (by omega)), hi⟩)
  | none =>
    have haddr : e.memory + BitVec.ofNat 64 (i / 4096 * 4096) - e.memory = pageOff (i / 4096) := by
      unfold pageOff
      rw [BitVec.add_comm, BitVec.add_sub_cancel]
    simp only [vmVmmFault, haddr]
    rcases vmmNptCreate_spec h.table (pageOff (i / 4096)) ask with
      ⟨f, s, hc, hg, hn, hnp⟩ | ⟨s, hc, hg, hno⟩ | ⟨hc, hnp⟩
    · -- the page is installed
      have hk : key (pageOff (i / 4096)) ≠ key mmioHawk := fun hk => hnp (by rw [(path_eq_iff _ _).2 hk])
      obtain ⟨hok, hahead⟩ := h.serve hg hk hn
      have hf : (f.setWidth 64).setWidth 40 = f := by simp
      refine Or.inr (Or.inr ⟨f, { e with
        phys := s, view := Function.update e.view (i / 4096) (some f),
        log := .served (pageOff (i / 4096)) :: e.log }, ?_, hok.install hk hn, ⟨rfl, hahead.keep, hahead.npf⟩, hn,
        by by_contra hcon; exact hk (hkey.2 (by omega)), hi⟩)
      simp only [hc, bind, Except.bind, hf]
      rfl
    · -- no memory
      refine Or.inr (Or.inl ⟨?_, by simp only [hc, bind, Except.bind]⟩)
      by_contra hcon
      obtain ⟨-, x, hx⟩ := h.table.hidden _ rfl
      rw [← (path_eq_iff (pageOff (i / 4096)) mmioHawk).2 (hkey.2 (by omega))] at hx
      have hx' := hg.mono h.table (by simp [path_length]) hx
      exact absurd (hno.symm.trans hx') (by simp)
    · have hk := (path_eq_iff _ _).1 (Option.some.inj hnp)
      exact Or.inl ⟨hlow.1 (hkey.1 hk.symm), by simp only [hc, bind, Except.bind]⟩

theorem EmuOK.read_cases (h : EmuOK e) (i : ℕ) (ask : ℕ → Option Frame) :
    (i < 4096 ∧ e.read i ask = .error (.host .panic)) ∨ (4096 ≤ i ∧ e.read i ask = .error .signal) ∨
    ∃ b e', e.read i ask = .ok (b, e') ∧ EmuOK e' ∧ Ahead e e' ∧ 4096 ≤ i ∧ i < yakvmMemory := by
  unfold Emulator.read
  rcases h.page_cases i ask with ⟨hi, he⟩ | ⟨hi, he⟩ | ⟨f, e', he, h', ha, -, hi, hm⟩
  · exact Or.inl ⟨hi, by rw [he]; rfl⟩
  · exact Or.inr (Or.inl ⟨hi, by rw [he]; rfl⟩)
  · exact Or.inr (Or.inr ⟨_, e', by rw [he]; rfl, h', ha, hi, hm⟩)

theorem EmuOK.write (h : EmuOK e) {i : ℕ} {w : Word} {ask : ℕ → Option Frame} (he : e.write i w ask = .ok e') :
    EmuOK e' ∧ Ahead e e' := by
  unfold Emulator.write at he
  rcases h.page_cases (8 * i) ask with ⟨-, hp⟩ | ⟨-, hp⟩ | ⟨f, e₁, hp, h₁, ha₁, hf, -⟩
  · rw [hp] at he; simp [bind, Except.bind] at he
  · rw [hp] at he; simp [bind, Except.bind] at he
  · rw [hp] at he
    obtain rfl := Except.ok.inj he
    obtain ⟨h₂, ha₂⟩ := h₁.store hf (BitVec.ofNat 9 i) w
    exact ⟨h₂, ha₁.trans ha₂⟩

/-! ## Exits -/

theorem check_pos {p : Prop} [Decidable p] (h : p) : Emulator.check p = .ok () := if_pos h

theorem check_neg {p : Prop} [Decidable p] (h : ¬ p) : Emulator.check p = .error .abort := if_neg h

/-- A piece of the emulator's code keeps the invariant, and does not take the host down. -/
def Fine (e : Emulator) (r : Except Stop Emulator) : Prop :=
  (∀ e', r = .ok e' → EmuOK e' ∧ Ahead e e') ∧ ∀ c, r ≠ .error (.host c)

theorem Fine.ok (h : EmuOK e') (ha : Ahead e e') : Fine e (.ok e') := by
  refine ⟨?_, fun c => by simp⟩
  rintro e₁ he
  obtain rfl := Except.ok.inj he
  exact ⟨h, ha⟩

theorem Fine.abort : Fine e (.error .abort) := ⟨by simp, by simp⟩

theorem Fine.signal : Fine e (.error .signal) := ⟨by simp, by simp⟩

/-- **`yakvm_vcpu_handle_mmio`** panics the host if the instruction that it decodes starts in
the page of the device, and only then. -/
theorem EmuOK.handleMmio (h : EmuOK e) (ask : ℕ → ℕ → Option Frame) :
    (((e.state.cs + e.state.rip).setWidth 32).toNat < 4096 → e.vcpuHandleMmio ask = .error (.host .panic)) ∧
    (4096 ≤ ((e.state.cs + e.state.rip).setWidth 32).toNat → Fine e (e.vcpuHandleMmio ask)) := by
  unfold Emulator.vcpuHandleMmio
  set ip : BitVec 32 := (e.state.cs + e.state.rip).setWidth 32 with hip
  rcases h.read_cases ip.toNat (ask 0) with ⟨hi, he⟩ | ⟨hi, he⟩ | ⟨b, e₁, he, h₁, ha₁, hi, hm⟩
  · simp only [he, bind, Except.bind]
    exact ⟨fun _ => trivial, fun hge => by omega⟩
  · simp only [he, bind, Except.bind]
    exact ⟨fun hlt => by omega, fun _ => Fine.signal⟩
  refine ⟨fun hlt => by omega, fun _ => ?_⟩
  -- the next two bytes are in the page of the first or the next one
  have h2 : (ip + 1).toNat = ip.toNat + 1 := by
    unfold yakvmMemory at hm; rw [BitVec.toNat_add]; simp; omega
  have h3 : (ip + 2).toNat = ip.toNat + 2 := by
    unfold yakvmMemory at hm; rw [BitVec.toNat_add]; simp; omega
  simp only [he, bind, Except.bind]
  by_cases hb : b = 0x67
  swap
  · simp only [check_neg hb]
    exact Fine.abort
  simp only [check_pos hb]
  rcases h₁.read_cases (ip + 1).toNat (ask 1) with ⟨hi', -⟩ | ⟨-, he'⟩ | ⟨op, e₂, he', h₂, ha₂, -⟩
  · omega
  · simp only [he']
    exact Fine.signal
  simp only [he']
  rcases h₂.read_cases (ip + 2).toNat (ask 2) with ⟨hi'', -⟩ | ⟨-, he''⟩ | ⟨m, e₃, he'', h₃, ha₃, -⟩
  · omega
  · simp only [he'']
    split_ifs
    exacts [Fine.signal, Fine.signal, Fine.abort]
  simp only [he'']
  by_cases hmod : m = 0x02
  swap
  · simp only [check_neg hmod]
    split_ifs <;> exact Fine.abort
  by_cases hrdx : e₁.guest.show.rdx = mmioHawk
  swap
  · simp only [check_pos hmod, check_neg hrdx]
    split_ifs <;> exact Fine.abort
  -- what is left changes the device and the registers only
  have hend : ∀ {e₄ : Emulator}, e₄.phys = e₃.phys → e₄.vmm = e₃.vmm → e₄.view = e₃.view → e₄.log = e₃.log →
      Fine e (.ok e₄) := by
    intro e₄ h1 h2 h3 h4
    obtain ⟨hok, ha⟩ := h₃.same h1 h2 h3 h4
    exact Fine.ok hok (ha₁.trans (ha₂.trans (ha₃.trans ha)))
  simp only [check_pos hmod, check_pos hrdx]
  split_ifs
  · exact hend rfl rfl rfl rfl
  · exact hend rfl rfl rfl rfl
  · exact Fine.abort

/-- **`YAKVM_MMAP_PAGE`** on a well-formed table. -/
theorem mmapPage_cases (h : EmuOK e) (gpa : Word) (ask : ℕ → Option Frame) :
    (key gpa = key mmioHawk ∧ vmIoctlMmapPage e.vmm gpa ask e.phys = .error .panic) ∨
    (key gpa ≠ key mmioHawk ∧ ¬ Supplied e.phys e.root gpa ask ∧
      ∃ s, vmIoctlMmapPage e.vmm gpa ask e.phys = .ok (Errno.ENOMEM.code, s)) ∨
    (key gpa ≠ key mmioHawk ∧ Supplied e.phys e.root gpa ask ∧ ∃ f s, vmIoctlMmapPage e.vmm gpa ask e.phys = .ok (0, s) ∧
      Grow e.root (path gpa) e.phys s ∧ nodeAt s e.root (path gpa) = some f) := by
  have hret : some (path mmioHawk) ≠ some (path gpa) → ((∃ page s', vmmNptCreate e.vmm.ncr3 gpa false ask e.phys =
      .ok (.ok page, s')) ↔ Supplied e.phys e.root gpa ask) := fun hnp => vmmNptCreate_returns_iff h.table hnp ask
  unfold vmIoctlMmapPage
  rcases vmmNptCreate_spec h.table gpa ask with ⟨f, s, hc, hg, hn, hnp⟩ | ⟨s, hc, hg, hno⟩ | ⟨hc, hnp⟩
  · have hk : key gpa ≠ key mmioHawk := fun hk => hnp (by rw [(path_eq_iff _ _).2 hk])
    exact Or.inr (Or.inr ⟨hk, (hret hnp).1 ⟨_, s, hc⟩, f, s, by simp only [hc, bind, Except.bind], hg, hn⟩)
  · have hnp : some (path mmioHawk) ≠ some (path gpa) := by
      intro hnp
      obtain ⟨-, x, hx⟩ := h.table.hidden _ rfl
      rw [Option.some.inj hnp] at hx
      exact absurd (hno.symm.trans (hg.mono h.table (by simp [path_length]) hx)) (by simp)
    have hk : key gpa ≠ key mmioHawk := fun hk => hnp (by rw [(path_eq_iff _ _).2 hk])
    refine Or.inr (Or.inl ⟨hk, fun hsup => ?_, s, by simp only [hc, bind, Except.bind]⟩)
    obtain ⟨page, s', hc'⟩ := (hret hnp).2 hsup
    rw [hc] at hc'
    simp at hc'
  · exact Or.inl ⟨((path_eq_iff _ _).1 (Option.some.inj hnp)).symm, by simp only [hc, bind, Except.bind]⟩

/-- The request succeeds exactly when its allocations do. -/
theorem mmapPage_zero_iff (h : EmuOK e) (hk : key gpa ≠ key mmioHawk) (ask : ℕ → Option Frame) :
    (∃ s, vmIoctlMmapPage e.vmm gpa ask e.phys = .ok (0, s)) ↔ Supplied e.phys e.root gpa ask := by
  rcases mmapPage_cases h gpa ask with ⟨hk', -⟩ | ⟨-, hno, s, hc⟩ | ⟨-, hsup, f, s, hc, -⟩
  · exact absurd hk' hk
  · have hne : Errno.ENOMEM.code ≠ 0 := by decide
    rw [hc]
    simp [hne, hno]
  · exact ⟨fun _ => hsup, fun _ => ⟨s, hc⟩⟩

theorem supplied_yakvmPage (s : Phys) (root : Frame) (pa : Word) (ask : ℕ → Option Frame) :
    Supplied s root (yakvmPage pa) ask ↔ Supplied s root pa ask := by
  unfold Supplied SuppliedTo Missing
  rw [(path_eq_iff _ _).2 (key_yakvmPage pa)]

/-- **`yakvm_cpu_handle_npf`** on an address outside the page of the device. -/
theorem EmuOK.handleNpf (h : EmuOK e) (ask : ℕ → ℕ → Option Frame) (hk : key e.state.exitInfo2 ≠ key mmioHawk) :
    Fine e (e.cpuHandleNpf ask) ∧
    (∀ e', e.cpuHandleNpf ask = .ok e' → .served (yakvmPage e.state.exitInfo2) ∈ e'.log ∧ ∃ f, e'.At e.state.exitInfo2 f) ∧
    (Supplied e.phys e.root e.state.exitInfo2 (ask 0) → ∃ e', e.cpuHandleNpf ask = .ok e') := by
  have hreq : Emulator.npfRequest e.state.exitInfo2 = some (yakvmPage e.state.exitInfo2) :=
    if_neg (fun he => hk (by rw [he]))
  have hpath : path (yakvmPage e.state.exitInfo2) = path e.state.exitInfo2 := (path_eq_iff _ _).2 (key_yakvmPage _)
  unfold Emulator.cpuHandleNpf
  simp only [hreq]
  rcases mmapPage_cases h (yakvmPage e.state.exitInfo2) (ask 0) with ⟨hk', -⟩ | ⟨-, hno, s, hc⟩ | ⟨hk', -, f, s, hc, hg, hn⟩
  · rw [key_yakvmPage] at hk'
    exact absurd hk' hk
  · simp only [hc, bind, Except.bind, check_neg (show Errno.ENOMEM.code ≠ 0 by decide)]
    exact ⟨Fine.abort, by simp, fun hs => absurd ((supplied_yakvmPage _ _ _ _).2 hs) hno⟩
  · obtain ⟨hok, hahead⟩ := h.serve hg hk' hn
    simp only [hc, bind, Except.bind, Emulator.check, if_true]
    refine ⟨Fine.ok hok hahead, ?_, fun _ => ⟨_, rfl⟩⟩
    intro e' he'
    obtain rfl := Except.ok.inj he'
    refine ⟨List.mem_cons_self, f, ?_⟩
    unfold Emulator.At
    rw [← hpath]
    exact hn

/-- The other exits. -/
theorem EmuOK.handleExit (h : EmuOK e) (ask : ℕ → ℕ → Option Frame) (hcode : e.state.exitCode ≠ svmExitNpf)
    (he : e.cpuHandleExit ask = .ok e') : EmuOK e' ∧ Ahead e e' := by
  unfold Emulator.cpuHandleExit at he
  rw [if_neg hcode] at he
  split_ifs at he
  · -- the trace of `#DB`
    rcases h.read_cases (e.state.cs + e.state.rip).toNat (ask 0) with ⟨-, hr⟩ | ⟨-, hr⟩ | ⟨b, e₁, hr, h₁, ha₁, -⟩
    · rw [hr] at he; simp [bind, Except.bind] at he
    · rw [hr] at he; simp [bind, Except.bind] at he
    · rw [hr] at he
      obtain rfl := Except.ok.inj he
      exact ⟨h₁, ha₁⟩
  · obtain rfl := Except.ok.inj he
    exact h.same rfl rfl rfl rfl
  · -- `IOIO` changes the device and the registers
    unfold Emulator.cpuHandleIoio Emulator.check at he
    simp only [bind, Except.bind] at he
    split at he
    · simp at he
    split at he
    · simp at he
    split at he
    · obtain rfl := Except.ok.inj he
      exact h.same rfl rfl rfl rfl
    · obtain rfl := Except.ok.inj he
      exact h.same rfl rfl rfl rfl

/-! ## Runs -/

/-- A fault outside the page of the device is at a page that is not in the table. -/
theorem EmuOK.fault_absent {acc : Access} (h : EmuOK e) (hk : key gpa ≠ key mmioHawk)
    (hf : hwTranslate e.phys.mem e.vmm.ncr3 acc gpa = .fault) : ∀ f, ¬ e.At gpa f := by
  intro f hat
  have hspec := hwTranslate_spec h.table acc gpa
  rw [hf, if_neg (fun hp => hk ((path_eq_iff _ _).1 (Option.some.inj hp)).symm)] at hspec
  rw [show nodeAt e.phys (vmmPhysToVirt e.vmm.ncr3) (path gpa) = some f from hat] at hspec
  simp at hspec

/-- A page that is in the table is found by every walk. -/
theorem EmuOK.translate (h : EmuOK e) (acc : Access) (hk : key gpa ≠ key mmioHawk) (hf : e.At gpa f) :
    hwTranslate e.phys.mem e.vmm.ncr3 acc gpa = .page f := by
  rw [hwTranslate_spec h.table acc gpa, if_neg (fun hp => hk ((path_eq_iff _ _).1 (Option.some.inj hp)).symm)]
  rw [show nodeAt e.phys (vmmPhysToVirt e.vmm.ncr3) (path gpa) = some f from hf]
  rfl

/-- **The guest exits**: the fault is the first one in its page. -/
theorem EmuOK.vcpuRun {acc : Access} {x : Emulator.Exit} (h : EmuOK e) (hb : Backed e) (hx : e.possible acc x) :
    EmuOK (e.vcpuRun x) := by
  by_cases hc : x.code = svmExitNpf
  swap
  · have hlog : (e.vcpuRun x).log = e.log := if_neg hc
    have hsame : EmuOK (e.vcpuRun x) ∧ Ahead e (e.vcpuRun x) := h.same rfl rfl rfl hlog
    exact hsame.1
  have hlog : (e.vcpuRun x).log = .npf x.info2 :: e.log := if_pos hc
  refine ⟨h.table, h.view, ?_, ?_⟩
  · intro g hg
    rw [hlog] at hg
    exact h.served g (by simpa using hg)
  · intro k hk
    rw [hlog, List.countP_cons]
    by_cases hkx : key x.info2 = k
    · -- an earlier fault in the page has been handled, so the walk would not fail
      have hnone : e.log.countP (Note.npfIn k) = 0 := by
        rw [List.countP_eq_zero]
        intro n hn hnk
        cases n with
        | served g => simp [Note.npfIn] at hnk
        | npf a =>
          simp only [Note.npfIn, decide_eq_true_eq] at hnk
          obtain ⟨f, hf⟩ := hb a hn (by rw [hnk]; exact hk)
          exact h.fault_absent (by rw [hkx]; exact hk) (hx hc).2 f (hf.congr (hnk.trans hkx.symm))
      rw [hnone]
      split <;> omega
    · rw [if_neg (by simp [Note.npfIn, hkx])]
      exact h.once k hk

/-- A turn of the loop keeps the invariant, and handles the fault it was made for. -/
theorem EmuOK.exit {acc : Access} {x : Emulator.Exit} {ask : ℕ → ℕ → Option Frame} (h : EmuOK e) (hb : Backed e)
    (hx : e.possible acc x) (he : (e.vcpuRun x).cpuHandleExit ask = .ok e') :
    EmuOK e' ∧ Backed e' ∧ e'.vmm = e.vmm := by
  have h₁ := h.vcpuRun hb hx
  by_cases hc : x.code = svmExitNpf
  · have hlog : (e.vcpuRun x).log = .npf x.info2 :: e.log := if_pos hc
    have hnpf : (e.vcpuRun x).cpuHandleNpf ask = .ok e' := by
      have hcode : (e.vcpuRun x).state.exitCode = svmExitNpf := hc
      unfold Emulator.cpuHandleExit at he
      rwa [if_pos hcode] at he
    -- the older faults, and this one if the handler has put its page into the table
    have hback : Ahead (e.vcpuRun x) e' → (key x.info2 ≠ key mmioHawk → ∃ f, e'.At x.info2 f) → Backed e' := by
      intro ha hnew a hal hk
      have hmem := ha.npf a hal
      rw [hlog] at hmem
      rcases List.mem_cons.1 hmem with heq | hmem
      · cases heq
        exact hnew hk
      · obtain ⟨f, hf⟩ := hb a hmem hk
        exact ⟨f, ha.keep a f hf⟩
    by_cases hk : key x.info2 = key mmioHawk
    · by_cases ha : x.info2 = mmioHawk
      · have hmm : (e.vcpuRun x).vcpuHandleMmio ask = .ok e' := by
          unfold Emulator.cpuHandleNpf at hnpf
          rwa [show Emulator.npfRequest (e.vcpuRun x).state.exitInfo2 = none from if_pos ha] at hnpf
        obtain ⟨hlow, hfine⟩ := h₁.handleMmio ask
        rcases Nat.lt_or_ge (((e.vcpuRun x).state.cs + (e.vcpuRun x).state.rip).setWidth 32).toNat 4096 with hi | hi
        · rw [hlow hi] at hmm; simp at hmm
        · obtain ⟨hok, hahead⟩ := (hfine hi).1 e' hmm
          exact ⟨hok, hback hahead (fun h => absurd hk h), hahead.vmm⟩
      · -- the driver panics
        have hreq : Emulator.npfRequest (e.vcpuRun x).state.exitInfo2 = some (yakvmPage x.info2) := if_neg ha
        unfold Emulator.cpuHandleNpf at hnpf
        simp only [hreq] at hnpf
        rcases mmapPage_cases h₁ (yakvmPage x.info2) (ask 0) with ⟨-, hp⟩ | ⟨hk', -⟩ | ⟨hk', -⟩
        · rw [hp] at hnpf; simp at hnpf
        · rw [key_yakvmPage] at hk'; exact absurd hk hk'
        · rw [key_yakvmPage] at hk'; exact absurd hk hk'
    · obtain ⟨hfine, hserved, -⟩ := h₁.handleNpf ask hk
      obtain ⟨hok, hahead⟩ := hfine.1 e' hnpf
      exact ⟨hok, hback hahead (fun _ => (hserved e' hnpf).2), hahead.vmm⟩
  · have hlog : (e.vcpuRun x).log = e.log := if_neg hc
    obtain ⟨hok, hahead⟩ := h₁.handleExit ask hc he
    have ha : Ahead e (e.vcpuRun x) := ⟨rfl, fun _ _ h => h, by rw [hlog]; exact fun _ h => h⟩
    exact ⟨hok, hb.ahead (ha.trans hahead), hahead.vmm⟩

/-- The hardware's marks are in tables. -/
theorem hwMark_mem {s : Phys} {ncr3 : Word} {np : Option (List Slot)} (hs : NptOK s (vmmPhysToVirt ncr3) np) (gpa : Word) (n : ℕ)
    (a d : Bool) (hno : ∀ p, p.length < 4 → nodeAt s (vmmPhysToVirt ncr3) p ≠ some f) :
    (Emulator.hwMark s ncr3 gpa n a d).mem f = s.mem f := by
  unfold Emulator.hwMark
  split
  · rfl
  rename_i t ht
  obtain ⟨p, hp, hn⟩ := (hwWalk_spec hs .read 4 [] ncr3 (pathFrom_four gpa) nodeAt_nil (by simp)).1 t (List.mem_of_getElem? ht)
  simp only
  split_ifs
  · exact Phys.store_other _ _ _ fun heq => hno p hp (heq ▸ hn)
  · rfl

/-- The hardware's marks change no path. -/
theorem EmuOK.mark (h : EmuOK e) (n : ℕ) (a d : Bool) :
    EmuOK { e with phys := Emulator.hwMark e.phys e.vmm.ncr3 gpa n a d } ∧
      Ahead e { e with phys := Emulator.hwMark e.phys e.vmm.ncr3 gpa n a d } := by
  unfold Emulator.hwMark
  split
  · exact h.same rfl rfl rfl rfl
  · simp only
    split_ifs with hb
    · rename_i table _
      have h0 : e.phys.mem table (gpa.extractLsb' (12 + 9 * (3 - n)) 9) ≠ 0 := fun h0 => by
        rw [h0] at hb; simp at hb
      obtain ⟨hok, hkeep⟩ := hwSetAd_ok h.table h0 a d
      exact h.change rfl rfl rfl hok (fun q _ => hkeep q)
    · exact h.same rfl rfl rfl rfl

/-- **A step keeps the invariant.** -/
theorem EmuOK.step (h : EmuOK e) (hb : Backed e) (ev : Emulator.Event) (he : Emulator.step ev e = .ok e') :
    EmuOK e' ∧ Backed e' ∧ e'.vmm = e.vmm := by
  have hahead : EmuOK e' ∧ Ahead e e' → EmuOK e' ∧ Backed e' ∧ e'.vmm = e.vmm :=
    fun ⟨hok, ha⟩ => ⟨hok, hb.ahead ha, ha.vmm⟩
  cases ev with
  | exit acc x ask =>
    simp only [Emulator.step] at he
    split_ifs at he with hrun
    · exact h.exit hb hrun.2 he
    · obtain rfl := Except.ok.inj he
      exact ⟨h, hb, rfl⟩
  | touch i ask =>
    simp only [Emulator.step] at he
    rcases h.read_cases i ask with ⟨-, hr⟩ | ⟨-, hr⟩ | ⟨b, e₁, hr, h₁, ha₁, -⟩
    · rw [hr] at he; simp [bind, Except.bind] at he
    · rw [hr] at he; simp [bind, Except.bind] at he
    · rw [hr] at he
      obtain rfl := Except.ok.inj he
      exact hahead ⟨h₁, ha₁⟩
  | store i w ask => exact hahead (h.write he)
  | guestStore gpa slot w =>
    simp only [Emulator.step] at he
    split at he
    · rename_i f hf
      obtain rfl := Except.ok.inj he
      have hspec := hwTranslate_spec h.table .write gpa
      rw [hf] at hspec
      -- only a leaf page is translated to
      have hat : e.At gpa f := by
        unfold Emulator.At Emulator.root
        split at hspec
        · simp at hspec
        · cases hn : nodeAt e.phys (vmmPhysToVirt e.vmm.ncr3) (path gpa) with
          | none => rw [hn] at hspec; simp at hspec
          | some y => rw [hn] at hspec; simp at hspec; rw [hspec]
      exact hahead (h.store hat slot w)
    · obtain rfl := Except.ok.inj he
      exact ⟨h, hb, rfl⟩
  | mark gpa n a d =>
    simp only [Emulator.step] at he
    obtain rfl := Except.ok.inj he
    exact hahead (h.mark n a d)

/-- **A run keeps the invariant.** -/
theorem EmuOK.run (evs : List Emulator.Event) : ∀ e : Emulator, EmuOK e → Backed e → e.run evs = .ok e' →
    EmuOK e' ∧ Backed e' ∧ e'.vmm = e.vmm := by
  induction evs with
  | nil =>
    intro e h hb he
    obtain rfl := Except.ok.inj he
    exact ⟨h, hb, rfl⟩
  | cons ev evs ih =>
    intro e h hb he
    unfold Emulator.run at he
    rw [List.foldlM_cons] at he
    cases hs : Emulator.step ev e with
    | error st => rw [hs] at he; simp [bind, Except.bind] at he
    | ok e₁ =>
      rw [hs] at he
      obtain ⟨h₁, hb₁, hvmm₁⟩ := h.step hb ev hs
      obtain ⟨h₂, hb₂, hvmm₂⟩ := ih e₁ h₁ hb₁ he
      exact ⟨h₂, hb₂, hvmm₂.trans hvmm₁⟩

/-- The emulator on a vm that has just been created. -/
theorem EmuOK.start {a : VmmAsk} {o : ℕ} {vmm : Vmm} {s₀ s : Phys} (hc : createVmm a s₀ = .ok (.ok (o, vmm), s))
    (memory : Word) (guest : Guest) : EmuOK (Emulator.start s vmm memory guest) ∧ Backed (Emulator.start s vmm memory guest) := by
  refine ⟨⟨(createVmm_fresh hc).ok, ?_, ?_, ?_⟩, ?_⟩
  · intro p f hp; simp [Emulator.start] at hp
  · intro g hg; simp [Emulator.start] at hg
  · intro k _; simp [Emulator.start]
  · intro g hg; simp [Emulator.start] at hg

/-! ## Agreement on what is MMIO -/

/-- The driver created the page of `gpa` as MMIO: its leaf entry is there, and is not
present. -/
def Emulator.CreatedMmio (e : Emulator) (gpa : Word) : Prop :=
  ∃ t, nodeAt e.phys e.root ((path gpa).take 3) = some t ∧ e.phys.mem t (tableIndex gpa PT) ≠ 0 ∧
    (e.phys.mem t (tableIndex gpa PT)).getLsbD 0 = false

theorem EmuOK.createdMmio_iff (h : EmuOK e) : e.CreatedMmio gpa ↔ key gpa = key mmioHawk := by
  have hsplit : ∀ g, path g = (path g).take 3 ++ [tableIndex g PT] := fun _ => rfl
  constructor
  · rintro ⟨t, ht, h0, hb⟩
    have hnp := (h.table.present _ t _ (by simp [path_length]) ht h0).1 hb
    rw [← hsplit gpa] at hnp
    exact ((path_eq_iff _ _).1 (Option.some.inj hnp)).symm
  · intro hk
    obtain ⟨-, f, hf⟩ := h.table.hidden _ rfl
    rw [← (path_eq_iff gpa mmioHawk).2 hk, hsplit gpa] at hf
    obtain ⟨t, ht, h0, -⟩ := nodeAt_concat_inv hf
    refine ⟨t, ht, h0, (h.table.present _ t _ (by simp [path_length]) ht h0).2 ?_⟩
    rw [← hsplit gpa, (path_eq_iff gpa mmioHawk).2 hk]

/-- The emulator and the driver agree on the exit that `e` is at: it is handed to the device
if and only if its page was created for the device, the request made otherwise succeeds, and
the host survives. -/
def Agrees (e : Emulator) (ask : ℕ → ℕ → Option Frame) : Prop :=
  (Emulator.npfRequest e.state.exitInfo2 = none ↔ e.CreatedMmio e.state.exitInfo2) ∧
  (∀ gpa, Emulator.npfRequest e.state.exitInfo2 = some gpa → ∃ s, vmIoctlMmapPage e.vmm gpa (ask 0) e.phys = .ok (0, s)) ∧
  ∀ c, e.cpuHandleNpf ask ≠ .error (.host c)

/-- The address of the instruction that `yakvm_vcpu_handle_mmio` decodes. -/
def Guest.ip (g : Guest) : Word := ((g.csBase + g.rip).setWidth 32).setWidth 64

theorem key_ip (g : Guest) : key g.ip = key mmioHawk ↔ ((g.csBase + g.rip).setWidth 32).toNat < 4096 := by
  have hlt := ((g.csBase + g.rip).setWidth 32).isLt
  have hk : (key g.ip).toNat = ((g.csBase + g.rip).setWidth 32).toNat / 4096 := by
    unfold key Guest.ip pageShift
    rw [BitVec.toNat_setWidth, BitVec.toNat_ushiftRight, BitVec.toNat_setWidth, Nat.shiftRight_eq_div_pow]
    omega
  have hk0 : (key mmioHawk).toNat = 0 := by decide
  rw [← BitVec.toNat_inj, hk, hk0]
  omega

/-- **When emulator and driver agree on a nested page fault.** In every state that a run on a
new vm reaches, and for every fault that the hardware raises there, they agree if and only if
the fault is at `YAKVM_MMIO_HAWK` itself, by an instruction outside its page, or in another
page, with enough memory for the tables. -/
theorem npf_agrees_iff {a : VmmAsk} {o : ℕ} {vmm : Vmm} {s₀ s : Phys} {memory : Word} {guest : Guest}
    {evs : List Emulator.Event} {acc : Access} {x : Emulator.Exit} (hc : createVmm a s₀ = .ok (.ok (o, vmm), s))
    (hr : (Emulator.start s vmm memory guest).run evs = .ok e) (hx : e.possible acc x) (ask : ℕ → ℕ → Option Frame) :
    Agrees (e.vcpuRun x) ask ↔
      (x.info2 = mmioHawk ∧ key x.guest.ip ≠ key mmioHawk) ∨
      (key x.info2 ≠ key mmioHawk ∧ Supplied e.phys e.root x.info2 (ask 0)) := by
  obtain ⟨hstart, hback⟩ := EmuOK.start hc memory guest
  obtain ⟨h, hb, -⟩ := EmuOK.run evs _ hstart hback hr
  have h₁ := h.vcpuRun hb hx
  have hmmio : (e.vcpuRun x).CreatedMmio x.info2 ↔ key x.info2 = key mmioHawk := h₁.createdMmio_iff
  unfold Agrees
  simp only [show (e.vcpuRun x).state.exitInfo2 = x.info2 from rfl]
  by_cases ha : x.info2 = mmioHawk
  · -- the device itself
    have hreq : Emulator.npfRequest x.info2 = none := if_pos ha
    have hnpf : (e.vcpuRun x).cpuHandleNpf ask = (e.vcpuRun x).vcpuHandleMmio ask := by
      unfold Emulator.cpuHandleNpf
      simp only [show Emulator.npfRequest (e.vcpuRun x).state.exitInfo2 = none from hreq]
    obtain ⟨hlow, hfine⟩ := h₁.handleMmio ask
    have hk : key x.info2 = key mmioHawk := by rw [ha]
    rw [hnpf, hreq, hmmio, ne_eq, key_ip]
    constructor
    · rintro ⟨-, -, hhost⟩
      exact Or.inl ⟨ha, fun hip => hhost _ (hlow hip)⟩
    · rintro (⟨-, hip⟩ | ⟨hk', -⟩)
      · exact ⟨by simp [hk], by simp, (hfine (not_lt.1 hip)).2⟩
      · exact absurd hk hk'
  · have hreq : Emulator.npfRequest x.info2 = some (yakvmPage x.info2) := if_neg ha
    rw [hreq, hmmio]
    by_cases hk : key x.info2 = key mmioHawk
    · -- its page, which the driver refuses with a panic
      simp only [reduceCtorEq, hk, iff_true, false_and, ha, ne_eq, not_true_eq_false, or_self]
    · have hkp : key (yakvmPage x.info2) ≠ key mmioHawk := by rw [key_yakvmPage]; exact hk
      have hioctl : (∃ s, vmIoctlMmapPage e.vmm (yakvmPage x.info2) (ask 0) e.phys = .ok (0, s)) ↔
          Supplied e.phys e.root x.info2 (ask 0) :=
        (mmapPage_zero_iff h hkp (ask 0)).trans (supplied_yakvmPage _ _ _ _)
      obtain ⟨hfine, -⟩ := h₁.handleNpf ask hk
      constructor
      · rintro ⟨-, hreq, -⟩
        exact Or.inr ⟨hk, hioctl.1 (hreq _ rfl)⟩
      · rintro (⟨ha', -⟩ | ⟨-, hsup⟩)
        · exact absurd ha' ha
        · refine ⟨by simp [hk], ?_, hfine.2⟩
          intro gpa hg
          obtain rfl := Option.some.inj hg
          exact hioctl.2 hsup

/-- A guest whose code is at `0x1000`. -/
def codeGuest : Guest := ⟨fun _ => 0, 0, 0x1000, 0x2000⟩

/-- A fault at the device itself, by code at `0x1000` of a new vm. -/
theorem npf_agrees_device : ∃ s, createVmm countingAsk emptyPhys = .ok (.ok (0, ⟨pageToPhys 1⟩), s) ∧
    Agrees ((Emulator.start s ⟨pageToPhys 1⟩ 0x7f0000000000 codeGuest).vcpuRun ⟨svmExitNpf, 0, 0, codeGuest⟩)
      (fun _ _ => none) := by
  obtain ⟨s, hs, hfault⟩ : ∃ s, createVmm countingAsk emptyPhys = .ok (.ok (0, ⟨pageToPhys 1⟩), s) ∧
      hwTranslate s.mem (pageToPhys 1) .write 0 = .fault := ⟨_, rfl, rfl⟩
  have hx : (Emulator.start s ⟨pageToPhys 1⟩ 0x7f0000000000 codeGuest).possible .write ⟨svmExitNpf, 0, 0, codeGuest⟩ :=
    fun _ => ⟨by decide, hfault⟩
  have hr : (Emulator.start s ⟨pageToPhys 1⟩ 0x7f0000000000 codeGuest).run [] =
      .ok (Emulator.start s ⟨pageToPhys 1⟩ 0x7f0000000000 codeGuest) := rfl
  exact ⟨s, hs, (npf_agrees_iff hs hr hx (fun _ _ => none)).2 (Or.inl ⟨rfl, by decide⟩)⟩

/-- **A guest can bring down the host.** On a new vm a guest reads the byte at address 1. The
emulator asks the driver for page 0, which was created for the device, and the driver's
assertion fails. -/
theorem npf_disagrees : ∃ s, createVmm countingAsk emptyPhys = .ok (.ok (0, ⟨pageToPhys 1⟩), s) ∧
    ∃ x : Emulator.Exit, x.code = svmExitNpf ∧ x.info2 = 1 ∧
      (Emulator.start s ⟨pageToPhys 1⟩ 0x7f0000000000 codeGuest).possible .read x ∧
      ¬ Agrees ((Emulator.start s ⟨pageToPhys 1⟩ 0x7f0000000000 codeGuest).vcpuRun x) (fun _ _ => none) ∧
      Emulator.step (.exit .read x (fun _ _ => none)) (Emulator.start s ⟨pageToPhys 1⟩ 0x7f0000000000 codeGuest) =
        .error (.host .panic) := by
  refine ⟨_, rfl, ⟨svmExitNpf, 0, 1, codeGuest⟩, rfl, rfl, fun _ => ⟨by decide, rfl⟩, ?_, rfl⟩
  rintro ⟨-, -, hhost⟩
  exact hhost .panic rfl

/-! ## Progress -/

/-- **Nested page faults make progress.** In every state that a run on a new vm reaches: a
page that has been served is found by every hardware walk; a page other than the device's has
made the guest exit at most once; and a fault in such a page is served if the allocations
succeed. -/
theorem npf_progress {a : VmmAsk} {o : ℕ} {vmm : Vmm} {s₀ s : Phys} {memory : Word} {guest : Guest}
    {evs : List Emulator.Event} (hc : createVmm a s₀ = .ok (.ok (o, vmm), s))
    (hr : (Emulator.start s vmm memory guest).run evs = .ok e) :
    (∀ gpa, .served gpa ∈ e.log → ∀ acc g, key g = key gpa → ∃ f, hwTranslate e.phys.mem vmm.ncr3 acc g = .page f) ∧
    (∀ k, k ≠ key mmioHawk → e.log.countP (Note.npfIn k) ≤ 1) ∧
    (∀ acc x ask, e.mode = .RUNNING → e.possible acc x → x.code = svmExitNpf → key x.info2 ≠ key mmioHawk →
      Supplied e.phys (vmmPhysToVirt vmm.ncr3) x.info2 (ask 0) →
      ∃ e', Emulator.step (.exit acc x ask) e = .ok e' ∧ .served (yakvmPage x.info2) ∈ e'.log) := by
  obtain ⟨hstart, hback⟩ := EmuOK.start hc memory guest
  obtain ⟨h, hb, hvmm⟩ := EmuOK.run evs _ hstart hback hr
  have hvmm' : e.vmm = vmm := hvmm
  subst hvmm'
  refine ⟨?_, h.once, ?_⟩
  · intro gpa hgpa acc g hg
    obtain ⟨hk, f, hf⟩ := h.served gpa hgpa
    exact ⟨f, h.translate acc (by rw [hg]; exact hk) (hf.congr hg.symm)⟩
  · intro acc x ask hmode hx hnpf hk hsup
    have h₁ := h.vcpuRun hb hx
    obtain ⟨-, hserved, hreturns⟩ := h₁.handleNpf ask hk
    obtain ⟨e', he'⟩ := hreturns hsup
    have hcode : (e.vcpuRun x).state.exitCode = svmExitNpf := hnpf
    refine ⟨e', ?_, (hserved e' he').1⟩
    simp only [Emulator.step, if_pos (And.intro hmode hx), Emulator.cpuHandleExit, if_pos hcode, he']

/-- A guest faults in the page of `0x1000`; afterwards its walks for any byte of the page
succeed. -/
theorem npf_progress_page : ∃ s e, createVmm countingAsk emptyPhys = .ok (.ok (0, ⟨pageToPhys 1⟩), s) ∧
    (Emulator.start s ⟨pageToPhys 1⟩ 0x7f0000000000 codeGuest).run
      [.exit .fetch ⟨svmExitNpf, 0, 0x1234, codeGuest⟩ (fun _ _ => some 6)] = .ok e ∧
    (∃ f, hwTranslate e.phys.mem (pageToPhys 1) .write 0x1abc = .page f) ∧
    e.log.countP (Note.npfIn 1) ≤ 1 := by
  obtain ⟨s, e, hs, hr, hlog⟩ : ∃ s e, createVmm countingAsk emptyPhys = .ok (.ok (0, ⟨pageToPhys 1⟩), s) ∧
      (Emulator.start s ⟨pageToPhys 1⟩ 0x7f0000000000 codeGuest).run
        [.exit .fetch ⟨svmExitNpf, 0, 0x1234, codeGuest⟩ (fun _ _ => some 6)] = .ok e ∧
      e.log = [.served 0x1000, .npf 0x1234] := ⟨_, _, rfl, rfl, rfl⟩
  obtain ⟨hwalk, honce, -⟩ := npf_progress hs hr
  exact ⟨s, e, hs, hr, hwalk 0x1000 (by rw [hlog]; simp) .write 0x1abc (by decide), honce 1 (by decide)⟩

end Yakvm
