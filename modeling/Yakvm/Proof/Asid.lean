import Yakvm.Proof.Unwind
import Yakvm.Spec.Asid

/-!
# Address space identifiers run out

* `createVcpu_granted`, `createVcpu_denied`: a call of `yakvm_create_vcpu` whose allocations
  succeed draws an ASID, or fails the assertion; another call leaves the counter alone.
* `World.step_asid`: the counter moves with the requests that draw, and only with them.
* `World.runs_iff`: a run of requests meets no failing assertion exactly when it draws fewer
  ASIDs than there are.
-/

namespace Yakvm

variable {nasid : BitVec 32} {w w' : World} {k k' : Kernel} {vm c : ℕ} {a : VcpuAsk}

/-! ## Drawing -/

/-- The next value of a counter that does not wrap. -/
theorem toNat_next {n : BitVec 32} (h : n.toNat + 1 < 2 ^ 32) : (n + 1).toNat = n.toNat + 1 := by
  rw [BitVec.toNat_add]
  exact Nat.mod_eq_of_lt h

/-- When an allocation fails, `yakvm_create_vcpu` draws no ASID. -/
theorem createVcpu_denied (nasid : BitVec 32) (vm : ℕ) (hd : a.granted k.phys = false) :
    ∃ k', createVcpu nasid a vm k = .ok (.error .ENOMEM, k') ∧ k'.asid = k.asid := by
  rcases createVcpu_cases nasid a vm k with ⟨-, s, -, he⟩ | ⟨hg, -⟩
  · exact ⟨_, he, rfl⟩
  · rw [hd] at hg
    simp at hg

/-- When all allocations succeed, `yakvm_vcpu_init_vmcb` is called. -/
theorem createVcpu_inits {v : Vm} {m : Vmm} (nasid : BitVec 32) (hv : k.vms vm = some v) (hm : k.vmms v.vmm = some m)
    (hg : a.granted k.phys = true) : ∃ vc s, createVcpu nasid a vm k = (do
      let (asid, s) ← vcpuInitVmcb nasid vc m.ncr3 k.asid s
      .ok (.ok k.phys.next,
        { k with phys := s, vcpus := Function.update k.vcpus k.phys.next (some vc), asid := asid })) := by
  rcases createVcpu_cases nasid a vm k with ⟨hd, -⟩ | ⟨-, vc, s, -, -, he⟩
  · rw [hg] at hd
    simp at hd
  · refine ⟨vc, s, ?_⟩
    simp only [he, deref_some hv, deref_some hm, bind, Except.bind]

/-- **Drawing an ASID.** The counter is one further, and the new vcpu's control block holds it. -/
theorem createVcpu_granted {v : Vm} (hk : KernelOK k) (hv : k.vms vm = some v) (hg : a.granted k.phys = true)
    (hlt : k.asid + 1 < nasid) : ∃ c vc k', createVcpu nasid a vm k = .ok (.ok c, k') ∧ k'.asid = k.asid + 1 ∧
      k'.vcpus c = some vc ∧ (k'.phys.mem vc.gvmcb controlAsid).setWidth 32 = k.asid + 1 := by
  obtain ⟨m, hm, -⟩ := hk.vmm hv
  obtain ⟨vc, s, he⟩ := createVcpu_inits nasid hv hm hg
  obtain ⟨s', hs, hstored⟩ := (vcpuInitVmcb_asid nasid vc m.ncr3 k.asid s).1 hlt
  rw [hs] at he
  exact ⟨_, vc, _, he, rfl, Function.update_self .., hstored⟩

theorem createVcpu_panics {v : Vm} (hk : KernelOK k) (hv : k.vms vm = some v) (hg : a.granted k.phys = true)
    (hlt : ¬ k.asid + 1 < nasid) : createVcpu nasid a vm k = .error .panic := by
  obtain ⟨m, hm, -⟩ := hk.vmm hv
  obtain ⟨vc, s, he⟩ := createVcpu_inits nasid hv hm hg
  rw [he, (vcpuInitVmcb_asid nasid vc m.ncr3 k.asid s).2 hlt]
  rfl

/-! ## The rest of the driver leaves the counter alone -/

theorem destroyVcpu_asid (h : destroyVcpu c k = .ok k') : k'.asid = k.asid := by
  obtain ⟨vc, -, h⟩ := bind_eq_ok.1 h
  obtain ⟨s, -, h⟩ := bind_eq_ok.1 h
  obtain ⟨s', -, h⟩ := bind_eq_ok.1 h
  rw [← Except.ok.inj h]

theorem destroyVcpuOf_asid {d : Option ℕ} (h : destroyVcpuOf d k = .ok k') : k'.asid = k.asid := by
  cases d with
  | none => rw [← Except.ok.inj h]
  | some c => exact destroyVcpu_asid h

theorem destroyVm_asid (h : destroyVm vm k = .ok k') : k'.asid = k.asid := by
  obtain ⟨v, -, h⟩ := bind_eq_ok.1 h
  obtain ⟨m, -, h⟩ := bind_eq_ok.1 h
  obtain ⟨s, -, h⟩ := bind_eq_ok.1 h
  obtain ⟨k₁, hd, h⟩ := bind_eq_ok.1 h
  obtain ⟨s', -, h⟩ := bind_eq_ok.1 h
  have hasid := destroyVcpuOf_asid hd
  rw [← Except.ok.inj h]
  exact hasid

theorem createVm_asid {a : VmAsk} {r : Except Errno ℕ} (h : createVm a k = .ok (r, k')) : k'.asid = k.asid := by
  unfold createVm at h
  split at h
  · rw [← (Prod.mk.inj (Except.ok.inj h)).2]
  · obtain ⟨⟨vmm, s⟩, -, h⟩ := bind_eq_ok.1 h
    cases vmm with
    | error r =>
      obtain ⟨s', -, h⟩ := bind_eq_ok.1 h
      rw [← (Prod.mk.inj (Except.ok.inj h)).2]
    | ok o => rw [← (Prod.mk.inj (Except.ok.inj h)).2]

theorem getVm_asid (h : getVm vm k = .ok k') : k'.asid = k.asid := by
  obtain ⟨v, -, h⟩ := bind_eq_ok.1 h
  rw [← Except.ok.inj h]

theorem setVcpu_asid {d : Option ℕ} (h : setVcpu vm d k = .ok k') : k'.asid = k.asid := by
  obtain ⟨v, -, h⟩ := bind_eq_ok.1 h
  rw [← Except.ok.inj h]

theorem putVm_asid (h : putVm vm k = .ok k') : k'.asid = k.asid := by
  obtain ⟨v, -, h⟩ := bind_eq_ok.1 h
  split at h
  · rw [destroyVm_asid h]
  · rw [← Except.ok.inj h]

/-- After `yakvm_create_vcpu`, `YAKVM_CREATE_VCPU` leaves the counter alone on all its paths. -/
theorem vmIoctlCreateVcpu_asid {fd : Except Errno ℕ} {r : ℤ × Option ℕ}
    (h : vmIoctlCreateVcpu nasid vm a fd k = .ok (r, k')) :
    ∃ x k₁, createVcpu nasid a vm k = .ok (x, k₁) ∧ k'.asid = k₁.asid := by
  obtain ⟨⟨x, k₁⟩, hc, h⟩ := bind_eq_ok.1 h
  refine ⟨x, k₁, hc, ?_⟩
  obtain ⟨v, -, h⟩ := bind_eq_ok.1 h
  cases x with
  | error e => rw [← (Prod.mk.inj (Except.ok.inj h)).2]
  | ok c =>
    simp only at h
    split at h
    · -- refused with `EEXIST`
      obtain ⟨k₂, hd, h⟩ := bind_eq_ok.1 h
      rw [← (Prod.mk.inj (Except.ok.inj h)).2, destroyVcpu_asid hd]
    · obtain ⟨k₂, hset, h⟩ := bind_eq_ok.1 h
      obtain ⟨k₃, hget, h⟩ := bind_eq_ok.1 h
      cases fd with
      | ok fd => rw [← (Prod.mk.inj (Except.ok.inj h)).2, getVm_asid hget, setVcpu_asid hset]
      | error e =>
        -- the undo path
        obtain ⟨k₄, hclear, h⟩ := bind_eq_ok.1 h
        obtain ⟨k₅, hput, h⟩ := bind_eq_ok.1 h
        obtain ⟨k₆, hd, h⟩ := bind_eq_ok.1 h
        rw [← (Prod.mk.inj (Except.ok.inj h)).2, destroyVcpu_asid hd, putVm_asid hput, setVcpu_asid hclear,
          getVm_asid hget, setVcpu_asid hset]

theorem devIoctlCreateVm_asid {a : VmAsk} {fd : Except Errno ℕ} {r : ℤ × Option ℕ}
    (h : devIoctlCreateVm a fd k = .ok (r, k')) : k'.asid = k.asid := by
  obtain ⟨⟨o, k₁⟩, hc, h⟩ := bind_eq_ok.1 h
  have hasid := createVm_asid hc
  cases o with
  | error e => rw [← (Prod.mk.inj (Except.ok.inj h)).2, hasid]
  | ok o =>
    cases fd with
    | ok fd => rw [← (Prod.mk.inj (Except.ok.inj h)).2, hasid]
    | error e =>
      obtain ⟨k₂, hd, h⟩ := bind_eq_ok.1 h
      rw [← (Prod.mk.inj (Except.ok.inj h)).2, destroyVm_asid hd, hasid]

/-! ## Runs of requests -/

variable {x : Sys}

/-- The counter after a request. -/
def World.drawn (w : World) (op : Op) : BitVec 32 := if w.initialises op then w.k.asid + 1 else w.k.asid

theorem World.initialises_closed {fd : Except Errno ℕ} (ho : vm ∉ w.vmFiles) :
    w.initialises (.createVcpu vm a fd) = false := by
  simp [World.initialises, ho]

theorem World.initialises_open {fd : Except Errno ℕ} (ho : vm ∈ w.vmFiles) :
    w.initialises (.createVcpu vm a fd) = a.granted w.k.phys := by
  simp [World.initialises, ho]

/-- The vm of an open file is live. -/
theorem Quiet.live (h : SysOK x) (hq : Quiet x w) (ho : vm ∈ w.vmFiles) : KernelOK w.k ∧ ∃ v, w.k.vms vm = some v := by
  obtain ⟨v, hv⟩ := h.files vm (Or.inl (by rw [hq.vmFiles]; exact ho))
  exact ⟨hq.k ▸ h.kernel, v, by rw [← hq.k]; exact hv⟩

/-- A request that does not call `yakvm_vcpu_init_vmcb`. -/
theorem World.drawn_same {op : Op} (hno : w.initialises op = false) (hsame : w'.k.asid = w.k.asid) :
    w'.k.asid = w.drawn op ∧ (w.initialises op = true → w.k.asid + 1 < nasid) := by
  unfold World.drawn
  simp [hno, hsame]

/-- **One request.** It draws the next ASID if it calls `yakvm_vcpu_init_vmcb`, and none
otherwise. -/
theorem World.step_asid (h : SysOK x) (hq : Quiet x w) {op : Op} (hs : w.step nasid op = .ok w') :
    w'.k.asid = w.drawn op ∧ (w.initialises op = true → w.k.asid + 1 < nasid) := by
  cases op with
  | createVm a fd =>
    obtain ⟨⟨⟨r, vm⟩, k'⟩, hc, hs⟩ := bind_eq_ok.1 hs
    rw [← Except.ok.inj hs]
    exact World.drawn_same rfl (devIoctlCreateVm_asid hc)
  | createVcpu vm a fd =>
    by_cases ho : vm ∈ w.vmFiles
    · obtain ⟨hk, v, hv⟩ := hq.live h ho
      simp only [World.step, if_pos ho] at hs
      obtain ⟨⟨⟨r, d⟩, k'⟩, hc, hs⟩ := bind_eq_ok.1 hs
      obtain ⟨z, k₁, hc, hasid⟩ := vmIoctlCreateVcpu_asid hc
      rw [← Except.ok.inj hs]
      unfold World.drawn
      simp only [World.initialises_open ho, hasid]
      cases hg : a.granted w.k.phys with
      | false =>
        obtain ⟨k₂, hd, hsame⟩ := createVcpu_denied nasid vm hg
        rw [hd] at hc
        rw [← (Prod.mk.inj (Except.ok.inj hc)).2, hsame]
        simp
      | true =>
        by_cases hlt : w.k.asid + 1 < nasid
        · obtain ⟨c, vc, k₂, hd, hnext, -⟩ := createVcpu_granted hk hv hg hlt
          rw [hd] at hc
          rw [← (Prod.mk.inj (Except.ok.inj hc)).2, hnext]
          exact ⟨rfl, fun _ => hlt⟩
        · rw [createVcpu_panics hk hv hg hlt] at hc
          simp at hc
    · simp only [World.step, if_neg ho] at hs
      rw [← Except.ok.inj hs]
      exact World.drawn_same (World.initialises_closed ho) rfl
  | mmapPage vm gpa ask =>
    simp only [World.step] at hs
    split at hs
    · obtain ⟨v, -, hs⟩ := bind_eq_ok.1 hs
      obtain ⟨m, -, hs⟩ := bind_eq_ok.1 hs
      obtain ⟨⟨r, s⟩, -, hs⟩ := bind_eq_ok.1 hs
      rw [← Except.ok.inj hs]
      exact World.drawn_same rfl rfl
    · rw [← Except.ok.inj hs]
      exact World.drawn_same rfl rfl
  | fault vm address vmStart ask =>
    simp only [World.step] at hs
    split at hs
    · obtain ⟨v, -, hs⟩ := bind_eq_ok.1 hs
      obtain ⟨m, -, hs⟩ := bind_eq_ok.1 hs
      obtain ⟨⟨r, s⟩, -, hs⟩ := bind_eq_ok.1 hs
      rw [← Except.ok.inj hs]
      exact World.drawn_same rfl rfl
    · rw [← Except.ok.inj hs]
      exact World.drawn_same rfl rfl
  | closeVm vm =>
    simp only [World.step] at hs
    split at hs
    · obtain ⟨k', hp, hs⟩ := bind_eq_ok.1 hs
      rw [← Except.ok.inj hs]
      exact World.drawn_same rfl (putVm_asid hp)
    · rw [← Except.ok.inj hs]
      exact World.drawn_same rfl rfl
  | closeVcpu vcpu =>
    simp only [World.step] at hs
    split at hs
    · obtain ⟨k', hr, hs⟩ := bind_eq_ok.1 hs
      obtain ⟨vc, -, hp⟩ := bind_eq_ok.1 hr
      rw [← Except.ok.inj hs]
      exact World.drawn_same rfl (putVm_asid hp)
    · rw [← Except.ok.inj hs]
      exact World.drawn_same rfl rfl

/-- A request of the lifecycle returns, unless it draws an ASID and there is none left. -/
theorem World.step_lifecycle (h : SysOK x) (hq : Quiet x w) {op : Op} (hop : op.Lifecycle) :
    (w.step nasid op = .error .panic ∧ w.initialises op = true ∧ ¬ w.k.asid + 1 < nasid) ∨
      Returns nasid x (w.step nasid op) := by
  have hnop : Returns nasid x (.ok w) := ⟨w, x, rfl, ⟨[], rfl⟩, hq⟩
  cases op with
  | createVm a fd => exact Or.inr (createVm_simulates h hq a fd)
  | createVcpu vm a fd =>
    by_cases ho : vm ∈ w.vmFiles
    · obtain ⟨hk, v, hv⟩ := hq.live h ho
      rcases (createVcpu_simulates h hq ho a fd : _ ∨ Returns nasid x _) with ⟨hc, hstep⟩ | hret
      · refine Or.inl ⟨hstep, ?_⟩
        rw [World.initialises_open ho]
        cases hg : a.granted w.k.phys with
        | false =>
          obtain ⟨k', hd, -⟩ := createVcpu_denied nasid vm hg
          rw [hd] at hc
          simp at hc
        | true =>
          refine ⟨rfl, fun hlt => ?_⟩
          obtain ⟨c, vc, k', hd, -⟩ := createVcpu_granted hk hv hg hlt
          rw [hd] at hc
          simp at hc
      · exact Or.inr hret
    · right
      simp only [World.step, if_neg ho]
      exact hnop
  | mmapPage vm gpa ask => exact hop.elim
  | fault vm address vmStart ask => exact hop.elim
  | closeVm vm =>
    right
    by_cases ho : vm ∈ w.vmFiles
    · exact closeVm_returns h hq ho
    · simp only [World.step, if_neg ho]
      exact hnop
  | closeVcpu vcpu =>
    right
    by_cases hc : vcpu ∈ w.vcpuFiles
    · exact closeVcpu_returns h hq hc
    · simp only [World.step, if_neg hc]
      exact hnop

/-- While ASIDs are left, the counter does not wrap. -/
theorem World.drawn_toNat {op : Op} (hasid : w.k.asid.toNat + 1 < 2 ^ 32)
    (hlt : w.initialises op = true → w.k.asid + 1 < nasid) :
    (w.drawn op).toNat = w.k.asid.toNat + (w.initialises op).toNat ∧ (w.drawn op).toNat + 1 < 2 ^ 32 ∧
      (w.initialises op = true → w.k.asid.toNat + 1 < nasid.toNat) := by
  have hnext := toNat_next hasid
  unfold World.drawn
  cases hin : w.initialises op with
  | false =>
    simp only [Bool.false_eq_true, if_false, Bool.toNat_false, false_implies, and_true]
    omega
  | true =>
    have hlt := BitVec.lt_def.1 (hlt hin)
    have := nasid.isLt
    simp only [if_true, Bool.toNat_true]
    omega

/-- **Runs of requests.** A run returns if it draws no ASID, or if all the ASIDs that it draws
are smaller than `NASID`. -/
theorem World.runs_iff (nasid : BitVec 32) (ops : List Op) : ∀ (x : Sys) (w : World), SysOK x → Quiet x w →
    w.k.asid.toNat + 1 < 2 ^ 32 → (∀ op ∈ ops, op.Lifecycle) →
    ((∃ w', w.run nasid ops = .ok w') ↔
      World.inits nasid ops w = 0 ∨ w.k.asid.toNat + World.inits nasid ops w < nasid.toNat) := by
  induction ops with
  | nil => intro x w _ _ _ _; exact ⟨fun _ => Or.inl rfl, fun _ => ⟨w, rfl⟩⟩
  | cons op ops ih =>
    intro x w h hq hasid hops
    unfold World.inits
    rw [World.run_cons]
    rcases (World.step_lifecycle h hq (hops op List.mem_cons_self) : _ ∨ Returns nasid x _) with
      ⟨he, hin, hlt⟩ | ⟨w₁, x₁, he, hl, hq₁⟩
    · -- the assertion fails
      rw [he, hin]
      rw [BitVec.lt_def, toNat_next hasid] at hlt
      constructor
      · rintro ⟨w', hw'⟩
        simp [bind, Except.bind] at hw'
      · simp only [Bool.toNat_true]
        omega
    · obtain ⟨hdrawn, hlt⟩ := World.step_asid h hq he
      obtain ⟨h1, h2, h3⟩ := World.drawn_toNat hasid hlt
      rw [← hdrawn] at h1 h2
      have hrest := ih x₁ w₁ (hl.ok h) hq₁ h2 fun op' hop' => hops op' (List.mem_cons_of_mem op hop')
      rw [he]
      refine Iff.trans hrest ?_
      simp only
      cases hin : w.initialises op with
      | false =>
        simp only [hin, Bool.toNat_false] at h1 ⊢
        omega
      | true =>
        have := h3 hin
        simp only [hin, Bool.toNat_true] at h1 ⊢
        omega

section Theorem

variable {mem : Frame → Slot → Word} {pages : Finset Frame} {ops : List Op}

/-- **ASIDs run out.** In a run of creations and closes, the assertion of
`yakvm_vcpu_init_vmcb` never fails exactly when the vcpus that are initialised since loading,
live or destroyed, are at most `NASID - 2`, or none. -/
theorem asids_suffice_iff (hops : ∀ op ∈ ops, op.Lifecycle) :
    (World.init mem pages).run nasid ops ≠ .error .panic ↔
      World.inits nasid ops (World.init mem pages) = 0 ∨
        World.inits nasid ops (World.init mem pages) + 1 < nasid.toNat := by
  have hinit := SysOK.init mem pages
  have hq : Quiet (Sys.init mem pages) (World.init mem pages) := ⟨rfl, rfl, rfl, rfl, by simp [Sys.init]⟩
  have hasid : (World.init mem pages).k.asid.toNat = 1 := rfl
  have hruns := World.runs_iff nasid ops _ _ hinit hq (by rw [hasid]; omega) hops
  rw [hasid, Nat.add_comm 1] at hruns
  rw [← hruns]
  constructor
  · intro hne
    rcases (World.run_simulates ops _ _ hinit hq : Simulates nasid _ _) with he | ⟨w', x', he, -⟩
    · exact absurd he hne
    · exact ⟨w', he⟩
  · rintro ⟨w', he⟩
    rw [he]
    simp

/-- A vm is created and given a vcpu. -/
theorem asids_suffice_first :
    World.inits 16 [.createVm ⟨some 0x1000, countingAsk⟩ (.ok 3), .createVcpu 0 vcpuAsk (.ok 4)]
      (World.init (fun _ _ => 0) ∅) + 1 < 16 := by
  obtain ⟨w₀, w, v, c, hw₀, -, hw, -⟩ := firstVcpu 16 (by decide)
  have hrun : (World.init (fun _ _ => 0) ∅).run 16
      [.createVm ⟨some 0x1000, countingAsk⟩ (.ok 3), .createVcpu 0 vcpuAsk (.ok 4)] = .ok w := by
    rw [World.run_step hw₀, World.run_step hw]
    rfl
  have hne : (World.init (fun _ _ => 0) ∅).run 16
      [.createVm ⟨some 0x1000, countingAsk⟩ (.ok 3), .createVcpu 0 vcpuAsk (.ok 4)] ≠ .error .panic := by
    rw [hrun]
    simp
  have hn : (16 : BitVec 32).toNat = 16 := by decide
  rcases (asids_suffice_iff (by simp [Op.Lifecycle])).1 hne with h | h
  · rw [h]
    omega
  · rwa [hn] at h

end Theorem

/-! ## A vm that is refused its vcpu again and again -/

/-- `YAKVM_CREATE_VCPU` on a vm without a vcpu, when the file is not installed: the new vcpu is
destroyed again. -/
theorem createVcpu_undone {v : Vm} {e : Errno} (h : SysOK x) (hq : Quiet x w) (ho : vm ∈ w.vmFiles)
    (hv : w.k.vms vm = some v) (hnone : v.vcpu = none) (hc : createVcpu nasid a vm w.k = .ok (.ok c, k')) :
    ∃ w', w.step nasid (.createVcpu vm a (.error e)) = .ok w' ∧ w'.vmFiles = w.vmFiles ∧ Restored w.k w'.k := by
  have hk : KernelOK w.k := hq.k ▸ h.kernel
  have hpos := (h.count vm v (by rw [hq.k]; exact hv)).2
  obtain ⟨vc, hmade⟩ := createVcpu_made hc
  have hv' : k'.vms vm = some v := by rw [hmade.vms, hv]
  obtain ⟨k₁, k₂, k₃, hset, hget, hclear, hput⟩ := publish_undone hv' hnone (by omega) c
  obtain ⟨k₄, hdestroy, hrest⟩ := hmade.destroy hk hmade.vms rfl rfl rfl
  simp only [World.step, if_pos ho, vmIoctlCreateVcpu, hc, deref_some hv', hnone, Option.isSome_none, Bool.false_eq_true,
    if_false, hset, hget, hclear, hput, hdestroy, bind, Except.bind]
  exact ⟨_, rfl, rfl, hrest⟩

/-- Between the requests on the vm 0: it has no vcpu, no vcpu is live, and the pages that
`vcpuAsk` names are free. -/
structure Spare (w : World) (asid : ℕ) : Prop where
  file : 0 ∈ w.vmFiles
  vm : ∃ v m, w.k.vms 0 = some v ∧ v.vcpu = none ∧ w.k.vmms v.vmm = some m
  dead : ∀ c, w.k.vcpus c = none
  pages : w.k.phys.pages ⊆ {1, 2, 3, 4, 5}
  asid : w.k.asid.toNat = asid

/-- The creation of the vm. -/
def spareVm : Op := .createVm ⟨some 0x1000, countingAsk⟩ (.ok 3)

/-- A request whose file cannot be installed. -/
def spareVcpu : Op := .createVcpu 0 vcpuAsk (.error .EMFILE)

theorem Spare.live {n : ℕ} (h : Spare w n) : w.live = 0 := by
  unfold World.live
  rw [List.countP_eq_zero]
  intro c _
  rw [h.dead c]
  simp

theorem Spare.free {n : ℕ} (h : Spare w n) :
    ∀ f ∈ ([7, 8, 9, 10, 12, 13, 14, 15] : List Frame), f ∉ w.k.phys.pages := by
  intro f hf hin
  have hsmall := h.pages hin
  simp only [List.mem_cons, List.not_mem_nil, or_false] at hf
  rcases hf with rfl | rfl | rfl | rfl | rfl | rfl | rfl | rfl <;> simp at hsmall

theorem Spare.init (nasid : BitVec 32) : ∃ w, (World.init (fun _ _ => 0) ∅).step nasid spareVm = .ok w ∧ Spare w 1 := by
  obtain ⟨w, v, m, hw, hv, hnone, hm, hfiles, -, hasid, hpages, hdead, -⟩ := firstVm nasid
  exact ⟨w, hw, by rw [hfiles]; simp, ⟨v, m, hv, hnone, hm⟩, hdead, hpages.le, by rw [hasid]; rfl⟩

/-- Every allocation of the next request succeeds. -/
theorem Spare.granted {n : ℕ} (h : Spare w n) : vcpuAsk.granted w.k.phys = true := by
  obtain ⟨v, m, hv, -, hm⟩ := h.vm
  have hroom : (1 : BitVec 32) + 1 < 16 := by decide
  obtain ⟨k', hc, -⟩ := createVcpu_returns (k := { w.k with asid := 1 }) hv hm h.free hroom
  cases hg : vcpuAsk.granted w.k.phys with
  | true => rfl
  | false =>
    obtain ⟨k₁, hd, -⟩ := createVcpu_denied (k := { w.k with asid := 1 }) 16 0 hg
    rw [hc] at hd
    simp at hd

/-- One more request. -/
theorem Spare.next {n : ℕ} (nasid : BitVec 32) (h : SysOK x) (hq : Quiet x w) (hs : Spare w n) (hlt : n + 1 < nasid.toNat) :
    ∃ w', w.step nasid spareVcpu = .ok w' ∧ Spare w' (n + 1) := by
  obtain ⟨v, m, hv, hnone, hm⟩ := hs.vm
  have hnext : (w.k.asid + 1).toNat = n + 1 := by
    have := nasid.isLt
    rw [toNat_next (by rw [hs.asid]; omega), hs.asid]
  have hasid : w.k.asid + 1 < nasid := by rw [BitVec.lt_def, hnext]; exact hlt
  obtain ⟨k', hc, -⟩ := createVcpu_returns hv hm hs.free hasid
  obtain ⟨w', hw, hfiles, hrest⟩ := createVcpu_undone (e := .EMFILE) h hq hs.file hv hnone hc
  refine ⟨w', hw, by rw [hfiles]; exact hs.file, ⟨v, m, by rw [hrest.vms]; exact hv, hnone, by rw [hrest.vmms]; exact hm⟩,
    ?_, ?_, ?_⟩
  · rw [hrest.vcpus]
    exact hs.dead
  · rw [hrest.pages]
    exact hs.pages
  · obtain ⟨hdrawn, -⟩ := World.step_asid h hq hw
    have hasked : w.initialises (.createVcpu 0 vcpuAsk (.error .EMFILE)) = true := by
      rw [World.initialises_open hs.file]
      exact hs.granted
    rw [hdrawn, World.drawn, if_pos hasked, hnext]

/-- As many requests as there are ASIDs. -/
theorem Spare.run (nasid : BitVec 32) (n : ℕ) (hlt : n + 1 < nasid.toNat ∨ n = 0) :
    ∃ w, (World.init (fun _ _ => 0) ∅).run nasid (spareVm :: List.replicate n spareVcpu) = .ok w ∧ Spare w (n + 1) := by
  induction n with
  | zero =>
    obtain ⟨w, hw, hs⟩ := Spare.init nasid
    exact ⟨w, World.run_step hw [], hs⟩
  | succ n ih =>
    obtain ⟨w, hw, hs⟩ := ih (by omega)
    obtain ⟨x, hx, hq⟩ := World.run_ok hw
    obtain ⟨w', hw', hs'⟩ := hs.next nasid hx hq (by omega)
    refine ⟨w', ?_, hs'⟩
    rw [List.replicate_succ', ← List.cons_append, World.run_after hw]
    exact World.run_step hw' []

/-- **A vm whose vcpu is never kept uses up all ASIDs.** With 4 of them, the third request
panics, and no vcpu was live between the requests. -/
theorem asids_exhausted :
    (∀ op ∈ spareVm :: List.replicate 3 spareVcpu, op.Lifecycle) ∧
    (∀ pre w, pre <+: spareVm :: List.replicate 3 spareVcpu → (World.init (fun _ _ => 0) ∅).run 4 pre = .ok w →
      w.live + 1 < 4 - 2) ∧
    (World.init (fun _ _ => 0) ∅).run 4 (spareVm :: List.replicate 3 spareVcpu) = .error .panic := by
  have hn : (4 : BitVec 32).toNat = 4 := by decide
  -- two requests draw 2 and 3, the third one draws 4
  have hpanic : (World.init (fun _ _ => 0) ∅).run 4 (spareVm :: List.replicate 3 spareVcpu) = .error .panic := by
    obtain ⟨w, hw, hs⟩ := Spare.run 4 2 (by omega)
    obtain ⟨x, hx, hq⟩ := World.run_ok hw
    obtain ⟨hk, v, hv⟩ := hq.live hx hs.file
    have hlast : ¬ w.k.asid + 1 < (4 : BitVec 32) := by
      rw [BitVec.lt_def, toNat_next (by rw [hs.asid]; omega), hs.asid]
      omega
    have hc := createVcpu_panics hk hv hs.granted hlast
    rw [List.replicate_succ', ← List.cons_append, World.run_after hw, World.run_cons]
    simp only [spareVcpu, World.step, if_pos hs.file, vmIoctlCreateVcpu, hc, bind, Except.bind]
  refine ⟨?_, ?_, hpanic⟩
  · intro op hop
    rcases List.mem_cons.1 hop with rfl | hop
    · trivial
    · rw [List.eq_of_mem_replicate hop]
      trivial
  · intro pre w hpre hrun
    have hlive : w.live = 0 := by
      rcases List.prefix_cons_iff.1 hpre with rfl | ⟨t, rfl, ht⟩
      · rw [← Except.ok.inj hrun]
        rfl
      · obtain ⟨hlen, ht⟩ := List.prefix_replicate_iff.1 ht
        rw [ht] at hrun
        rcases Nat.lt_or_ge t.length 3 with hlt | hge
        · obtain ⟨w', hw', hs⟩ := Spare.run 4 t.length (by omega)
          rw [hw'] at hrun
          rw [← Except.ok.inj hrun]
          exact hs.live
        · rw [show t.length = 3 by omega, hpanic] at hrun
          simp at hrun
    omega

end Yakvm
