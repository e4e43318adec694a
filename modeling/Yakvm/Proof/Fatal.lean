import Yakvm.Proof.Asid
import Yakvm.Proof.Requests
import Yakvm.Runs.Fold

/-!
# What brings down the host

A run of the driver with requests in flight either goes through or fails an assertion; it never frees a page twice and never
reads an object that is gone. Two assertions can fail: that of the walk of the nested page table, on the page of
`YAKVM_MMIO_HAWK`, and that of `yakvm_vcpu_init_vmcb`, on the ASID.

* `Sys.Fatal`: the steps that fail one of them, by the state before the step.
* `Sys.step_error_iff`: a step fails exactly when it is one of these.
* `host_falls_iff`: a run fails exactly when one of its steps is fatal in the state reached before it.
-/

namespace Yakvm

variable {nasid : BitVec 32} {x : Sys} {r : Req} {e : Crash}

/-- The steps that bring down the host: a request for the hidden page of an open vm, and a creation of a vcpu that gets all
its memory when no ASID is left. -/
def Sys.Fatal (nasid : BitVec 32) (x : Sys) : Act → Prop
  | .mmapPage vm gpa _ => vm ∈ x.vmFiles ∧ key gpa = key mmioHawk
  | .fault vm address vmStart _ => vm ∈ x.vmFiles ∧ key (address - vmStart) = key mmioHawk
  | .advance i a _ => ∃ vm, x.reqs[i]? = some ⟨vm, .start⟩ ∧ a.granted x.k.phys = true ∧ ¬ x.k.asid + 1 < nasid
  | _ => False

/-- Past the creation of its vcpu, a request goes through. -/
theorem Req.advance_goes (h : SysOK x) {i : ℕ} (hi : x.reqs[i]? = some r) (hr : r.stage ≠ .start) (nasid : BitVec 32)
    (a : VcpuAsk) (fd : Bool) : ∃ y, r.advance nasid a fd x = .ok y := by
  by_cases hfin : r.stage = .finished
  · exact ⟨_, by simp only [Req.advance, hfin]; rfl⟩
  obtain ⟨v, hv⟩ := h.reqVm hi hfin
  cases hst : r.stage with
  | start => exact absurd hst hr
  | allocated c =>
    simp only [Req.advance, hst, setVcpu, deref_some hv, bind, Except.bind]
    split_ifs
    · exact ⟨_, rfl⟩
    · exact ⟨_, rfl⟩
  | published c => exact ⟨_, by simp only [Req.advance, hst, getVm, deref_some hv, bind, Except.bind]; rfl⟩
  | got c =>
    simp only [Req.advance, hst]
    split_ifs
    · exact ⟨_, rfl⟩
    · exact ⟨_, rfl⟩
  | failed c => exact ⟨_, by simp only [Req.advance, hst, setVcpu, deref_some hv, bind, Except.bind]; rfl⟩
  | cleared c =>
    -- the request holds a reference of its own, beside the file's
    obtain ⟨hput, -⟩ := putVm_shared hv (h.shared hi (by rw [hst]; rfl) hv)
    exact ⟨_, by simp only [Req.advance, hst, Sys.put, hput, bind, Except.bind]; rfl⟩
  | put c =>
    obtain ⟨stage, x₁, hd, -⟩ : ∃ stage x₁, r.advance nasid a fd x = .ok (stage, x₁) ∧ _ := h.discard hi hv (Or.inl hst)
    exact ⟨_, hd⟩
  | refused c =>
    obtain ⟨stage, x₁, hd, -⟩ : ∃ stage x₁, r.advance nasid a fd x = .ok (stage, x₁) ∧ _ := h.discard hi hv (Or.inr hst)
    exact ⟨_, hd⟩
  | finished => exact absurd hst hfin

/-- The creation of a vcpu fails an assertion when it gets its memory and no ASID is left. -/
theorem createVcpu_error_iff {k : Kernel} {vm : ℕ} {v : Vm} (hk : KernelOK k) (hv : k.vms vm = some v) (nasid : BitVec 32)
    (a : VcpuAsk) (e : Crash) :
    createVcpu nasid a vm k = .error e ↔ e = .panic ∧ a.granted k.phys = true ∧ ¬ k.asid + 1 < nasid := by
  by_cases hg : a.granted k.phys = true
  · by_cases hlt : k.asid + 1 < nasid
    · obtain ⟨c, vc, k', hc, -⟩ := createVcpu_granted hk hv hg hlt
      rw [hc]
      exact ⟨fun h => (by cases h), fun h => absurd hlt h.2.2⟩
    · rw [createVcpu_panics hk hv hg hlt, Except.error.injEq]
      exact ⟨fun h => ⟨h.symm, hg, hlt⟩, fun h => h.1.symm⟩
  · obtain ⟨k', hc, -⟩ := createVcpu_denied nasid vm (Bool.not_eq_true _ ▸ hg)
    simp [hc, hg]

/-- A step of a request fails only at the creation of its vcpu. -/
theorem Req.advance_error_iff (h : SysOK x) {i : ℕ} (hi : x.reqs[i]? = some r) (nasid : BitVec 32) (a : VcpuAsk) (fd : Bool)
    (e : Crash) :
    r.advance nasid a fd x = .error e ↔
      e = .panic ∧ r.stage = .start ∧ a.granted x.k.phys = true ∧ ¬ x.k.asid + 1 < nasid := by
  by_cases hst : r.stage = .start
  · obtain ⟨v, hv⟩ := h.reqVm hi (by rw [hst]; simp)
    have hcreate := createVcpu_error_iff h.kernel hv nasid a e
    simp only [hst, true_and, ← hcreate, Req.advance]
    cases createVcpu nasid a r.vm x.k with
    | error e' => simp [bind, Except.bind]
    | ok y => obtain ⟨_ | _, k'⟩ := y <;> simp [bind, Except.bind]
  · obtain ⟨y, hy⟩ := r.advance_goes h hi hst nasid a fd
    simp [hy, hst]

/-- A request for a page fails exactly on the hidden page. -/
theorem Request.serve_error_iff {s : Phys} {vmm : Vmm} (hs : NptOK s (vmmPhysToVirt vmm.ncr3) (some (path mmioHawk)))
    (r : Request) : r.serve vmm s = .error e ↔ e = .panic ∧ key r.gpa = key mmioHawk := by
  rcases r.serve_spec hs with ⟨hk, s', hr, -⟩ | ⟨hk, hr⟩
  · simp [hr, hk]
  · rw [hr, Except.error.injEq]
    exact ⟨fun h => ⟨h.symm, hk⟩, fun h => h.1.symm⟩

/-- **One step.** -/
theorem Sys.step_error_iff (h : SysOK x) (act : Act) : x.step nasid act = .error e ↔ e = .panic ∧ x.Fatal nasid act := by
  cases act with
  | createVm a =>
    obtain ⟨y, hy⟩ : ∃ y, x.step nasid (.createVm a) = .ok y := by
      rcases createVm_spec h.kernel a with ⟨v, k', he, -⟩ | ⟨k', he, -⟩
      · exact ⟨_, by simp only [Sys.step, he, bind, Except.bind]; rfl⟩
      · exact ⟨_, by simp only [Sys.step, he, bind, Except.bind]; rfl⟩
    simp [hy, Sys.Fatal]
  | openVm vm fd =>
    obtain ⟨y, hy⟩ : ∃ y, x.step nasid (.openVm vm fd) = .ok y := by
      by_cases ho : vm ∈ x.opening
      · obtain ⟨k', hd, -⟩ := h.abandon ho
        cases fd
        · exact ⟨_, by simp only [Sys.step, if_pos ho, Bool.false_eq_true, if_false, hd, bind, Except.bind]; rfl⟩
        · exact ⟨_, by simp only [Sys.step, if_pos ho, if_true]; rfl⟩
      · exact ⟨x, by simp only [Sys.step, if_neg ho]⟩
    simp [hy, Sys.Fatal]
  | request vm =>
    simp only [Sys.step, Sys.Fatal]
    split_ifs <;> simp
  | advance i a fd =>
    simp only [Sys.step, Sys.Fatal]
    cases hi : x.reqs[i]? with
    | none => simp
    | some r =>
      have hadv := r.advance_error_iff h hi nasid a fd e
      obtain ⟨vm, stage⟩ := r
      simp only [Option.some.injEq, Req.mk.injEq] at hadv ⊢
      have hsplit : (∃ o, (vm = o ∧ stage = .start) ∧ a.granted x.k.phys = true ∧ ¬ x.k.asid + 1 < nasid) ↔
          stage = .start ∧ a.granted x.k.phys = true ∧ ¬ x.k.asid + 1 < nasid := by
        simp
      rw [hsplit, ← hadv]
      cases Req.advance nasid a fd ⟨vm, stage⟩ x with
      | error e' => simp [bind, Except.bind]
      | ok y => simp [bind, Except.bind]
  | closeVm vm =>
    obtain ⟨y, hy⟩ : ∃ y, x.step nasid (.closeVm vm) = .ok y := by
      by_cases ho : vm ∈ x.vmFiles ∧ ∀ r ∈ x.reqs, r.vm = vm → r.stage = .finished
      · obtain ⟨k', hp, -⟩ := h.closeVm ho.1 ho.2
        exact ⟨_, by simp only [Sys.step, if_pos ho, Sys.put, hp, bind, Except.bind]; rfl⟩
      · exact ⟨x, by simp only [Sys.step, if_neg ho]⟩
    simp [hy, Sys.Fatal]
  | closeVcpu vcpu =>
    obtain ⟨y, hy⟩ : ∃ y, x.step nasid (.closeVcpu vcpu) = .ok y := by
      by_cases hc : vcpu ∈ x.vcpuFiles
      · obtain ⟨vc, -, hvc, -⟩ := h.vcpuFile vcpu hc
        obtain ⟨k', hp, -⟩ := h.closeVcpu hc hvc
        exact ⟨_, by simp only [Sys.step, if_pos hc, deref_some hvc, Sys.put, hp, bind, Except.bind]; rfl⟩
      · exact ⟨x, by simp only [Sys.step, if_neg hc]⟩
    simp [hy, Sys.Fatal]
  | mmapPage vm gpa ask =>
    simp only [Sys.step, Sys.Fatal]
    split_ifs with ho
    · obtain ⟨v, hv⟩ := h.files vm (Or.inl ho)
      obtain ⟨m, hm, hok, -⟩ := h.kernel.vmm hv
      have hserve := Request.serve_error_iff (e := e) hok (.mmapPage gpa ask)
      simp only [Request.serve, Request.gpa] at hserve
      simp only [ho, true_and, ← hserve, deref_some hv, deref_some hm, bind, Except.bind]
      cases vmIoctlMmapPage m gpa ask x.k.phys with
      | error e' => simp
      | ok y => simp
    · simp [ho]
  | fault vm address vmStart ask =>
    simp only [Sys.step, Sys.Fatal]
    split_ifs with ho
    · obtain ⟨v, hv⟩ := h.files vm (Or.inl ho)
      obtain ⟨m, hm, hok, -⟩ := h.kernel.vmm hv
      have hserve := Request.serve_error_iff (e := e) hok (.fault address vmStart ask)
      simp only [Request.serve, Request.gpa] at hserve
      simp only [ho, true_and, ← hserve, deref_some hv, deref_some hm, bind, Except.bind]
      cases vmVmmFault m address vmStart ask x.k.phys with
      | error e' => simp
      | ok y => simp
    · simp [ho]

/-- **What brings down the host.** A run of the driver fails if and only if one of its steps is a request for the hidden page
of an open vm, or the creation of a vcpu that gets all its memory when no ASID is left; and then it fails an assertion. -/
theorem host_falls_iff (nasid : BitVec 32) (mem : Frame → Slot → Word) (pages : Finset Frame) (acts : List Act) (e : Crash) :
    (Sys.init mem pages).run nasid acts = .error e ↔ e = .panic ∧ ∃ before act after x, acts = before ++ act :: after ∧
      (Sys.init mem pages).run nasid before = .ok x ∧ x.Fatal nasid act := by
  unfold Sys.run
  rw [Runs.foldlM_error_iff]
  constructor
  · rintro ⟨before, act, after, x, hacts, hrun, hfail⟩
    have hx : SysOK x := SysOK.of_run hrun
    obtain ⟨he, hfatal⟩ := (Sys.step_error_iff hx act).1 hfail
    exact ⟨he, before, act, after, x, hacts, hrun, hfatal⟩
  · rintro ⟨he, before, act, after, x, hacts, hrun, hfatal⟩
    have hx : SysOK x := SysOK.of_run hrun
    exact ⟨before, act, after, x, hacts, hrun, (Sys.step_error_iff hx act).2 ⟨he, hfatal⟩⟩

end Yakvm
