import Yakvm.Proof.Unwind

/-!
# How failures are reported

What a request returns when one of its steps fails, for every request of a run. `World.Fails` says
which step fails and with which error, from the state and the answers of the allocators alone;
`World.reply` is what the driver returns.

`failures_reported_iff`: the two ioctls that report the right error always do;
`YAKVM_CREATE_VCPU`, whose first error branch takes the error from the wrong pointer, does unless an
allocation fails; the fault handler, which returns an error number for a `vm_fault_t`, never does.
-/

namespace Yakvm

/-! ## Replies -/

/-- The bits of `vm_fault_t` in question. -/
def vmFaultOom : BitVec 32 := 0x1
def vmFaultSigbus : BitVec 32 := 0x2
def vmFaultSigsegv : BitVec 32 := 0x40
def vmFaultNopage : BitVec 32 := 0x100
def vmFaultLocked : BitVec 32 := 0x200
def vmFaultRetry : BitVec 32 := 0x400
def vmFaultCompleted : BitVec 32 := 0x4000

/-- What a request returns: an `int`, or a `vm_fault_t`. -/
inductive Reply
  | int (r : ℤ)
  | fault (r : BitVec 32)
  deriving DecidableEq

/-- What the driver returns to a request. `none`: the file is not open, or is being closed. -/
def World.reply (nasid : BitVec 32) : Op → World → Except Crash (Option Reply)
  | .createVm a fd, w => do
    let ((r, _), _) ← devIoctlCreateVm a fd w.k
    .ok (some (.int r))
  | .createVcpu vm a fd, w =>
    if vm ∈ w.vmFiles then do
      let ((r, _), _) ← vmIoctlCreateVcpu nasid vm a fd w.k
      .ok (some (.int r))
    else .ok none
  | .mmapPage vm gpa ask, w =>
    if vm ∈ w.vmFiles then do
      let v ← deref w.k.vms vm
      let vmm ← deref w.k.vmms v.vmm
      let (r, _) ← vmIoctlMmapPage vmm gpa ask w.k.phys
      .ok (some (.int r))
    else .ok none
  | .fault vm address vmStart ask, w =>
    if vm ∈ w.vmFiles then do
      let v ← deref w.k.vms vm
      let vmm ← deref w.k.vmms v.vmm
      let ((r, _), _) ← vmVmmFault vmm address vmStart ask w.k.phys
      .ok (some (.fault r))
    else .ok none
  | .closeVm _, _ => .ok none
  | .closeVcpu _, _ => .ok none

/-- A call of `yakvm_vmm_npt_create` for a page of the vm runs out of memory. -/
def World.NoPage (w : World) (vm : ℕ) (gpa : Word) (ask : ℕ → Option Frame) : Prop :=
  ∃ v m, w.k.vms vm = some v ∧ w.k.vmms v.vmm = some m ∧ ¬ Supplied w.k.phys (vmmPhysToVirt m.ncr3) gpa ask

/-- A step of the request fails, with the error `e`: an allocation, the check for a vcpu, or the
installation of the file. -/
def World.Fails (w : World) : Op → Errno → Prop
  | .createVm a fd, e =>
    a.granted w.k.phys.pages = false ∧ e = .ENOMEM ∨ a.granted w.k.phys.pages = true ∧ fd = .error e
  | .createVcpu vm a fd, e => ∃ v, w.k.vms vm = some v ∧
      (a.granted w.k.phys = false ∧ e = .ENOMEM ∨
        a.granted w.k.phys = true ∧ (v.vcpu.isSome = true ∧ e = .EEXIST ∨ v.vcpu = none ∧ fd = .error e))
  | .mmapPage vm gpa ask, e => w.NoPage vm gpa ask ∧ e = .ENOMEM
  | .fault vm address vmStart ask, e => w.NoPage vm (address - vmStart) ask ∧ e = .ENOMEM
  | .closeVm _, _ => False
  | .closeVcpu _, _ => False

/-- The reply says that the error `e` occurred: as a negative number that userspace takes for an
error, or with an error bit of `vm_fault_t` and none that says the page is there. -/
def Reply.Reports (e : Errno) : Reply → Prop
  | .int r => r = e.code ∧ -4095 ≤ r ∧ r ≤ -1
  | .fault r => r &&& (vmFaultOom ||| vmFaultSigbus ||| vmFaultSigsegv) ≠ 0 ∧
      r &&& (vmFaultNopage ||| vmFaultLocked ||| vmFaultRetry ||| vmFaultCompleted) = 0

/-- The error path that the request would take is right: it is not the one of a failed allocation for
a vcpu, unless the address of the vm ends like `-ENOMEM`, and not the one of a fault. -/
def World.PathOk (w : World) : Op → Prop
  | .createVm _ _ => True
  | .createVcpu vm a _ => a.granted w.k.phys = true ∨ ∃ v, w.k.vms vm = some v ∧ v.addr.setWidth 32 = 0xfffffff4#32
  | .mmapPage _ _ _ => True
  | .fault _ _ _ _ => False
  | .closeVm _ => True
  | .closeVcpu _ => True

/-! ## The requests one by one -/

variable {nasid : BitVec 32} {w : World} {k : Kernel} {e : Errno} {reply : Reply} {vm : ℕ}

theorem Errno.code_range (e : Errno) : -4095 ≤ e.code ∧ e.code ≤ -1 := by
  cases e <;> decide

theorem reports_int {r : ℤ} : (Reply.int r).Reports e ↔ r = e.code := by
  unfold Reply.Reports
  constructor
  · exact And.left
  · rintro rfl
    exact ⟨rfl, e.code_range⟩

/-- `PTR_ERR(vm)` is `-ENOMEM` for one low half of an address. -/
theorem ptrErr_eq_iff (p : Word) : ptrErr p = Errno.ENOMEM.code ↔ p.setWidth 32 = 0xfffffff4#32 := by
  have hcode : Errno.ENOMEM.code = (0xfffffff4#32).toInt := by decide
  unfold ptrErr
  rw [hcode, BitVec.toInt_inj]

/-- `YAKVM_CREATE_VM` returns the error of the step that failed. -/
theorem devIoctlCreateVm_reports {a : VmAsk} {fd : Except Errno ℕ} (hk : KernelOK w.k)
    (hfail : w.Fails (.createVm a fd) e) : ∃ k', devIoctlCreateVm a fd w.k = .ok ((e.code, none), k') := by
  unfold devIoctlCreateVm
  rcases createVm_outcome hk a with ⟨hall, o, k₁, he⟩ | ⟨hnot, k₁, he, -⟩
  · rcases hfail with ⟨hno, -⟩ | ⟨-, rfl⟩
    · rw [hall] at hno
      simp at hno
    · obtain ⟨k', hd, -⟩ := createVm_destroyed hk he
      simp only [he, hd, bind, Except.bind]
      exact ⟨k', rfl⟩
  · rcases hfail with ⟨-, rfl⟩ | ⟨hall, -⟩
    · simp only [he, bind, Except.bind]
      exact ⟨k₁, rfl⟩
    · rw [hall] at hnot
      simp at hnot

/-- `YAKVM_CREATE_VCPU` returns what `PTR_ERR(vm)` is, if an allocation fails, and else the error of
the step that failed. -/
theorem vmIoctlCreateVcpu_reports {a : VcpuAsk} {fd : Except Errno ℕ} {r : ℤ} {file : Option ℕ} {k' : Kernel} {v : Vm}
    (hv : w.k.vms vm = some v) (hfail : w.Fails (.createVcpu vm a fd) e)
    (h : vmIoctlCreateVcpu nasid vm a fd w.k = .ok ((r, file), k')) :
    a.granted w.k.phys = false ∧ e = .ENOMEM ∧ r = ptrErr v.addr ∨ a.granted w.k.phys = true ∧ r = e.code := by
  obtain ⟨v₁, hv₁, hfail⟩ := hfail
  obtain rfl : v = v₁ := Option.some.inj (hv.symm.trans hv₁)
  obtain ⟨⟨vcpu, k₁⟩, hc, h⟩ := bind_eq_ok.1 h
  rcases createVcpu_cases nasid a vm w.k with ⟨hno, s, -, he⟩ | ⟨hall, vc, s, -, -, he⟩
  · rcases hfail with ⟨-, rfl⟩ | ⟨hall, -⟩
    · rw [he] at hc
      obtain ⟨rfl, rfl⟩ := Prod.mk.inj (Except.ok.inj hc)
      simp only [deref_some hv, bind, Except.bind] at h
      obtain ⟨hr, -⟩ := Prod.mk.inj (Except.ok.inj h)
      exact Or.inl ⟨hno, rfl, (Prod.mk.inj hr).1.symm⟩
    · rw [hall] at hno
      simp at hno
  · rcases hfail with ⟨hno, -⟩ | ⟨-, hfail⟩
    · rw [hall] at hno
      simp at hno
    · refine Or.inr ⟨hall, ?_⟩
      cases vcpu with
      | error e' =>
        rw [he] at hc
        obtain ⟨v₂, -, hc⟩ := bind_eq_ok.1 hc
        obtain ⟨m, -, hc⟩ := bind_eq_ok.1 hc
        obtain ⟨x, -, hc⟩ := bind_eq_ok.1 hc
        simp at hc
      | ok c =>
        obtain ⟨u, hmade⟩ := createVcpu_made hc
        have hv₂ : k₁.vms vm = some v := by rw [hmade.vms, hv]
        simp only [deref_some hv₂, bind, Except.bind] at h
        rcases hfail with ⟨hsome, rfl⟩ | ⟨hnone, rfl⟩
        · simp only [hsome, if_true] at h
          obtain ⟨k₂, -, h⟩ := bind_eq_ok.1 h
          obtain ⟨hr, -⟩ := Prod.mk.inj (Except.ok.inj h)
          exact (Prod.mk.inj hr).1.symm
        · simp only [hnone, Option.isSome_none, Bool.false_eq_true, if_false] at h
          obtain ⟨k₂, -, h⟩ := bind_eq_ok.1 h
          obtain ⟨k₃, -, h⟩ := bind_eq_ok.1 h
          obtain ⟨k₄, -, h⟩ := bind_eq_ok.1 h
          obtain ⟨k₅, -, h⟩ := bind_eq_ok.1 h
          obtain ⟨k₆, -, h⟩ := bind_eq_ok.1 h
          obtain ⟨hr, -⟩ := Prod.mk.inj (Except.ok.inj h)
          exact (Prod.mk.inj hr).1.symm

/-- A call of `yakvm_vmm_npt_create` that runs out of memory and returns. -/
theorem vmmNptCreate_reports {s : Phys} {ncr3 gpa : Word} {np : Option (List Slot)} {ask : ℕ → Option Frame}
    {r : Except Errno Word} {s' : Phys} (hs : NptOK s (vmmPhysToVirt ncr3) np)
    (hno : ¬ Supplied s (vmmPhysToVirt ncr3) gpa ask) (h : vmmNptCreate ncr3 gpa false ask s = .ok (r, s')) :
    r = .error .ENOMEM := by
  rcases vmmNptCreate_spec hs gpa ask with ⟨f, s₁, he, -, -, hnp⟩ | ⟨s₁, he, -⟩ | ⟨he, -⟩
  · exact absurd ((vmmNptCreate_returns_iff hs hnp ask).1 ⟨_, _, he⟩) hno
  · rw [he] at h
    exact (Prod.mk.inj (Except.ok.inj h)).1.symm
  · rw [he] at h
    simp at h

theorem vmIoctlMmapPage_reports {s s' : Phys} {m : Vmm} {gpa : Word} {np : Option (List Slot)} {ask : ℕ → Option Frame}
    {r : ℤ} (hs : NptOK s (vmmPhysToVirt m.ncr3) np) (hno : ¬ Supplied s (vmmPhysToVirt m.ncr3) gpa ask)
    (h : vmIoctlMmapPage m gpa ask s = .ok (r, s')) : r = Errno.ENOMEM.code := by
  obtain ⟨⟨page, s₁⟩, hc, h⟩ := bind_eq_ok.1 h
  obtain rfl := vmmNptCreate_reports hs hno hc
  exact (Prod.mk.inj (Except.ok.inj h)).1.symm

theorem vmVmmFault_reports {s s' : Phys} {m : Vmm} {address vmStart : Word} {np : Option (List Slot)}
    {ask : ℕ → Option Frame} {r : BitVec 32} {page : Option Word} (hs : NptOK s (vmmPhysToVirt m.ncr3) np)
    (hno : ¬ Supplied s (vmmPhysToVirt m.ncr3) (address - vmStart) ask)
    (h : vmVmmFault m address vmStart ask s = .ok ((r, page), s')) : r = BitVec.ofInt 32 Errno.ENOMEM.code := by
  obtain ⟨⟨page', s₁⟩, hc, h⟩ := bind_eq_ok.1 h
  obtain rfl := vmmNptCreate_reports hs hno hc
  exact (Prod.mk.inj (Prod.mk.inj (Except.ok.inj h)).1).1.symm

/-- The table of a vm for which there is no page. -/
theorem World.NoPage.table {gpa : Word} {ask : ℕ → Option Frame} (hk : KernelOK w.k) (h : w.NoPage vm gpa ask) :
    ∃ v m, w.k.vms vm = some v ∧ w.k.vmms v.vmm = some m ∧
      NptOK w.k.phys (vmmPhysToVirt m.ncr3) (some (path mmioHawk)) ∧
      ¬ Supplied w.k.phys (vmmPhysToVirt m.ncr3) gpa ask := by
  obtain ⟨v, m₁, hv, hm₁, hno⟩ := h
  obtain ⟨m, hm, hok, -⟩ := hk.vmm hv
  obtain rfl : m = m₁ := Option.some.inj (hm.symm.trans hm₁)
  exact ⟨v, m, hv, hm, hok, hno⟩

/-- **When failures are reported as failures.** In every state that requests lead to, let a step of a
further request fail with the error `e`, and let the request return. Its reply reports `e` if and
only if the request takes a right error path: `YAKVM_CREATE_VM` and `YAKVM_MMAP_PAGE` always do,
`YAKVM_CREATE_VCPU` does when its allocations succeed or the low half of the vm's address is `-ENOMEM`,
and a fault never does. -/
theorem failures_reported_iff {mem : Frame → Slot → Word} {pages : Finset Frame} {ops : List Op} {op : Op}
    (h : (World.init mem pages).run nasid ops = .ok w) (hfail : w.Fails op e)
    (hr : w.reply nasid op = .ok (some reply)) : reply.Reports e ↔ w.PathOk op := by
  obtain ⟨x, hx, hq⟩ := World.run_ok h
  have hk : KernelOK w.k := hq.k ▸ hx.kernel
  cases op with
  | createVm a fd =>
    obtain ⟨k', he⟩ := devIoctlCreateVm_reports hk hfail
    simp only [World.reply, he, bind, Except.bind, Except.ok.injEq, Option.some.injEq] at hr
    rw [← hr, reports_int]
    simp only [World.PathOk]
  | createVcpu vm a fd =>
    simp only [World.reply] at hr
    split at hr
    · obtain ⟨⟨⟨r, file⟩, k'⟩, hc, hr⟩ := bind_eq_ok.1 hr
      obtain rfl := Option.some.inj (Except.ok.inj hr)
      obtain ⟨v, hv, -⟩ := id hfail
      rw [reports_int]
      unfold World.PathOk
      rcases vmIoctlCreateVcpu_reports hv hfail hc with ⟨hno, rfl, rfl⟩ | ⟨hall, rfl⟩
      · rw [ptrErr_eq_iff]
        simp only [hno, Bool.false_eq_true, false_or, hv, Option.some.injEq, exists_eq_left']
      · simp only [hall, true_or]
    · simp at hr
  | mmapPage vm gpa ask =>
    simp only [World.reply] at hr
    split at hr
    · obtain ⟨hno, rfl⟩ := hfail
      obtain ⟨v, m, hv, hm, hok, hno⟩ := hno.table hk
      obtain ⟨v₁, hv₁, hr⟩ := bind_eq_ok.1 hr
      obtain rfl := Except.ok.inj ((deref_some hv).symm.trans hv₁)
      obtain ⟨m₁, hm₁, hr⟩ := bind_eq_ok.1 hr
      obtain rfl := Except.ok.inj ((deref_some hm).symm.trans hm₁)
      obtain ⟨⟨r, s'⟩, hc, hr⟩ := bind_eq_ok.1 hr
      obtain rfl := Option.some.inj (Except.ok.inj hr)
      rw [vmIoctlMmapPage_reports hok hno hc, reports_int]
      simp only [World.PathOk]
    · simp at hr
  | fault vm address vmStart ask =>
    simp only [World.reply] at hr
    split at hr
    · obtain ⟨hno, rfl⟩ := hfail
      obtain ⟨v, m, hv, hm, hok, hno⟩ := hno.table hk
      obtain ⟨v₁, hv₁, hr⟩ := bind_eq_ok.1 hr
      obtain rfl := Except.ok.inj ((deref_some hv).symm.trans hv₁)
      obtain ⟨m₁, hm₁, hr⟩ := bind_eq_ok.1 hr
      obtain rfl := Except.ok.inj ((deref_some hm).symm.trans hm₁)
      obtain ⟨⟨⟨r, page⟩, s'⟩, hc, hr⟩ := bind_eq_ok.1 hr
      obtain rfl := Option.some.inj (Except.ok.inj hr)
      -- the number `-12` has the bits of a served fault among others
      rw [vmVmmFault_reports hok hno hc]
      simp only [World.PathOk, Reply.Reports, iff_false]
      decide
    · simp at hr
  | closeVm vm => exact absurd hfail id
  | closeVcpu vcpu => exact absurd hfail id

/-- A new vm at a usual address of the kernel. -/
def vmAt (addr : Word) : List Op := [.createVm ⟨some addr, countingAsk⟩ (.ok 3)]

/-- A page request on a new vm, without memory: the request says so. -/
theorem failures_reported_full : ∃ w, (World.init (fun _ _ => 0) ∅).run 16 (vmAt 0xffff888012345000) = .ok w ∧
    (Reply.int (-12)).Reports .ENOMEM ∧
    w.reply 16 (.mmapPage 0 0x1000 fun _ => none) = .ok (some (.int (-12))) := by
  have hrun : ∃ w, (World.init (fun _ _ => 0) ∅).run 16 (vmAt 0xffff888012345000) = .ok w ∧
      w.reply 16 (.mmapPage 0 0x1000 fun _ => none) = .ok (some (.int (-12))) ∧
      ∃ v, w.k.vms 0 = some v ∧ w.k.vmms v.vmm = some ⟨pageToPhys 1⟩ ∧
        vmmNptCreate (pageToPhys 1) 0x1000 false (fun _ => none) w.k.phys = .ok (.error .ENOMEM, w.k.phys) :=
    ⟨_, rfl, rfl, _, rfl, rfl, rfl⟩
  obtain ⟨w, hw, hr, v, hv, hm, he⟩ := hrun
  obtain ⟨x, hx, hq⟩ := World.run_ok hw
  have hk : KernelOK w.k := hq.k ▸ hx.kernel
  obtain ⟨m, hm', hok, -⟩ := hk.vmm hv
  obtain rfl : m = ⟨pageToPhys 1⟩ := Option.some.inj (hm'.symm.trans hm)
  have hno : ¬ Supplied w.k.phys (vmmPhysToVirt (pageToPhys 1)) 0x1000 fun _ => none := by
    rw [← vmmNptCreate_returns_iff hok (by decide), he]
    simp
  have hfail : w.Fails (.mmapPage 0 0x1000 fun _ => none) .ENOMEM := ⟨⟨v, _, hv, hm, hno⟩, rfl⟩
  exact ⟨w, hw, (failures_reported_iff hw hfail hr).2 trivial, hr⟩

/-- **Failures can look like success.** With the vm at `0xffff888012345000`, a `YAKVM_CREATE_VCPU` without
memory returns the descriptor `0x12345000`; a fault without memory returns a number with the bit
`VM_FAULT_NOPAGE`. -/
theorem failures_unreported : ∃ w, (World.init (fun _ _ => 0) ∅).run 16 (vmAt 0xffff888012345000) = .ok w ∧
    w.Fails (.createVcpu 0 noAsk (.ok 4)) .ENOMEM ∧
    w.reply 16 (.createVcpu 0 noAsk (.ok 4)) = .ok (some (.int 0x12345000)) ∧
    ¬ (Reply.int 0x12345000).Reports .ENOMEM ∧
    w.reply 16 (.fault 0 0x7000 0x6000 fun _ => none) = .ok (some (.fault 0xfffffff4)) ∧
    ¬ (Reply.fault 0xfffffff4).Reports .ENOMEM := by
  have hrun : ∃ w, (World.init (fun _ _ => 0) ∅).run 16 (vmAt 0xffff888012345000) = .ok w ∧
      (∃ v, w.k.vms 0 = some v) ∧
      w.reply 16 (.createVcpu 0 noAsk (.ok 4)) = .ok (some (.int 0x12345000)) ∧
      w.reply 16 (.fault 0 0x7000 0x6000 fun _ => none) = .ok (some (.fault 0xfffffff4)) :=
    ⟨_, rfl, ⟨_, rfl⟩, rfl, rfl⟩
  obtain ⟨w, hw, ⟨v, hv⟩, h1, h2⟩ := hrun
  refine ⟨w, hw, ⟨v, hv, Or.inl ⟨rfl, rfl⟩⟩, h1, ?_, h2, ?_⟩
  · rw [reports_int]
    decide
  · unfold Reply.Reports
    decide

end Yakvm
