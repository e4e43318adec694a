import Yakvm.Proof.PageMap
import Yakvm.Spec.Vm

/-!
# When a page request returns

A vm's owner reaches `yakvm_vmm_npt_create` by `YAKVM_MMAP_PAGE` with any argument and by
faults at any offset of a mapping. The assertion in the walk fails exactly on the one
entry that creation stores without the present bit. So a run of requests returns if and
only if none of them is for the page of `YAKVM_MMIO_HAWK` (`serveAll_returns_iff`).
-/

namespace Yakvm

/-- A request that reaches `yakvm_vmm_npt_create`. -/
inductive Request
  | mmapPage (gpa : Word) (ask : ℕ → Option Frame)
  | fault (address vmStart : Word) (ask : ℕ → Option Frame)

/-- The guest physical address a request is for. -/
def Request.gpa : Request → Word
  | .mmapPage gpa _ => gpa
  | .fault address vmStart _ => address - vmStart

/-- Serve one request. -/
def Request.serve (vmm : Vmm) : Request → Phys → Except Crash Phys
  | .mmapPage gpa ask, s => do
    let (_, s) ← vmIoctlMmapPage vmm gpa ask s
    .ok s
  | .fault address vmStart ask, s => do
    let (_, s) ← vmVmmFault vmm address vmStart ask s
    .ok s

/-- Serve a run of requests. -/
def serveAll (vmm : Vmm) (rs : List Request) (s : Phys) : Except Crash Phys :=
  rs.foldlM (fun s r => r.serve vmm s) s

/-- The allocators' answers during a request. -/
def Request.ask : Request → ℕ → Option Frame
  | .mmapPage _ ask => ask
  | .fault _ _ ask => ask

/-- A request is a call of `yakvm_vmm_npt_create`. -/
theorem Request.serve_eq (vmm : Vmm) (r : Request) (s : Phys) :
    r.serve vmm s = (vmmNptCreate vmm.ncr3 r.gpa false r.ask s).map Prod.snd := by
  cases r with
  | mmapPage gpa ask =>
    simp only [Request.serve, vmIoctlMmapPage, Request.gpa, Request.ask]
    cases vmmNptCreate vmm.ncr3 gpa false ask s with
    | error e => rfl
    | ok x => obtain ⟨_ | _, _⟩ := x <;> rfl
  | fault address vmStart ask =>
    simp only [Request.serve, vmVmmFault, Request.gpa, Request.ask]
    cases vmmNptCreate vmm.ncr3 (address - vmStart) false ask s with
    | error e => rfl
    | ok x => obtain ⟨_ | _, _⟩ := x <;> rfl

variable {s s' : Phys} {vmm : Vmm}

/-- A request for another page than the hidden one returns, and leaves the table well
formed; a request for the hidden page panics. -/
theorem Request.serve_spec (hs : NptOK s (vmmPhysToVirt vmm.ncr3) (some (path mmioHawk))) (r : Request) :
    (key r.gpa ≠ key mmioHawk ∧ ∃ s', r.serve vmm s = .ok s' ∧
      NptOK s' (vmmPhysToVirt vmm.ncr3) (some (path mmioHawk))) ∨
    (key r.gpa = key mmioHawk ∧ r.serve vmm s = .error .panic) := by
  rw [r.serve_eq]
  by_cases hk : key r.gpa = key mmioHawk
  · right
    rw [(vmmNptCreate_panic_iff hs r.ask).2 ⟨rfl, by rw [(path_eq_iff _ _).2 hk]⟩]
    exact ⟨hk, rfl⟩
  · left
    cases hc : vmmNptCreate vmm.ncr3 r.gpa false r.ask s with
    | error e =>
      have := ((vmmNptCreate_panic_iff hs r.ask).1 hc).2
      exact absurd ((path_eq_iff _ _).1 (Option.some.inj this).symm) hk
    | ok x => exact ⟨hk, x.2, rfl, (vmmNptCreate_grow hs hc).ok hs⟩

theorem serveAll_iff (rs : List Request) :
    ∀ s, NptOK s (vmmPhysToVirt vmm.ncr3) (some (path mmioHawk)) →
      ((∃ s', serveAll vmm rs s = .ok s') ↔ ∀ r ∈ rs, key r.gpa ≠ key mmioHawk) := by
  induction rs with
  | nil => intro s _; simp [serveAll, pure, Except.pure]
  | cons r rs ih =>
    intro s hs
    simp only [serveAll, List.foldlM_cons, List.forall_mem_cons]
    rcases r.serve_spec hs with ⟨hk, s', he, hs'⟩ | ⟨hk, he⟩
    · rw [he]
      have := ih s' hs'
      simp only [serveAll] at this
      simp only [bind, Except.bind, this, hk, ne_eq, not_false_eq_true, true_and]
    · rw [he]
      simp [bind, Except.bind, hk]

/-- **When userspace cannot panic the host through the nested page table.** From a table
that `yakvm_create_vmm` has just built, a run of requests returns, every one of them, if and
only if no request in it is for the page of `YAKVM_MMIO_HAWK`. -/
theorem serveAll_returns_iff {a : VmmAsk} {o : ℕ} {s₀ : Phys} (h : createVmm a s₀ = .ok (.ok (o, vmm), s))
    (rs : List Request) :
    (∃ s', serveAll vmm rs s = .ok s') ↔ ∀ r ∈ rs, key r.gpa ≠ key mmioHawk :=
  serveAll_iff rs s (createVmm_fresh h).ok

/-- Requests for two different pages of a new vm, by ioctl and by fault, return. -/
theorem serveAll_returns_two : ∃ s s', createVmm countingAsk emptyPhys = .ok (.ok (0, ⟨pageToPhys 1⟩), s) ∧
    serveAll ⟨pageToPhys 1⟩ [.mmapPage 0x1000 (fun _ => some 6), .fault 0x7000 0x5000 (fun _ => some 7)] s
      = .ok s' := by
  obtain ⟨s, hs⟩ := counting_created
  obtain ⟨s', hs'⟩ := (serveAll_returns_iff hs
    [.mmapPage 0x1000 (fun _ => some 6), .fault 0x7000 0x5000 (fun _ => some 7)]).2 (by decide)
  exact ⟨s, s', hs, hs'⟩

/-- **Userspace can panic the host.** On a new vm, `YAKVM_MMAP_PAGE` with argument 0 fails
the assertion of the walk; so does touching the first byte of a mapping of the vm. -/
theorem mmapPage_zero_panics : ∃ s, createVmm countingAsk emptyPhys = .ok (.ok (0, ⟨pageToPhys 1⟩), s) ∧
    serveAll ⟨pageToPhys 1⟩ [.mmapPage 0 (fun _ => none)] s = .error .panic ∧
    serveAll ⟨pageToPhys 1⟩ [.fault 0x7f0000000000 0x7f0000000000 (fun _ => none)] s = .error .panic :=
  ⟨_, rfl, rfl, rfl⟩

end Yakvm
