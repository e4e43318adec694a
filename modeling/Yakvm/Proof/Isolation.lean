import Yakvm.Proof.Lifecycle
import Yakvm.Spec.World
import Mathlib.Data.List.Pairwise

/-!
# Isolation between virtual machines

A request taken as a whole is a run of its steps with no other step in between
(`World.step_simulates`), so the invariant of all interleavings holds between requests. From it
follow the roles of pages (`role_unique`) and what a hardware walk can reach (`walk_inside`);
`isolation` states both for every run of requests.
-/

namespace Yakvm

/-! ## Requests are runs -/

/-- A run of the driver leads from one state to another. -/
def Leads (nasid : BitVec 32) (x x' : Sys) : Prop := ∃ acts, x.run nasid acts = .ok x'

variable {nasid : BitVec 32} {x x' : Sys} {w : World}

theorem Leads.trans {x₁ x₂ : Sys} (h : Leads nasid x x₁) (h' : Leads nasid x₁ x₂) : Leads nasid x x₂ := by
  obtain ⟨acts, ha⟩ := h
  obtain ⟨acts', ha'⟩ := h'
  refine ⟨acts ++ acts', ?_⟩
  unfold Sys.run at ha ha' ⊢
  rw [List.foldlM_append, ha]
  exact ha'

theorem Leads.step (act : Act) (h : x.step nasid act = .ok x') : Leads nasid x x' := by
  refine ⟨[act], ?_⟩
  unfold Sys.run
  rw [List.foldlM_cons, h]
  rfl

theorem Leads.ok (h : Leads nasid x x') (hx : SysOK x) : SysOK x' := by
  obtain ⟨acts, ha⟩ := h
  rcases SysOK.run nasid acts x hx with he | ⟨x₁, he, h₁⟩
  · rw [he] at ha; simp at ha
  · rw [he] at ha
    obtain rfl := Except.ok.inj ha
    exact h₁

/-- The state `x` with the driver `k`, the vcpu files `files` and one more request. -/
def Sys.busy (x : Sys) (vm : ℕ) (k : Kernel) (files : Finset ℕ) (log : List Call) (stage : Stage) : Sys :=
  { x with k := k, vcpuFiles := files, log := log, reqs := x.reqs ++ [⟨vm, stage⟩] }

/-- A new request on `vm` in the state `x` comes to `stage`, with the driver and the vcpu
files as given. -/
def Comes (nasid : BitVec 32) (x : Sys) (vm : ℕ) (k : Kernel) (files : Finset ℕ) (stage : Stage) : Prop :=
  ∃ log, Leads nasid x (x.busy vm k files log stage)

/-- The answers of the allocators in a step that allocates nothing. -/
def noAsk : VcpuAsk := ⟨false, none, none, none, none, none⟩

section Comes

variable {vm c : ℕ} {k k' : Kernel} {files files' : Finset ℕ} {stage stage' : Stage}

theorem Comes.start (ho : vm ∈ x.vmFiles) : Comes nasid x vm x.k x.vcpuFiles .start := by
  refine ⟨x.log, Leads.step (.request vm) ?_⟩
  simp only [Sys.step, if_pos ho]
  rfl

theorem Comes.step (h : Comes nasid x vm k files stage) (a : VcpuAsk) (fd : Bool)
    (hadv : ∀ log, ∃ log', (Req.mk vm stage).advance nasid a fd (x.busy vm k files log stage) =
      .ok (stage', { x.busy vm k files log stage with k := k', vcpuFiles := files', log := log' })) :
    Comes nasid x vm k' files' stage' := by
  obtain ⟨log, hl⟩ := h
  obtain ⟨log', ha⟩ := hadv log
  refine ⟨log', hl.trans (Leads.step (.advance x.reqs.length a fd) ?_)⟩
  have hlast : (x.busy vm k files log stage).reqs[x.reqs.length]? = some ⟨vm, stage⟩ := by simp [Sys.busy]
  simp only [Sys.step, hlast]
  rw [ha]
  simp [Sys.busy, bind, Except.bind]

theorem Comes.ok (h : Comes nasid x vm k files stage) (hx : SysOK x) : KernelOK k := by
  obtain ⟨log, hl⟩ := h
  exact (hl.ok hx).kernel

/-- `yakvm_create_vcpu` returns. -/
theorem Comes.alloc {r : Except Errno ℕ} {a : VcpuAsk} (h : Comes nasid x vm k files .start)
    (he : createVcpu nasid a vm k = .ok (r, k')) :
    Comes nasid x vm k' files (match r with | .ok c => .allocated c | .error _ => .finished) := by
  refine h.step a true fun log => ⟨log, ?_⟩
  simp only [Req.advance, Sys.busy, he, bind, Except.bind]
  cases r <;> rfl

/-- `vm->vcpu` is checked and, if it is null, set. -/
theorem Comes.publish {v : Vm} (h : Comes nasid x vm k files (.allocated c)) (hv : k.vms vm = some v)
    (hvc : v.vcpu = none) (hset : setVcpu vm (some c) k = .ok k') :
    Comes nasid x vm k' files (.published c) := by
  refine h.step noAsk true fun log => ⟨log, ?_⟩
  simp only [Req.advance, Sys.busy, deref_some hv, hvc, Option.isSome_none, Bool.false_eq_true, if_false, hset, bind,
    Except.bind]

theorem Comes.refuse {v : Vm} (h : Comes nasid x vm k files (.allocated c)) (hv : k.vms vm = some v)
    (hvc : v.vcpu.isSome = true) : Comes nasid x vm k files (.refused c) := by
  refine h.step noAsk true fun log => ⟨log, ?_⟩
  simp only [Req.advance, Sys.busy, deref_some hv, hvc, if_true, bind, Except.bind]

theorem Comes.get (h : Comes nasid x vm k files (.published c)) (hget : getVm vm k = .ok k') :
    Comes nasid x vm k' files (.got c) := by
  refine h.step noAsk true fun log => ⟨log, ?_⟩
  simp only [Req.advance, Sys.busy, hget, bind, Except.bind]

theorem Comes.install (h : Comes nasid x vm k files (.got c)) :
    Comes nasid x vm k (insert c files) .finished := by
  refine h.step noAsk true fun log => ⟨.openVcpu vm c :: log, ?_⟩
  simp only [Req.advance, Sys.busy, if_true]

theorem Comes.fail (h : Comes nasid x vm k files (.got c)) : Comes nasid x vm k files (.failed c) := by
  refine h.step noAsk false fun log => ⟨log, ?_⟩
  simp only [Req.advance, Sys.busy, Bool.false_eq_true, if_false]

theorem Comes.clear (h : Comes nasid x vm k files (.failed c)) (hset : setVcpu vm none k = .ok k') :
    Comes nasid x vm k' files (.cleared c) := by
  refine h.step noAsk true fun log => ⟨log, ?_⟩
  simp only [Req.advance, Sys.busy, hset, bind, Except.bind]

theorem Comes.put (h : Comes nasid x vm k files (.cleared c)) (hput : putVm vm k = .ok k') :
    Comes nasid x vm k' files (.put c) := by
  refine h.step noAsk true fun log => ⟨putCalls vm k ++ log, ?_⟩
  simp only [Req.advance, Sys.busy, Sys.put, hput, bind, Except.bind]

theorem Comes.destroy (h : Comes nasid x vm k files stage) (hst : stage = .put c ∨ stage = .refused c)
    (hd : destroyVcpu c k = .ok k') : Comes nasid x vm k' files .finished := by
  refine h.step noAsk true fun log => ⟨log, ?_⟩
  rcases hst with rfl | rfl <;> simp only [Req.advance, Sys.busy, hd, bind, Except.bind]

end Comes

/-- A world with no request in flight, as a state of the machine. -/
structure Quiet (x : Sys) (w : World) : Prop where
  k : x.k = w.k
  vmFiles : x.vmFiles = w.vmFiles
  vcpuFiles : x.vcpuFiles = w.vcpuFiles
  opening : x.opening = ∅
  idle : ∀ r ∈ x.reqs, r.stage = .finished

/-- What a request does, seen from the machine. -/
def Simulates (nasid : BitVec 32) (x : Sys) (r : Except Crash World) : Prop :=
  r = .error .panic ∨ ∃ w' x', r = .ok w' ∧ Leads nasid x x' ∧ Quiet x' w'

/-- A request that returns, seen from the machine. -/
def Returns (nasid : BitVec 32) (x : Sys) (r : Except Crash World) : Prop :=
  ∃ w' x', r = .ok w' ∧ Leads nasid x x' ∧ Quiet x' w'

theorem Comes.returns {vm : ℕ} {k : Kernel} {files : Finset ℕ} (h : Comes nasid x vm k files .finished)
    (hq : Quiet x w) : Returns nasid x (.ok { w with k := k, vcpuFiles := files }) := by
  obtain ⟨log, hl⟩ := h
  refine ⟨_, _, rfl, hl, rfl, hq.vmFiles, rfl, hq.opening, ?_⟩
  intro r hr
  rcases List.mem_append.1 hr with hr | hr
  · exact hq.idle r hr
  · rw [List.mem_singleton.1 hr]

/-- **`YAKVM_CREATE_VCPU`** as a whole is a run of its steps, or `yakvm_create_vcpu` panics. -/
theorem createVcpu_simulates {vm : ℕ} (h : SysOK x) (hq : Quiet x w) (ho : vm ∈ w.vmFiles) (a : VcpuAsk)
    (fd : Except Errno ℕ) :
    (createVcpu nasid a vm w.k = .error .panic ∧ w.step nasid (.createVcpu vm a fd) = .error .panic) ∨
      Returns nasid x (w.step nasid (.createVcpu vm a fd)) := by
  have hox : vm ∈ x.vmFiles := by rw [hq.vmFiles]; exact ho
  obtain ⟨v, hv⟩ := h.files vm (Or.inl hox)
  have hpos := (h.count vm v hv).2
  have hstart : Comes nasid x vm x.k x.vcpuFiles .start := Comes.start hox
  simp only [World.step, if_pos ho, ← hq.k, ← hq.vcpuFiles, vmIoctlCreateVcpu]
  rcases createVcpu_spec h.kernel hv nasid a with
    ⟨vc, k₁, he, hk₁, -, hvms, hvcpus, -⟩ | ⟨k₁, he, -, hvms, -⟩ | he
  · have hv₁ : k₁.vms vm = some v := by rw [hvms]; exact hv
    have halloc := hstart.alloc he
    have hc₁ : k₁.vcpus x.k.phys.next = some vc := by rw [hvcpus, Function.update_self]
    generalize x.k.phys.next = c at he halloc hc₁
    simp only [he, deref_some hv₁, bind, Except.bind]
    cases hvc : v.vcpu with
    | some d =>
      obtain ⟨k₂, hd, -⟩ := destroyVcpu_spec hk₁ hc₁
      simp only [Option.isSome_some, if_true, hd]
      exact Or.inr (((halloc.refuse hv₁ (by rw [hvc]; rfl)).destroy (Or.inr rfl) hd).returns hq)
    | none =>
      set k₂ : Kernel := { k₁ with vms := Function.update k₁.vms vm (some { v with vcpu := some c }) } with hk₂
      have hset : setVcpu vm (some c) k₁ = .ok k₂ := by simp only [setVcpu, deref_some hv₁, bind, Except.bind, hk₂]
      have hv₂ : k₂.vms vm = some { v with vcpu := some c } := Function.update_self ..
      set v₃ : Vm := { v with vcpu := some c, refcount := v.refcount + 1 } with hv₃
      set k₃ : Kernel := { k₂ with vms := Function.update k₂.vms vm (some v₃) } with hk₃
      have hget : getVm vm k₂ = .ok k₃ := by simp only [getVm, deref_some hv₂, bind, Except.bind, hk₃, hv₃]
      have hgot := (halloc.publish hv₁ hvc hset).get hget
      simp only [Option.isSome_none, Bool.false_eq_true, if_false, hset, hget]
      cases fd with
      | ok fd => exact Or.inr (hgot.install.returns hq)
      | error r =>
        -- the undo path
        have hv₃' : k₃.vms vm = some v₃ := Function.update_self ..
        set v₄ : Vm := { v₃ with vcpu := none } with hv₄
        set k₄ : Kernel := { k₃ with vms := Function.update k₃.vms vm (some v₄) } with hk₄
        have hclear : setVcpu vm none k₃ = .ok k₄ := by
          simp only [setVcpu, deref_some hv₃', bind, Except.bind, hk₄, hv₄]
        have hv₄' : k₄.vms vm = some v₄ := Function.update_self ..
        obtain ⟨hput, -⟩ := putVm_shared hv₄' (by simp only [hv₄, hv₃]; omega)
        have hdone := (hgot.fail.clear hclear).put hput
        obtain ⟨k₆, hd, -⟩ := destroyVcpu_spec (c := c) (hdone.ok h) (by exact hc₁)
        simp only [hclear, hput, hd]
        exact Or.inr ((hdone.destroy (Or.inl rfl) hd).returns hq)
  · have hv₁ : k₁.vms vm = some v := by rw [hvms]; exact hv
    simp only [he, deref_some hv₁, bind, Except.bind]
    exact Or.inr ((hstart.alloc he).returns hq)
  · exact Or.inl ⟨he, by simp only [he, bind, Except.bind]⟩

/-- **`YAKVM_CREATE_VM`** as a whole is a run of its steps. -/
theorem createVm_simulates (h : SysOK x) (hq : Quiet x w) (a : VmAsk) (fd : Except Errno ℕ) :
    Returns nasid x (w.step nasid (.createVm a fd)) := by
  simp only [World.step, ← hq.k, ← hq.vmFiles, devIoctlCreateVm]
  rcases createVm_spec h.kernel a with ⟨v, k₁, he, hk, h1, h2, h3, h4, h5⟩ | ⟨k₁, he, -⟩
  · have hx₁ := h.addVm hk h1 h2 h3 h4 h5
    set o := x.k.phys.next with ho
    set x₁ : Sys := { x with k := k₁, opening := insert o x.opening, log := .createVm o :: x.log } with hx₁'
    have hl₁ : Leads nasid x x₁ := Leads.step (.createVm a) (by simp only [Sys.step, he, bind, Except.bind, hx₁'])
    have hopen : o ∈ x₁.opening := Finset.mem_insert_self _ _
    have herase : x₁.opening.erase o = ∅ := by simp [hx₁', hq.opening]
    simp only [he, bind, Except.bind]
    cases fd with
    | ok fd =>
      refine ⟨_, { x₁ with opening := x₁.opening.erase o, vmFiles := insert o x₁.vmFiles }, rfl,
        hl₁.trans (Leads.step (.openVm o true) (by simp only [Sys.step, if_pos hopen, if_true])), rfl, rfl,
        hq.vcpuFiles, herase, hq.idle⟩
    | error r =>
      obtain ⟨k₂, hd, -⟩ := hx₁.abandon hopen
      have hd' : destroyVm o k₁ = .ok k₂ := hd
      simp only [hd']
      exact ⟨_, { x₁ with k := k₂, opening := x₁.opening.erase o, log := .destroyVm o :: x₁.log }, rfl,
        hl₁.trans (Leads.step (.openVm o false) (by
          simp only [Sys.step, if_pos hopen, Bool.false_eq_true, if_false, hd, bind, Except.bind])), rfl, rfl,
        hq.vcpuFiles, herase, hq.idle⟩
  · refine ⟨{ w with k := k₁, vmFiles := x.vmFiles }, { x with k := k₁ }, ?_,
      Leads.step (.createVm a) (by simp only [Sys.step, he, bind, Except.bind]), rfl, rfl, hq.vcpuFiles, hq.opening,
      hq.idle⟩
    simp only [he, bind, Except.bind, addFile]

/-- Closing the file of a vm. -/
theorem closeVm_returns {vm : ℕ} (h : SysOK x) (hq : Quiet x w) (ho : vm ∈ w.vmFiles) :
    Returns nasid x (w.step nasid (.closeVm vm)) := by
  have hox : vm ∈ x.vmFiles ∧ ∀ r ∈ x.reqs, r.vm = vm → r.stage = .finished :=
    ⟨by rw [hq.vmFiles]; exact ho, fun r hr _ => hq.idle r hr⟩
  obtain ⟨k', hp, -⟩ := h.closeVm hox.1 hox.2
  simp only [World.step, if_pos ho, vmRelease, ← hq.k, hp, bind, Except.bind]
  refine ⟨_, { x with k := k', vmFiles := x.vmFiles.erase vm, log := putCalls vm x.k ++ x.log }, rfl,
    Leads.step (.closeVm vm) ?_, rfl, by simp only [hq.vmFiles], hq.vcpuFiles, hq.opening, hq.idle⟩
  simp only [Sys.step, if_pos hox, Sys.put, hp, bind, Except.bind]

/-- Closing the file of a vcpu. -/
theorem closeVcpu_returns {vcpu : ℕ} (h : SysOK x) (hq : Quiet x w) (hc : vcpu ∈ w.vcpuFiles) :
    Returns nasid x (w.step nasid (.closeVcpu vcpu)) := by
  have hcx : vcpu ∈ x.vcpuFiles := by rw [hq.vcpuFiles]; exact hc
  obtain ⟨vc, -, hvc, -⟩ := h.vcpuFile vcpu hcx
  obtain ⟨k', hp, -⟩ := h.closeVcpu hcx hvc
  simp only [World.step, if_pos hc, vcpuRelease, ← hq.k, deref_some hvc, hp, bind, Except.bind]
  refine ⟨_, { x with k := k', vcpuFiles := x.vcpuFiles.erase vcpu, log := putCalls vc.vm x.k ++ x.log },
    rfl, Leads.step (.closeVcpu vcpu) ?_, rfl, hq.vmFiles, by simp only [hq.vcpuFiles], hq.opening, hq.idle⟩
  simp only [Sys.step, if_pos hcx, deref_some hvc, Sys.put, hp, bind, Except.bind]

/-- **A request as a whole** is a run of its steps. -/
theorem World.step_simulates (h : SysOK x) (hq : Quiet x w) (op : Op) :
    Simulates nasid x (w.step nasid op) := by
  -- a request on a file that is not open
  have hnop : Simulates nasid x (.ok w) := Or.inr ⟨w, x, rfl, ⟨[], rfl⟩, hq⟩
  have hset : ∀ {s' : Phys}, Quiet { x with k := { x.k with phys := s' } } { w with k := { w.k with phys := s' } } :=
    ⟨by simp only [hq.k], hq.vmFiles, hq.vcpuFiles, hq.opening, hq.idle⟩
  cases op with
  | createVm a fd => exact Or.inr (createVm_simulates h hq a fd)
  | createVcpu vm a fd =>
    by_cases ho : vm ∈ w.vmFiles
    · exact (createVcpu_simulates h hq ho a fd).imp And.right id
    · simp only [World.step, if_neg ho]; exact hnop
  | mmapPage vm gpa ask =>
    by_cases ho : vm ∈ w.vmFiles
    · have hox : vm ∈ x.vmFiles := by rw [hq.vmFiles]; exact ho
      obtain ⟨v, hv⟩ := h.files vm (Or.inl hox)
      obtain ⟨m, hm, hok, -⟩ := h.kernel.vmm hv
      have hset := @hset
      simp only [World.step, if_pos ho, ← hq.k, deref_some hv, deref_some hm, bind, Except.bind] at hset ⊢
      rcases vmIoctlMmapPage_cases hok gpa ask with he | ⟨r, s', he, -⟩
      · exact Or.inl (by simp only [he])
      · refine Or.inr ⟨_, _, by simp only [he]; rfl, Leads.step (.mmapPage vm gpa ask) ?_, hset⟩
        simp only [Sys.step, if_pos hox, deref_some hv, deref_some hm, he, bind, Except.bind]
    · simp only [World.step, if_neg ho]; exact hnop
  | fault vm address vmStart ask =>
    by_cases ho : vm ∈ w.vmFiles
    · have hox : vm ∈ x.vmFiles := by rw [hq.vmFiles]; exact ho
      obtain ⟨v, hv⟩ := h.files vm (Or.inl hox)
      obtain ⟨m, hm, hok, -⟩ := h.kernel.vmm hv
      have hset := @hset
      simp only [World.step, if_pos ho, ← hq.k, deref_some hv, deref_some hm, bind, Except.bind] at hset ⊢
      rcases vmVmmFault_cases hok address vmStart ask with he | ⟨r, s', he, -⟩
      · exact Or.inl (by simp only [he])
      · refine Or.inr ⟨_, _, by simp only [he]; rfl, Leads.step (.fault vm address vmStart ask) ?_, hset⟩
        simp only [Sys.step, if_pos hox, deref_some hv, deref_some hm, he, bind, Except.bind]
    · simp only [World.step, if_neg ho]; exact hnop
  | closeVm vm =>
    by_cases ho : vm ∈ w.vmFiles
    · exact Or.inr (closeVm_returns h hq ho)
    · simp only [World.step, if_neg ho]; exact hnop
  | closeVcpu vcpu =>
    by_cases hc : vcpu ∈ w.vcpuFiles
    · exact Or.inr (closeVcpu_returns h hq hc)
    · simp only [World.step, if_neg hc]; exact hnop

theorem World.run_cons {op : Op} {ops : List Op} :
    w.run nasid (op :: ops) = (w.step nasid op >>= fun w₁ => w₁.run nasid ops) := List.foldlM_cons ..

/-- A run after its first request. -/
theorem World.run_step {w₁ : World} {op : Op} (h : w.step nasid op = .ok w₁) (ops : List Op) :
    w.run nasid (op :: ops) = w₁.run nasid ops := by
  rw [World.run_cons, h]
  rfl

theorem World.run_after {w₁ : World} {ops : List Op} (h : w.run nasid ops = .ok w₁) (ops' : List Op) :
    w.run nasid (ops ++ ops') = w₁.run nasid ops' := by
  unfold World.run at h ⊢
  rw [List.foldlM_append, h]
  rfl

/-- **Runs of requests are runs of the machine**, and end in a panic if in any error. -/
theorem World.run_simulates (ops : List Op) : ∀ (x : Sys) (w : World), SysOK x → Quiet x w →
    Simulates nasid x (w.run nasid ops) := by
  induction ops with
  | nil => intro x w _ hq; exact Or.inr ⟨w, x, rfl, ⟨[], rfl⟩, hq⟩
  | cons op ops ih =>
    intro x w h hq
    rw [World.run_cons]
    rcases World.step_simulates h hq op with he | ⟨w₁, x₁, he, hl, hq₁⟩
    · exact Or.inl (by rw [he]; rfl)
    · rw [he]
      rcases ih x₁ w₁ (hl.ok h) hq₁ with hr | ⟨w', x', hr, hl', hq'⟩
      · exact Or.inl hr
      · exact Or.inr ⟨w', x', hr, hl.trans hl', hq'⟩

/-- The invariant holds in every state that a run of requests reaches. -/
theorem World.run_ok {mem : Frame → Slot → Word} {pages : Finset Frame} {ops : List Op}
    (h : (World.init mem pages).run nasid ops = .ok w) : ∃ x, SysOK x ∧ Quiet x w := by
  have hinit := SysOK.init mem pages
  have hq : Quiet (Sys.init mem pages) (World.init mem pages) := ⟨rfl, rfl, rfl, rfl, by simp [Sys.init]⟩
  have hsim : Simulates nasid (Sys.init mem pages) ((World.init mem pages).run nasid ops) :=
    World.run_simulates ops _ _ hinit hq
  rcases hsim with he | ⟨w', x', he, hl, hq'⟩
  · rw [he] at h; simp at h
  · rw [he] at h
    obtain rfl := Except.ok.inj h
    exact ⟨x', hl.ok hinit, hq'⟩

/-! ## Roles -/

/-- The allocations of a vcpu. -/
inductive Part
  | state
  | iopm
  | hsave
  | hvmcb
  | gvmcb
  deriving DecidableEq

/-- The pages of one allocation. -/
def Vcpu.part (vc : Vcpu) : Part → List Frame
  | .state => [vc.state]
  | .iopm => block vc.iopm iopmOrder
  | .hsave => [vc.hsave]
  | .hvmcb => [vc.hvmcb]
  | .gvmcb => [vc.gvmcb]

/-- What a page is used for, and by which object. -/
inductive Role
  | table (vm : ℕ)
  | leaf (vm : ℕ)
  | vcpu (vcpu : ℕ) (part : Part)
  deriving DecidableEq

/-- The object that uses a page in this role. -/
def Role.owner : Role → Owner
  | .table o => .vm o
  | .leaf o => .vm o
  | .vcpu c _ => .vcpu c

/-- The page `f` has a role. Table pages are those of the levels above the last. -/
def Kernel.HasRole (k : Kernel) : Role → Frame → Prop
  | .table o, f => ∃ v m q, k.vms o = some v ∧ k.vmms v.vmm = some m ∧ q.length < 4 ∧
      nodeAt k.phys (vmmPhysToVirt m.ncr3) q = some f
  | .leaf o, f => ∃ v m q, k.vms o = some v ∧ k.vmms v.vmm = some m ∧ q.length = 4 ∧
      nodeAt k.phys (vmmPhysToVirt m.ncr3) q = some f
  | .vcpu c part, f => ∃ vc, k.vcpus c = some vc ∧ f ∈ vc.part part

variable {k : Kernel} {f : Frame} {a b : Role}

/-- All the allocations together. -/
theorem Vcpu.pages_eq (vc : Vcpu) :
    vc.pages = [Part.state, .iopm, .hsave, .hvmcb, .gvmcb].flatMap vc.part := by
  simp [Vcpu.pages, Vcpu.part]

theorem Part.mem_all (p : Part) : p ∈ [Part.state, .iopm, .hsave, .hvmcb, .gvmcb] := by
  cases p <;> simp

theorem Vcpu.part_subset {vc : Vcpu} {p : Part} (h : f ∈ vc.part p) : f ∈ vc.pages := by
  rw [Vcpu.pages_eq]
  exact List.mem_flatMap.2 ⟨p, p.mem_all, h⟩

theorem Vcpu.part_unique {vc : Vcpu} {p q : Part} (hnd : vc.pages.Nodup) (hp : f ∈ vc.part p)
    (hq : f ∈ vc.part q) : p = q := by
  rw [Vcpu.pages_eq, List.nodup_flatMap] at hnd
  by_contra hne
  have hsymm : Std.Symm (Function.onFun List.Disjoint vc.part) := ⟨fun _ _ h => h.symm⟩
  have hdis := hnd.2.forall p.mem_all q.mem_all hne
  exact hdis hp hq

theorem Kernel.HasRole.holds (h : k.HasRole a f) : k.Holds a.owner f := by
  cases a with
  | table o =>
    obtain ⟨v, m, q, hv, hm, hq, hn⟩ := h
    exact ⟨v, m, q, hv, hm, hq.le, hn⟩
  | leaf o =>
    obtain ⟨v, m, q, hv, hm, hq, hn⟩ := h
    exact ⟨v, m, q, hv, hm, hq.le, hn⟩
  | vcpu c p =>
    obtain ⟨vc, hvc, hf⟩ := h
    exact ⟨vc, hvc, Vcpu.part_subset hf⟩

/-- No page is a table and a leaf of one vm. -/
theorem KernelOK.not_table_leaf {o : ℕ} (hk : KernelOK k) (ht : k.HasRole (.table o) f) :
    ¬ k.HasRole (.leaf o) f := by
  rintro ⟨v', m', q, hv', hm', hq, hn'⟩
  obtain ⟨v, m, p, hv, hm, hp, hn⟩ := ht
  obtain rfl := Option.some.inj (hv'.symm.trans hv)
  obtain rfl := Option.some.inj (hm'.symm.trans hm)
  obtain ⟨m₁, hm₁, hok, -⟩ := hk.vmm hv
  obtain rfl := Option.some.inj (hm₁.symm.trans hm)
  have heq := hok.tree p q f hp.le hq.le hn hn'
  subst heq
  omega

/-- **A page has one owner and one role.** -/
theorem KernelOK.role_unique (hk : KernelOK k) (ha : k.HasRole a f) (hb : k.HasRole b f) : a = b := by
  have howner := hk.apart _ _ f ha.holds hb.holds
  cases a with
  | table o =>
    cases b with
    | table o' => cases howner; rfl
    | leaf o' => cases howner; exact absurd hb (hk.not_table_leaf ha)
    | vcpu c p => cases howner
  | leaf o =>
    cases b with
    | table o' => cases howner; exact absurd ha (hk.not_table_leaf hb)
    | leaf o' => cases howner; rfl
    | vcpu c p => cases howner
  | vcpu c p =>
    cases b with
    | table o' => cases howner
    | leaf o' => cases howner
    | vcpu c' q =>
      cases howner
      obtain ⟨vc, hvc, hf⟩ := ha
      obtain ⟨vc', hvc', hf'⟩ := hb
      obtain rfl := Option.some.inj (hvc'.symm.trans hvc)
      rw [Vcpu.part_unique (hk.valid (.vcpu c) _ hvc).1 hf hf']

/-! ## Walks -/

/-- **A walk stays inside the vm.** It reads table pages of the vm and finds a leaf page of
the vm, or nothing. -/
theorem KernelOK.walk_inside {o : ℕ} {v : Vm} {m : Vmm} (hk : KernelOK k) (hv : k.vms o = some v)
    (hm : k.vmms v.vmm = some m) (acc : Access) (gpa : Word) :
    (∀ t ∈ (hwWalk k.phys.mem acc gpa 4 m.ncr3).1, k.HasRole (.table o) t) ∧
    ((hwWalk k.phys.mem acc gpa 4 m.ncr3).2 = .fault ∨
      ∃ f, (hwWalk k.phys.mem acc gpa 4 m.ncr3).2 = .page f ∧ k.HasRole (.leaf o) f) := by
  obtain ⟨m', hm', hok, -⟩ := hk.vmm hv
  obtain rfl := Option.some.inj (hm'.symm.trans hm)
  obtain ⟨htab, hend⟩ := hwWalk_spec hok acc 4 [] m'.ncr3 (pathFrom_four gpa) nodeAt_nil (by simp)
  refine ⟨?_, ?_⟩
  · intro t ht
    obtain ⟨q, hq, hn⟩ := htab t ht
    exact ⟨v, m', q, hv, hm, hq, hn⟩
  · rw [hend]
    split
    · exact Or.inl rfl
    · cases hn : nodeAt k.phys (vmmPhysToVirt m'.ncr3) (path gpa) with
      | none => exact Or.inl rfl
      | some f => exact Or.inr ⟨f, rfl, v, m', path gpa, hv, hm, path_length gpa, hn⟩

/-- **Isolation.** In every state that a run of requests reaches, a page has at most one
owner and role, and a page with a role is allocated. A hardware walk from the `nested_cr3` in
the control block of a live vm's vcpu reads only table pages of that vm, and ends, if it does
not fault, in a leaf page of that vm. -/
theorem isolation {mem : Frame → Slot → Word} {pages : Finset Frame} {ops : List Op}
    (h : (World.init mem pages).run nasid ops = .ok w) :
    (∀ f a b, w.k.HasRole a f → w.k.HasRole b f → a = b) ∧
    (∀ f a, w.k.HasRole a f → f ∈ w.k.phys.pages) ∧
    (∀ o v c, w.k.vms o = some v → v.vcpu = some c → ∃ vc, w.k.vcpus c = some vc ∧ vc.vm = o ∧
      ∀ acc gpa, let walk := hwWalk w.k.phys.mem acc gpa 4 (w.k.phys.mem vc.gvmcb nestedCr3)
        (∀ t ∈ walk.1, w.k.HasRole (.table o) t) ∧
        (walk.2 = .fault ∨ ∃ f, walk.2 = .page f ∧ w.k.HasRole (.leaf o) f)) := by
  obtain ⟨x, hx, hq⟩ := World.run_ok h
  have hk : KernelOK w.k := hq.k ▸ hx.kernel
  refine ⟨fun f a b ha hb => hk.role_unique ha hb, fun f a ha => hk.live ha.holds, ?_⟩
  intro o v c hv hvc
  obtain ⟨vc, hc, hvm⟩ := hx.vcpu o v c (by rw [hq.k]; exact hv) hvc
  rw [hq.k] at hc
  obtain ⟨m, hm, -⟩ := hk.vmm hv
  have hcr3 : w.k.phys.mem vc.gvmcb nestedCr3 = m.ncr3 :=
    (hk.valid (.vcpu c) vc hc).2.2 v m (by rw [hvm]; exact hv) hm
  refine ⟨vc, hc, hvm, ?_⟩
  intro acc gpa
  rw [hcr3]
  exact hk.walk_inside hv hm acc gpa

/-- The answers of an allocator for a vcpu: the frames 7 to 10, and the block at 12. -/
def vcpuAsk : VcpuAsk := ⟨true, some 7, some 8, some 9, some 10, some 12⟩

theorem allocPage_free {s : Phys} (h : f ∉ s.pages) :
    ∃ s', s.allocPage (some f) = some (f, s') ∧ s'.pages = insert f s.pages := ⟨_, Phys.allocPage_fresh h, rfl⟩

/-- `yakvm_create_vcpu` when every allocation succeeds. -/
theorem createVcpu_allocated {vm c : ℕ} {v : Vm} {m : Vmm} {a : VcpuAsk} {gvmcb hvmcb hsave state iopm : Frame}
    {s₁ s₂ s₃ s₄ s₅ s₆ : Phys} (hv : k.vms vm = some v) (hm : k.vmms v.vmm = some m)
    (h₁ : k.phys.kmalloc a.vcpu = some (c, s₁)) (h₂ : s₁.allocPage a.gvmcb = some (gvmcb, s₂))
    (h₃ : s₂.allocPage a.hvmcb = some (hvmcb, s₃)) (h₄ : s₃.allocPage a.hsave = some (hsave, s₄))
    (h₅ : s₄.allocPage a.state = some (state, s₅)) (h₆ : s₅.allocPages iopmOrder a.iopm = some (iopm, s₆))
    (hasid : k.asid + 1 < nasid) : ∃ k', createVcpu nasid a vm k = .ok (.ok c, k') ∧
      k'.vcpus c = some ⟨gvmcb, hvmcb, hsave, iopm, state, vm⟩ := by
  obtain ⟨s₇, h₇, -⟩ := (vcpuInitVmcb_asid nasid ⟨gvmcb, hvmcb, hsave, iopm, state, vm⟩ m.ncr3 k.asid s₆).1 hasid
  unfold createVcpu
  simp only [h₁, h₂, h₃, h₄, h₅, h₆, h₇, deref_some hv, deref_some hm, bind, Except.bind]
  exact ⟨_, rfl, Function.update_self ..⟩

/-- With these frames free, `yakvm_create_vcpu` succeeds. -/
theorem createVcpu_returns {vm : ℕ} {v : Vm} {m : Vmm} (hv : k.vms vm = some v) (hm : k.vmms v.vmm = some m)
    (hfree : ∀ f ∈ ([7, 8, 9, 10, 12, 13, 14, 15] : List Frame), f ∉ k.phys.pages) (hasid : k.asid + 1 < nasid) :
    ∃ k', createVcpu nasid vcpuAsk vm k = .ok (.ok k.phys.next, k') ∧
      k'.vcpus k.phys.next = some ⟨7, 8, 9, 12, 10, vm⟩ := by
  have hblock : block 12 iopmOrder = [12, 13, 14, 15] := by decide
  set s₁ : Phys := { k.phys with slab := insert k.phys.next k.phys.slab, next := k.phys.next + 1 } with hs₁
  have hkm : k.phys.kmalloc true = some (k.phys.next, s₁) := rfl
  have h₁ : s₁.pages = k.phys.pages := rfl
  obtain ⟨s₂, ha₂, h₂⟩ := allocPage_free (s := s₁) (f := 7) (by rw [h₁]; exact hfree 7 (by decide))
  obtain ⟨s₃, ha₃, h₃⟩ := allocPage_free (s := s₂) (f := 8) (by
    rw [h₂, h₁, Finset.mem_insert, not_or]; exact ⟨by decide, hfree 8 (by decide)⟩)
  obtain ⟨s₄, ha₄, h₄⟩ := allocPage_free (s := s₃) (f := 9) (by
    simp only [h₃, h₂, h₁, Finset.mem_insert, not_or]; exact ⟨by decide, by decide, hfree 9 (by decide)⟩)
  obtain ⟨s₅, ha₅, h₅⟩ := allocPage_free (s := s₄) (f := 10) (by
    simp only [h₄, h₃, h₂, h₁, Finset.mem_insert, not_or]
    exact ⟨by decide, by decide, by decide, hfree 10 (by decide)⟩)
  have hiopm : (12 : Frame).toNat % 2 ^ iopmOrder = 0 ∧ ∀ g ∈ block 12 iopmOrder, g ∉ s₅.pages := by
    refine ⟨by decide, ?_⟩
    intro g hg
    rw [hblock] at hg
    have hg' : g ∈ ([7, 8, 9, 10, 12, 13, 14, 15] : List Frame) := by
      simp only [List.mem_cons] at hg ⊢; tauto
    simp only [h₅, h₄, h₃, h₂, h₁, Finset.mem_insert, not_or]
    refine ⟨?_, ?_, ?_, ?_, hfree g hg'⟩ <;>
    · rintro rfl
      revert hg
      decide
  obtain ⟨s₆, ha₆⟩ : ∃ s₆, s₅.allocPages iopmOrder (some 12) = some (12, s₆) := by
    unfold Phys.allocPages
    simp only [if_pos hiopm]
    exact ⟨_, rfl⟩
  exact createVcpu_allocated hv hm hkm ha₂ ha₃ ha₄ ha₅ ha₆ hasid

/-- `YAKVM_CREATE_VCPU` on a vm without a vcpu, when every allocation succeeds. -/
theorem createVcpu_installs {vm : ℕ} {v : Vm} {a : VcpuAsk} {k' : Kernel} (fd : ℕ) (hf : vm ∈ w.vmFiles)
    (hv : w.k.vms vm = some v) (hnone : v.vcpu = none) (hc : createVcpu nasid a vm w.k = .ok (.ok w.k.phys.next, k')) :
    ∃ w' v', w.step nasid (.createVcpu vm a (.ok fd)) = .ok w' ∧ w'.k.vms vm = some v' ∧
      v'.vcpu = some w.k.phys.next ∧ w'.vcpuFiles = insert w.k.phys.next w.vcpuFiles := by
  obtain ⟨-, -, -, -, -, -, -, -, -, -, hsame⟩ := createVcpu_returned hc
  have hvms : k'.vms vm = some v := by rw [hsame, hv]
  have hset : setVcpu vm (some w.k.phys.next) k' =
      .ok { k' with vms := Function.update k'.vms vm (some { v with vcpu := some w.k.phys.next }) } := by
    simp only [setVcpu, deref_some hvms, bind, Except.bind]
  set k₂ : Kernel := { k' with vms := Function.update k'.vms vm (some { v with vcpu := some w.k.phys.next }) }
  have hv₂ : k₂.vms vm = some { v with vcpu := some w.k.phys.next } := Function.update_self ..
  simp only [World.step, if_pos hf, vmIoctlCreateVcpu, hc, deref_some hvms, hnone, hset, getVm, deref_some hv₂, bind,
    Except.bind, Option.isSome_none, Bool.false_eq_true, if_false]
  exact ⟨_, _, rfl, Function.update_self .., rfl, rfl⟩

/-- A vm is created. -/
theorem firstVm (nasid : BitVec 32) : ∃ w v m,
    (World.init (fun _ _ => 0) ∅).step nasid (.createVm ⟨some 0x1000, countingAsk⟩ (.ok 3)) = .ok w ∧
      w.k.vms 0 = some v ∧ v.vcpu = none ∧ w.k.vmms v.vmm = some m ∧ w.vmFiles = {0} ∧ w.vcpuFiles = ∅ ∧ w.k.asid = 1 ∧
      w.k.phys.pages = {1, 2, 3, 4, 5} ∧ (∀ c, w.k.vcpus c = none) ∧ KernelOK w.k := by
  obtain ⟨w, v, m, hw, hv, hnone, hm, hfiles, hvcpus, hasid, hpages, hdead⟩ : ∃ w v m,
      (World.init (fun _ _ => 0) ∅).step nasid (.createVm ⟨some 0x1000, countingAsk⟩ (.ok 3)) = .ok w ∧
        w.k.vms 0 = some v ∧ v.vcpu = none ∧ w.k.vmms v.vmm = some m ∧ w.vmFiles = {0} ∧ w.vcpuFiles = ∅ ∧
        w.k.asid = 1 ∧ w.k.phys.pages = {1, 2, 3, 4, 5} ∧ ∀ c, w.k.vcpus c = none :=
    ⟨_, _, _, rfl, rfl, rfl, rfl, by decide, rfl, rfl, by decide +kernel, fun _ => rfl⟩
  have hrun : (World.init (fun _ _ => 0) ∅).run nasid [.createVm ⟨some 0x1000, countingAsk⟩ (.ok 3)] = .ok w :=
    World.run_step hw []
  obtain ⟨x, hx, hq⟩ := World.run_ok hrun
  exact ⟨w, v, m, hw, hv, hnone, hm, hfiles, hvcpus, hasid, hpages, hdead, hq.k ▸ hx.kernel⟩

/-- A vm is created and given a vcpu. -/
theorem firstVcpu (nasid : BitVec 32) (h : 2 < nasid) : ∃ w₀ w v c,
    (World.init (fun _ _ => 0) ∅).step nasid (.createVm ⟨some 0x1000, countingAsk⟩ (.ok 3)) = .ok w₀ ∧
      w₀.vmFiles = {0} ∧ w₀.step nasid (.createVcpu 0 vcpuAsk (.ok 4)) = .ok w ∧
      w.k.vms 0 = some v ∧ v.vcpu = some c ∧ w.vcpuFiles = {c} := by
  obtain ⟨w₀, v₀, m, hw₀, hv₀, hnone, hm, hfiles, hvcpus, hasid, hpages, -⟩ := firstVm nasid
  obtain ⟨k', hk', -⟩ :=
    createVcpu_returns hv₀ hm (by rw [hpages]; simp) (by rw [hasid]; exact h)
  obtain ⟨w, v, hw, hv, hvc, hset⟩ := createVcpu_installs (w := w₀) 4 (by rw [hfiles]; simp) hv₀ hnone hk'
  exact ⟨w₀, w, v, _, hw₀, hfiles, hw, hv, hvc, by rw [hset, hvcpus]; rfl⟩

/-- A vm is created and given a vcpu. A walk from the vcpu's control block reads tables of
the vm, which are not leaves. -/
theorem isolation_run : ∃ w v c vc, (World.init (fun _ _ => 0) ∅).run 16
      [.createVm ⟨some 0x1000, countingAsk⟩ (.ok 3), .createVcpu 0 vcpuAsk (.ok 4)] = .ok w ∧
    w.k.vms 0 = some v ∧ v.vcpu = some c ∧ w.k.vcpus c = some vc ∧
    ∀ t ∈ (hwWalk w.k.phys.mem .write 0x1000 4 (w.k.phys.mem vc.gvmcb nestedCr3)).1,
      w.k.HasRole (.table 0) t ∧ ¬ w.k.HasRole (.leaf 0) t := by
  obtain ⟨w₀, w, v, c, hw₀, -, hw, hv, hvc, -⟩ := firstVcpu 16 (by decide)
  have hrun : (World.init (fun _ _ => 0) ∅).run 16
      [.createVm ⟨some 0x1000, countingAsk⟩ (.ok 3), .createVcpu 0 vcpuAsk (.ok 4)] = .ok w := by
    rw [World.run_step hw₀, World.run_step hw]
    rfl
  obtain ⟨hrole, -, hwalk⟩ := isolation hrun
  obtain ⟨vc, hc, -, hin⟩ := hwalk 0 v _ hv hvc
  refine ⟨w, v, _, vc, hrun, hv, hvc, hc, ?_⟩
  intro t ht
  have htable := (hin .write 0x1000).1 t ht
  exact ⟨htable, fun hleaf => by simpa using hrole t _ _ htable hleaf⟩

end Yakvm
