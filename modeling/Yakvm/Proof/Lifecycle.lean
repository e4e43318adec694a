import Yakvm.Proof.Objects
import Yakvm.Spec.Lifecycle

/-!
# The lifecycle of vms and vcpus

`SysOK` is what every interleaving of requests and releases keeps: the ownership invariant,
the reference count as the number of holders, and, for every request in flight, what it
may assume of the vcpu it holds.

* `SysOK.ofReq`: a step of a request, from what it does to the vm and to its own vcpu.
* `SysOK.dropShared`, `SysOK.dropLast`: a reference goes away, and the vm with it if it was
  the last one.
* `SysOK.run`: every run from the initial state keeps the invariant, or panics.
-/

namespace Yakvm

/-- The vcpu a request holds. -/
def Stage.vcpu : Stage → Option ℕ
  | .start => none
  | .allocated c => some c
  | .published c => some c
  | .got c => some c
  | .failed c => some c
  | .cleared c => some c
  | .put c => some c
  | .refused c => some c
  | .finished => none

/-- Whether the vcpu of the request is the one in `vm->vcpu`. -/
def Stage.isPublished : Stage → Bool
  | .published _ => true
  | .got _ => true
  | .failed _ => true
  | _ => false

/-- Whether the request has done `yakvm_get_vm`, and neither had its file installed nor done
`yakvm_put_vm`. -/
def Stage.holds : Stage → Bool
  | .got _ => true
  | .failed _ => true
  | .cleared _ => true
  | _ => false

/-- The references that requests hold on a vm. -/
def reqRefs (reqs : List Req) (o : ℕ) : ℕ := reqs.countP fun r => decide (r.vm = o) && r.stage.holds

/-- The reference of the vm's file, or of the request that has yet to install it. -/
def Sys.fileRef (x : Sys) (o : ℕ) : ℕ := if o ∈ x.vmFiles ∨ o ∈ x.opening then 1 else 0

/-- The reference of a vcpu's file. -/
def vcpuRef (files : Finset ℕ) : Option ℕ → ℕ
  | some c => if c ∈ files then 1 else 0
  | none => 0

/-- The calls that open a file of a vcpu of `o`. -/
def Call.opens (o : ℕ) : Call → Bool
  | .openVcpu vm _ => decide (vm = o)
  | _ => false

/-- What a request may assume of the vcpu it holds. -/
structure ReqOK (x : Sys) (r : Req) (c : ℕ) : Prop where
  closed : c ∉ x.vcpuFiles
  live : ∃ vc, x.k.vcpus c = some vc ∧ vc.vm = r.vm
  shown : ∀ v, x.k.vms r.vm = some v → (r.stage.isPublished = true ↔ v.vcpu = some c)

/-- **The lifecycle invariant.** -/
structure SysOK (x : Sys) : Prop where
  kernel : KernelOK x.k
  files : ∀ o, o ∈ x.vmFiles ∨ o ∈ x.opening → ∃ v, x.k.vms o = some v
  once : ∀ o, o ∈ x.vmFiles → o ∉ x.opening
  quiet : ∀ o v, o ∈ x.opening → x.k.vms o = some v → v.vcpu = none
  vcpu : ∀ o v c, x.k.vms o = some v → v.vcpu = some c → ∃ vc, x.k.vcpus c = some vc ∧ vc.vm = o
  vcpuFile : ∀ c, c ∈ x.vcpuFiles → ∃ vc v, x.k.vcpus c = some vc ∧ x.k.vms vc.vm = some v ∧ v.vcpu = some c
  inFlight : ∀ (i : ℕ) (r : Req), x.reqs[i]? = some r → r.stage ≠ .finished → r.vm ∈ x.vmFiles
  req : ∀ (i : ℕ) (r : Req) c, x.reqs[i]? = some r → r.stage.vcpu = some c → ReqOK x r c
  apart : ∀ (i j : ℕ) (r r' : Req) c, x.reqs[i]? = some r → x.reqs[j]? = some r' → r.stage.vcpu = some c →
    r'.stage.vcpu = some c → i = j
  count : ∀ o v, x.k.vms o = some v →
    v.refcount = x.fileRef o + vcpuRef x.vcpuFiles v.vcpu + reqRefs x.reqs o ∧ 0 < v.refcount
  old : ∀ o, .createVm o ∈ x.log → o < x.k.phys.next
  known : ∀ o v, x.k.vms o = some v → .createVm o ∈ x.log
  destroyed : ∀ o, x.log.count (.destroyVm o) = if .createVm o ∈ x.log ∧ x.k.vms o = none then 1 else 0
  opened : ∀ o, x.log.countP (Call.opens o) ≤ 1
  settled : ∀ o v, x.k.vms o = some v → 0 < x.log.countP (Call.opens o) →
    ∃ c, v.vcpu = some c ∧ ∀ (i : ℕ) (r : Req), x.reqs[i]? = some r → r.stage.vcpu ≠ some c
  unopened : ∀ o, 0 < x.log.countP (Call.opens o) → .createVm o ∈ x.log

variable {x : Sys} {k' : Kernel} {o i : ℕ} {r : Req}

theorem SysOK.init (mem : Frame → Slot → Word) (pages : Finset Frame) : SysOK (Sys.init mem pages) where
  kernel := by
    refine ⟨⟨by simp [Sys.init], by simp [Sys.init], by simp [Sys.init], by simp [Sys.init], by simp [Sys.init]⟩, ?_, ?_⟩
    · intro x; cases x <;> simp [Kernel.Valid, Sys.init]
    · intro x y f hx; cases x <;> simp [Kernel.Holds, Sys.init] at hx
  files := by simp [Sys.init]
  once := by simp [Sys.init]
  quiet := by simp [Sys.init]
  vcpu := by simp [Sys.init]
  vcpuFile := by simp [Sys.init]
  inFlight := by simp [Sys.init]
  req := by simp [Sys.init]
  apart := by simp [Sys.init]
  count := by simp [Sys.init]
  old := by simp [Sys.init]
  known := by simp [Sys.init]
  destroyed := by simp [Sys.init]
  opened := by simp [Sys.init]
  settled := by simp [Sys.init]
  unopened := by simp [Sys.init]

/-! ## Steps that change no object -/

theorem SysOK.setKernel (h : SysOK x) (hk : KernelOK k') (hvms : k'.vms = x.k.vms) (hvcpus : k'.vcpus = x.k.vcpus)
    (hnext : x.k.phys.next ≤ k'.phys.next) : SysOK { x with k := k' } where
  kernel := hk
  files := by simp only [hvms]; exact h.files
  once := h.once
  quiet := by simp only [hvms]; exact h.quiet
  vcpu := by simp only [hvms, hvcpus]; exact h.vcpu
  vcpuFile := by simp only [hvms, hvcpus]; exact h.vcpuFile
  inFlight := h.inFlight
  req := by
    intro i r c hi hc
    obtain ⟨h1, h2, h3⟩ := h.req i r c hi hc
    exact ⟨h1, by simp only [hvcpus]; exact h2, by simp only [hvms]; exact h3⟩
  apart := h.apart
  count := by simp only [hvms]; exact h.count
  old := fun o ho => (h.old o ho).trans_le hnext
  known := by simp only [hvms]; exact h.known
  destroyed := by simp only [hvms]; exact h.destroyed
  opened := h.opened
  settled := by simp only [hvms]; exact h.settled
  unopened := h.unopened

/-! ## Steps of a request -/

theorem reqRefs_set {reqs : List Req} (hi : reqs[i]? = some r) (stage : Stage) (o : ℕ) :
    reqRefs (reqs.set i ⟨r.vm, stage⟩) o + (if r.vm = o then r.stage.holds.toNat else 0) =
      reqRefs reqs o + (if r.vm = o then stage.holds.toNat else 0) := by
  induction reqs generalizing i with
  | nil => simp at hi
  | cons a reqs ih =>
    cases i with
    | zero =>
      obtain rfl : a = r := by simpa using hi
      unfold reqRefs
      simp only [List.set_cons_zero, List.countP_cons]
      by_cases ho : a.vm = o
      · cases a.stage.holds <;> cases stage.holds <;> simp [ho]
      · simp [ho]
    | succ i =>
      have := ih (i := i) (by simpa using hi)
      unfold reqRefs at this ⊢
      simp only [List.set_cons_succ, List.countP_cons]
      omega

/-- What a step of the request `r` does: to the record of its vm, to one vcpu `own`, to the
files of vcpus and to the log. -/
structure ReqStep (x : Sys) (i : ℕ) (r : Req) (own : ℕ) (v v' : Vm) (stage : Stage) (x' : Sys) : Prop where
  here : x.reqs[i]? = some r
  active : r.stage ≠ .finished
  vm : x.k.vms r.vm = some v
  kernel : KernelOK x'.k
  next : x.k.phys.next ≤ x'.k.phys.next
  vms : x'.k.vms = Function.update x.k.vms r.vm (some v')
  vcpus : ∀ c, c ≠ own → x'.k.vcpus c = x.k.vcpus c
  opening : x'.opening = x.opening
  vmFiles : x'.vmFiles = x.vmFiles
  vcpuFiles : ∀ c, c ≠ own → (c ∈ x'.vcpuFiles ↔ c ∈ x.vcpuFiles)
  reqs : x'.reqs = x.reqs.set i ⟨r.vm, stage⟩
  /-- no other request and no other vm knows `own` -/
  mine : ∀ (j : ℕ) (r' : Req), x.reqs[j]? = some r' → r'.stage.vcpu = some own → j = i
  ofVm : ∀ vc, x.k.vcpus own = some vc → vc.vm = r.vm
  shown : ∀ c, c ≠ own → (v'.vcpu = some c ↔ v.vcpu = some c)
  live : v'.vcpu = some own → ∃ vc, x'.k.vcpus own = some vc ∧ vc.vm = r.vm
  file : own ∈ x'.vcpuFiles → v'.vcpu = some own
  held : ∀ c, stage.vcpu = some c → c = own ∧ own ∉ x'.vcpuFiles ∧
    (∃ vc, x'.k.vcpus own = some vc ∧ vc.vm = r.vm) ∧ (stage.isPublished = true ↔ v'.vcpu = some own)
  count : v'.refcount + r.stage.holds.toNat + vcpuRef x.vcpuFiles v.vcpu =
    v.refcount + stage.holds.toNat + vcpuRef x'.vcpuFiles v'.vcpu
  pos : 0 < v'.refcount
  created : ∀ o, .createVm o ∈ x'.log ↔ .createVm o ∈ x.log
  destroyed : ∀ o, x'.log.count (.destroyVm o) = x.log.count (.destroyVm o)
  opens : ∀ o, o ≠ r.vm → x'.log.countP (Call.opens o) = x.log.countP (Call.opens o)
  opened : x'.log.countP (Call.opens r.vm) ≤ 1
  settled : 0 < x'.log.countP (Call.opens r.vm) →
    ∃ c, v'.vcpu = some c ∧ stage.vcpu ≠ some c ∧ ∀ (j : ℕ) (r' : Req), j ≠ i → x.reqs[j]? = some r' → r'.stage.vcpu ≠ some c

section ReqStep

variable {own : ℕ} {v v' : Vm} {stage : Stage} {x' : Sys}

/-- A vcpu that a vm other than the request's shows is not the request's. -/
theorem ReqStep.other (h : SysOK x) (hr : ReqStep x i r own v v' stage x') {u : Vm} {c : ℕ}
    (ho : o ≠ r.vm) (hu : x.k.vms o = some u) (hc : u.vcpu = some c) : c ≠ own := by
  rintro rfl
  obtain ⟨vc, h1, h2⟩ := h.vcpu o u c hu hc
  exact ho (h2.symm.trans (hr.ofVm vc h1))

theorem ReqStep.vm_eq (hr : ReqStep x i r own v v' stage x') {u : Vm} (hu : x'.k.vms o = some u) :
    (o = r.vm ∧ u = v') ∨ (o ≠ r.vm ∧ x.k.vms o = some u) := by
  rw [hr.vms] at hu
  by_cases ho : o = r.vm
  · subst ho
    rw [Function.update_self] at hu
    exact Or.inl ⟨rfl, (Option.some.inj hu).symm⟩
  · rw [Function.update_of_ne ho] at hu
    exact Or.inr ⟨ho, hu⟩

theorem ReqStep.req_eq (hr : ReqStep x i r own v v' stage x') {j : ℕ} {r' : Req} (hj : x'.reqs[j]? = some r') :
    (j = i ∧ r' = ⟨r.vm, stage⟩) ∨ (j ≠ i ∧ x.reqs[j]? = some r') := by
  rw [hr.reqs, List.getElem?_set] at hj
  by_cases hji : i = j
  · subst hji
    rw [if_pos rfl] at hj
    split at hj
    · exact Or.inl ⟨rfl, (Option.some.inj hj).symm⟩
    · simp at hj
  · rw [if_neg hji] at hj
    exact Or.inr ⟨Ne.symm hji, hj⟩

/-- The reference of a vcpu file does not change for a vcpu that is not the request's. -/
theorem ReqStep.vcpuRef_eq (hr : ReqStep x i r own v v' stage x') {d : Option ℕ} (hd : ∀ c, d = some c → c ≠ own) :
    vcpuRef x'.vcpuFiles d = vcpuRef x.vcpuFiles d := by
  cases d with
  | none => rfl
  | some c =>
    unfold vcpuRef
    simp only [hr.vcpuFiles c (hd c rfl)]

/-- **A step of a request keeps the invariant.** -/
theorem SysOK.ofReq (h : SysOK x) (hr : ReqStep x i r own v v' stage x') : SysOK x' := by
  have hfile : r.vm ∈ x.vmFiles := h.inFlight i r hr.here hr.active
  have hnone : ∀ o, (x'.k.vms o = none ↔ x.k.vms o = none) := by
    intro o
    rw [hr.vms]
    by_cases ho : o = r.vm
    · subst ho; rw [Function.update_self, hr.vm]; simp
    · rw [Function.update_of_ne ho]
  constructor
  case kernel => exact hr.kernel
  case files =>
    intro o ho
    rw [hr.vmFiles, hr.opening] at ho
    obtain ⟨u, hu⟩ := h.files o ho
    exact Option.ne_none_iff_exists'.1 (fun hn => by rw [(hnone o).1 hn] at hu; simp at hu)
  case once => rw [hr.vmFiles, hr.opening]; exact h.once
  case quiet =>
    intro o u ho hu
    rw [hr.opening] at ho
    rcases hr.vm_eq hu with ⟨rfl, -⟩ | ⟨-, hu⟩
    · exact absurd ho (h.once _ hfile)
    · exact h.quiet o u ho hu
  case vcpu =>
    intro o u c hu hc
    rcases hr.vm_eq hu with ⟨rfl, rfl⟩ | ⟨ho, hu⟩
    · by_cases hco : c = own
      · subst hco; exact hr.live hc
      · rw [hr.vcpus c hco]
        exact h.vcpu _ v c hr.vm ((hr.shown c hco).1 hc)
    · rw [hr.vcpus c (hr.other h ho hu hc)]
      exact h.vcpu o u c hu hc
  case vcpuFile =>
    intro c hc
    by_cases hco : c = own
    · subst hco
      obtain ⟨vc, h1, h2⟩ := hr.live (hr.file hc)
      exact ⟨vc, v', h1, by rw [h2, hr.vms, Function.update_self], hr.file hc⟩
    · obtain ⟨vc, u, h1, h2, h3⟩ := h.vcpuFile c ((hr.vcpuFiles c hco).1 hc)
      rw [hr.vcpus c hco, hr.vms]
      by_cases ho : vc.vm = r.vm
      · rw [ho, hr.vm] at h2
        obtain rfl := Option.some.inj h2
        exact ⟨vc, v', h1, by rw [ho, Function.update_self], (hr.shown c hco).2 h3⟩
      · exact ⟨vc, u, h1, by rw [Function.update_of_ne ho]; exact h2, h3⟩
  case inFlight =>
    intro j r' hj hact
    rw [hr.vmFiles]
    rcases hr.req_eq hj with ⟨-, rfl⟩ | ⟨-, hj⟩
    · exact hfile
    · exact h.inFlight j r' hj hact
  case req =>
    intro j r' c hj hc
    rcases hr.req_eq hj with ⟨-, rfl⟩ | ⟨hji, hj⟩
    · obtain ⟨rfl, h1, h2, h3⟩ := hr.held c hc
      refine ⟨h1, h2, ?_⟩
      intro u hu
      rcases hr.vm_eq hu with ⟨-, rfl⟩ | ⟨ho, -⟩
      · exact h3
      · exact absurd rfl ho
    · -- another request: its vcpu is not `own`
      have hco : c ≠ own := by rintro rfl; exact hji (hr.mine j r' hj hc)
      obtain ⟨h1, h2, h3⟩ := h.req j r' c hj hc
      refine ⟨fun hf => h1 ((hr.vcpuFiles c hco).1 hf), by rw [hr.vcpus c hco]; exact h2, ?_⟩
      intro u hu
      rcases hr.vm_eq hu with ⟨ho, rfl⟩ | ⟨ho, hu⟩
      · rw [h3 v (by rw [ho]; exact hr.vm), hr.shown c hco]
      · exact h3 u hu
  case apart =>
    intro j j' r₁ r₂ c hj hj' hc hc'
    rcases hr.req_eq hj with ⟨rfl, rfl⟩ | ⟨hji, hj⟩ <;> rcases hr.req_eq hj' with ⟨rfl, rfl⟩ | ⟨hji', hj'⟩
    · rfl
    · obtain ⟨rfl, -⟩ := hr.held c hc
      exact absurd (hr.mine j' r₂ hj' hc') hji'
    · obtain ⟨rfl, -⟩ := hr.held c hc'
      exact absurd (hr.mine j r₁ hj hc) hji
    · exact h.apart j j' r₁ r₂ c hj hj' hc hc'
  case count =>
    intro o u hu
    have href : x'.fileRef o = x.fileRef o := by unfold Sys.fileRef; rw [hr.vmFiles, hr.opening]
    have hset := reqRefs_set hr.here stage o
    rw [← hr.reqs] at hset
    rcases hr.vm_eq hu with ⟨rfl, rfl⟩ | ⟨ho, hu⟩
    · obtain ⟨h1, -⟩ := h.count _ v hr.vm
      have h2 := hr.count
      refine ⟨?_, hr.pos⟩
      rw [if_pos rfl, if_pos rfl] at hset
      omega
    · obtain ⟨h1, h2⟩ := h.count o u hu
      rw [href, hr.vcpuRef_eq (fun c hc => hr.other h ho hu hc)]
      rw [if_neg (Ne.symm ho), if_neg (Ne.symm ho), add_zero, add_zero] at hset
      rw [hset]
      exact ⟨h1, h2⟩
  case old =>
    intro o ho
    exact (h.old o ((hr.created o).1 ho)).trans_le hr.next
  case known =>
    intro o u hu
    rw [hr.created]
    rcases hr.vm_eq hu with ⟨rfl, -⟩ | ⟨-, hu⟩
    · exact h.known _ v hr.vm
    · exact h.known o u hu
  case destroyed =>
    intro o
    rw [hr.destroyed, h.destroyed]
    simp only [hr.created, hnone]
  case opened =>
    intro o
    by_cases ho : o = r.vm
    · subst ho; exact hr.opened
    · rw [hr.opens o ho]; exact h.opened o
  case settled =>
    intro o u hu hpos
    rcases hr.vm_eq hu with ⟨rfl, rfl⟩ | ⟨ho, hu⟩
    · obtain ⟨c, h1, h2, h3⟩ := hr.settled hpos
      refine ⟨c, h1, ?_⟩
      intro j r' hj
      rcases hr.req_eq hj with ⟨-, rfl⟩ | ⟨hji, hj⟩
      · exact h2
      · exact h3 j r' hji hj
    · rw [hr.opens o ho] at hpos
      obtain ⟨c, h1, h2⟩ := h.settled o u hu hpos
      refine ⟨c, h1, ?_⟩
      intro j r' hj
      rcases hr.req_eq hj with ⟨-, rfl⟩ | ⟨hji, hj⟩
      · exact fun hs => hr.other h ho hu h1 (hr.held c hs).1
      · exact h2 j r' hj
  case unopened =>
    intro o hpos
    rw [hr.created]
    by_cases ho : o = r.vm
    · subst ho; exact h.known _ v hr.vm
    · rw [hr.opens o ho] at hpos; exact h.unopened o hpos

end ReqStep

/-! ## The steps of `YAKVM_CREATE_VCPU` -/

section Advance

variable {c : ℕ} {v v' : Vm} {stage : Stage}

/-- A vcpu without an open file counts nothing. -/
theorem vcpuRef_shown {files : Finset ℕ} {d d' : Option ℕ} (hc : c ∉ files)
    (h : ∀ c', c' ≠ c → (d' = some c' ↔ d = some c')) : vcpuRef files d = vcpuRef files d' := by
  -- either both show the same vcpu, or what they show is `c` or nothing
  have hzero : ∀ e : Option ℕ, (∀ c', c' ≠ c → e ≠ some c') → vcpuRef files e = 0 := by
    intro e he
    cases e with
    | none => rfl
    | some c' =>
      by_cases h1 : c' = c
      · rw [h1]
        simp only [vcpuRef, if_neg hc]
      · exact absurd rfl (he c' h1)
  by_cases hd : ∃ c', c' ≠ c ∧ d = some c'
  · obtain ⟨c', h1, h2⟩ := hd
    rw [h2, (h c' h1).2 h2]
  · push Not at hd
    rw [hzero d hd, hzero d' (fun c' h1 h2 => hd c' h1 ((h c' h1).1 h2))]

/-- A request's step that leaves the files and the log as they are. -/
theorem SysOK.ofOwn (h : SysOK x) (hi : x.reqs[i]? = some r) (hact : r.stage ≠ .finished)
    (hown : r.stage.vcpu = some c) (hv : x.k.vms r.vm = some v) (hk : KernelOK k')
    (hnext : x.k.phys.next ≤ k'.phys.next) (hvms : k'.vms = Function.update x.k.vms r.vm (some v'))
    (hvcpus : ∀ c', c' ≠ c → k'.vcpus c' = x.k.vcpus c')
    (hlive : stage.vcpu = some c ∨ v'.vcpu = some c → k'.vcpus c = x.k.vcpus c)
    (hstage : ∀ c', stage.vcpu = some c' → c' = c ∧ (stage.isPublished = true ↔ v'.vcpu = some c))
    (hshown : ∀ c', c' ≠ c → (v'.vcpu = some c' ↔ v.vcpu = some c'))
    (hcount : v'.refcount + r.stage.holds.toNat = v.refcount + stage.holds.toNat) (hpos : 0 < v'.refcount) :
    SysOK { x with k := k', reqs := x.reqs.set i ⟨r.vm, stage⟩ } := by
  obtain ⟨hclosed, ⟨vc, hvc, hvm⟩, -⟩ := h.req i r c hi hown
  suffices hstep : ReqStep x i r c v v' stage { x with k := k', reqs := x.reqs.set i ⟨r.vm, stage⟩ } from
    h.ofReq hstep
  refine ⟨hi, hact, hv, hk, hnext, hvms, hvcpus, rfl, rfl, fun _ _ => Iff.rfl, rfl, ?_, ?_, hshown, ?_, ?_, ?_, ?_, hpos,
      fun _ => Iff.rfl, fun _ => rfl, fun _ _ => rfl, h.opened _, ?_⟩
  · intro j r' hj hj'
    exact h.apart j i r' r c hj hi hj' hown
  · intro vc' hvc'
    rw [hvc] at hvc'
    obtain rfl := Option.some.inj hvc'
    exact hvm
  · intro hs
    exact ⟨vc, by simp only [hlive (Or.inr hs)]; exact hvc, hvm⟩
  · intro hf
    exact absurd hf hclosed
  · intro c' hc'
    obtain ⟨rfl, hpub⟩ := hstage c' hc'
    exact ⟨rfl, hclosed, ⟨vc, by simp only [hlive (Or.inl hc')]; exact hvc, hvm⟩, hpub⟩
  · have hsame : vcpuRef x.vcpuFiles v.vcpu = vcpuRef x.vcpuFiles v'.vcpu := vcpuRef_shown hclosed hshown
    simp only
    omega
  · intro hop
    obtain ⟨d, h1, h2⟩ := h.settled r.vm v hv hop
    have hdc : d ≠ c := by rintro rfl; exact h2 i r hi hown
    exact ⟨d, (hshown d hdc).2 h1, fun hs => hdc (hstage d hs).1, fun j r' _ hj => h2 j r' hj⟩

/-- A request's step that creates no vcpu. -/
theorem SysOK.ofFresh (h : SysOK x) (hi : x.reqs[i]? = some r) (hstart : r.stage = .start)
    (hv : x.k.vms r.vm = some v) (hk : KernelOK k') (hnext : x.k.phys.next ≤ k'.phys.next)
    (hvms : k'.vms = x.k.vms) (hvcpus : ∀ c', c' ≠ x.k.phys.next → k'.vcpus c' = x.k.vcpus c')
    (hstage : stage = .finished ∨
      stage = .allocated x.k.phys.next ∧ ∃ vc, k'.vcpus x.k.phys.next = some vc ∧ vc.vm = r.vm) :
    SysOK { x with k := k', reqs := x.reqs.set i ⟨r.vm, stage⟩ } := by
  -- the serial number of a new vcpu is known to nobody
  have hnew : ∀ {c : ℕ} {vc : Vcpu}, x.k.vcpus c = some vc → c ≠ x.k.phys.next := fun hc =>
    (h.kernel.ids.fresh _ (h.kernel.ids.vcpu _ _ hc).1).ne
  have hheld : ∀ {j : ℕ} {r' : Req} {c : ℕ}, x.reqs[j]? = some r' → r'.stage.vcpu = some c → c ≠ x.k.phys.next := by
    intro j r' c hj hc
    obtain ⟨vc, hvc, -⟩ := (h.req j r' c hj hc).live
    exact hnew hvc
  have hshow : ∀ {o : ℕ} {u : Vm} {c : ℕ}, x.k.vms o = some u → u.vcpu = some c → c ≠ x.k.phys.next := by
    intro o u c hu hc
    obtain ⟨vc, hvc, -⟩ := h.vcpu o u c hu hc
    exact hnew hvc
  have hfile : x.k.phys.next ∉ x.vcpuFiles := by
    intro hf
    obtain ⟨vc, u, hvc, -⟩ := h.vcpuFile _ hf
    exact hnew hvc rfl
  have hpos := (h.count r.vm v hv).2
  have hvcpu : ∀ c, stage.vcpu = some c → c = x.k.phys.next := by
    intro c hc
    rcases hstage with rfl | ⟨rfl, -⟩
    · simp [Stage.vcpu] at hc
    · exact (Option.some.inj hc).symm
  have hholds : stage.holds = false := by rcases hstage with rfl | ⟨rfl, -⟩ <;> rfl
  suffices hstep : ReqStep x i r x.k.phys.next v v stage
      { x with k := k', reqs := x.reqs.set i ⟨r.vm, stage⟩ } from h.ofReq hstep
  refine ⟨hi, by rw [hstart]; simp, hv, hk, hnext, ?_, hvcpus, rfl, rfl, fun _ _ => Iff.rfl, rfl, ?_, ?_,
      fun _ _ => Iff.rfl, ?_, ?_, ?_, ?_, hpos, fun _ => Iff.rfl, fun _ => rfl, fun _ _ => rfl, h.opened _, ?_⟩
  · simp only [hvms]
    rw [Function.update_eq_self_iff.2 hv.symm]
  · intro j r' hj hj'
    exact absurd rfl (hheld hj hj')
  · intro vc hvc
    exact absurd rfl (hnew hvc)
  · intro hs
    exact absurd rfl (hshow hv hs)
  · intro hf
    exact absurd hf hfile
  · intro c hc
    obtain rfl := hvcpu c hc
    rcases hstage with rfl | ⟨rfl, hlive⟩
    · simp [Stage.vcpu] at hc
    · refine ⟨rfl, hfile, hlive, ?_⟩
      simp only [Stage.isPublished, Bool.false_eq_true, false_iff]
      exact fun hs => hshow hv hs rfl
  · rw [hstart, hholds]
    rfl
  · intro hop
    obtain ⟨d, h1, h2⟩ := h.settled r.vm v hv hop
    exact ⟨d, h1, fun hs => hshow hv h1 (hvcpu d hs), fun j r' _ hj => h2 j r' hj⟩

/-- The vm of a request in flight is live. -/
theorem SysOK.reqVm (h : SysOK x) (hi : x.reqs[i]? = some r) (hact : r.stage ≠ .finished) :
    ∃ v, x.k.vms r.vm = some v :=
  h.files r.vm (Or.inl (h.inFlight i r hi hact))

theorem reqRefs_pos {reqs : List Req} (hi : reqs[i]? = some r) (hr : r.stage.holds = true) :
    0 < reqRefs reqs r.vm := by
  unfold reqRefs
  rw [List.countP_pos_iff]
  exact ⟨r, List.mem_of_getElem? hi, by simp [hr]⟩

/-- A request that holds a reference shares the vm with the vm's own file. -/
theorem SysOK.shared (h : SysOK x) (hi : x.reqs[i]? = some r) (hr : r.stage.holds = true)
    (hv : x.k.vms r.vm = some v) : 2 ≤ v.refcount := by
  have hact : r.stage ≠ .finished := by rintro he; rw [he] at hr; simp [Stage.holds] at hr
  obtain ⟨h1, -⟩ := h.count r.vm v hv
  have h2 := reqRefs_pos hi hr
  have h3 : x.fileRef r.vm = 1 := by
    unfold Sys.fileRef
    rw [if_pos (Or.inl (h.inFlight i r hi hact))]
  omega

/-- `yakvm_put_vm` on a vm with other references. -/
theorem putVm_shared {k : Kernel} (hv : k.vms o = some v) (h2 : 2 ≤ v.refcount) :
    putVm o k = .ok { k with vms := Function.update k.vms o (some { v with refcount := v.refcount - 1 }) } ∧
      putCalls o k = [] := by
  have hne : v.refcount - 1 ≠ 0 := by omega
  refine ⟨?_, ?_⟩
  · unfold putVm
    simp only [deref_some hv, bind, Except.bind, if_neg hne]
  · unfold putCalls
    simp only [hv, if_neg hne]

/-- The file of the new vcpu is installed. It is the first one: had there been one before,
`vm->vcpu` would show a vcpu that no request holds. -/
theorem SysOK.install (h : SysOK x) (hi : x.reqs[i]? = some r) (hst : r.stage = .got c) :
    SysOK { x with
      vcpuFiles := insert c x.vcpuFiles
      log := .openVcpu r.vm c :: x.log
      reqs := x.reqs.set i ⟨r.vm, .finished⟩ } := by
  have hact : r.stage ≠ .finished := by rw [hst]; simp
  have hown : r.stage.vcpu = some c := by rw [hst]; rfl
  obtain ⟨v, hv⟩ := h.reqVm hi hact
  obtain ⟨hclosed, ⟨vc, hvc, hvm⟩, hshown⟩ := h.req i r c hi hown
  have hvcpu : v.vcpu = some c := (hshown v hv).1 (by rw [hst]; rfl)
  have hzero : x.log.countP (Call.opens r.vm) = 0 := by
    by_contra hne
    obtain ⟨d, h1, h2⟩ := h.settled r.vm v hv (by omega)
    rw [hvcpu] at h1
    obtain rfl := Option.some.inj h1
    exact h2 i r hi hown
  suffices hstep : ReqStep x i r c v v .finished { x with
      vcpuFiles := insert c x.vcpuFiles
      log := .openVcpu r.vm c :: x.log
      reqs := x.reqs.set i ⟨r.vm, .finished⟩ } from h.ofReq hstep
  refine ⟨hi, hact, hv, h.kernel, le_rfl, (Function.update_eq_self_iff.2 hv.symm).symm, fun _ _ => rfl, rfl, rfl,
    ?_, rfl, ?_, ?_, fun _ _ => Iff.rfl, fun _ => ⟨vc, hvc, hvm⟩, fun _ => hvcpu, by simp [Stage.vcpu], ?_,
    (h.count r.vm v hv).2, by simp, by simp, ?_, ?_, ?_⟩
  · intro c' hc'
    simp [hc']
  · intro j r' hj hj'
    exact h.apart j i r' r c hj hi hj' hown
  · intro vc' hvc'
    rw [hvc] at hvc'
    obtain rfl := Option.some.inj hvc'
    exact hvm
  · -- the request's reference becomes the file's
    rw [hst, hvcpu]
    simp [vcpuRef, hclosed, Stage.holds]
  · intro o ho
    rw [List.countP_cons_of_neg (by simp [Call.opens, Ne.symm ho])]
  · rw [List.countP_cons_of_pos (by simp [Call.opens]), hzero]
  · intro _
    refine ⟨c, hvcpu, by simp [Stage.vcpu], ?_⟩
    intro j r' hj hr' hc
    exact hj (h.apart j i r' r c hr' hi hc hown)

/-- The label `destroy_vcpu`: the request destroys its own vcpu. -/
theorem SysOK.discard {nasid : BitVec 32} {a : VcpuAsk} {fd : Bool} (h : SysOK x) (hi : x.reqs[i]? = some r)
    (hv : x.k.vms r.vm = some v) (hst : r.stage = .put c ∨ r.stage = .refused c) :
    ∃ stage x₁, r.advance nasid a fd x = .ok (stage, x₁) ∧
      SysOK { x₁ with reqs := x₁.reqs.set i ⟨r.vm, stage⟩ } := by
  have hown : r.stage.vcpu = some c := by rcases hst with hst | hst <;> rw [hst] <;> rfl
  have hfin : r.stage ≠ .finished := by rcases hst with hst | hst <;> rw [hst] <;> simp
  have hholds : r.stage.holds = false := by rcases hst with hst | hst <;> rw [hst] <;> rfl
  obtain ⟨-, ⟨vc, hvc, -⟩, hshown⟩ := h.req i r c hi hown
  have hhid : v.vcpu ≠ some c := by
    intro hs
    have := (hshown v hv).2 hs
    rcases hst with hst | hst <;> simp [hst, Stage.isPublished] at this
  obtain ⟨k', hd, hk, hvms, hvcpus, hnext⟩ := destroyVcpu_spec h.kernel hvc
  refine ⟨.finished, { x with k := k' }, ?_, ?_⟩
  · rcases hst with hst | hst <;> simp only [Req.advance, hst, hd, bind, Except.bind]
  · refine h.ofOwn (v := v) (c := c) hi hfin hown hv hk hnext.ge ?_ ?_ ?_ (by simp [Stage.vcpu])
      (fun _ _ => Iff.rfl) (by rw [hholds]; rfl) (h.count r.vm v hv).2
    · rw [hvms]
      exact (Function.update_eq_self_iff.2 hv.symm).symm
    · intro c' hc'
      rw [hvcpus, Function.update_of_ne hc']
    · rintro (hs | hs)
      · simp [Stage.vcpu] at hs
      · exact absurd hs hhid

/-- **Each step of `YAKVM_CREATE_VCPU` keeps the invariant**, or fails the assertion of
`yakvm_vcpu_init_vmcb`. -/
theorem Req.advance_spec (h : SysOK x) (hi : x.reqs[i]? = some r) (nasid : BitVec 32) (a : VcpuAsk) (fd : Bool) :
    r.advance nasid a fd x = .error .panic ∨
    ∃ stage x₁, r.advance nasid a fd x = .ok (stage, x₁) ∧
      SysOK { x₁ with reqs := x₁.reqs.set i ⟨r.vm, stage⟩ } := by
  by_cases hfin : r.stage = .finished
  · refine Or.inr ⟨.finished, x, by simp only [Req.advance, hfin], ?_⟩
    have hsame : x.reqs.set i ⟨r.vm, .finished⟩ = x.reqs := by
      obtain ⟨hlt, hr⟩ := List.getElem?_eq_some_iff.1 hi
      rw [← hfin, show (⟨r.vm, r.stage⟩ : Req) = x.reqs[i] from hr.symm]
      exact List.set_getElem_self hlt
    rw [hsame]
    exact h
  obtain ⟨v, hv⟩ := h.reqVm hi hfin
  have hpos := (h.count r.vm v hv).2
  have hupd : x.k.vms = Function.update x.k.vms r.vm (some v) := (Function.update_eq_self_iff.2 hv.symm).symm
  cases hst : r.stage with
  | start =>
    rcases createVcpu_spec h.kernel hv nasid a with
      ⟨vc, k', he, hk, hvm, hvms, hvcpus, hnext⟩ | ⟨k', he, hk, hvms, hvcpus, hnext⟩ | he
    · refine Or.inr ⟨_, _, by simp only [Req.advance, hst, he, bind, Except.bind]; rfl, ?_⟩
      refine h.ofFresh hi hst hv hk hnext.le hvms ?_ (Or.inr ⟨rfl, vc, ?_, hvm⟩)
      · intro c' hc'
        rw [hvcpus, Function.update_of_ne hc']
      · rw [hvcpus, Function.update_self]
    · refine Or.inr ⟨_, _, by simp only [Req.advance, hst, he, bind, Except.bind]; rfl, ?_⟩
      exact h.ofFresh hi hst hv hk hnext hvms (fun c' _ => by rw [hvcpus]) (Or.inl rfl)
    · exact Or.inl (by simp only [Req.advance, hst, he, bind, Except.bind])
  | allocated c =>
    have hown : r.stage.vcpu = some c := by rw [hst]; rfl
    have hshown := (h.req i r c hi hown).shown v hv
    rw [hst] at hshown
    have hhid : v.vcpu ≠ some c := fun hs => by have := hshown.2 hs; simp [Stage.isPublished] at this
    cases hvc : v.vcpu with
    | some d =>
      refine Or.inr ⟨.refused c, x, by
        simp only [Req.advance, hst, deref_some hv, bind, Except.bind, hvc, Option.isSome_some, if_true], ?_⟩
      refine h.ofOwn (v := v) hi hfin hown hv h.kernel le_rfl hupd (fun _ _ => rfl) (fun _ => rfl) ?_
        (fun _ _ => Iff.rfl) (by rw [hst]; rfl) hpos
      intro c' hc'
      refine ⟨(Option.some.inj hc').symm, ?_⟩
      simp only [Stage.isPublished, Bool.false_eq_true, false_iff]
      exact hhid
    | none =>
      refine Or.inr ⟨.published c, _, by
        simp only [Req.advance, hst, deref_some hv, bind, Except.bind, hvc, Option.isSome_none, Bool.false_eq_true,
          if_false, setVcpu]
        rfl, ?_⟩
      refine h.ofOwn hi hfin hown hv (h.kernel.setVm hv rfl) le_rfl rfl (fun _ _ => rfl) (fun _ => rfl) ?_ ?_
        (by rw [hst]; rfl) hpos
      · intro c' hc'
        exact ⟨(Option.some.inj hc').symm, by simp [Stage.isPublished]⟩
      · intro c' hc'
        simp [hvc, Ne.symm hc']
  | published c =>
    have hown : r.stage.vcpu = some c := by rw [hst]; rfl
    have hshown := (h.req i r c hi hown).shown v hv
    rw [hst] at hshown
    refine Or.inr ⟨.got c, _, by simp only [Req.advance, hst, getVm, deref_some hv, bind, Except.bind]; rfl, ?_⟩
    refine h.ofOwn hi hfin hown hv (h.kernel.setVm hv rfl) le_rfl rfl (fun _ _ => rfl) (fun _ => rfl) ?_
      (fun _ _ => Iff.rfl) (by rw [hst]; simp [Stage.holds]) (by simp only; omega)
    intro c' hc'
    exact ⟨(Option.some.inj hc').symm, hshown⟩
  | got c =>
    have hown : r.stage.vcpu = some c := by rw [hst]; rfl
    have hshown := (h.req i r c hi hown).shown v hv
    rw [hst] at hshown
    cases fd with
    | true => exact Or.inr ⟨.finished, _, by simp only [Req.advance, hst, if_true]; rfl, h.install hi hst⟩
    | false =>
      refine Or.inr ⟨.failed c, x, by simp only [Req.advance, hst, Bool.false_eq_true, if_false], ?_⟩
      refine h.ofOwn (v := v) hi hfin hown hv h.kernel le_rfl hupd (fun _ _ => rfl) (fun _ => rfl) ?_
        (fun _ _ => Iff.rfl) (by rw [hst]; rfl) hpos
      intro c' hc'
      exact ⟨(Option.some.inj hc').symm, hshown⟩
  | failed c =>
    have hown : r.stage.vcpu = some c := by rw [hst]; rfl
    have hshown := (h.req i r c hi hown).shown v hv
    rw [hst] at hshown
    have hvc : v.vcpu = some c := hshown.1 rfl
    refine Or.inr ⟨.cleared c, _, by simp only [Req.advance, hst, setVcpu, deref_some hv, bind, Except.bind]; rfl, ?_⟩
    refine h.ofOwn hi hfin hown hv (h.kernel.setVm hv rfl) le_rfl rfl (fun _ _ => rfl) (fun _ => rfl) ?_ ?_
      (by rw [hst]; rfl) hpos
    · intro c' hc'
      exact ⟨(Option.some.inj hc').symm, by simp [Stage.isPublished]⟩
    · intro c' hc'
      simp [hvc, Ne.symm hc']
  | cleared c =>
    have hown : r.stage.vcpu = some c := by rw [hst]; rfl
    have hshown := (h.req i r c hi hown).shown v hv
    rw [hst] at hshown
    have h2 : 2 ≤ v.refcount := h.shared hi (by rw [hst]; rfl) hv
    obtain ⟨hput, hcalls⟩ := putVm_shared hv h2
    refine Or.inr ⟨.put c, _, by
      simp only [Req.advance, hst, Sys.put, hput, hcalls, List.nil_append, bind, Except.bind]
      rfl, ?_⟩
    refine h.ofOwn hi hfin hown hv (h.kernel.setVm hv rfl) le_rfl rfl (fun _ _ => rfl) (fun _ => rfl) ?_
      (fun _ _ => Iff.rfl) (by rw [hst]; simp [Stage.holds]) (by simp only; omega)
    intro c' hc'
    refine ⟨(Option.some.inj hc').symm, hshown⟩
  | put c => exact Or.inr (h.discard hi hv (Or.inl hst))
  | refused c => exact Or.inr (h.discard hi hv (Or.inr hst))
  | finished => exact absurd hst hfin

end Advance

/-! ## Releasing references -/

/-- The files of other vms are as they were, and no request in flight loses its file. -/
structure Release (x : Sys) (o : ℕ) (v : Vm) (x' : Sys) : Prop where
  vm : x.k.vms o = some v
  reqs : x'.reqs = x.reqs
  vmFiles : ∀ n, n ≠ o → (n ∈ x'.vmFiles ↔ n ∈ x.vmFiles)
  opening : ∀ n, n ≠ o → (n ∈ x'.opening ↔ n ∈ x.opening)
  once : o ∈ x'.vmFiles → o ∉ x'.opening
  quiet : o ∈ x'.opening → o ∈ x.opening
  fewer : ∀ c, c ∈ x'.vcpuFiles → c ∈ x.vcpuFiles
  vcpuFiles : ∀ c, v.vcpu ≠ some c → (c ∈ x'.vcpuFiles ↔ c ∈ x.vcpuFiles)
  inFlight : ∀ (i : ℕ) (r : Req), x.reqs[i]? = some r → r.stage ≠ .finished → r.vm = o → o ∈ x'.vmFiles
  count : v.refcount = x'.fileRef o + vcpuRef x'.vcpuFiles v.vcpu + reqRefs x.reqs o + 1

section Release

variable {v : Vm} {x' : Sys}

theorem Release.fileRef_eq (hr : Release x o v x') {n : ℕ} (hn : n ≠ o) : x'.fileRef n = x.fileRef n := by
  unfold Sys.fileRef
  simp only [hr.vmFiles n hn, hr.opening n hn]

/-- A vcpu that another vm shows is not the one `o` shows. -/
theorem SysOK.vcpu_ne (h : SysOK x) (ho : x.k.vms o = some v) {n c : ℕ} {u : Vm} (hn : n ≠ o)
    (hu : x.k.vms n = some u) (hc : u.vcpu = some c) : v.vcpu ≠ some c := by
  intro hv
  obtain ⟨vc, h1, h2⟩ := h.vcpu n u c hu hc
  obtain ⟨vc', h3, h4⟩ := h.vcpu o v c ho hv
  rw [h1] at h3
  obtain rfl := Option.some.inj h3
  exact hn (h2.symm.trans h4)

theorem Release.vcpuRef_eq (h : SysOK x) (hr : Release x o v x') {n : ℕ} {u : Vm} (hn : n ≠ o)
    (hu : x.k.vms n = some u) : vcpuRef x'.vcpuFiles u.vcpu = vcpuRef x.vcpuFiles u.vcpu := by
  cases hc : u.vcpu with
  | none => rfl
  | some c => simp only [vcpuRef, hr.vcpuFiles c (h.vcpu_ne hr.vm hn hu hc)]

/-- **A reference goes away, and others stay.** -/
theorem SysOK.dropShared (h : SysOK x) (hr : Release x o v x') (h2 : 2 ≤ v.refcount) (hlog : x'.log = x.log)
    (hk : x'.k = { x.k with vms := Function.update x.k.vms o (some { v with refcount := v.refcount - 1 }) }) :
    SysOK x' := by
  have hvm : ∀ {n : ℕ} {u : Vm}, x'.k.vms n = some u →
      (n = o ∧ u = { v with refcount := v.refcount - 1 }) ∨ (n ≠ o ∧ x.k.vms n = some u) := by
    intro n u hu
    rw [hk] at hu
    by_cases hn : n = o
    · subst hn
      simp only [Function.update_self] at hu
      exact Or.inl ⟨rfl, (Option.some.inj hu).symm⟩
    · simp only [Function.update_of_ne hn] at hu
      exact Or.inr ⟨hn, hu⟩
  -- every vm shows the vcpu it showed before
  have hold : ∀ {n : ℕ} {u : Vm}, x'.k.vms n = some u → ∃ u₀, x.k.vms n = some u₀ ∧ u.vcpu = u₀.vcpu := by
    intro n u hu
    rcases hvm hu with ⟨rfl, rfl⟩ | ⟨-, hu⟩
    · exact ⟨v, hr.vm, rfl⟩
    · exact ⟨u, hu, rfl⟩
  have hnew : ∀ {n : ℕ} {u : Vm}, x.k.vms n = some u → ∃ u', x'.k.vms n = some u' ∧ u'.vcpu = u.vcpu := by
    intro n u hu
    rw [hk]
    by_cases hn : n = o
    · subst hn
      rw [hr.vm] at hu
      obtain rfl := Option.some.inj hu
      exact ⟨{ v with refcount := v.refcount - 1 }, by simp only [Function.update_self], rfl⟩
    · exact ⟨u, by simp only [Function.update_of_ne hn]; exact hu, rfl⟩
  have hvcpus : x'.k.vcpus = x.k.vcpus := by rw [hk]
  have hnone : ∀ n, (x'.k.vms n = none ↔ x.k.vms n = none) := by
    intro n
    rw [hk]
    by_cases hn : n = o
    · subst hn; simp [hr.vm]
    · simp only [Function.update_of_ne hn]
  have hopen : ∀ n, n ∈ x'.opening → n ∈ x.opening := by
    intro n hn
    by_cases ho : n = o
    · subst ho; exact hr.quiet hn
    · exact (hr.opening n ho).1 hn
  constructor
  case kernel => rw [hk]; exact h.kernel.setVm hr.vm rfl
  case files =>
    intro n hn
    by_cases ho : n = o
    · subst ho
      obtain ⟨u', hu', -⟩ := hnew hr.vm
      exact ⟨u', hu'⟩
    · rw [hr.vmFiles n ho, hr.opening n ho] at hn
      obtain ⟨u, hu⟩ := h.files n hn
      obtain ⟨u', hu', -⟩ := hnew hu
      exact ⟨u', hu'⟩
  case once =>
    intro n hn
    by_cases ho : n = o
    · subst ho; exact hr.once hn
    · rw [hr.opening n ho]; exact h.once n ((hr.vmFiles n ho).1 hn)
  case quiet =>
    intro n u hn hu
    obtain ⟨u₀, hu₀, hvc⟩ := hold hu
    rw [hvc]
    exact h.quiet n u₀ (hopen n hn) hu₀
  case vcpu =>
    intro n u c hu hc
    obtain ⟨u₀, hu₀, hvc⟩ := hold hu
    rw [hvcpus]
    exact h.vcpu n u₀ c hu₀ (hvc ▸ hc)
  case vcpuFile =>
    intro c hc
    obtain ⟨vc, u, h1, h3, h4⟩ := h.vcpuFile c (hr.fewer c hc)
    obtain ⟨u', hu', hvc⟩ := hnew h3
    exact ⟨vc, u', by rw [hvcpus]; exact h1, hu', by rw [hvc]; exact h4⟩
  case inFlight =>
    intro i r hi hact
    rw [hr.reqs] at hi
    by_cases ho : r.vm = o
    · rw [ho]; exact hr.inFlight i r hi hact ho
    · rw [hr.vmFiles _ ho]; exact h.inFlight i r hi hact
  case req =>
    intro i r c hi hc
    rw [hr.reqs] at hi
    obtain ⟨h1, h3, h4⟩ := h.req i r c hi hc
    refine ⟨fun hf => h1 (hr.fewer c hf), by rw [hvcpus]; exact h3, ?_⟩
    intro u hu
    obtain ⟨u₀, hu₀, hvc⟩ := hold hu
    rw [hvc]
    exact h4 u₀ hu₀
  case apart => rw [hr.reqs]; exact h.apart
  case count =>
    intro n u hu
    rw [hr.reqs]
    rcases hvm hu with ⟨rfl, rfl⟩ | ⟨hn, hu⟩
    · have := hr.count
      simp only
      omega
    · rw [hr.fileRef_eq hn, hr.vcpuRef_eq h hn hu]
      exact h.count n u hu
  case old => rw [hlog, hk]; exact h.old
  case known =>
    intro n u hu
    obtain ⟨u₀, hu₀, -⟩ := hold hu
    rw [hlog]
    exact h.known n u₀ hu₀
  case destroyed =>
    intro n
    rw [hlog, h.destroyed]
    simp only [hnone]
  case opened => rw [hlog]; exact h.opened
  case settled =>
    intro n u hu hpos
    rw [hlog] at hpos
    obtain ⟨u₀, hu₀, hvc⟩ := hold hu
    rw [hvc, hr.reqs]
    exact h.settled n u₀ hu₀ hpos
  case unopened => rw [hlog]; exact h.unopened

/-- **The last reference goes away**, and the vm with its vcpu is destroyed. -/
theorem SysOK.dropLast (h : SysOK x) (hr : Release x o v x') (h1 : v.refcount = 1)
    (hlog : x'.log = .destroyVm o :: x.log) (hk : KernelOK x'.k)
    (hvms : x'.k.vms = Function.update x.k.vms o none) (hvcpus : x'.k.vcpus = dropVcpu x.k.vcpus v.vcpu)
    (hnext : x'.k.phys.next = x.k.phys.next) : SysOK x' := by
  -- nothing refers to the vm any more
  have hcount := hr.count
  have hfile : o ∉ x'.vmFiles ∧ o ∉ x'.opening := by
    have : x'.fileRef o = 0 := by omega
    unfold Sys.fileRef at this
    by_contra hcon
    rw [if_pos (by tauto)] at this
    simp at this
  have hclosed : ∀ c, v.vcpu = some c → c ∉ x'.vcpuFiles := by
    intro c hc hf
    have : vcpuRef x'.vcpuFiles v.vcpu = 0 := by omega
    rw [hc] at this
    simp [vcpuRef, hf] at this
  have hidle : ∀ (i : ℕ) (r : Req), x.reqs[i]? = some r → r.stage ≠ .finished → r.vm ≠ o :=
    fun i r hi hact ho => hfile.1 (hr.inFlight i r hi hact ho)
  have hvm : ∀ {n : ℕ} {u : Vm}, x'.k.vms n = some u ↔ n ≠ o ∧ x.k.vms n = some u := by
    intro n u
    rw [hvms, update_none_eq_some]
  have hvcpu : ∀ {c : ℕ} {vc : Vcpu}, x.k.vcpus c = some vc → vc.vm ≠ o → x'.k.vcpus c = some vc := by
    intro c vc hc hne
    rw [hvcpus, dropVcpu_eq_some]
    refine ⟨fun hv => ?_, hc⟩
    obtain ⟨vc', h2, h3⟩ := h.vcpu o v c hr.vm hv
    rw [hc] at h2
    obtain rfl := Option.some.inj h2
    exact hne h3
  have hstage : ∀ {r : Req} {c : ℕ}, r.stage.vcpu = some c → r.stage ≠ .finished := by
    rintro r c hc he
    rw [he] at hc
    simp [Stage.vcpu] at hc
  have hcreated : ∀ n, (.createVm n ∈ x'.log ↔ .createVm n ∈ x.log) := by
    intro n; rw [hlog]; simp
  have hopens : ∀ n, x'.log.countP (Call.opens n) = x.log.countP (Call.opens n) := by
    intro n
    rw [hlog, List.countP_cons_of_neg (by simp [Call.opens])]
  constructor
  case kernel => exact hk
  case files =>
    intro n hn
    have ho : n ≠ o := by rintro rfl; tauto
    rw [hr.vmFiles n ho, hr.opening n ho] at hn
    obtain ⟨u, hu⟩ := h.files n hn
    exact ⟨u, hvm.2 ⟨ho, hu⟩⟩
  case once =>
    intro n hn
    have ho : n ≠ o := by rintro rfl; exact hfile.1 hn
    rw [hr.opening n ho]
    exact h.once n ((hr.vmFiles n ho).1 hn)
  case quiet =>
    intro n u hn hu
    obtain ⟨ho, hu⟩ := hvm.1 hu
    exact h.quiet n u ((hr.opening n ho).1 hn) hu
  case vcpu =>
    intro n u c hu hc
    obtain ⟨ho, hu⟩ := hvm.1 hu
    obtain ⟨vc, h2, h3⟩ := h.vcpu n u c hu hc
    exact ⟨vc, hvcpu h2 (by rw [h3]; exact ho), h3⟩
  case vcpuFile =>
    intro c hc
    obtain ⟨vc, u, h2, h3, h4⟩ := h.vcpuFile c (hr.fewer c hc)
    have hne : vc.vm ≠ o := by
      intro he
      rw [he, hr.vm] at h3
      obtain rfl := Option.some.inj h3
      exact hclosed c h4 hc
    exact ⟨vc, u, hvcpu h2 hne, hvm.2 ⟨hne, h3⟩, h4⟩
  case inFlight =>
    intro i r hi hact
    rw [hr.reqs] at hi
    rw [hr.vmFiles _ (hidle i r hi hact)]
    exact h.inFlight i r hi hact
  case req =>
    intro i r c hi hc
    rw [hr.reqs] at hi
    obtain ⟨h2, ⟨vc, h3, h4⟩, h5⟩ := h.req i r c hi hc
    refine ⟨fun hf => h2 (hr.fewer c hf), ⟨vc, hvcpu h3 ?_, h4⟩, ?_⟩
    · rw [h4]; exact hidle i r hi (hstage hc)
    · intro u hu
      exact h5 u (hvm.1 hu).2
  case apart => rw [hr.reqs]; exact h.apart
  case count =>
    intro n u hu
    obtain ⟨ho, hu⟩ := hvm.1 hu
    rw [hr.fileRef_eq ho, hr.vcpuRef_eq h ho hu, hr.reqs]
    exact h.count n u hu
  case old =>
    intro n hn
    rw [hnext]
    exact h.old n ((hcreated n).1 hn)
  case known =>
    intro n u hu
    rw [hcreated]
    exact h.known n u (hvm.1 hu).2
  case destroyed =>
    intro n
    have hd := h.destroyed n
    rw [hlog, List.count_cons]
    by_cases ho : n = o
    · subst ho
      have hkn := h.known n v hr.vm
      rw [hr.vm] at hd
      simp only [reduceCtorEq, and_false, if_false] at hd
      simp [hd, hvms, hkn]
    · rw [hd, hvms, Function.update_of_ne ho]
      simp [Ne.symm ho]
  case opened => intro n; rw [hopens]; exact h.opened n
  case settled =>
    intro n u hu hpos
    rw [hopens] at hpos
    rw [hr.reqs]
    exact h.settled n u (hvm.1 hu).2 hpos
  case unopened =>
    intro n hpos
    rw [hopens] at hpos
    rw [hcreated]
    exact h.unopened n hpos

/-- **`yakvm_put_vm`** with the files that are left when the reference is gone. -/
theorem SysOK.put (h : SysOK x) {opening vmFiles vcpuFiles : Finset ℕ}
    (hr : Release x o v { x with opening := opening, vmFiles := vmFiles, vcpuFiles := vcpuFiles }) :
    ∃ k', putVm o x.k = .ok k' ∧ SysOK { x with
      k := k', opening := opening, vmFiles := vmFiles, vcpuFiles := vcpuFiles, log := putCalls o x.k ++ x.log } := by
  have hpos := (h.count o v hr.vm).2
  have hr' : ∀ k' log, Release x o v (Sys.mk k' opening vmFiles vcpuFiles x.reqs log) := fun k' log =>
    ⟨hr.vm, rfl, hr.vmFiles, hr.opening, hr.once, hr.quiet, hr.fewer, hr.vcpuFiles, hr.inFlight, hr.count⟩
  by_cases h2 : 2 ≤ v.refcount
  · obtain ⟨hput, hcalls⟩ := putVm_shared hr.vm h2
    refine ⟨_, hput, ?_⟩
    rw [hcalls]
    exact h.dropShared (hr' _ _) h2 rfl rfl
  · have h1 : v.refcount = 1 := by omega
    have hzero : v.refcount - 1 = 0 := by omega
    set v₀ : Vm := { v with refcount := v.refcount - 1 } with hv₀
    have hk₀ : KernelOK { x.k with vms := Function.update x.k.vms o (some v₀) } := h.kernel.setVm hr.vm rfl
    obtain ⟨k', hd, hk, hvms, hvcpus, hnext⟩ := destroyVm_spec (o := o) (v := v₀) hk₀ (Function.update_self ..)
      (fun c hc => by
        obtain ⟨vc, hvc, -⟩ := h.vcpu o v c hr.vm hc
        exact ⟨vc, hvc⟩)
    refine ⟨k', ?_, ?_⟩
    · unfold putVm
      simp only [deref_some hr.vm, bind, Except.bind, if_pos hzero]
      exact hd
    · have hcalls : putCalls o x.k = [.destroyVm o] := by
        unfold putCalls
        simp only [hr.vm, if_pos hzero]
      rw [hcalls]
      refine h.dropLast (hr' _ _) h1 rfl hk ?_ hvcpus hnext
      rw [hvms]
      simp only [Function.update_idem]

end Release

/-! ## New vms and new requests -/

/-- The references of requests on a vm whose file is not open. -/
theorem SysOK.reqRefs_zero (h : SysOK x) (ho : o ∉ x.vmFiles) : reqRefs x.reqs o = 0 := by
  unfold reqRefs
  rw [List.countP_eq_zero]
  intro r hr hcon
  simp only [Bool.and_eq_true, decide_eq_true_eq] at hcon
  obtain ⟨i, hi⟩ := List.getElem?_of_mem hr
  have hact : r.stage ≠ .finished := by
    intro he
    rw [he] at hcon
    simp [Stage.holds] at hcon
  exact ho (hcon.1 ▸ h.inFlight i r hi hact)

/-- `yakvm_create_vm` has made a vm; its file is yet to be installed. -/
theorem SysOK.addVm {v : Vm} (h : SysOK x) (hk : KernelOK k') (hcnt : v.refcount = 1) (hvc : v.vcpu = none)
    (hvms : k'.vms = Function.update x.k.vms x.k.phys.next (some v)) (hvcpus : k'.vcpus = x.k.vcpus)
    (hnext : x.k.phys.next < k'.phys.next) :
    SysOK { x with
      k := k'
      opening := insert x.k.phys.next x.opening
      log := .createVm x.k.phys.next :: x.log } := by
  set o := x.k.phys.next with ho
  -- the serial number is new
  have hfresh : ∀ {n : ℕ} {u : Vm}, x.k.vms n = some u → n ≠ o := fun hu =>
    (h.kernel.ids.fresh _ (h.kernel.ids.vm _ _ hu).1).ne
  have hdead : x.k.vms o = none := by
    cases hu : x.k.vms o with
    | none => rfl
    | some u => exact absurd rfl (hfresh hu)
  have hlive : ∀ n, n ∈ x.vmFiles ∨ n ∈ x.opening → n ≠ o := by
    intro n hn
    obtain ⟨u, hu⟩ := h.files n hn
    exact hfresh hu
  have hvm : ∀ {n : ℕ} {u : Vm}, k'.vms n = some u → (n = o ∧ u = v) ∨ (n ≠ o ∧ x.k.vms n = some u) := by
    intro n u hu
    rw [hvms] at hu
    by_cases hn : n = o
    · subst hn
      rw [Function.update_self] at hu
      exact Or.inl ⟨rfl, (Option.some.inj hu).symm⟩
    · rw [Function.update_of_ne hn] at hu
      exact Or.inr ⟨hn, hu⟩
  have hnotlog : Call.createVm o ∉ x.log := fun hl => (h.old o hl).ne rfl
  have hopens : ∀ n, (Call.createVm o :: x.log).countP (Call.opens n) = x.log.countP (Call.opens n) := fun n =>
    List.countP_cons_of_neg (by simp [Call.opens])
  have href : ∀ n, n ≠ o → Sys.fileRef { x with
      k := k', opening := insert o x.opening, log := .createVm o :: x.log } n = x.fileRef n := by
    intro n hn
    unfold Sys.fileRef
    simp only [Finset.mem_insert, hn, false_or]
  constructor
  case kernel => exact hk
  case files =>
    intro n hn
    by_cases hno : n = o
    · exact ⟨v, by simp only [hvms, hno, Function.update_self]⟩
    · simp only [Finset.mem_insert, hno, false_or] at hn
      obtain ⟨u, hu⟩ := h.files n hn
      exact ⟨u, by simp only [hvms, Function.update_of_ne hno]; exact hu⟩
  case once =>
    intro n hn
    simp only [Finset.mem_insert, hlive n (Or.inl hn), false_or]
    exact h.once n hn
  case quiet =>
    intro n u hn hu
    rcases hvm hu with ⟨-, rfl⟩ | ⟨hno, hu⟩
    · exact hvc
    · simp only [Finset.mem_insert, hno, false_or] at hn
      exact h.quiet n u hn hu
  case vcpu =>
    intro n u c hu hc
    simp only [hvcpus]
    rcases hvm hu with ⟨-, rfl⟩ | ⟨-, hu⟩
    · rw [hvc] at hc; simp at hc
    · exact h.vcpu n u c hu hc
  case vcpuFile =>
    intro c hc
    obtain ⟨vc, u, h1, h2, h3⟩ := h.vcpuFile c hc
    exact ⟨vc, u, by simp only [hvcpus]; exact h1, by simp only [hvms, Function.update_of_ne (hfresh h2)]; exact h2, h3⟩
  case inFlight => exact h.inFlight
  case req =>
    intro i r c hi hc
    obtain ⟨h1, h2, h3⟩ := h.req i r c hi hc
    refine ⟨h1, by simp only [hvcpus]; exact h2, ?_⟩
    intro u hu
    rcases hvm hu with ⟨hro, -⟩ | ⟨-, hu⟩
    · -- the request is in flight, so its vm is an old one
      have hact : r.stage ≠ .finished := by intro he; rw [he] at hc; simp [Stage.vcpu] at hc
      exact absurd hro (hlive _ (Or.inl (h.inFlight i r hi hact)))
    · exact h3 u hu
  case apart => exact h.apart
  case count =>
    intro n u hu
    rcases hvm hu with ⟨rfl, rfl⟩ | ⟨hno, hu⟩
    · have hfile : Sys.fileRef { x with
          k := k', opening := insert o x.opening, log := .createVm o :: x.log } o = 1 := by
        unfold Sys.fileRef
        rw [if_pos (Or.inr (Finset.mem_insert_self _ _))]
      have hnf : o ∉ x.vmFiles := fun hf => hlive o (Or.inl hf) rfl
      rw [hfile, hvc, h.reqRefs_zero hnf, hcnt]
      simp [vcpuRef]
    · rw [href n hno]
      exact h.count n u hu
  case old =>
    intro n hn
    simp only [List.mem_cons, Call.createVm.injEq] at hn
    rcases hn with rfl | hn
    · exact hnext
    · exact (h.old n hn).trans hnext
  case known =>
    intro n u hu
    rcases hvm hu with ⟨rfl, -⟩ | ⟨-, hu⟩
    · exact List.mem_cons_self
    · exact List.mem_cons_of_mem _ (h.known n u hu)
  case destroyed =>
    intro n
    rw [List.count_cons_of_ne (by simp), h.destroyed n]
    simp only [List.mem_cons, Call.createVm.injEq, hvms]
    by_cases hno : n = o
    · subst hno
      rw [Function.update_self, if_neg (by tauto), if_neg (by simp)]
    · rw [Function.update_of_ne hno]
      simp [hno]
  case opened =>
    intro n
    simp only [hopens]
    exact h.opened n
  case settled =>
    intro n u hu hpos
    simp only [hopens] at hpos
    rcases hvm hu with ⟨rfl, -⟩ | ⟨-, hu⟩
    · exact absurd (h.unopened o hpos) hnotlog
    · exact h.settled n u hu hpos
  case unopened =>
    intro n hpos
    simp only [hopens] at hpos
    exact List.mem_cons_of_mem _ (h.unopened n hpos)

/-- The file of a new vm is installed. -/
theorem SysOK.openVm (h : SysOK x) (ho : o ∈ x.opening) :
    SysOK { x with opening := x.opening.erase o, vmFiles := insert o x.vmFiles } := by
  have hmove : ∀ n, (n ∈ insert o x.vmFiles ∨ n ∈ x.opening.erase o) ↔ (n ∈ x.vmFiles ∨ n ∈ x.opening) := by
    intro n
    simp only [Finset.mem_insert, Finset.mem_erase]
    by_cases hn : n = o
    · subst hn; simp [ho]
    · simp [hn]
  refine ⟨h.kernel, ?_, ?_, ?_, h.vcpu, h.vcpuFile, ?_, ?_, h.apart, ?_, h.old, h.known, h.destroyed, h.opened,
    h.settled, h.unopened⟩
  · intro n hn
    exact h.files n ((hmove n).1 hn)
  · intro n hn
    simp only [Finset.mem_insert, Finset.mem_erase, not_and] at hn ⊢
    rcases hn with rfl | hn
    · simp
    · exact fun _ => h.once n hn
  · intro n v hn hv
    exact h.quiet n v (Finset.mem_of_mem_erase hn) hv
  · intro i r hi hact
    exact Finset.mem_insert_of_mem (h.inFlight i r hi hact)
  · intro i r c hi hc
    obtain ⟨h1, h2, h3⟩ := h.req i r c hi hc
    exact ⟨h1, h2, h3⟩
  · intro n v hv
    have href : Sys.fileRef { x with opening := x.opening.erase o, vmFiles := insert o x.vmFiles } n = x.fileRef n := by
      unfold Sys.fileRef
      simp only [hmove n]
    rw [href]
    exact h.count n v hv

/-- `YAKVM_CREATE_VCPU` is called on an open file. -/
theorem SysOK.request (h : SysOK x) (ho : o ∈ x.vmFiles) :
    SysOK { x with reqs := x.reqs ++ [⟨o, .start⟩] } := by
  have hreq : ∀ {i : ℕ} {r : Req}, (x.reqs ++ [⟨o, .start⟩])[i]? = some r → x.reqs[i]? = some r ∨ r = ⟨o, .start⟩ := by
    intro i r hi
    rcases Nat.lt_or_ge i x.reqs.length with hlt | hge
    · rw [List.getElem?_append_left hlt] at hi
      exact Or.inl hi
    · have hmem := List.mem_of_getElem? hi
      rw [List.getElem?_append_right hge] at hi
      have := List.mem_of_getElem? hi
      exact Or.inr (by simpa using this)
  have hvcpu : ∀ {i : ℕ} {r : Req} {c : ℕ}, (x.reqs ++ [⟨o, .start⟩])[i]? = some r → r.stage.vcpu = some c →
      x.reqs[i]? = some r := by
    intro i r c hi hc
    rcases hreq hi with hi | rfl
    · exact hi
    · simp [Stage.vcpu] at hc
  refine ⟨h.kernel, h.files, h.once, h.quiet, h.vcpu, h.vcpuFile, ?_, ?_, ?_, ?_, h.old, h.known, h.destroyed,
    h.opened, ?_, h.unopened⟩
  · intro i r hi hact
    rcases hreq hi with hi | rfl
    · exact h.inFlight i r hi hact
    · exact ho
  · intro i r c hi hc
    obtain ⟨h1, h2, h3⟩ := h.req i r c (hvcpu hi hc) hc
    exact ⟨h1, h2, h3⟩
  · intro i j r r' c hi hj hc hc'
    exact h.apart i j r r' c (hvcpu hi hc) (hvcpu hj hc') hc hc'
  · intro n v hv
    have hrefs : reqRefs (x.reqs ++ [⟨o, .start⟩]) n = reqRefs x.reqs n := by
      unfold reqRefs
      rw [List.countP_append]
      simp [Stage.holds]
    rw [hrefs]
    exact h.count n v hv
  · intro n v hv hpos
    obtain ⟨c, h1, h2⟩ := h.settled n v hv hpos
    refine ⟨c, h1, ?_⟩
    intro i r hi hc
    exact h2 i r (hvcpu hi hc) hc

/-! ## Whole runs -/

section Pages

variable {s : Phys} {vmm : Vmm} {np : Option (List Slot)}

theorem vmmNptCreate_cases (hs : NptOK s (vmmPhysToVirt vmm.ncr3) np) (gpa : Word) (ask : ℕ → Option Frame) :
    vmmNptCreate vmm.ncr3 gpa false ask s = .error .panic ∨
    ∃ page s', vmmNptCreate vmm.ncr3 gpa false ask s = .ok (page, s') ∧
      Grow (vmmPhysToVirt vmm.ncr3) (path gpa) s s' := by
  cases hc : vmmNptCreate vmm.ncr3 gpa false ask s with
  | error e => exact Or.inl (by rw [((vmmNptCreate_panic_iff hs ask).1 hc).1])
  | ok r => exact Or.inr ⟨r.1, r.2, rfl, vmmNptCreate_grow hs hc⟩

theorem vmIoctlMmapPage_cases (hs : NptOK s (vmmPhysToVirt vmm.ncr3) np) (gpa : Word) (ask : ℕ → Option Frame) :
    vmIoctlMmapPage vmm gpa ask s = .error .panic ∨
    ∃ r s', vmIoctlMmapPage vmm gpa ask s = .ok (r, s') ∧ Grow (vmmPhysToVirt vmm.ncr3) (path gpa) s s' := by
  unfold vmIoctlMmapPage
  rcases vmmNptCreate_cases hs gpa ask with he | ⟨page, s', he, hg⟩
  · exact Or.inl (by rw [he]; rfl)
  · right
    rw [he]
    cases page with
    | error r => exact ⟨_, s', rfl, hg⟩
    | ok page => exact ⟨_, s', rfl, hg⟩

theorem vmVmmFault_cases (hs : NptOK s (vmmPhysToVirt vmm.ncr3) np) (address vmStart : Word)
    (ask : ℕ → Option Frame) :
    vmVmmFault vmm address vmStart ask s = .error .panic ∨
    ∃ r s', vmVmmFault vmm address vmStart ask s = .ok (r, s') ∧
      Grow (vmmPhysToVirt vmm.ncr3) (path (address - vmStart)) s s' := by
  unfold vmVmmFault
  rcases vmmNptCreate_cases hs (address - vmStart) ask with he | ⟨page, s', he, hg⟩
  · exact Or.inl (by rw [he]; rfl)
  · right
    rw [he]
    cases page with
    | error r => exact ⟨_, s', rfl, hg⟩
    | ok page => exact ⟨_, s', rfl, hg⟩

end Pages

/-- A page request of a vm. -/
theorem SysOK.grow {v : Vm} {m : Vmm} {w : List Slot} {s' : Phys} (h : SysOK x) (hv : x.k.vms o = some v)
    (hm : x.k.vmms v.vmm = some m) (hg : Grow (vmmPhysToVirt m.ncr3) w x.k.phys s') :
    SysOK { x with k := { x.k with phys := s' } } :=
  h.setKernel (h.kernel.grow hv hm hg) rfl rfl hg.slab.2.ge

/-- The vm's file is released. -/
theorem SysOK.closeVm (h : SysOK x) (ho : o ∈ x.vmFiles)
    (hidle : ∀ r ∈ x.reqs, r.vm = o → r.stage = .finished) :
    ∃ k', putVm o x.k = .ok k' ∧
      SysOK { x with k := k', vmFiles := x.vmFiles.erase o, log := putCalls o x.k ++ x.log } := by
  obtain ⟨v, hv⟩ := h.files o (Or.inl ho)
  suffices hrel : Release x o v { x with vmFiles := x.vmFiles.erase o } from h.put hrel
  refine ⟨hv, rfl, ?_, fun _ _ => Iff.rfl, ?_, fun hm => hm, fun _ hc => hc, fun _ _ => Iff.rfl, ?_, ?_⟩
  · intro n hn
    simp [hn]
  · intro hm
    simp at hm
  · intro i r hi hact hro
    exact absurd (hidle r (List.mem_of_getElem? hi) hro) hact
  · obtain ⟨hcount, -⟩ := h.count o v hv
    have h1 : x.fileRef o = 1 := by unfold Sys.fileRef; rw [if_pos (Or.inl ho)]
    have h2 : Sys.fileRef { x with vmFiles := x.vmFiles.erase o } o = 0 := by
      unfold Sys.fileRef
      simp [h.once o ho]
    simp only [h2]
    omega

/-- A vcpu's file is released. -/
theorem SysOK.closeVcpu {c : ℕ} {vc : Vcpu} (h : SysOK x) (hc : c ∈ x.vcpuFiles) (hvc : x.k.vcpus c = some vc) :
    ∃ k', putVm vc.vm x.k = .ok k' ∧
      SysOK { x with k := k', vcpuFiles := x.vcpuFiles.erase c, log := putCalls vc.vm x.k ++ x.log } := by
  obtain ⟨vc', v, h1, hv, hshown⟩ := h.vcpuFile c hc
  rw [hvc] at h1
  obtain rfl := Option.some.inj h1
  suffices hrel : Release x vc.vm v { x with vcpuFiles := x.vcpuFiles.erase c } from h.put hrel
  refine ⟨hv, rfl, fun _ _ => Iff.rfl, fun _ _ => Iff.rfl, h.once _, fun hm => hm,
      fun _ hd => Finset.mem_of_mem_erase hd, ?_, ?_, ?_⟩
  · intro d hd
    have hdc : d ≠ c := by rintro rfl; exact hd hshown
    simp [hdc]
  · intro i r hi hact hro
    rw [← hro]
    exact h.inFlight i r hi hact
  · obtain ⟨hcount, -⟩ := h.count _ v hv
    have h2 : vcpuRef x.vcpuFiles v.vcpu = 1 := by rw [hshown]; simp [vcpuRef, hc]
    have h3 : vcpuRef (x.vcpuFiles.erase c) v.vcpu = 0 := by rw [hshown]; simp [vcpuRef]
    have h4 : Sys.fileRef { x with vcpuFiles := x.vcpuFiles.erase c } vc.vm = x.fileRef vc.vm := rfl
    simp only [h3, h4]
    omega

/-- The installation of a new vm's file fails, and the vm is destroyed. -/
theorem SysOK.abandon (h : SysOK x) (ho : o ∈ x.opening) :
    ∃ k', destroyVm o x.k = .ok k' ∧
      SysOK { x with k := k', opening := x.opening.erase o, log := .destroyVm o :: x.log } := by
  obtain ⟨v, hv⟩ := h.files o (Or.inr ho)
  have hnone := h.quiet o v ho hv
  have hnf : o ∉ x.vmFiles := fun hf => h.once o hf ho
  obtain ⟨k', hd, hk, hvms, hvcpus, hnext⟩ := destroyVm_spec h.kernel hv (by simp [hnone])
  refine ⟨k', hd, ?_⟩
  obtain ⟨hcount, -⟩ := h.count o v hv
  have h1 : x.fileRef o = 1 := by unfold Sys.fileRef; rw [if_pos (Or.inr ho)]
  have h2 := h.reqRefs_zero hnf
  have h3 : vcpuRef x.vcpuFiles v.vcpu = 0 := by rw [hnone]; rfl
  have hrel : Release x o v { x with k := k', opening := x.opening.erase o, log := .destroyVm o :: x.log } := by
    refine ⟨hv, rfl, fun _ _ => Iff.rfl, ?_, ?_, ?_, fun _ hc => hc, fun _ _ => Iff.rfl, ?_, ?_⟩
    · intro n hn; simp [hn]
    · intro hf; exact absurd hf hnf
    · intro hm; exact Finset.mem_of_mem_erase hm
    · intro i r hi hact hro
      rw [← hro]
      exact h.inFlight i r hi hact
    · have h4 : Sys.fileRef { x with k := k', opening := x.opening.erase o, log := .destroyVm o :: x.log } o = 0 := by
        unfold Sys.fileRef
        simp [hnf]
      simp only [h4]
      omega
  exact h.dropLast hrel (by omega) rfl hk hvms hvcpus hnext

/-- **Each step keeps the invariant or panics**: no step follows a dangling pointer or frees
twice. -/
theorem SysOK.step (h : SysOK x) (nasid : BitVec 32) (act : Act) :
    x.step nasid act = .error .panic ∨ ∃ x', x.step nasid act = .ok x' ∧ SysOK x' := by
  cases act with
  | createVm a =>
    right
    rcases createVm_spec h.kernel a with ⟨v, k', he, hk, h1, h2, h3, h4, h5⟩ | ⟨k', he, hk, h1, h2, h3⟩
    · exact ⟨_, by simp only [Sys.step, he, bind, Except.bind], h.addVm hk h1 h2 h3 h4 h5⟩
    · exact ⟨_, by simp only [Sys.step, he, bind, Except.bind], h.setKernel hk h1 h2 h3⟩
  | openVm vm fd =>
    right
    by_cases ho : vm ∈ x.opening
    · cases fd with
      | true => exact ⟨_, by simp only [Sys.step, if_pos ho, if_true], h.openVm ho⟩
      | false =>
        obtain ⟨k', hd, hx⟩ := h.abandon ho
        exact ⟨_, by simp only [Sys.step, if_pos ho, Bool.false_eq_true, if_false, hd, bind, Except.bind], hx⟩
    · exact ⟨x, by simp only [Sys.step, if_neg ho], h⟩
  | request vm =>
    right
    by_cases ho : vm ∈ x.vmFiles
    · exact ⟨_, by simp only [Sys.step, if_pos ho], h.request ho⟩
    · exact ⟨x, by simp only [Sys.step, if_neg ho], h⟩
  | advance i a fd =>
    cases hi : x.reqs[i]? with
    | none => exact Or.inr ⟨x, by simp only [Sys.step, hi], h⟩
    | some r =>
      rcases r.advance_spec h hi nasid a fd with he | ⟨stage, x₁, he, hx⟩
      · exact Or.inl (by simp only [Sys.step, hi, he, bind, Except.bind])
      · exact Or.inr ⟨_, by simp only [Sys.step, hi, he, bind, Except.bind], hx⟩
  | closeVm vm =>
    right
    by_cases ho : vm ∈ x.vmFiles ∧ ∀ r ∈ x.reqs, r.vm = vm → r.stage = .finished
    · obtain ⟨k', hp, hx⟩ := h.closeVm ho.1 ho.2
      exact ⟨_, by simp only [Sys.step, if_pos ho, Sys.put, hp, bind, Except.bind], hx⟩
    · exact ⟨x, by simp only [Sys.step, if_neg ho], h⟩
  | closeVcpu vcpu =>
    right
    by_cases hc : vcpu ∈ x.vcpuFiles
    · obtain ⟨vc, -, hvc, -⟩ := h.vcpuFile vcpu hc
      obtain ⟨k', hp, hx⟩ := h.closeVcpu hc hvc
      exact ⟨_, by simp only [Sys.step, if_pos hc, deref_some hvc, Sys.put, hp, bind, Except.bind], hx⟩
    · exact ⟨x, by simp only [Sys.step, if_neg hc], h⟩
  | mmapPage vm gpa ask =>
    by_cases ho : vm ∈ x.vmFiles
    · obtain ⟨v, hv⟩ := h.files vm (Or.inl ho)
      obtain ⟨m, hm, hok, -⟩ := h.kernel.vmm hv
      rcases vmIoctlMmapPage_cases hok gpa ask with he | ⟨r, s', he, hg⟩
      · exact Or.inl (by simp only [Sys.step, if_pos ho, deref_some hv, deref_some hm, he, bind, Except.bind])
      · exact Or.inr ⟨_, by simp only [Sys.step, if_pos ho, deref_some hv, deref_some hm, he, bind, Except.bind],
          h.grow hv hm hg⟩
    · exact Or.inr ⟨x, by simp only [Sys.step, if_neg ho], h⟩
  | fault vm address vmStart ask =>
    by_cases ho : vm ∈ x.vmFiles
    · obtain ⟨v, hv⟩ := h.files vm (Or.inl ho)
      obtain ⟨m, hm, hok, -⟩ := h.kernel.vmm hv
      rcases vmVmmFault_cases hok address vmStart ask with he | ⟨r, s', he, hg⟩
      · exact Or.inl (by simp only [Sys.step, if_pos ho, deref_some hv, deref_some hm, he, bind, Except.bind])
      · exact Or.inr ⟨_, by simp only [Sys.step, if_pos ho, deref_some hv, deref_some hm, he, bind, Except.bind],
          h.grow hv hm hg⟩
    · exact Or.inr ⟨x, by simp only [Sys.step, if_neg ho], h⟩

/-- **Every run keeps the invariant or panics.** -/
theorem SysOK.run (nasid : BitVec 32) (acts : List Act) : ∀ x, SysOK x →
    x.run nasid acts = .error .panic ∨ ∃ x', x.run nasid acts = .ok x' ∧ SysOK x' := by
  induction acts with
  | nil => intro x h; exact Or.inr ⟨x, rfl, h⟩
  | cons act acts ih =>
    intro x h
    unfold Sys.run
    rw [List.foldlM_cons]
    rcases h.step nasid act with he | ⟨x₁, he, h₁⟩
    · exact Or.inl (by rw [he]; rfl)
    · rw [he]
      exact ih x₁ h₁

theorem SysOK.of_run {nasid : BitVec 32} {acts : List Act} {mem : Frame → Slot → Word} {pages : Finset Frame}
    (h : (Sys.init mem pages).run nasid acts = .ok x) : SysOK x := by
  rcases SysOK.run nasid acts _ (SysOK.init mem pages) with he | ⟨x', he, hx⟩
  · rw [he] at h; simp at h
  · rw [he] at h
    obtain rfl := Except.ok.inj h
    exact hx

/-- A file of a vcpu of the vm `o` is open. -/
def Sys.VcpuOpen (x : Sys) (o : ℕ) : Prop := ∃ c ∈ x.vcpuFiles, (x.k.vcpus c).map Vcpu.vm = some o

instance (x : Sys) (o : ℕ) : Decidable (x.VcpuOpen o) := inferInstanceAs (Decidable (∃ c ∈ x.vcpuFiles, _))

/-- The file that counts is that of the vcpu the vm shows. -/
theorem SysOK.vcpuRef_eq {v : Vm} (h : SysOK x) (hv : x.k.vms o = some v) :
    vcpuRef x.vcpuFiles v.vcpu = if x.VcpuOpen o then 1 else 0 := by
  by_cases hopen : x.VcpuOpen o
  · rw [if_pos hopen]
    obtain ⟨c, hc, hvm⟩ := hopen
    obtain ⟨vc, u, h1, h2, h3⟩ := h.vcpuFile c hc
    rw [h1, Option.map_some, Option.some.injEq] at hvm
    rw [hvm, hv] at h2
    obtain rfl := Option.some.inj h2
    rw [h3]
    simp [vcpuRef, hc]
  · rw [if_neg hopen]
    cases hvc : v.vcpu with
    | none => rfl
    | some c =>
      obtain ⟨vc, h1, h2⟩ := h.vcpu o v c hv hvc
      have hc : c ∉ x.vcpuFiles := fun hc => hopen ⟨c, hc, by rw [h1, Option.map_some, h2]⟩
      simp [vcpuRef, hc]

/-- What holds a reference to the vm `o`. -/
def Sys.Held (x : Sys) (o : ℕ) : Prop :=
  (o ∈ x.vmFiles ∨ o ∈ x.opening) ∨ x.VcpuOpen o ∨ ∃ r ∈ x.reqs, r.vm = o ∧ r.stage.holds = true

/-- A vm is live while something holds it. -/
theorem SysOK.live_iff (h : SysOK x) : (∃ v, x.k.vms o = some v) ↔ x.Held o := by
  constructor
  · rintro ⟨v, hv⟩
    obtain ⟨hcount, hpos⟩ := h.count o v hv
    by_contra hcon
    unfold Sys.Held at hcon
    push Not at hcon
    obtain ⟨hfile, hopen, hreq⟩ := hcon
    have h1 : x.fileRef o = 0 := by unfold Sys.fileRef; rw [if_neg (by tauto)]
    have h2 := h.vcpuRef_eq hv
    rw [if_neg hopen] at h2
    have h3 : reqRefs x.reqs o = 0 := by
      unfold reqRefs
      rw [List.countP_eq_zero]
      intro r hr hcon
      simp only [Bool.and_eq_true, decide_eq_true_eq] at hcon
      exact hreq r hr hcon.1 hcon.2
    omega
  · rintro (hfile | ⟨c, hc, hvm⟩ | ⟨r, hr, rfl, hholds⟩)
    · exact h.files o hfile
    · obtain ⟨vc, v, h1, h2, -⟩ := h.vcpuFile c hc
      rw [h1, Option.map_some, Option.some.injEq] at hvm
      exact ⟨v, hvm ▸ h2⟩
    · obtain ⟨i, hi⟩ := List.getElem?_of_mem hr
      exact h.reqVm hi (by intro he; rw [he] at hholds; simp [Stage.holds] at hholds)

/-- **The lifecycle of vms and vcpus.** In every state that an interleaving of requests and
releases reaches: the reference count of a live vm is the number of its holders;
`yakvm_destroy_vm` has run once for a vm that has lost all of them and never for one that has
not; at most one file of a vcpu was ever opened for a vm; and the vcpu that a vm shows, or
that a file is open for, is live and belongs to that vm. -/
theorem lifecycle {nasid : BitVec 32} {acts : List Act} {mem : Frame → Slot → Word} {pages : Finset Frame}
    (h : (Sys.init mem pages).run nasid acts = .ok x) :
    (∀ o v, x.k.vms o = some v → v.refcount =
      (if o ∈ x.vmFiles ∨ o ∈ x.opening then 1 else 0) + (if x.VcpuOpen o then 1 else 0) +
        (x.reqs.countP fun r => decide (r.vm = o) && r.stage.holds)) ∧
    (∀ o, .createVm o ∈ x.log → ((∃ v, x.k.vms o = some v) ↔ x.Held o) ∧
      (x.Held o → x.log.count (.destroyVm o) = 0) ∧ (¬ x.Held o → x.log.count (.destroyVm o) = 1)) ∧
    (∀ o, x.log.countP (Call.opens o) ≤ 1) ∧
    (∀ o v c, x.k.vms o = some v → v.vcpu = some c → ∃ vc, x.k.vcpus c = some vc ∧ vc.vm = o) ∧
    (∀ c ∈ x.vcpuFiles, ∃ vc v, x.k.vcpus c = some vc ∧ x.k.vms vc.vm = some v ∧ v.vcpu = some c) := by
  have hx := SysOK.of_run h
  refine ⟨?_, ?_, hx.opened, hx.vcpu, hx.vcpuFile⟩
  · intro o v hv
    obtain ⟨hcount, -⟩ := hx.count o v hv
    rw [hcount, hx.vcpuRef_eq hv]
    unfold Sys.fileRef reqRefs
    push_cast
    rfl
  · intro o hlog
    have hd := hx.destroyed o
    refine ⟨hx.live_iff, ?_, ?_⟩
    · intro hheld
      obtain ⟨v, hv⟩ := hx.live_iff.2 hheld
      rw [hd, hv]
      simp
    · intro hheld
      have hdead : x.k.vms o = none := by
        cases hv : x.k.vms o with
        | none => rfl
        | some v => exact absurd (hx.live_iff.1 ⟨v, hv⟩) hheld
      rw [hd, if_pos ⟨hlog, hdead⟩]

/-- A vm is created, its file installed, and a vcpu requested: one reference, held by the
file. -/
theorem lifecycle_request : ∃ x v, (Sys.init (fun _ _ => 0) ∅).run 16
      [.createVm ⟨some 0x1000, countingAsk⟩, .openVm 0 true, .request 0] = .ok x ∧
    x.k.vms 0 = some v ∧ x.reqs = [⟨0, .start⟩] ∧ v.refcount = 1 ∧ x.log.count (.destroyVm 0) = 0 := by
  have hrun : ∃ x v, (Sys.init (fun _ _ => 0) ∅).run 16
      [.createVm ⟨some 0x1000, countingAsk⟩, .openVm 0 true, .request 0] = .ok x ∧
      x.k.vms 0 = some v ∧ x.reqs = [⟨0, .start⟩] ∧ x.vmFiles = {0} ∧ x.vcpuFiles = ∅ ∧ .createVm 0 ∈ x.log :=
    ⟨_, _, rfl, rfl, rfl, by decide, rfl, by decide⟩
  obtain ⟨x, v, hx, hv, hreqs, hfiles, hvcpu, hlog⟩ := hrun
  obtain ⟨h1, h2, -⟩ := lifecycle hx
  refine ⟨x, v, hx, hv, hreqs, ?_, ?_⟩
  · have hopen : ¬ x.VcpuOpen 0 := by rintro ⟨c, hc, -⟩; rw [hvcpu] at hc; simp at hc
    rw [h1 0 v hv, hreqs, hfiles, if_pos (by simp), if_neg hopen]
    rfl
  · exact (h2 0 hlog).2.1 (Or.inl (Or.inl (by rw [hfiles]; simp)))

end Yakvm
