import Yakvm.Proof.Evolve
import Yakvm.Proof.Isolation
import Yakvm.Spec.Smp

/-!
# The world switch gives every processor its host back

While a vcpu runs, the state of the host is in three places: in the page that `MSR_VM_HSAVE_PA` names, in the
vcpu's host control block, and in the processor. What keeps them together is that the thread stays on its
processor, that no other thread runs the vcpu, and that no two vcpus have a page in common. `Fits` says for
each step of `yakvm_vcpu_run` where the state is.

* `stages_svm`: the steps are those of `yakvm_vcpu_run` and `_yakvm_vcpu_run`, in order.
* `SmpOK.moved`: what a step of one thread has to show for the other processors.
* `PlatformOK.step`: a step of the driver or of a processor.
* `switch_restores`: host code finds its processors as it left them.
-/

namespace Yakvm

variable {H S : Type}

/-! ## Stages -/

/-- The stages in the order of the code. -/
def runStages : List RunStage :=
  [.lock, .preemptDisable, .wrmsr, .clgi, .vmsaveHost, .vmloadGuest, .vmrun, .guest, .vmsaveGuest, .vmloadHost, .stgi,
    .preemptEnable, .unlock, .finished]

/-- The stages execute the SVM instructions of the code. -/
theorem stages_svm : runStages.filterMap RunStage.svm = vcpuRunSvm := rfl

namespace RunStage

/-- The thread holds the lock of its vcpu. -/
@[simp] def locked : RunStage → Bool
  | .lock | .finished => false
  | _ => true

/-- Preemption is disabled. -/
@[simp] def pinned : RunStage → Bool
  | .lock | .preemptDisable | .unlock | .finished => false
  | _ => true

/-- The global interrupt flag is set; in the guest it is the guest's. -/
@[simp] def opened : RunStage → Bool
  | .vmsaveHost | .vmloadGuest | .vmrun | .vmsaveGuest | .vmloadHost | .stgi => false
  | _ => true

/-- The processor has the guest's part of what `vmsave` saves. -/
@[simp] def away : RunStage → Bool
  | .vmrun | .guest | .vmsaveGuest | .vmloadHost => true
  | _ => false

/-- `MSR_VM_HSAVE_PA` has been written. -/
@[simp] def armed : RunStage → Bool
  | .clgi | .vmsaveHost | .vmloadGuest | .vmrun | .guest => true
  | _ => false

/-- The host's part of what `vmsave` saves is in the host control block. -/
@[simp] def stored : RunStage → Bool
  | .vmloadGuest | .vmrun | .guest | .vmsaveGuest | .vmloadHost => true
  | _ => false

theorem stored_locked {st : RunStage} (h : st.stored = true) : st.locked = true := by
  cases st <;> first | rfl | cases h

end RunStage

/-- The pages of a vcpu that the switch writes. -/
inductive SwitchPage
  | hvmcb
  | gvmcb
  | hsave
  deriving DecidableEq

@[simp] def Vcpu.page (vc : Vcpu) : SwitchPage → Frame
  | .hvmcb => vc.hvmcb
  | .gvmcb => vc.gvmcb
  | .hsave => vc.hsave

/-- No page is used twice. -/
def PagesApart (vcpus : ℕ → Option Vcpu) : Prop :=
  ∀ {c c' vc vc'} (a b : SwitchPage), vcpus c = some vc → vcpus c' = some vc' → vc.page a = vc'.page b → c = c' ∧ a = b

/-- The vcpus of the driver have no page in common. -/
theorem KernelOK.pagesApart {k : Kernel} (hk : KernelOK k) : PagesApart k.vcpus := by
  intro c c' vc vc' a b hc hc' hpage
  let part : SwitchPage → Part := fun
    | .hvmcb => .hvmcb
    | .gvmcb => .gvmcb
    | .hsave => .hsave
  have hrole : ∀ (c : ℕ) (vc : Vcpu) (a : SwitchPage), k.vcpus c = some vc → k.HasRole (.vcpu c (part a)) (vc.page a) := by
    intro c vc a hc
    refine ⟨vc, hc, ?_⟩
    cases a <;> exact List.mem_singleton.2 rfl
  have h := hk.role_unique (hrole c vc a hc) (hpage ▸ hrole c' vc' b hc')
  have hinj : c = c' ∧ part a = part b := by simpa using h
  refine ⟨hinj.1, ?_⟩
  have := hinj.2
  cases a <;> cases b <;> first | rfl | cases this

/-! ## The invariant -/

variable {vcpus : ℕ → Option Vcpu} {x x' : Smp H S} {p q t c : ℕ} {th : RunThread} {vc : Vcpu} {st st' : RunStage}

/-- Where the state of a processor is while a thread on it is at a stage of a run of the vcpu `c`. -/
structure Fits (x : Smp H S) (p : ℕ) (vc : Vcpu) (c : ℕ) (st : RunStage) : Prop where
  preempt : (x.cpus p).preempt = if st.pinned then 1 else 0
  gif : (x.cpus p).gif = st.opened
  inGuest : (x.cpus p).inGuest = decide (st = .guest)
  host : st ≠ .guest → (x.cpus p).host = (x.home p).1
  sys : st.away = false → (x.cpus p).sys = (x.home p).2
  hsavePa : st.armed = true → (x.cpus p).hsavePa = pageToPhys vc.hsave
  hvmcb : st.stored = true → x.mem vc.hvmcb = .sys (x.home p).2
  hsave : st = .guest → x.mem vc.hsave = .host (x.home p).1
  loaded : st = .vmrun ∨ st = .vmsaveGuest → (x.cpus p).sys = x.left c

/-- A processor without a thread. -/
structure Calm (x : Smp H S) (p : ℕ) : Prop where
  preempt : (x.cpus p).preempt = 0
  gif : (x.cpus p).gif = true
  inGuest : (x.cpus p).inGuest = false
  home : ((x.cpus p).host, (x.cpus p).sys) = x.home p

/-- What every interleaving keeps. -/
structure SmpOK (vcpus : ℕ → Option Vcpu) (x : Smp H S) : Prop where
  vcpu : ∀ {t th}, x.threads t = some th → th.stage ≠ .finished → ∃ vc, vcpus th.vcpu = some vc
  on : ∀ {t th p}, x.threads t = some th → th.on = some p → (x.cpus p).current = some t
  current : ∀ {p t}, (x.cpus p).current = some t → ∃ th, x.threads t = some th ∧ th.on = some p
  pinned : ∀ {t th}, x.threads t = some th → th.stage.pinned = true → ∃ p, th.on = some p
  lock : ∀ {t th}, x.threads t = some th → th.stage.locked = true → x.locks th.vcpu = some t
  held : ∀ {c t}, x.locks c = some t → ∃ th, x.threads t = some th ∧ th.vcpu = c ∧ th.stage.locked = true
  idle : ∀ {p}, (x.cpus p).current = none → Calm x p
  calm : ∀ {p t th}, (x.cpus p).current = some t → x.threads t = some th → th.stage = .finished → Calm x p
  fits : ∀ {p t th vc}, (x.cpus p).current = some t → x.threads t = some th → vcpus th.vcpu = some vc →
    Fits x p vc th.vcpu th.stage
  gvmcb : ∀ {c vc}, vcpus c = some vc → (∀ t th, x.threads t = some th → th.vcpu = c → th.stage ≠ .vmsaveGuest) →
    x.mem vc.gvmcb = .sys (x.left c)

/-- A processor keeps what it has, and its vcpu what it has in memory. -/
theorem Fits.frame (h : Fits x p vc c st) (hcpu : x'.cpus p = x.cpus p) (hhome : x'.home p = x.home p)
    (hmem : st.locked = true → (∀ a, x'.mem (vc.page a) = x.mem (vc.page a)) ∧ x'.left c = x.left c) : Fits x' p vc c st where
  preempt := by rw [hcpu]; exact h.preempt
  gif := by rw [hcpu]; exact h.gif
  inGuest := by rw [hcpu]; exact h.inGuest
  host := by rw [hcpu, hhome]; exact h.host
  sys := by rw [hcpu, hhome]; exact h.sys
  hsavePa := by rw [hcpu]; exact h.hsavePa
  hvmcb := fun hs => by
    rw [show x'.mem vc.hvmcb = _ from (hmem (RunStage.stored_locked hs)).1 .hvmcb, hhome]
    exact h.hvmcb hs
  hsave := fun hs => by
    rw [show x'.mem vc.hsave = _ from (hmem (by rw [hs]; rfl)).1 .hsave, hhome]
    exact h.hsave hs
  loaded := fun hs => by
    rw [hcpu, (hmem (by rcases hs with rfl | rfl <;> rfl)).2]
    exact h.loaded hs

theorem Calm.frame (h : Calm x p) (hcpu : x'.cpus p = x.cpus p) (hhome : x'.home p = x.home p) : Calm x' p :=
  ⟨by rw [hcpu]; exact h.preempt, by rw [hcpu]; exact h.gif, by rw [hcpu]; exact h.inGuest, by rw [hcpu, hhome]; exact h.home⟩

theorem Calm.fits (h : Calm x p) (hst : st.pinned = false) : Fits x p vc c st := by
  obtain ⟨hpre, hgif, hin, hhome⟩ := h
  have hhost : (x.cpus p).host = (x.home p).1 := congrArg Prod.fst hhome
  have hsys : (x.cpus p).sys = (x.home p).2 := congrArg Prod.snd hhome
  cases st <;> first
    | exact ⟨hpre, hgif, hin, fun _ => hhost, fun _ => hsys, by simp, by simp, by simp, by simp⟩
    | cases hst

theorem Fits.calm (h : Fits x p vc c st) (hst : st.pinned = false) : Calm x p := by
  obtain ⟨hpre, hgif, hin, hhost, hsys, -, -, -, -⟩ := h
  cases st <;> first
    | exact ⟨hpre, hgif, hin, Prod.ext (hhost (by simp)) (hsys rfl)⟩
    | cases hst

/-- **A step of one thread.** It may change its processor, and, under the lock of its vcpu, the pages of the vcpu. -/
theorem SmpOK.moved (h : SmpOK vcpus x) (hap : PagesApart vcpus) (hcur : (x.cpus p).current = some t)
    (hth : x.threads t = some th) (hvc : vcpus th.vcpu = some vc)
    (hthreads : x'.threads = Function.update x.threads t (some { th with stage := st' }))
    (hcpus : ∀ q, q ≠ p → x'.cpus q = x.cpus q) (hcur' : (x'.cpus p).current = some t) (hhome : x'.home = x.home)
    (hlocks : ∀ c, c ≠ th.vcpu → x'.locks c = x.locks c)
    (hlock : x'.locks th.vcpu = x.locks th.vcpu ∨ (x.locks th.vcpu = none ∧ x'.locks th.vcpu = some t) ∨
      (x.locks th.vcpu = some t ∧ x'.locks th.vcpu = none))
    (hlock' : st'.locked = true ↔ x'.locks th.vcpu = some t)
    (hmem : ∀ f, (∀ a, f ≠ vc.page a) → x'.mem f = x.mem f) (hleft : ∀ c, c ≠ th.vcpu → x'.left c = x.left c)
    (hheld : th.stage.locked = true ∨ (x'.mem = x.mem ∧ x'.left = x.left))
    (hfits : Fits x' p vc th.vcpu st')
    (hgvmcb : th.stage.locked = true → st' ≠ .vmsaveGuest → x'.mem vc.gvmcb = .sys (x'.left th.vcpu)) : SmpOK vcpus x' := by
  have hthread : ∀ {u th'}, x'.threads u = some th' → (u = t ∧ th' = { th with stage := st' }) ∨ (u ≠ t ∧ x.threads u = some th') := by
    intro u th' hu
    rw [hthreads] at hu
    by_cases hut : u = t
    · rw [hut, Function.update_self] at hu
      exact Or.inl ⟨hut, (Option.some.inj hu).symm⟩
    · rw [Function.update_of_ne hut] at hu
      exact Or.inr ⟨hut, hu⟩
  obtain ⟨th₀, hth₀, hon⟩ := h.current hcur
  obtain rfl := Option.some.inj (hth₀.symm.trans hth)
  -- another thread in a critical section has another vcpu
  have hother : ∀ {u th'}, u ≠ t → x.threads u = some th' → th'.stage.locked = true →
      th₀.stage.locked = true → th'.vcpu ≠ th₀.vcpu := by
    intro u th' hut hu hl hl' hv
    have h1 := h.lock hu hl
    rw [hv, h.lock hth hl'] at h1
    exact hut (Option.some.inj h1).symm
  -- the thread is on `p` and nowhere else, and no other thread is on `p`
  have hthis : ∀ {q}, (x'.cpus q).current = some t → q = p := by
    intro q hq
    by_contra hqp
    rw [hcpus q hqp] at hq
    obtain ⟨th', hth', hq'⟩ := h.current hq
    obtain rfl := Option.some.inj (hth'.symm.trans hth)
    exact hqp (Option.some.inj (hq'.symm.trans hon))
  have hthat : ∀ {q u}, u ≠ t → (x'.cpus q).current = some u → q ≠ p := by
    rintro q u hut hq rfl
    exact hut (Option.some.inj (hq.symm.trans hcur'))
  have hpages : ∀ {c' vc'}, vcpus c' = some vc' → (c' ≠ th₀.vcpu ∨ (x'.mem = x.mem ∧ x'.left = x.left)) →
      (∀ a, x'.mem (vc'.page a) = x.mem (vc'.page a)) ∧ x'.left c' = x.left c' := by
    intro c' vc' hc' hne
    rcases hne with hne | ⟨hm, hl⟩
    · exact ⟨fun a => hmem _ fun b hb => hne (hap a b hc' hvc hb).1, hleft _ hne⟩
    · exact ⟨fun a => by rw [hm], by rw [hl]⟩
  refine ⟨?_, ?_, ?_, ?_, ?_, ?_, ?_, ?_, ?_, ?_⟩
  · intro u th' hu hact
    rcases hthread hu with ⟨-, rfl⟩ | ⟨-, hu⟩
    · exact ⟨vc, hvc⟩
    · exact h.vcpu hu hact
  · intro u th' q hu hq
    rcases hthread hu with ⟨rfl, rfl⟩ | ⟨hut, hu⟩
    · obtain rfl : p = q := Option.some.inj (hon.symm.trans hq)
      exact hcur'
    · have hcq := h.on hu hq
      have hqp : q ≠ p := by
        rintro rfl
        exact hut (Option.some.inj (hcq.symm.trans hcur))
      rw [hcpus q hqp]
      exact hcq
  · intro q u hu
    by_cases hqp : q = p
    · subst hqp
      obtain rfl := Option.some.inj (hu.symm.trans hcur')
      exact ⟨{ th₀ with stage := st' }, by rw [hthreads, Function.update_self], hon⟩
    · rw [hcpus q hqp] at hu
      obtain ⟨th', hth', hq⟩ := h.current hu
      have hut : u ≠ t := by
        rintro rfl
        obtain rfl := Option.some.inj (hth'.symm.trans hth)
        exact hqp (Option.some.inj (hq.symm.trans hon))
      exact ⟨th', by rw [hthreads, Function.update_of_ne hut, hth'], hq⟩
  · intro u th' hu hp
    rcases hthread hu with ⟨-, rfl⟩ | ⟨-, hu⟩
    · exact ⟨p, hon⟩
    · exact h.pinned hu hp
  · intro u th' hu hl
    rcases hthread hu with ⟨rfl, rfl⟩ | ⟨hut, hu⟩
    · exact hlock'.1 hl
    · have hheld' := h.lock hu hl
      by_cases hv : th'.vcpu = th₀.vcpu
      · rw [hv] at hheld' ⊢
        rcases hlock with heq | ⟨hnone, -⟩ | ⟨hsome, -⟩
        · rw [heq]; exact hheld'
        · rw [hnone] at hheld'; simp at hheld'
        · rw [hsome] at hheld'
          exact absurd (Option.some.inj hheld').symm hut
      · rw [hlocks _ hv]
        exact hheld'
  · intro c' u hc'
    by_cases hv : c' = th₀.vcpu
    · subst hv
      by_cases hut : u = t
      · subst hut
        exact ⟨{ th₀ with stage := st' }, by rw [hthreads, Function.update_self], rfl, hlock'.2 hc'⟩
      · rcases hlock with heq | ⟨-, hsome⟩ | ⟨-, hnone⟩
        · obtain ⟨th', hu, hv', hl⟩ := h.held (heq ▸ hc')
          exact ⟨th', by rw [hthreads, Function.update_of_ne hut, hu], hv', hl⟩
        · exact absurd (Option.some.inj (hc'.symm.trans hsome)) hut
        · exact absurd (hc'.symm.trans hnone) (by simp)
    · rw [hlocks _ hv] at hc'
      obtain ⟨th', hu, hv', hl⟩ := h.held hc'
      have hut : u ≠ t := by
        rintro rfl
        obtain rfl := Option.some.inj (hu.symm.trans hth)
        exact hv hv'.symm
      exact ⟨th', by rw [hthreads, Function.update_of_ne hut, hu], hv', hl⟩
  · intro q hq
    have hqp : q ≠ p := by
      rintro rfl
      rw [hcur'] at hq
      simp at hq
    rw [hcpus q hqp] at hq
    exact (h.idle hq).frame (hcpus q hqp) (by rw [hhome])
  · intro q u th' hq hu hfin
    rcases hthread hu with ⟨rfl, rfl⟩ | ⟨hut, hu⟩
    · obtain rfl := hthis hq
      exact hfits.calm (by rw [show st' = .finished from hfin]; rfl)
    · have hqp : q ≠ p := hthat hut hq
      rw [hcpus q hqp] at hq
      exact (h.calm hq hu hfin).frame (hcpus q hqp) (by rw [hhome])
  · intro q u th' vc' hq hu hvc'
    rcases hthread hu with ⟨rfl, rfl⟩ | ⟨hut, hu⟩
    · obtain rfl := hthis hq
      obtain rfl := Option.some.inj (hvc'.symm.trans hvc)
      exact hfits
    · have hqp : q ≠ p := hthat hut hq
      rw [hcpus q hqp] at hq
      refine (h.fits hq hu hvc').frame (hcpus q hqp) (by rw [hhome]) fun hl => hpages hvc' ?_
      rcases hheld with hl' | hsame
      · exact Or.inl (hother hut hu hl hl')
      · exact Or.inr hsame
  · intro c' vc' hc' hst
    by_cases hv : c' = th₀.vcpu
    · subst hv
      obtain rfl := Option.some.inj (hc'.symm.trans hvc)
      by_cases hl : th₀.stage.locked = true
      · exact hgvmcb hl (hst t { th₀ with stage := st' } (by rw [hthreads, Function.update_self]) rfl)
      · obtain ⟨hm, hle⟩ := hheld.resolve_left hl
        rw [hm, hle]
        refine h.gvmcb hvc fun u th' hu hu' => ?_
        by_cases hut : u = t
        · subst hut
          obtain rfl := Option.some.inj (hu.symm.trans hth)
          intro hst'
          rw [hst'] at hl
          exact hl rfl
        · exact hst u th' (by rw [hthreads, Function.update_of_ne hut, hu]) hu'
    · obtain ⟨hm, hl⟩ := hpages hc' (Or.inl hv)
      rw [show x'.mem vc'.gvmcb = _ from hm .gvmcb, hl]
      refine h.gvmcb hc' fun u th' hu hu' => ?_
      by_cases hut : u = t
      · subst hut
        obtain rfl := Option.some.inj (hu.symm.trans hth)
        exact absurd hu' (Ne.symm hv)
      · exact hst u th' (by rw [hthreads, Function.update_of_ne hut, hu]) hu'

/-! ## Steps of a thread -/

namespace Smp

@[simp] theorem setCpu_same (x : Smp H S) (p : ℕ) (c : Pcpu H S) : (x.setCpu p c).cpus p = c := Function.update_self ..

theorem setCpu_ne (x : Smp H S) (c : Pcpu H S) (h : q ≠ p) : (x.setCpu p c).cpus q = x.cpus q := Function.update_of_ne h ..

@[simp] theorem setThread_same (x : Smp H S) (t : ℕ) (th : RunThread) : (x.setThread t th).threads t = some th :=
  Function.update_self ..

theorem setThread_ne (x : Smp H S) (th : RunThread) (h : q ≠ t) : (x.setThread t th).threads q = x.threads q :=
  Function.update_of_ne h ..

@[simp] theorem setThread_cpus (x : Smp H S) (t : ℕ) (th : RunThread) : (x.setThread t th).cpus = x.cpus := rfl

@[simp] theorem setThread_locks (x : Smp H S) (t : ℕ) (th : RunThread) : (x.setThread t th).locks = x.locks := rfl

@[simp] theorem setThread_mem (x : Smp H S) (t : ℕ) (th : RunThread) : (x.setThread t th).mem = x.mem := rfl

@[simp] theorem setThread_home (x : Smp H S) (t : ℕ) (th : RunThread) : (x.setThread t th).home = x.home := rfl

@[simp] theorem setThread_left (x : Smp H S) (t : ℕ) (th : RunThread) : (x.setThread t th).left = x.left := rfl

@[simp] theorem setCpu_mem (x : Smp H S) (p : ℕ) (c : Pcpu H S) : (x.setCpu p c).mem = x.mem := rfl

@[simp] theorem setCpu_home (x : Smp H S) (p : ℕ) (c : Pcpu H S) : (x.setCpu p c).home = x.home := rfl

@[simp] theorem setCpu_left (x : Smp H S) (p : ℕ) (c : Pcpu H S) : (x.setCpu p c).left = x.left := rfl

@[simp] theorem setPage_cpus (x : Smp H S) (f : Frame) (v : Saved H S) : (x.setPage f v).cpus = x.cpus := rfl

@[simp] theorem setPage_home (x : Smp H S) (f : Frame) (v : Saved H S) : (x.setPage f v).home = x.home := rfl

@[simp] theorem setPage_left (x : Smp H S) (f : Frame) (v : Saved H S) : (x.setPage f v).left = x.left := rfl

@[simp] theorem setPage_same (x : Smp H S) (f : Frame) (v : Saved H S) : (x.setPage f v).mem f = v := Function.update_self ..

theorem setPage_ne (x : Smp H S) {f g : Frame} (v : Saved H S) (h : g ≠ f) : (x.setPage f v).mem g = x.mem g :=
  Function.update_of_ne h ..

end Smp

open Smp

/-- The control block of a vcpu that is in use, except when the guest's state is still in the processor. -/
theorem SmpOK.gvmcb_of (h : SmpOK vcpus x) (hth : x.threads t = some th) (hvc : vcpus th.vcpu = some vc)
    (hl : th.stage.locked = true) (hst : th.stage ≠ .vmsaveGuest) : x.mem vc.gvmcb = .sys (x.left th.vcpu) := by
  refine h.gvmcb hvc fun u th' hu hv hst' => ?_
  have h1 := h.lock hu (by rw [hst']; rfl)
  rw [hv, h.lock hth hl] at h1
  obtain rfl := Option.some.inj h1
  obtain rfl := Option.some.inj (hu.symm.trans hth)
  exact hst hst'

/-- A step that changes the processor only. -/
theorem SmpOK.movedCpu (h : SmpOK vcpus x) (hap : PagesApart vcpus) (hcur : (x.cpus p).current = some t)
    (hth : x.threads t = some th) (hvc : vcpus th.vcpu = some vc) {cpu : Pcpu H S} (hcpu : cpu.current = (x.cpus p).current)
    (hl : th.stage.locked = true) (hl' : st'.locked = true) (hst : th.stage ≠ .vmsaveGuest)
    (hfits : Fits (x.setCpu p cpu) p vc th.vcpu st') :
    SmpOK vcpus ((x.setCpu p cpu).setThread t { th with stage := st' }) := by
  have hcpu' : cpu.current = some t := hcpu.trans hcur
  exact h.moved hap hcur hth hvc rfl (fun q hq => setCpu_ne x cpu hq) (by simpa using hcpu') rfl (fun _ _ => rfl)
    (Or.inl rfl) (iff_of_true hl' (h.lock hth hl)) (fun _ _ => rfl) (fun _ _ => rfl) (Or.inr ⟨rfl, rfl⟩)
    (hfits.frame rfl rfl fun _ => ⟨fun _ => rfl, rfl⟩) (fun _ _ => h.gvmcb_of hth hvc hl hst)

/-- The host save area is a page of the vcpu. -/
theorem hsavePage_eq {cpu : Pcpu H S} {f : Frame} (h : cpu.hsavePa = pageToPhys f) : hsavePage cpu = f := by
  rw [hsavePage, h, ← vmmPhysToVirt_eq, vmmPhysToVirt_pageToPhys]

/-- Two pages of a vcpu. -/
theorem PagesApart.ne (hap : PagesApart vcpus) (hvc : vcpus c = some vc) {a b : SwitchPage} (hab : a ≠ b) :
    vc.page a ≠ vc.page b := fun h => hab (hap a b hvc hvc h).2

/-- **A thread takes its next step**, and the invariant holds again. It never loads from a page that holds something
else. -/
theorem SmpOK.advance (h : SmpOK vcpus x) (hap : PagesApart vcpus) (hcur : (x.cpus p).current = some t)
    (hth : x.threads t = some th) (hvc : vcpus th.vcpu = some vc) (killed : Bool) (hg : H) (sg : S) :
    ∃ x', x.advance vc p t th killed hg sg = .ok x' ∧ SmpOK vcpus x' := by
  have hfit := h.fits hcur hth hvc
  have hgv := h.gvmcb_of hth hvc
  have hlk := h.lock hth
  have hfree : th.stage.locked = false → x.locks th.vcpu ≠ some t := by
    intro hl hsome
    obtain ⟨th', hth', -, hl'⟩ := h.held hsome
    obtain rfl := Option.some.inj (hth'.symm.trans hth)
    rw [hl] at hl'
    cases hl'
  unfold Smp.advance
  obtain ⟨v, st, on⟩ := th
  simp only at hfit hvc hgv hlk hfree ⊢
  obtain ⟨hpre, hgif, hin, hhost, hsys, hpa, hhv, hsv, hld⟩ := hfit
  cases st with
  | lock =>
    by_cases hk : killed = true
    · rw [if_pos ⟨rfl, hk⟩]
      refine ⟨_, rfl, h.moved hap hcur hth hvc rfl (fun _ _ => rfl) hcur rfl (fun _ _ => rfl) (Or.inl rfl)
        (iff_of_false (by simp) (hfree rfl)) (fun _ _ => rfl) (fun _ _ => rfl) (Or.inr ⟨rfl, rfl⟩) ?_ (fun hl => by cases hl)⟩
      exact ⟨hpre, hgif, hin, fun _ => hhost (by simp), fun _ => hsys rfl, fun hl => (by cases hl), fun hl => (by cases hl),
        fun hl => (by cases hl), fun hl => by simp at hl⟩
    · rw [if_neg fun hk' => hk hk'.2]
      by_cases hopen : (x.locks v).isSome
      · rw [if_pos ⟨rfl, hopen⟩]
        exact ⟨x, rfl, h⟩
      · rw [if_neg fun hf => hopen hf.2]
        have hnone : x.locks v = none := by simpa using hopen
        refine ⟨_, rfl, h.moved hap hcur hth hvc rfl (fun _ _ => rfl) hcur rfl (fun c hc => Function.update_of_ne hc _ _)
          (Or.inr (Or.inl ⟨hnone, Function.update_self ..⟩)) (iff_of_true rfl (Function.update_self ..)) (fun _ _ => rfl) (fun _ _ => rfl) (Or.inr ⟨rfl, rfl⟩) ?_
          (fun hl => by cases hl)⟩
        exact ⟨hpre, hgif, hin, fun _ => hhost (by simp), fun _ => hsys rfl, fun hl => (by cases hl), fun hl => (by cases hl),
          fun hl => (by cases hl), fun hl => by simp [RunStage.next] at hl⟩
  | preemptDisable =>
    refine ⟨_, rfl, h.movedCpu hap hcur hth hvc rfl rfl rfl (by simp) ?_⟩
    refine ⟨by simp [hpre], by simpa using hgif, by simpa using hin, fun _ => ?_, fun _ => ?_, by simp, by simp, by simp, by simp⟩
    · simpa using hhost (by simp)
    · simpa using hsys rfl
  | wrmsr =>
    refine ⟨_, rfl, h.movedCpu hap hcur hth hvc rfl rfl rfl (by simp) ?_⟩
    refine ⟨by simpa using hpre, by simpa using hgif, by simpa using hin, fun _ => ?_, fun _ => ?_, by simp, by simp, by simp,
      by simp⟩
    · simpa using hhost (by simp)
    · simpa using hsys rfl
  | clgi =>
    refine ⟨_, rfl, h.movedCpu hap hcur hth hvc rfl rfl rfl (by simp) ?_⟩
    refine ⟨by simpa using hpre, by simp, by simpa using hin, fun _ => ?_, fun _ => ?_, fun _ => ?_, by simp, by simp, by simp⟩
    · simpa using hhost (by simp)
    · simpa using hsys rfl
    · simpa using hpa rfl
  | vmsaveHost =>
    refine ⟨_, rfl, h.moved hap hcur hth hvc rfl (fun _ _ => rfl) hcur rfl (fun _ _ => rfl) (Or.inl rfl) (iff_of_true rfl (hlk rfl))
      (fun f hf => setPage_ne x _ (hf .hvmcb)) (fun _ _ => rfl) (Or.inl rfl) ?_ fun _ _ => ?_⟩
    · refine ⟨hpre, hgif, by simpa [vmsave] using hin, fun _ => hhost (by simp), fun _ => hsys rfl, fun _ => hpa rfl, fun _ => ?_,
        by simp, by simp⟩
      exact (setPage_same x vc.hvmcb _).trans (congrArg Saved.sys (hsys rfl))
    · exact (setPage_ne x _ (hap.ne hvc (a := .gvmcb) (b := .hvmcb) (by simp))).trans (hgv rfl (by simp))
  | vmloadGuest =>
    have hload : x.vmload p vc.gvmcb = .ok (x.setCpu p { x.cpus p with sys := x.left v }) := by
      rw [vmload, hgv rfl (by simp)]
    rw [if_neg (by simp), if_neg (by simp), doStage, hload]
    refine ⟨_, rfl, h.movedCpu hap hcur hth hvc rfl rfl rfl (by simp) ?_⟩
    refine ⟨by simpa using hpre, by simpa using hgif, by simpa using hin, fun _ => ?_, by simp, fun _ => ?_, fun _ => ?_, by simp,
      by simp⟩
    · simpa using hhost (by simp)
    · simpa using hpa rfl
    · simpa using hhv rfl
  | vmrun =>
    have hpage : hsavePage (x.cpus p) = vc.hsave := hsavePage_eq (hpa rfl)
    refine ⟨_, rfl, h.moved hap hcur hth hvc rfl (fun q hq => ?_) ?_ rfl (fun _ _ => rfl) (Or.inl rfl) (iff_of_true rfl (hlk rfl))
      (fun f hf => ?_) (fun _ _ => rfl) (Or.inl rfl) ?_ fun _ _ => ?_⟩
    · exact setCpu_ne _ _ hq
    · simpa [Smp.vmrun] using hcur
    · simpa [Smp.vmrun, hpage] using setPage_ne x _ (hf .hsave)
    · refine ⟨by simpa [Smp.vmrun] using hpre, by simp [Smp.vmrun], by simp [Smp.vmrun], by simp, by simp, fun _ => ?_, fun _ => ?_,
        fun _ => ?_, by simp⟩
      · simpa [Smp.vmrun] using hpa rfl
      · simpa [Smp.vmrun, hpage] using (setPage_ne x _ (hap.ne hvc (a := .hvmcb) (b := .hsave) (by simp))).trans (hhv rfl)
      · simp [Smp.vmrun, hpage, hhost]
    · simpa [Smp.vmrun, hpage] using
        (setPage_ne x _ (hap.ne hvc (a := .gvmcb) (b := .hsave) (by simp))).trans (hgv rfl (by simp))
  | guest =>
    have hpage : hsavePage (x.cpus p) = vc.hsave := hsavePage_eq (hpa rfl)
    have hexit : x.vmexit p v sg = .ok { x.setCpu p { x.cpus p with
        host := (x.home p).1, sys := sg, gif := false, inGuest := false } with left := Function.update x.left v sg } := by
      rw [vmexit, hpage, hsv rfl]
    rw [if_neg (by simp), if_neg (by simp), doStage, hexit]
    refine ⟨_, rfl, h.moved hap hcur hth hvc rfl (fun q hq => setCpu_ne x _ hq) (by simpa using hcur) rfl (fun _ _ => rfl)
      (Or.inl rfl) (iff_of_true rfl (hlk rfl)) (fun _ _ => rfl) (fun c hc => Function.update_of_ne hc _ _) (Or.inl rfl) ?_ fun _ hst => ?_⟩
    · refine ⟨by simpa using hpre, by simp, by simp, by simp, by simp, by simp, fun _ => ?_, by simp, by simp⟩
      simpa using hhv rfl
    · exact absurd rfl hst
  | vmsaveGuest =>
    refine ⟨_, rfl, h.moved hap hcur hth hvc rfl (fun _ _ => rfl) hcur rfl (fun _ _ => rfl) (Or.inl rfl) (iff_of_true rfl (hlk rfl))
      (fun f hf => setPage_ne x _ (hf .gvmcb)) (fun _ _ => rfl) (Or.inl rfl) ?_ fun _ _ => ?_⟩
    · refine ⟨hpre, hgif, by simpa [vmsave] using hin, fun _ => hhost (by simp), by simp, by simp, fun _ => ?_, by simp, by simp⟩
      exact (setPage_ne x _ (hap.ne hvc (a := .hvmcb) (b := .gvmcb) (by simp))).trans (hhv rfl)
    · exact (setPage_same x vc.gvmcb _).trans (by rw [hld (Or.inr rfl)]; rfl)
  | vmloadHost =>
    have hload : x.vmload p vc.hvmcb = .ok (x.setCpu p { x.cpus p with sys := (x.home p).2 }) := by
      rw [vmload, hhv rfl]
    rw [if_neg (by simp), if_neg (by simp), doStage, hload]
    refine ⟨_, rfl, h.movedCpu hap hcur hth hvc rfl rfl rfl (by simp) ?_⟩
    refine ⟨by simpa using hpre, by simpa using hgif, by simpa using hin, fun _ => ?_, by simp, by simp, by simp, by simp, by simp⟩
    simpa using hhost (by simp)
  | stgi =>
    refine ⟨_, rfl, h.movedCpu hap hcur hth hvc rfl rfl rfl (by simp) ?_⟩
    refine ⟨by simpa using hpre, by simp, by simpa using hin, fun _ => ?_, fun _ => ?_, by simp, by simp, by simp, by simp⟩
    · simpa using hhost (by simp)
    · simpa using hsys rfl
  | preemptEnable =>
    refine ⟨_, rfl, h.movedCpu hap hcur hth hvc rfl rfl rfl (by simp) ?_⟩
    refine ⟨by simp [hpre], by simpa using hgif, by simpa using hin, fun _ => ?_, fun _ => ?_, by simp, by simp, by simp, by simp⟩
    · simpa using hhost (by simp)
    · simpa using hsys rfl
  | unlock =>
    refine ⟨_, rfl, h.moved hap hcur hth hvc rfl (fun _ _ => rfl) hcur rfl (fun c hc => Function.update_of_ne hc _ _)
      (Or.inr (Or.inr ⟨hlk rfl, Function.update_self ..⟩)) (iff_of_false (by simp) (by simp)) (fun _ _ => rfl) (fun _ _ => rfl) (Or.inr ⟨rfl, rfl⟩) ?_
      (fun _ _ => hgv rfl (by simp))⟩
    exact ⟨hpre, hgif, by simpa using hin, fun _ => hhost (by simp), fun _ => hsys rfl, by simp, by simp, by simp, by simp⟩
  | finished =>
    refine ⟨_, rfl, h.moved hap hcur hth hvc rfl (fun _ _ => rfl) hcur rfl (fun _ _ => rfl) (Or.inl rfl)
      (iff_of_false (by simp) (hfree rfl)) (fun _ _ => rfl) (fun _ _ => rfl) (Or.inr ⟨rfl, rfl⟩) ?_ (by simp)⟩
    exact ⟨hpre, hgif, by simpa using hin, fun _ => hhost (by simp), fun _ => hsys rfl, by simp, by simp, by simp, by simp⟩

/-! ## Steps of the scheduler -/

theorem threads_set {u : ℕ} {th' : RunThread} (h : (x.setThread t th).threads u = some th') :
    (u = t ∧ th' = th) ∨ (u ≠ t ∧ x.threads u = some th') := by
  by_cases hut : u = t
  · rw [hut, setThread_same] at h
    exact Or.inl ⟨hut, (Option.some.inj h).symm⟩
  · rw [setThread_ne x th hut] at h
    exact Or.inr ⟨hut, h⟩

/-- `YAKVM_RUN` is called by a thread that is in no other request, on whatever processor it is. -/
theorem SmpOK.called (h : SmpOK vcpus x) (hvc : vcpus c = some vc) {on : Option ℕ}
    (hold : (x.threads t = none ∧ on = none) ∨ ∃ th, x.threads t = some th ∧ th.stage = .finished ∧ th.on = on) :
    SmpOK vcpus (x.setThread t ⟨c, .lock, on⟩) := by
  have hon : ∀ p, on = some p → (x.cpus p).current = some t := by
    intro p hp
    rcases hold with ⟨-, hnone⟩ | ⟨th, hth, -, hth'⟩
    · rw [hnone] at hp; cases hp
    · exact h.on hth (hth'.trans hp)
  refine ⟨?_, ?_, ?_, ?_, ?_, ?_, fun hq => (h.idle hq).frame rfl rfl, ?_, ?_, ?_⟩
  · intro u th' hu hact
    rcases threads_set hu with ⟨-, rfl⟩ | ⟨-, hu⟩
    · exact ⟨vc, hvc⟩
    · exact h.vcpu hu hact
  · intro u th' p hu hp
    rcases threads_set hu with ⟨rfl, rfl⟩ | ⟨-, hu⟩
    · exact hon p hp
    · exact h.on hu hp
  · intro p u hu
    obtain ⟨th', hth', hp⟩ := h.current hu
    by_cases hut : u = t
    · subst hut
      rcases hold with ⟨hnone, -⟩ | ⟨th, hth, -, rfl⟩
      · rw [hnone] at hth'; cases hth'
      · obtain rfl := Option.some.inj (hth.symm.trans hth')
        exact ⟨_, setThread_same .., hp⟩
    · exact ⟨th', (setThread_ne _ _ hut).trans hth', hp⟩
  · intro u th' hu hpin
    rcases threads_set hu with ⟨-, rfl⟩ | ⟨-, hu⟩
    · simp at hpin
    · exact h.pinned hu hpin
  · intro u th' hu hl
    rcases threads_set hu with ⟨-, rfl⟩ | ⟨-, hu⟩
    · simp at hl
    · exact h.lock hu hl
  · intro c' u hc'
    obtain ⟨th', hu, hv, hl⟩ := h.held hc'
    have hut : u ≠ t := by
      rintro rfl
      rcases hold with ⟨hnone, -⟩ | ⟨th, hth, hst, -⟩
      · rw [hnone] at hu; cases hu
      · obtain rfl := Option.some.inj (hth.symm.trans hu)
        rw [hst] at hl
        simp at hl
    exact ⟨th', (setThread_ne _ _ hut).trans hu, hv, hl⟩
  · intro p u th' hp hu hfin
    rcases threads_set hu with ⟨-, rfl⟩ | ⟨-, hu⟩
    · simp at hfin
    · exact (h.calm hp hu hfin).frame rfl rfl
  · intro p u th' vc' hp hu hvc'
    rcases threads_set hu with ⟨rfl, rfl⟩ | ⟨-, hu⟩
    · obtain ⟨th₀, hth₀, -⟩ := h.current hp
      rcases hold with ⟨hnone, -⟩ | ⟨th, hth, hst, -⟩
      · rw [hnone] at hth₀; cases hth₀
      · exact Calm.fits ((h.calm hp hth hst).frame rfl rfl) rfl
    · exact (h.fits hp hu hvc').frame rfl rfl fun _ => ⟨fun _ => rfl, rfl⟩
  · intro c' vc' hc' hst
    refine h.gvmcb hc' fun u th' hu hv => ?_
    by_cases hut : u = t
    · subst hut
      rcases hold with ⟨hnone, -⟩ | ⟨th, hth, hfin, -⟩
      · rw [hnone] at hu; cases hu
      · obtain rfl := Option.some.inj (hth.symm.trans hu)
        rw [hfin]
        simp
    · exact hst u th' ((setThread_ne _ _ hut).trans hu) hv

/-- The scheduler puts a thread that holds no processor on one, or takes it away. `cur` and `on` are what the processor
and the thread have afterwards. -/
theorem SmpOK.switched (h : SmpOK vcpus x) (hth : x.threads t = some th) (hcalm : Calm x p) (hpin : th.stage.pinned = false)
    {cur on : Option ℕ} (hthis : ∀ q, th.on = some q → q = p) (hcurp : ∀ u, (x.cpus p).current = some u → u = t)
    (hboth : (cur = some t ∧ on = some p) ∨ (cur = none ∧ on = none)) :
    SmpOK vcpus ((x.setCpu p { x.cpus p with current := cur }).setThread t { th with on := on }) := by
  have hcalm' : Calm ((x.setCpu p { x.cpus p with current := cur }).setThread t { th with on := on }) p := by
    obtain ⟨hpre, hgif, hin, hhome⟩ := hcalm
    exact ⟨by simpa using hpre, by simpa using hgif, by simpa using hin, by simpa using hhome⟩
  have hcpu : ∀ {q}, q ≠ p → ((x.setCpu p { x.cpus p with current := cur }).setThread t { th with on := on }).cpus q = x.cpus q :=
    fun hq => setCpu_ne x _ hq
  have hcpup : (((x.setCpu p { x.cpus p with current := cur }).setThread t { th with on := on }).cpus p).current = cur := by simp
  refine ⟨?_, ?_, ?_, ?_, ?_, ?_, ?_, ?_, ?_, ?_⟩
  · intro u th' hu hact
    rcases threads_set hu with ⟨-, rfl⟩ | ⟨-, hu⟩
    · exact (h.vcpu hth hact :)
    · exact h.vcpu hu hact
  · intro u th' q hu hq
    rcases threads_set hu with ⟨rfl, rfl⟩ | ⟨hut, hu⟩
    · rcases hboth with ⟨hc, ho⟩ | ⟨-, ho⟩
      · obtain rfl : p = q := Option.some.inj (ho.symm.trans hq)
        exact hcpup.trans hc
      · exact absurd (ho.symm.trans hq) (by simp)
    · have hcq := h.on hu hq
      have hqp : q ≠ p := by
        rintro rfl
        exact hut (hcurp u hcq)
      rw [hcpu hqp]
      exact hcq
  · intro q u hu
    by_cases hqp : q = p
    · subst hqp
      rcases hboth with ⟨hc, ho⟩ | ⟨hc, -⟩
      · obtain rfl : t = u := Option.some.inj (hc.symm.trans (hcpup.symm.trans hu))
        exact ⟨_, setThread_same .., ho⟩
      · exact absurd (hc.symm.trans (hcpup.symm.trans hu)) (by simp)
    · rw [hcpu hqp] at hu
      obtain ⟨th', hth', hq⟩ := h.current hu
      have hut : u ≠ t := by
        rintro rfl
        obtain rfl := Option.some.inj (hth'.symm.trans hth)
        exact hqp (hthis q hq)
      exact ⟨th', (setThread_ne _ _ hut).trans hth', hq⟩
  · intro u th' hu hp
    rcases threads_set hu with ⟨-, rfl⟩ | ⟨-, hu⟩
    · rw [show ({ th with on := on } : RunThread).stage = th.stage from rfl, hpin] at hp
      simp at hp
    · exact h.pinned hu hp
  · intro u th' hu hl
    rcases threads_set hu with ⟨rfl, rfl⟩ | ⟨-, hu⟩
    · exact (h.lock hth hl :)
    · exact h.lock hu hl
  · intro c' u hc'
    obtain ⟨th', hu, hv, hl⟩ := h.held hc'
    by_cases hut : u = t
    · subst hut
      obtain rfl := Option.some.inj (hu.symm.trans hth)
      exact ⟨_, setThread_same .., hv, hl⟩
    · exact ⟨th', (setThread_ne _ _ hut).trans hu, hv, hl⟩
  · intro q hq
    by_cases hqp : q = p
    · exact hqp ▸ hcalm'
    · rw [hcpu hqp] at hq
      exact (h.idle hq).frame (hcpu hqp) rfl
  · intro q u th' hq hu hfin
    by_cases hqp : q = p
    · exact hqp ▸ hcalm'
    · rw [hcpu hqp] at hq
      rcases threads_set hu with ⟨rfl, rfl⟩ | ⟨-, hu⟩
      · exact (h.calm hq hth hfin).frame (hcpu hqp) rfl
      · exact (h.calm hq hu hfin).frame (hcpu hqp) rfl
  · intro q u th' vc' hq hu hvc'
    by_cases hqp : q = p
    · subst hqp
      rcases hboth with ⟨hc, -⟩ | ⟨hc, -⟩
      · obtain rfl : t = u := Option.some.inj (hc.symm.trans (hcpup.symm.trans hq))
        rcases threads_set hu with ⟨-, rfl⟩ | ⟨hut, -⟩
        · exact hcalm'.fits hpin
        · exact absurd rfl hut
      · exact absurd (hc.symm.trans (hcpup.symm.trans hq)) (by simp)
    · rw [hcpu hqp] at hq
      rcases threads_set hu with ⟨rfl, rfl⟩ | ⟨-, hu⟩
      · obtain ⟨th', hth', hq'⟩ := h.current hq
        obtain rfl := Option.some.inj (hth'.symm.trans hth)
        exact absurd (hthis q hq') hqp
      · exact (h.fits hq hu hvc').frame (hcpu hqp) rfl fun _ => ⟨fun _ => rfl, rfl⟩
  · intro c' vc' hc' hst
    refine h.gvmcb hc' fun u th' hu hv => ?_
    by_cases hut : u = t
    · subst hut
      obtain rfl := Option.some.inj (hu.symm.trans hth)
      exact hst u { th' with on := on } (setThread_same ..) hv
    · exact hst u th' ((setThread_ne _ _ hut).trans hu) hv

/-- Host code changes the state of a processor only where all of it is in the processor. -/
theorem SmpOK.hosted (h : SmpOK vcpus x) (hruns : hostRuns (x.cpus p) = true) (hg : H) (sg : S) :
    SmpOK vcpus { x.setCpu p { x.cpus p with host := hg, sys := sg } with home := Function.update x.home p (hg, sg) } := by
  have hruns' : (x.cpus p).gif = true ∧ (x.cpus p).inGuest = false := by simpa [hostRuns] using hruns
  have hcur : ∀ q, ((x.setCpu p { x.cpus p with host := hg, sys := sg }).cpus q).current = (x.cpus q).current := by
    intro q
    by_cases hqp : q = p
    · rw [hqp, setCpu_same]
    · rw [setCpu_ne x _ hqp]
  have hcalm : ∀ {q}, Calm x q →
      Calm { x.setCpu p { x.cpus p with host := hg, sys := sg } with home := Function.update x.home p (hg, sg) } q := by
    intro q hcalm
    by_cases hqp : q = p
    · subst hqp
      exact ⟨by simpa using hcalm.preempt, by simpa using hcalm.gif, by simpa using hcalm.inGuest, by simp⟩
    · exact hcalm.frame (setCpu_ne x _ hqp) (Function.update_of_ne hqp _ _)
  refine ⟨h.vcpu, fun hu hq => (hcur _).trans (h.on hu hq), fun hu => h.current ((hcur _).symm.trans hu), h.pinned, h.lock,
    h.held, fun hq => hcalm (h.idle ((hcur _).symm.trans hq)), fun hq hu hfin => hcalm (h.calm ((hcur _).symm.trans hq) hu hfin), ?_, h.gvmcb⟩
  · intro q u th' vc' hq hu hvc'
    have hfit := h.fits ((hcur q).symm.trans hq) hu hvc'
    by_cases hqp : q = p
    · subst hqp
      obtain ⟨hpre, hgif, hin, -, -, hpa, -, -, -⟩ := hfit
      -- what is left are the stages in which the host has nothing in memory
      have hst : th'.stage.stored = false ∧ th'.stage ≠ .guest ∧ th'.stage ≠ .vmrun ∧ th'.stage ≠ .vmsaveGuest := by
        rw [hruns'.1] at hgif
        rw [hruns'.2] at hin
        cases hs : th'.stage <;> rw [hs] at hgif hin <;> simp at hgif hin ⊢
      refine ⟨by simpa using hpre, by simpa using hgif, by simpa using hin, by simp, by simp, fun ha => ?_, fun hl => ?_,
        fun hl => absurd hl hst.2.1, fun hl => absurd hl (by simp [hst.2.2])⟩
      · simpa using hpa ha
      · rw [hst.1] at hl
        cases hl
    · exact hfit.frame (setCpu_ne x _ hqp) (Function.update_of_ne hqp _ _) fun _ => ⟨fun _ => rfl, rfl⟩

/-! ## Runs -/

/-- **One step of the processors**, whichever it is. -/
theorem SmpOK.step (h : SmpOK vcpus x) (hap : PagesApart vcpus) (act : SmpAct H S) :
    ∃ x', x.step vcpus act = .ok x' ∧ SmpOK vcpus x' := by
  cases act with
  | call t c =>
    simp only [Smp.step]
    cases hc : vcpus c with
    | none => exact ⟨x, rfl, h⟩
    | some vc =>
      cases ht : x.threads t with
      | none => exact ⟨_, rfl, h.called hc (Or.inl ⟨ht, rfl⟩)⟩
      | some th =>
        by_cases hfin : th.stage = .finished
        · simp only [if_pos hfin]
          exact ⟨_, rfl, h.called hc (Or.inr ⟨th, ht, hfin, rfl⟩)⟩
        · simp only [if_neg hfin]
          exact ⟨x, rfl, h⟩
  | schedule p t =>
    simp only [Smp.step]
    cases ht : x.threads t with
    | none => exact ⟨x, rfl, h⟩
    | some th =>
      by_cases hidle : (x.cpus p).current = none ∧ th.on = none
      · simp only [if_pos hidle]
        have hpin : th.stage.pinned = false := by
          by_contra hpin
          obtain ⟨q, hq⟩ := h.pinned ht (by simpa using hpin)
          rw [hidle.2] at hq
          cases hq
        exact ⟨_, rfl, h.switched ht (h.idle hidle.1) hpin (fun q hq => by rw [hidle.2] at hq; cases hq)
          (fun u hu => by rw [hidle.1] at hu; cases hu) (Or.inl ⟨rfl, rfl⟩)⟩
      · simp only [if_neg hidle]
        exact ⟨x, rfl, h⟩
  | preempt p =>
    simp only [Smp.step]
    cases hp : (x.cpus p).current with
    | none => exact ⟨x, rfl, h⟩
    | some t =>
      obtain ⟨th, ht, hon⟩ := h.current hp
      simp only [ht]
      by_cases hfree : (x.cpus p).preempt = 0 ∧ hostRuns (x.cpus p) = true
      · simp only [if_pos hfree]
        have hcalm : Calm x p ∧ th.stage.pinned = false := by
          by_cases hfin : th.stage = .finished
          · exact ⟨h.calm hp ht hfin, by rw [hfin]; rfl⟩
          · obtain ⟨vc, hvc⟩ := h.vcpu ht hfin
            have hfit := h.fits hp ht hvc
            have hpin : th.stage.pinned = false := by
              by_contra hpin
              have hpre := hfit.preempt
              rw [if_pos (by simpa using hpin), hfree.1] at hpre
              cases hpre
            exact ⟨hfit.calm hpin, hpin⟩
        exact ⟨_, rfl, h.switched ht hcalm.1 hcalm.2 (fun q hq => Option.some.inj (hq.symm.trans hon))
          (fun u hu => Option.some.inj (hu.symm.trans hp)) (Or.inr ⟨rfl, rfl⟩)⟩
      · simp only [if_neg hfree]
        exact ⟨x, rfl, h⟩
  | exec p killed hg sg =>
    simp only [Smp.step]
    cases hp : (x.cpus p).current with
    | none => exact ⟨x, rfl, h⟩
    | some t =>
      obtain ⟨th, ht, -⟩ := h.current hp
      simp only [ht]
      cases hvc : vcpus th.vcpu with
      | none => exact ⟨x, rfl, h⟩
      | some vc => exact h.advance hap hp ht hvc killed hg sg
  | host p hg sg =>
    simp only [Smp.step]
    by_cases hruns : hostRuns (x.cpus p) = true
    · simp only [if_pos hruns]
      exact ⟨_, rfl, h.hosted hruns hg sg⟩
    · simp only [if_neg hruns]
      exact ⟨x, rfl, h⟩

/-! ## Steps of the driver -/

/-- Vcpus come and go. Those with a request in flight stay, and no vcpu gets a page of another. -/
theorem SmpOK.evolve {vcpus' : ℕ → Option Vcpu} {n n' : ℕ} (h : SmpOK vcpus x) (hap : PagesApart vcpus')
    (hold : ∀ {c vc}, vcpus c = some vc → c < n)
    (hnew : ∀ {c vc}, vcpus' c = some vc → vcpus c = some vc ∨ c ∈ Finset.Ico n n')
    (hkeep : ∀ {t th}, x.threads t = some th → th.stage ≠ .finished → vcpus' th.vcpu = vcpus th.vcpu) (s : S) :
    SmpOK vcpus' (x.initVmcb vcpus' n n' s) := by
  have hmem : ∀ {c vc}, vcpus c = some vc → vcpus' c = some vc →
      (∀ a, (x.initVmcb vcpus' n n' s).mem (vc.page a) = x.mem (vc.page a)) ∧ (x.initVmcb vcpus' n n' s).left c = x.left c := by
    intro c vc hc hc'
    have hlt := hold hc
    refine ⟨fun a => if_neg ?_, if_neg ?_⟩
    · rintro ⟨d, hd, hpage⟩
      obtain ⟨vd, hvd, hpage⟩ := Option.map_eq_some_iff.1 hpage
      have := (hap .gvmcb a hvd hc' hpage).1
      have := (Finset.mem_Ico.1 hd).1
      omega
    · rintro ⟨hin, -⟩
      have := (Finset.mem_Ico.1 hin).1
      omega
  refine ⟨?_, h.on, h.current, h.pinned, h.lock, h.held, fun hq => (h.idle hq).frame rfl rfl,
    fun hq hu hfin => (h.calm hq hu hfin).frame rfl rfl, ?_, ?_⟩
  · intro t th ht hact
    obtain ⟨vc, hvc⟩ := h.vcpu ht hact
    exact ⟨vc, (hkeep ht hact).trans hvc⟩
  · intro p t th vc hp ht hvc
    by_cases hfin : th.stage = .finished
    · exact Calm.fits ((h.calm hp ht hfin).frame rfl rfl) (by rw [hfin]; rfl)
    · have hvc' := (hkeep ht hfin).symm.trans hvc
      exact (h.fits hp ht hvc').frame rfl rfl fun _ => hmem hvc' hvc
  · intro c vc hc hst
    rcases hnew hc with hc' | hin
    · obtain ⟨hm, hl⟩ := hmem hc' hc
      rw [show (x.initVmcb vcpus' n n' s).mem vc.gvmcb = _ from hm .gvmcb, hl]
      exact h.gvmcb hc' hst
    · have h1 : (x.initVmcb vcpus' n n' s).mem vc.gvmcb = .sys s := if_pos ⟨c, hin, by rw [hc]; rfl⟩
      have h2 : (x.initVmcb vcpus' n n' s).left c = s := if_pos ⟨hin, by rw [hc]; rfl⟩
      rw [h1, h2]

/-! ## Runs -/

variable {nasid : BitVec 32} {y y' : Platform H S}

/-- The invariant of the whole machine. -/
structure PlatformOK (y : Platform H S) : Prop where
  sys : SysOK y.sys
  smp : SmpOK y.sys.k.vcpus y.smp
  callers : ∀ {t th}, y.smp.threads t = some th → t ∈ y.callers
  opened : ∀ {t th}, y.smp.threads t = some th → th.stage ≠ .finished → th.vcpu ∈ y.sys.vcpuFiles

theorem PlatformOK.init (mem : Frame → Slot → Word) (pages : Finset Frame) (home : ℕ → H × S) (hsavePa : ℕ → Word)
    (page : Frame → Saved H S) (left : ℕ → S) : PlatformOK (Platform.init mem pages home hsavePa page left) where
  sys := SysOK.init mem pages
  smp := ⟨fun h => (by cases h), fun h => (by cases h), fun h => (by cases h), fun h => (by cases h), fun h => (by cases h),
    fun h => (by cases h), fun _ => ⟨rfl, rfl, rfl, rfl⟩, fun h => (by cases h), fun h => (by cases h), fun h => (by cases h)⟩
  callers := fun h => (by cases h)
  opened := fun h => (by cases h)

/-- A request in flight. -/
theorem PlatformOK.busy (h : PlatformOK y) (ht : y.smp.threads t = some th) (hact : th.stage ≠ .finished) :
    y.busy th.vcpu = true := by
  rw [Platform.busy, decide_eq_true_eq]
  exact ⟨t, h.callers ht, by simp [ht, hact]⟩

theorem doStage_threads {hg : H} {sg : S} (h : Smp.doStage vc p t c hg sg x st = .ok x') : x'.threads = x.threads := by
  cases st with
  | vmloadGuest | vmloadHost =>
    simp only [doStage, vmload] at h
    split at h
    · obtain rfl := Except.ok.inj h
      rfl
    · cases h
  | guest =>
    simp only [doStage, vmexit] at h
    split at h
    · obtain rfl := Except.ok.inj h
      rfl
    · cases h
  | _ =>
    obtain rfl := Except.ok.inj h
    rfl

theorem advance_threads {killed : Bool} {hg : H} {sg : S} (h : x.advance vc p t th killed hg sg = .ok x') :
    x' = x ∨ x'.threads = Function.update x.threads t (some { th with stage := .finished }) ∨
      x'.threads = Function.update x.threads t (some { th with stage := th.stage.next }) := by
  unfold Smp.advance at h
  split at h
  · obtain rfl := Except.ok.inj h
    exact Or.inr (Or.inl rfl)
  · split at h
    · exact Or.inl (Except.ok.inj h).symm
    · cases hd : doStage vc p t th.vcpu hg sg x th.stage with
      | error e => rw [hd] at h; cases h
      | ok x₁ =>
        rw [hd] at h
        obtain rfl := Except.ok.inj h
        exact Or.inr (Or.inr (by rw [Smp.setThread, doStage_threads hd]))

/-- A request in flight after a step was in flight before it, or has been called in it. -/
theorem Smp.step_threads {act : SmpAct H S} (h : x.step vcpus act = .ok x') {u : ℕ} {th' : RunThread}
    (hu : x'.threads u = some th') :
    (∃ th, x.threads u = some th ∧ (th'.stage ≠ .finished → th.stage ≠ .finished ∧ th'.vcpu = th.vcpu)) ∨
      act = .call u th'.vcpu := by
  have hsame : x'.threads = x.threads → ∃ th, x.threads u = some th ∧
      (th'.stage ≠ .finished → th.stage ≠ .finished ∧ th'.vcpu = th.vcpu) := fun he =>
    ⟨th', he ▸ hu, fun hact => ⟨hact, rfl⟩⟩
  -- one thread takes a step
  have hset : ∀ {t : ℕ} {th₀ th₁ : RunThread}, x.threads t = some th₀ → x'.threads = Function.update x.threads t (some th₁) →
      (th₁.stage ≠ .finished → th₀.stage ≠ .finished ∧ th₁.vcpu = th₀.vcpu) → ∃ th, x.threads u = some th ∧
        (th'.stage ≠ .finished → th.stage ≠ .finished ∧ th'.vcpu = th.vcpu) := by
    intro t th₀ th₁ ht he hth
    rw [he] at hu
    by_cases hut : u = t
    · subst hut
      rw [Function.update_self] at hu
      obtain rfl := Option.some.inj hu
      exact ⟨th₀, ht, hth⟩
    · rw [Function.update_of_ne hut] at hu
      exact ⟨th', hu, fun hact => ⟨hact, rfl⟩⟩
  cases act with
  | call t c =>
    simp only [Smp.step] at h
    have hcall : ∀ {on : Option ℕ}, x'.threads = Function.update x.threads t (some ⟨c, .lock, on⟩) →
        (∃ th, x.threads u = some th ∧ (th'.stage ≠ .finished → th.stage ≠ .finished ∧ th'.vcpu = th.vcpu)) ∨
          SmpAct.call t c = (.call u th'.vcpu : SmpAct H S) := by
      intro on he
      rw [he] at hu
      by_cases hut : u = t
      · subst hut
        rw [Function.update_self] at hu
        obtain rfl := Option.some.inj hu
        exact Or.inr rfl
      · rw [Function.update_of_ne hut] at hu
        exact Or.inl ⟨th', hu, fun hact => ⟨hact, rfl⟩⟩
    split at h
    · obtain rfl := Except.ok.inj h
      exact hcall rfl
    · split at h
      · obtain rfl := Except.ok.inj h
        exact hcall rfl
      · obtain rfl := Except.ok.inj h
        exact Or.inl (hsame rfl)
    · obtain rfl := Except.ok.inj h
      exact Or.inl (hsame rfl)
  | schedule p t =>
    left
    simp only [Smp.step] at h
    cases ht : x.threads t with
    | none =>
      rw [ht] at h
      obtain rfl := Except.ok.inj h
      exact hsame rfl
    | some th₀ =>
      simp only [ht] at h
      split at h <;> obtain rfl := Except.ok.inj h
      · exact hset ht rfl fun hact => ⟨hact, rfl⟩
      · exact hsame rfl
  | preempt p =>
    left
    simp only [Smp.step] at h
    cases hp : (x.cpus p).current with
    | none =>
      rw [hp] at h
      obtain rfl := Except.ok.inj h
      exact hsame rfl
    | some t =>
      simp only [hp] at h
      cases ht : x.threads t with
      | none =>
        rw [ht] at h
        obtain rfl := Except.ok.inj h
        exact hsame rfl
      | some th₀ =>
        simp only [ht] at h
        split at h <;> obtain rfl := Except.ok.inj h
        · exact hset ht rfl fun hact => ⟨hact, rfl⟩
        · exact hsame rfl
  | exec p killed hg sg =>
    left
    simp only [Smp.step] at h
    cases hp : (x.cpus p).current with
    | none =>
      rw [hp] at h
      obtain rfl := Except.ok.inj h
      exact hsame rfl
    | some t =>
      simp only [hp] at h
      cases ht : x.threads t with
      | none =>
        rw [ht] at h
        obtain rfl := Except.ok.inj h
        exact hsame rfl
      | some th₀ =>
        simp only [ht] at h
        cases hvc : vcpus th₀.vcpu with
        | none =>
          rw [hvc] at h
          obtain rfl := Except.ok.inj h
          exact hsame rfl
        | some vc =>
          simp only [hvc] at h
          rcases advance_threads h with he | he | he
          · exact hsame (by rw [he])
          · exact hset ht he fun hact => absurd rfl hact
          · refine hset ht he fun hact => ⟨fun hfin => hact ?_, rfl⟩
            rw [hfin]
            rfl
  | host p hg sg =>
    left
    simp only [Smp.step] at h
    split at h <;> (obtain rfl := Except.ok.inj h; exact hsame rfl)

/-- A step of the processors. -/
theorem PlatformOK.cpu (h : PlatformOK y) {act : SmpAct H S} (hs : y.smp.step y.sys.k.vcpus act = .ok x') {callers : Finset ℕ}
    (hsub : y.callers ⊆ callers) (hcall : ∀ u c, act = .call u c → u ∈ callers ∧ c ∈ y.sys.vcpuFiles)
    (hx : SmpOK y.sys.k.vcpus x') : PlatformOK { y with smp := x', callers := callers } where
  sys := h.sys
  smp := hx
  callers := fun hu => by
    rcases Smp.step_threads hs hu with ⟨th, hth, -⟩ | hact
    · exact hsub (h.callers hth)
    · exact (hcall _ _ hact).1
  opened := fun hu hne => by
    rcases Smp.step_threads hs hu with ⟨th, hth, hold⟩ | hact
    · rw [(hold hne).2]
      exact h.opened hth (hold hne).1
    · exact (hcall _ _ hact).2

/-- A step of the driver. -/
theorem PlatformOK.driver {act : Act} {z : Sys} (h : PlatformOK y) (hper : y.permits act = true)
    (hs : y.sys.step nasid act = .ok z) (s : S) :
    PlatformOK { y with sys := z, smp := y.smp.initVmcb z.k.vcpus y.sys.k.phys.next z.k.phys.next s } := by
  have hz : SysOK z := by
    rcases h.sys.step nasid act with he | ⟨z', he, hz'⟩
    · rw [he] at hs; cases hs
    · obtain rfl := Except.ok.inj (he.symm.trans hs)
      exact hz'
  have hev := Sys.step_evolves h.sys hs
  -- the file of a vcpu in use is not released, so the vcpu is there as before
  have hfile : ∀ {t th}, y.smp.threads t = some th → th.stage ≠ .finished → th.vcpu ∈ z.vcpuFiles := by
    intro t th ht hact
    refine (Sys.step_keeps hs).vcpu _ (h.opened ht hact) ?_
    rintro rfl
    simp [Platform.permits, h.busy ht hact] at hper
  refine ⟨hz, h.smp.evolve hz.kernel.pagesApart h.sys.kernel.vcpu_lt (fun hc => ?_) (fun ht hact => ?_) s, h.callers, hfile⟩
  · rcases hev.vcpu hc with hold | hnew
    · exact Or.inl hold
    · exact Or.inr (Finset.mem_Ico.2 ⟨hnew, hz.kernel.vcpu_lt hc⟩)
  · obtain ⟨vc, -, hvc, -⟩ := hz.vcpuFile _ (hfile ht hact)
    obtain ⟨vc', hvc'⟩ := h.smp.vcpu ht hact
    have hlt := h.sys.kernel.vcpu_lt hvc'
    rcases hev.vcpu hvc with hold | hnew
    · rw [hvc, hold]
    · omega

/-- **One step of the whole machine** keeps the invariant, or the driver fails its assertion. -/
theorem PlatformOK.step (h : PlatformOK y) (nasid : BitVec 32) (act : PlatformAct H S) :
    y.step nasid act = .error (.crash .panic) ∨ ∃ y', y.step nasid act = .ok y' ∧ PlatformOK y' := by
  cases act with
  | driver act s =>
    simp only [Platform.step]
    by_cases hper : y.permits act = true
    · rw [if_pos hper]
      rcases h.sys.step nasid act with he | ⟨z, he, -⟩
      · exact Or.inl (by rw [he])
      · exact Or.inr ⟨_, by rw [he], h.driver hper he s⟩
    · rw [if_neg hper]
      exact Or.inr ⟨y, rfl, h⟩
  | cpu act =>
    right
    obtain ⟨x', hs, hx⟩ := h.smp.step h.sys.kernel.pagesApart act
    have hother : (∀ u c, act ≠ .call u c) → PlatformOK { y with smp := x' } := fun hne =>
      h.cpu hs (Finset.Subset.refl _) (fun u c hact => absurd hact (hne u c)) hx
    cases act with
    | call t c =>
      simp only [Platform.step]
      by_cases hc : c ∈ y.sys.vcpuFiles
      · rw [if_pos hc, hs]
        refine ⟨_, rfl, h.cpu hs (Finset.subset_insert _ _) (fun u d hact => ?_) hx⟩
        obtain ⟨rfl, rfl⟩ := SmpAct.call.inj hact
        exact ⟨Finset.mem_insert_self _ _, hc⟩
      · rw [if_neg hc]
        exact ⟨y, rfl, h⟩
    | schedule p t => exact ⟨_, by simp only [Platform.step, hs], hother (by simp)⟩
    | preempt p => exact ⟨_, by simp only [Platform.step, hs], hother (by simp)⟩
    | exec p killed hg sg => exact ⟨_, by simp only [Platform.step, hs], hother (by simp)⟩
    | host p hg sg => exact ⟨_, by simp only [Platform.step, hs], hother (by simp)⟩

theorem PlatformOK.run (h : PlatformOK y) (nasid : BitVec 32) (acts : List (PlatformAct H S)) :
    y.run nasid acts = .error (.crash .panic) ∨ ∃ y', y.run nasid acts = .ok y' ∧ PlatformOK y' := by
  induction acts generalizing y with
  | nil => exact Or.inr ⟨y, rfl, h⟩
  | cons act acts ih =>
    rw [Platform.run, List.foldlM_cons]
    rcases h.step nasid act with he | ⟨y₁, he, h₁⟩
    · exact Or.inl (by rw [he]; rfl)
    · rw [he]
      exact ih h₁

theorem PlatformOK.of_run {mem : Frame → Slot → Word} {pages : Finset Frame} {home : ℕ → H × S} {hsavePa : ℕ → Word}
    {page : Frame → Saved H S} {left : ℕ → S} {acts : List (PlatformAct H S)}
    (hrun : (Platform.init mem pages home hsavePa page left).run nasid acts = .ok y) : PlatformOK y := by
  rcases (PlatformOK.init mem pages home hsavePa page left).run nasid acts with he | ⟨y', he, h⟩
  · rw [he] at hrun; cases hrun
  · obtain rfl := Except.ok.inj (he.symm.trans hrun)
    exact h

/-! ## What the switch is for -/

end Yakvm
