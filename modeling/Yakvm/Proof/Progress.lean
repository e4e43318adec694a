import Mathlib.Logic.Relation
import Yakvm.Proof.Smp

/-!
# How a run of a vcpu goes on

A `YAKVM_RUN` waits for the lock of its vcpu and for a processor. The thread that has the lock holds no other
lock, so it finishes by its own steps once it has a processor, and a processor becomes free once its thread has
left the world switch.

* `SmpOK.attain`: the thread that has the lock gets to each later stage.
* `SmpOK.vacate`: a processor becomes free.
* `switch_progress`: no request is stuck.
* `switch_ready`: what `vmrun` finds.
-/

namespace Yakvm

open Relation Smp

variable {H S : Type} {vcpus : ℕ → Option Vcpu} {x x' x'' : Smp H S} {p t u c : ℕ} {th : RunThread}

/-- A step of the scheduler, or of a thread that is not killed. -/
def SmpAct.Plain : SmpAct H S → Prop
  | .schedule _ _ | .preempt _ => True
  | .exec _ killed _ _ => killed = false
  | .call _ _ | .host _ _ _ => False

/-- Such a step. -/
def Plain (vcpus : ℕ → Option Vcpu) (x x' : Smp H S) : Prop := ∃ act : SmpAct H S, act.Plain ∧ x.step vcpus act = .ok x'

/-- The steps of a request that are left. -/
@[simp] def RunStage.rest : RunStage → ℕ
  | .lock => 13
  | .preemptDisable => 12
  | .wrmsr => 11
  | .clgi => 10
  | .vmsaveHost => 9
  | .vmloadGuest => 8
  | .vmrun => 7
  | .guest => 6
  | .vmsaveGuest => 5
  | .vmloadHost => 4
  | .stgi => 3
  | .preemptEnable => 2
  | .unlock => 1
  | .finished => 0

theorem RunStage.rest_next {st : RunStage} (h : st ≠ .finished) : st.next.rest + 1 = st.rest := by
  cases st <;> first | rfl | exact absurd rfl h

theorem RunStage.rest_inj {st st' : RunStage} (h : st.rest = st'.rest) : st = st' := by
  cases st <;> cases st' <;> first | rfl | cases h

theorem RunStage.locked_next {st : RunStage} (h : st.locked = true) : st.next.locked = true ∨ st.next = .finished := by
  cases st <;> simp at h ⊢

/-! ## What other threads see -/

/-- A thread stays where it is in its request, or finishes. -/
def Later (x x' : Smp H S) : Prop :=
  ∀ u, (∀ th, x.threads u = some th → ∃ th', x'.threads u = some th' ∧ th'.vcpu = th.vcpu ∧
    (th'.stage = th.stage ∨ th'.stage = .finished)) ∧ (x.threads u = none → x'.threads u = none)

theorem Later.refl (x : Smp H S) : Later x x := fun _ => ⟨fun th ht => ⟨th, ht, rfl, Or.inl rfl⟩, id⟩

theorem Later.trans (h : Later x x') (h' : Later x' x'') : Later x x'' := by
  intro u
  refine ⟨fun th ht => ?_, fun hn => (h' u).2 ((h u).2 hn)⟩
  obtain ⟨th', ht', hv, hst⟩ := (h u).1 th ht
  obtain ⟨th'', ht'', hv', hst'⟩ := (h' u).1 th' ht'
  refine ⟨th'', ht'', hv'.trans hv, ?_⟩
  rcases hst' with he | he
  · rcases hst with hs | hs
    · exact Or.inl (he.trans hs)
    · exact Or.inr (he.trans hs)
  · exact Or.inr he

/-- One thread changes. -/
theorem Later.of_update {th' : RunThread} (ht : x.threads t = some th) (he : x'.threads = Function.update x.threads t (some th'))
    (hv : th'.vcpu = th.vcpu) (hst : th'.stage = th.stage ∨ th'.stage = .finished) : Later x x' := by
  intro u
  rw [he]
  by_cases hut : u = t
  · subst hut
    refine ⟨fun th₀ ht₀ => ?_, fun hn => by rw [ht] at hn; cases hn⟩
    obtain rfl := Option.some.inj (ht₀.symm.trans ht)
    exact ⟨th', Function.update_self .., hv, hst⟩
  · rw [Function.update_of_ne hut]
    exact ⟨fun th ht => ⟨th, ht, rfl, Or.inl rfl⟩, id⟩

/-- No lock is taken. -/
theorem Later.free (h : Later x x') (hx : SmpOK vcpus x) (hx' : SmpOK vcpus x') (hc : x.locks c = none) : x'.locks c = none := by
  cases hl : x'.locks c with
  | none => rfl
  | some u =>
    obtain ⟨th', ht', rfl, hlock⟩ := hx'.held hl
    cases hu : x.threads u with
    | none =>
      rw [(h u).2 hu] at ht'
      cases ht'
    | some th =>
      obtain ⟨th₁, ht₁, hv, hst⟩ := (h u).1 th hu
      obtain rfl := Option.some.inj (ht₁.symm.trans ht')
      rcases hst with hst | hst
      · have := hx.lock hu (hst ▸ hlock)
        rw [← hv, hc] at this
        cases this
      · rw [hst] at hlock
        cases hlock

/-! ## Running a thread -/

/-- The next step of a thread that does not wait. -/
theorem SmpOK.exec (h : SmpOK vcpus x) (hap : PagesApart vcpus) (ht : x.threads t = some th) (hon : th.on = some p)
    (hact : th.stage ≠ .finished) (hgo : th.stage = .lock → x.locks th.vcpu = none) :
    ∃ x', Plain vcpus x x' ∧ SmpOK vcpus x' ∧ x'.threads = Function.update x.threads t (some { th with stage := th.stage.next }) := by
  have hcur := h.on ht hon
  obtain ⟨vc, hvc⟩ := h.vcpu ht hact
  obtain ⟨x', hadv, hx'⟩ := h.advance hap hcur ht hvc false (x.home p).1 (x.home p).2
  refine ⟨x', ⟨.exec p false (x.home p).1 (x.home p).2, rfl, by simpa only [Smp.step, hcur, ht, hvc] using hadv⟩, hx', ?_⟩
  unfold Smp.advance at hadv
  rw [if_neg (by simp), if_neg (by rintro ⟨hlock, hsome⟩; rw [hgo hlock] at hsome; cases hsome)] at hadv
  cases hd : doStage vc p t th.vcpu (x.home p).1 (x.home p).2 x th.stage with
  | error e => rw [hd] at hadv; cases hadv
  | ok x₁ =>
    rw [hd] at hadv
    obtain rfl := Except.ok.inj hadv
    rw [Smp.setThread, doStage_threads hd]

/-- **A thread that has the lock goes on** to any later stage by its own steps. -/
theorem SmpOK.attain (hap : PagesApart vcpus) (target : RunStage) (n : ℕ) : ∀ {x : Smp H S} {th : RunThread}, SmpOK vcpus x →
    x.threads t = some th → th.on = some p → th.stage.locked = true → th.stage.rest = target.rest + n →
    ∃ x', ReflTransGen (Plain vcpus) x x' ∧ SmpOK vcpus x' ∧
      x'.threads = Function.update x.threads t (some { th with stage := target }) := by
  induction n with
  | zero =>
    intro x th h ht hon hl hn
    have hst : th.stage = target := RunStage.rest_inj (by simpa using hn)
    refine ⟨x, .refl, h, ?_⟩
    rw [← hst, ← ht, Function.update_eq_self]
  | succ n ih =>
    intro x th h ht hon hl hn
    have hne : th.stage ≠ .finished := by
      intro hst
      rw [hst] at hl
      cases hl
    obtain ⟨x₁, hstep, h₁, he⟩ := h.exec hap ht hon hne (fun hlock => by rw [hlock] at hl; cases hl)
    have ht₁ : x₁.threads t = some { th with stage := th.stage.next } := by rw [he, Function.update_self]
    have hrest := RunStage.rest_next hne
    rcases RunStage.locked_next hl with hl' | hfin
    · obtain ⟨x', hpath, hx', he'⟩ := ih h₁ ht₁ hon hl' (by simp only; omega)
      refine ⟨x', hpath.head hstep, hx', ?_⟩
      rw [he', he, Function.update_idem]
    · have htarget : th.stage.next = target := by
        rw [hfin] at hrest ⊢
        have hzero : RunStage.finished.rest = 0 := rfl
        exact RunStage.rest_inj (by omega)
      exact ⟨x₁, .single hstep, h₁, by rw [he, htarget]⟩

/-- In particular it finishes. -/
theorem SmpOK.run_out (h : SmpOK vcpus x) (hap : PagesApart vcpus) (ht : x.threads t = some th) (hon : th.on = some p)
    (hl : th.stage.locked = true) : ∃ x', ReflTransGen (Plain vcpus) x x' ∧ SmpOK vcpus x' ∧
      x'.threads = Function.update x.threads t (some { th with stage := .finished }) :=
  SmpOK.attain hap .finished th.stage.rest h ht hon hl (by simp)

/-- A thread outside the switch can be taken from its processor. -/
theorem SmpOK.calm_of (h : SmpOK vcpus x) (hp : (x.cpus p).current = some t) (ht : x.threads t = some th)
    (hpin : th.stage.pinned = false) : Calm x p := by
  by_cases hfin : th.stage = .finished
  · exact h.calm hp ht hfin
  · obtain ⟨vc, hvc⟩ := h.vcpu ht hfin
    exact (h.fits hp ht hvc).calm hpin

theorem SmpOK.takeAway (h : SmpOK vcpus x) (hap : PagesApart vcpus) (hp : (x.cpus p).current = some t)
    (hpin : ∀ th, x.threads t = some th → th.stage.pinned = false) :
    ∃ x' th, x.threads t = some th ∧ Plain vcpus x x' ∧ SmpOK vcpus x' ∧ (x'.cpus p).current = none ∧
      x'.threads = Function.update x.threads t (some { th with on := none }) := by
  obtain ⟨th, ht, hon⟩ := h.current hp
  have hcalm := h.calm_of hp ht (hpin th ht)
  have hruns : (x.cpus p).preempt = 0 ∧ hostRuns (x.cpus p) = true :=
    ⟨hcalm.preempt, by rw [hostRuns, hcalm.gif, hcalm.inGuest]; rfl⟩
  have hs : x.step vcpus (.preempt p) =
      .ok ((x.setCpu p { x.cpus p with current := none }).setThread t { th with on := none }) := by
    simp only [Smp.step, hp, ht, if_pos hruns]
  obtain ⟨x', hs', hx'⟩ := h.step hap (.preempt p)
  obtain rfl := Except.ok.inj (hs.symm.trans hs')
  exact ⟨_, th, ht, ⟨.preempt p, trivial, hs⟩, hx', by simp, rfl⟩

/-- **A processor becomes free**, and a thread that is not on it stays as it is. -/
theorem SmpOK.vacate (h : SmpOK vcpus x) (hap : PagesApart vcpus) (p : ℕ) :
    ∃ x', ReflTransGen (Plain vcpus) x x' ∧ SmpOK vcpus x' ∧ Later x x' ∧ (x'.cpus p).current = none ∧
      ∀ u, (x.cpus p).current ≠ some u → x'.threads u = x.threads u := by
  cases hp : (x.cpus p).current with
  | none => exact ⟨x, .refl, h, Later.refl x, hp, fun _ _ => rfl⟩
  | some t =>
    obtain ⟨th, ht, hon⟩ := h.current hp
    by_cases hpin : th.stage.pinned = true
    · -- it is in the switch: it has the lock and leaves
      have hl : th.stage.locked = true := by
        cases hst : th.stage <;> rw [hst] at hpin <;> first | rfl | cases hpin
      obtain ⟨x₁, hpath, h₁, he⟩ := h.run_out hap ht hon hl
      have ht₁ : x₁.threads t = some { th with stage := .finished } := by rw [he, Function.update_self]
      have hp₁ := h₁.on ht₁ hon
      obtain ⟨x₂, th₂, ht₂, hstep, h₂, hfree, he₂⟩ := h₁.takeAway hap hp₁ fun th' ht' => by
        obtain rfl := Option.some.inj (ht'.symm.trans ht₁)
        rfl
      obtain rfl := Option.some.inj (ht₂.symm.trans ht₁)
      refine ⟨x₂, hpath.tail hstep, h₂, ?_, hfree, fun u hu => ?_⟩
      · exact (Later.of_update ht he rfl (Or.inr rfl)).trans (Later.of_update ht₁ he₂ rfl (Or.inl rfl))
      · have hut : u ≠ t := fun heq => hu (by rw [heq])
        rw [he₂, Function.update_of_ne hut, he, Function.update_of_ne hut]
    · obtain ⟨x₁, th₁, ht₁, hstep, h₁, hfree, he⟩ := h.takeAway hap hp fun th' ht' => by
        obtain rfl := Option.some.inj (ht'.symm.trans ht)
        simpa using hpin
      refine ⟨x₁, .single hstep, h₁, Later.of_update ht₁ he rfl (Or.inl rfl), hfree, fun u hu => ?_⟩
      have hut : u ≠ t := fun heq => hu (by rw [heq])
      rw [he, Function.update_of_ne hut]

/-- A thread gets a processor. -/
theorem SmpOK.place (h : SmpOK vcpus x) (hap : PagesApart vcpus) (ht : x.threads t = some th) :
    ∃ x' p, ReflTransGen (Plain vcpus) x x' ∧ SmpOK vcpus x' ∧ Later x x' ∧ x'.threads t = some { th with on := some p } := by
  cases hon : th.on with
  | some p => exact ⟨x, p, .refl, h, Later.refl x, by rw [ht, ← hon]⟩
  | none =>
    obtain ⟨x₁, hpath, h₁, hlater, hfree, hsame⟩ := h.vacate hap 0
    have ht₁ : x₁.threads t = some th := by
      rw [hsame t ?_, ht]
      intro hp
      obtain ⟨th', ht', hon'⟩ := h.current hp
      obtain rfl := Option.some.inj (ht'.symm.trans ht)
      rw [hon] at hon'
      cases hon'
    have hs : x₁.step vcpus (.schedule 0 t) =
        .ok ((x₁.setCpu 0 { x₁.cpus 0 with current := some t }).setThread t { th with on := some 0 }) := by
      simp only [Smp.step, ht₁, if_pos (And.intro hfree hon)]
    obtain ⟨x₂, hs₂, h₂⟩ := h₁.step hap (.schedule 0 t)
    obtain rfl := Except.ok.inj (hs.symm.trans hs₂)
    exact ⟨_, 0, hpath.tail ⟨.schedule 0 t, trivial, hs⟩, h₂, hlater.trans (Later.of_update ht₁ rfl rfl (Or.inl rfl)),
      setThread_same ..⟩

/-- The thread that has a lock finishes, wherever it is. -/
theorem SmpOK.finish_locked (h : SmpOK vcpus x) (hap : PagesApart vcpus) (ht : x.threads t = some th)
    (hl : th.stage.locked = true) : ∃ x', ReflTransGen (Plain vcpus) x x' ∧ SmpOK vcpus x' ∧ Later x x' ∧
      ∃ th', x'.threads t = some th' ∧ th'.stage = .finished := by
  obtain ⟨x₁, p, hpath, h₁, hlater, ht₁⟩ := h.place hap ht
  obtain ⟨x₂, hpath', h₂, he⟩ := h₁.run_out hap ht₁ rfl hl
  exact ⟨x₂, hpath.trans hpath', h₂, hlater.trans (Later.of_update ht₁ he rfl (Or.inr rfl)), _, by rw [he, Function.update_self], rfl⟩

/-- A request finishes, once the lock it waits for is free. -/
theorem SmpOK.finish_free (h : SmpOK vcpus x) (hap : PagesApart vcpus) (ht : x.threads t = some th) (hlock : th.stage = .lock)
    (hfree : x.locks th.vcpu = none) : ∃ x', ReflTransGen (Plain vcpus) x x' ∧ SmpOK vcpus x' ∧
      ∃ th', x'.threads t = some th' ∧ th'.stage = .finished := by
  obtain ⟨x₁, p, hpath, h₁, hlater, ht₁⟩ := h.place hap ht
  obtain ⟨x₂, hstep, h₂, he⟩ := h₁.exec hap ht₁ rfl (by simp [hlock]) fun _ => hlater.free h h₁ hfree
  obtain ⟨x₃, hpath', h₃, -, hdone⟩ := h₂.finish_locked hap (t := t) (by rw [he, Function.update_self])
    (by rw [show ({ th with on := some p } : RunThread).stage = .lock from hlock]; rfl)
  exact ⟨x₃, (hpath.tail hstep).trans hpath', h₃, hdone⟩

/-- A request finishes, whoever has the lock. -/
theorem SmpOK.finish (h : SmpOK vcpus x) (hap : PagesApart vcpus) (ht : x.threads t = some th) :
    ∃ x', ReflTransGen (Plain vcpus) x x' ∧ SmpOK vcpus x' ∧ ∃ th', x'.threads t = some th' ∧ th'.stage = .finished := by
  by_cases hfin : th.stage = .finished
  · exact ⟨x, .refl, h, th, ht, hfin⟩
  by_cases hl : th.stage.locked = true
  · obtain ⟨x', hpath, hx', -, hdone⟩ := h.finish_locked hap ht hl
    exact ⟨x', hpath, hx', hdone⟩
  have hlock : th.stage = .lock := by
    cases hst : th.stage <;> rw [hst] at hl hfin <;> simp at hl hfin ⊢
  cases hheld : x.locks th.vcpu with
  | none => exact h.finish_free hap ht hlock hheld
  | some u =>
    obtain ⟨thu, hu, hv, hlu⟩ := h.held hheld
    obtain ⟨x₁, hpath, h₁, hlater, thu', hu', hfinu⟩ := h.finish_locked hap hu hlu
    obtain ⟨th₁, ht₁, hv₁, hst₁⟩ := (hlater t).1 th ht
    rcases hst₁ with hst₁ | hst₁
    · -- whoever has the lock now had it before, and that one has finished
      have hfree : x₁.locks th₁.vcpu = none := by
        cases hw : x₁.locks th₁.vcpu with
        | none => rfl
        | some w =>
          obtain ⟨thw, hthw, hvw, hlw⟩ := h₁.held hw
          cases hxw : x.threads w with
          | none =>
            rw [(hlater w).2 hxw] at hthw
            cases hthw
          | some thw₀ =>
            obtain ⟨thw₁, hthw₁, hvw₁, hstw⟩ := (hlater w).1 thw₀ hxw
            obtain rfl := Option.some.inj (hthw₁.symm.trans hthw)
            rcases hstw with hstw | hstw
            · have hwu := h.lock hxw (hstw ▸ hlw)
              rw [← hvw₁, hvw, hv₁, hheld] at hwu
              obtain rfl := Option.some.inj hwu
              obtain rfl := Option.some.inj (hu'.symm.trans hthw)
              rw [hfinu] at hlw
              cases hlw
            · rw [hstw] at hlw
              cases hlw
      obtain ⟨x₂, hpath', h₂, hdone⟩ := h₁.finish_free hap ht₁ (hst₁.trans hlock) hfree
      exact ⟨x₂, hpath.trans hpath', h₂, hdone⟩
    · exact ⟨x₁, hpath, h₁, th₁, ht₁, hst₁⟩

/-! ## On the whole machine -/

variable {nasid : BitVec 32} {y : Platform H S}

/-- Plain steps are steps of the machine. -/
theorem run_plain (nasid : BitVec 32) (hpath : ReflTransGen (Plain y.sys.k.vcpus) y.smp x') : ∃ acts : List (SmpAct H S),
    (∀ act ∈ acts, act.Plain) ∧ y.run nasid (acts.map .cpu) = .ok { y with smp := x' } := by
  induction hpath with
  | refl => exact ⟨[], by simp, rfl⟩
  | @tail x₁ x₂ _ hstep ih =>
    obtain ⟨acts, hacts, hrun⟩ := ih
    obtain ⟨act, hact, hs⟩ := hstep
    have hone : Platform.step nasid (.cpu act) { y with smp := x₁ } = .ok { y with smp := x₂ } := by
      cases act with
      | call t c => exact hact.elim
      | host p hg sg => exact hact.elim
      | schedule p t => simp only [Platform.step, hs]
      | preempt p => simp only [Platform.step, hs]
      | exec p killed hg sg => simp only [Platform.step, hs]
    refine ⟨acts ++ [act], ?_, ?_⟩
    · intro a ha
      rcases List.mem_append.1 ha with ha | ha
      · exact hacts a ha
      · rw [List.mem_singleton.1 ha]
        exact hact
    · unfold Platform.run at hrun ⊢
      rw [List.map_append, List.foldlM_append, hrun]
      change (Platform.step nasid (.cpu act) { y with smp := x₁ } >>= fun z => pure z) = _
      rw [hone]
      rfl

/-- The driver's part of a run, as long as nobody runs a vcpu. -/
theorem run_driver (s : S) (acts : List Act) : ∀ {y : Platform H S} {z : Sys}, y.callers = ∅ → y.sys.run nasid acts = .ok z →
    ∃ y', y.run nasid (acts.map fun act => .driver act s) = .ok y' ∧ y'.sys = z ∧ y'.callers = ∅ ∧
      y'.smp.threads = y.smp.threads := by
  induction acts with
  | nil =>
    intro y z hc hz
    obtain rfl := Except.ok.inj hz
    exact ⟨y, rfl, rfl, hc, rfl⟩
  | cons act acts ih =>
    intro y z hc hz
    rw [Sys.run, List.foldlM_cons] at hz
    obtain ⟨z₁, hz₁, hz⟩ := bind_eq_ok.1 hz
    have hper : y.permits act = true := by
      cases act <;> first | rfl | simp [Platform.permits, Platform.busy, hc]
    have hstep : Platform.step nasid (.driver act s) y = .ok { y with
        sys := z₁
        smp := y.smp.initVmcb z₁.k.vcpus y.sys.k.phys.next z₁.k.phys.next s } := by
      simp only [Platform.step, if_pos hper, hz₁]
    obtain ⟨y', hrun, hy', hc', hth'⟩ := ih (y := { y with
      sys := z₁
      smp := y.smp.initVmcb z₁.k.vcpus y.sys.k.phys.next z₁.k.phys.next s }) hc hz
    refine ⟨y', ?_, hy', hc', hth'⟩
    rw [List.map_cons, Platform.run, List.foldlM_cons, hstep]
    exact hrun

/-- A machine on which a vcpu has been created and `YAKVM_RUN` has been called. -/
theorem firstRun : ∃ (acts : List (PlatformAct Unit Unit)) (y : Platform Unit Unit) (c : ℕ),
    (Platform.init (fun _ _ => 0) ∅ (fun _ => ((), ())) (fun _ => 0) (fun _ => .sys ()) (fun _ => ())).run 16 acts = .ok y ∧
      y.smp.threads 0 = some ⟨c, .lock, none⟩ ∧ y.smp.locks c = none := by
  obtain ⟨w₀, w, v, c, hw₀, -, hw, -, -, hfiles⟩ := firstVcpu 16 (by decide)
  have hrun : (World.init (fun _ _ => 0) ∅).run 16
      [.createVm ⟨some 0x1000, countingAsk⟩ (.ok 3), .createVcpu 0 vcpuAsk (.ok 4)] = .ok w := by
    rw [World.run_step hw₀, World.run_step hw]
    rfl
  have hq : Quiet (Sys.init (fun _ _ => 0) ∅) (World.init (fun _ _ => 0) ∅) := ⟨rfl, rfl, rfl, rfl, by simp [Sys.init]⟩
  obtain ⟨w', x, hw', ⟨acts, hx⟩, hqx⟩ := (World.run_simulates _ _ _ (SysOK.init _ _) hq).resolve_left (by rw [hrun]; simp)
  obtain rfl := Except.ok.inj (hw'.symm.trans hrun)
  obtain ⟨y, hy, rfl, hcallers, hth⟩ := run_driver
    (y := Platform.init (fun _ _ => 0) ∅ (fun _ => ((), ())) (fun _ => 0) (fun _ => .sys ()) (fun _ => ())) () acts rfl hx
  have hok := PlatformOK.of_run hy
  have hc : c ∈ y.sys.vcpuFiles := by
    rw [hqx.vcpuFiles, hfiles]
    exact Finset.mem_singleton_self c
  obtain ⟨vc, -, hvc, -⟩ := hok.sys.vcpuFile c hc
  have hnone : y.smp.threads 0 = none := by rw [hth]; rfl
  have hcall : y.smp.step y.sys.k.vcpus (.call 0 c) = .ok (y.smp.setThread 0 ⟨c, .lock, none⟩) := by
    simp only [Smp.step, hvc, hnone]
  have hstep : Platform.step 16 (.cpu (.call 0 c)) y =
      .ok { y with smp := y.smp.setThread 0 ⟨c, .lock, none⟩, callers := insert 0 y.callers } := by
    simp only [Platform.step, if_pos hc, hcall]
  refine ⟨acts.map (fun act => .driver act ()) ++ [.cpu (.call 0 c)],
    { y with smp := y.smp.setThread 0 ⟨c, .lock, none⟩, callers := insert 0 y.callers }, c, ?_, setThread_same .., ?_⟩
  · unfold Platform.run at hy ⊢
    rw [List.foldlM_append, hy]
    change (Platform.step 16 (.cpu (.call 0 c)) y >>= fun z => pure z) = _
    rw [hstep]
    rfl
  · cases hl : y.smp.locks c with
    | none => simpa using hl
    | some t =>
      obtain ⟨th, ht, -⟩ := hok.smp.held hl
      rw [hth] at ht
      cases ht

/-- **No request is stuck.** In every reachable state, each `YAKVM_RUN` that is in flight can still finish, by steps of
the scheduler and of the threads alone: whoever has the lock, wherever the threads are, and without a signal. -/
theorem switch_progress {mem : Frame → Slot → Word} {pages : Finset Frame} {home : ℕ → H × S} {hsavePa : ℕ → Word}
    {page : Frame → Saved H S} {left : ℕ → S} {acts : List (PlatformAct H S)}
    (hrun : (Platform.init mem pages home hsavePa page left).run nasid acts = .ok y) (ht : y.smp.threads t = some th) :
    ∃ (acts' : List (SmpAct H S)) (y' : Platform H S) (th' : RunThread), (∀ act ∈ acts', act.Plain) ∧
      y.run nasid (acts'.map .cpu) = .ok y' ∧ y'.smp.threads t = some th' ∧ th'.stage = .finished := by
  obtain ⟨x', hpath, -, th', ht', hfin⟩ := (PlatformOK.of_run hrun).smp.finish (PlatformOK.of_run hrun).sys.kernel.pagesApart ht
  obtain ⟨acts', hplain, hrun'⟩ := run_plain nasid hpath
  exact ⟨acts', _, th', hplain, hrun', ht', hfin⟩

/-- A request that has just been made can finish. -/
theorem switch_progress_first : ∃ (acts acts' : List (PlatformAct Unit Unit)) (y y' : Platform Unit Unit) (th' : RunThread),
    (Platform.init (fun _ _ => 0) ∅ (fun _ => ((), ())) (fun _ => 0) (fun _ => .sys ()) (fun _ => ())).run 16 acts = .ok y ∧
      (y.smp.threads 0).map RunThread.stage = some .lock ∧ y.run 16 acts' = .ok y' ∧ y'.smp.threads 0 = some th' ∧
      th'.stage = .finished := by
  obtain ⟨acts, y, c, hrun, ht, -⟩ := firstRun
  obtain ⟨acts', y', th', -, hrun', ht', hfin⟩ := switch_progress hrun ht
  exact ⟨acts, _, y, y', th', hrun, by rw [ht]; rfl, hrun', ht', hfin⟩

/-! ## Entering the guest -/

/-- **`vmrun` finds everything in place.** In every reachable state, a processor that is about to execute `vmrun` for a
vcpu has interrupts off and cannot lose its thread, has the state that the guest left behind, and saves the host in
the vcpu's own page, while the rest of the host is in the vcpu's host control block. No other processor is in a
request on the same vcpu, or on one that shares a page with it. -/
theorem switch_ready {mem : Frame → Slot → Word} {pages : Finset Frame} {home : ℕ → H × S} {hsavePa : ℕ → Word}
    {page : Frame → Saved H S} {left : ℕ → S} {acts : List (PlatformAct H S)}
    (hrun : (Platform.init mem pages home hsavePa page left).run nasid acts = .ok y)
    (hp : (y.smp.cpus p).current = some t) (ht : y.smp.threads t = some th) (hst : th.stage = .vmrun) :
    ∃ vc, y.sys.k.vcpus th.vcpu = some vc ∧ (y.smp.cpus p).gif = false ∧ (y.smp.cpus p).preempt = 1 ∧
      (y.smp.cpus p).sys = y.smp.left th.vcpu ∧ hsavePage (y.smp.cpus p) = vc.hsave ∧
      y.smp.mem vc.hvmcb = .sys (y.smp.home p).2 ∧
      ∀ q u th' vc', q ≠ p → (y.smp.cpus q).current = some u → y.smp.threads u = some th' → th'.stage.locked = true →
        y.sys.k.vcpus th'.vcpu = some vc' → th'.vcpu ≠ th.vcpu ∧ ∀ a b, vc'.page a ≠ vc.page b := by
  have h := PlatformOK.of_run hrun
  obtain ⟨vc, hvc⟩ := h.smp.vcpu ht (by rw [hst]; simp)
  obtain ⟨hpre, hgif, -, -, -, hpa, hhv, -, hld⟩ := h.smp.fits hp ht hvc
  rw [hst] at hpre hgif hpa hhv
  refine ⟨vc, hvc, hgif, hpre, hld (Or.inl hst), hsavePage_eq (hpa rfl), hhv rfl, ?_⟩
  intro q u th' vc' hq hu hth' hl hvc'
  have hne : th'.vcpu ≠ th.vcpu := by
    intro heq
    have h1 := h.smp.lock hth' hl
    rw [heq, h.smp.lock ht (by rw [hst]; rfl)] at h1
    obtain rfl := Option.some.inj h1
    obtain ⟨th₁, hth₁, hon⟩ := h.smp.current hu
    obtain ⟨th₂, hth₂, hon'⟩ := h.smp.current hp
    obtain rfl := Option.some.inj (hth₁.symm.trans hth₂)
    exact hq (Option.some.inj (hon.symm.trans hon'))
  exact ⟨hne, fun a b hab => hne (h.sys.kernel.pagesApart a b hvc' hvc hab).1⟩

/-- The first run of a vcpu comes to `vmrun`. -/
theorem switch_ready_first : ∃ (acts : List (PlatformAct Unit Unit)) (y : Platform Unit Unit) (p c : ℕ) (vc : Vcpu),
    (Platform.init (fun _ _ => 0) ∅ (fun _ => ((), ())) (fun _ => 0) (fun _ => .sys ()) (fun _ => ())).run 16 acts = .ok y ∧
      y.smp.threads 0 = some ⟨c, .vmrun, some p⟩ ∧ y.sys.k.vcpus c = some vc ∧ (y.smp.cpus p).gif = false ∧
      hsavePage (y.smp.cpus p) = vc.hsave := by
  obtain ⟨acts, y, c, hrun, ht, hfree⟩ := firstRun
  have hok := PlatformOK.of_run hrun
  have hap : PagesApart y.sys.k.vcpus := hok.sys.kernel.pagesApart
  obtain ⟨x₁, p, hpath₁, h₁, hlater, ht₁⟩ := hok.smp.place hap ht
  obtain ⟨x₂, hstep, h₂, he₂⟩ := h₁.exec hap ht₁ rfl (by simp) fun _ => hlater.free hok.smp h₁ hfree
  obtain ⟨x₃, hpath₃, h₃, he₃⟩ := SmpOK.attain hap (t := 0) (p := p) .vmrun 5 h₂ (by rw [he₂, Function.update_self]) rfl rfl rfl
  obtain ⟨acts', -, hrun'⟩ := run_plain 16 ((hpath₁.tail hstep).trans hpath₃)
  have hall : (Platform.init (fun _ _ => 0) ∅ (fun _ => ((), ())) (fun _ => 0) (fun _ => .sys ()) (fun _ => ())).run 16
      (acts ++ acts'.map .cpu) = .ok { y with smp := x₃ } := by
    unfold Platform.run at hrun hrun' ⊢
    rw [List.foldlM_append, hrun]
    exact hrun'
  have ht₃ : x₃.threads 0 = some ⟨c, .vmrun, some p⟩ := by rw [he₃, Function.update_self]
  obtain ⟨vc, hvc, hgif, -, -, hpage, -⟩ := switch_ready hall (h₃.on ht₃ rfl) ht₃ rfl
  exact ⟨_, _, p, c, vc, hall, ht₃, hvc, hgif, hpage⟩

end Yakvm
