import Yakvm.Proof.Asid

/-!
# Address space identifiers are unique until the counter wraps

* `AsidsOK`: the ASIDs handed out so far, and those that are drawn but not yet asserted, are
  different, not zero, and at most the counter.
* `AsidsOK.run`, `asid_unique`: every run in which no draw wraps the counter keeps this.
* `Asids.wraps_zero`, `asid_zero`: after a draw that wraps, the assertion lets the ASID 0 pass.
* `createVcpu_follows`, `Sys.run_follows`: the machine of `Yakvm.Spec.Lifecycle`, which takes
  `yakvm_create_vcpu` as one step, runs along with this one.
-/

namespace Yakvm

variable {nasid : BitVec 32} {x x' : Asids}

/-! ## The invariant -/

/-- The call `i` has drawn the ASID `n`, and its assertion is next. -/
def Asids.Holds (x : Asids) (i : ℕ) (n : BitVec 32) : Prop :=
  ∃ c, x.calls[i]? = some c ∧ c.stage = .drawn ∧ c.asid = n

/-- **The invariant.** -/
structure AsidsOK (nasid : BitVec 32) (x : Asids) : Prop where
  given : ∀ n ∈ x.log, 0 < n ∧ n ≤ x.counter ∧ n < nasid
  nodup : x.log.Nodup
  held : ∀ i n, x.Holds i n → 0 < n ∧ n ≤ x.counter ∧ n ∉ x.log
  apart : ∀ i j n, x.Holds i n → x.Holds j n → i = j

theorem AsidsOK.init (nasid : BitVec 32) : AsidsOK nasid Asids.init := by
  refine ⟨?_, List.nodup_nil, ?_, ?_⟩
  · intro n hn
    exact absurd hn List.not_mem_nil
  · rintro i n ⟨c, hc, -⟩
    simp [Asids.init] at hc
  · rintro i j n ⟨c, hc, -⟩
    simp [Asids.init] at hc

/-- What the calls hold after one of them has moved. -/
theorem Asids.holds_set {i j : ℕ} {n : BitVec 32} {d : Creation} {counter : BitVec 32} {log : List (BitVec 32)}
    (h : Asids.Holds ⟨counter, x.calls.set i d, log⟩ j n) :
    (j = i ∧ d.stage = .drawn ∧ d.asid = n) ∨ (j ≠ i ∧ x.Holds j n) := by
  obtain ⟨c, hc, hst, hn⟩ := h
  simp only [List.getElem?_set] at hc
  split at hc
  · rename_i hij
    split at hc
    · obtain rfl := Option.some.inj hc
      exact Or.inl ⟨hij.symm, hst, hn⟩
    · simp at hc
  · rename_i hij
    exact Or.inr ⟨Ne.symm hij, c, hc, hst, hn⟩

/-- A step that draws nothing and hands out nothing. -/
theorem AsidsOK.fewer (h : AsidsOK nasid x) (hc : x'.counter = x.counter) (hl : x'.log = x.log)
    (hh : ∀ i n, x'.Holds i n → x.Holds i n) : AsidsOK nasid x' := by
  refine ⟨?_, by rw [hl]; exact h.nodup, ?_, ?_⟩
  · intro n hn
    rw [hl] at hn
    rw [hc]
    exact h.given n hn
  · intro i n hn
    rw [hc, hl]
    exact h.held i n (hh i n hn)
  · intro i j n hi hj
    exact h.apart i j n (hh i n hi) (hh j n hj)

/-- **A draw** that does not wrap gives a number above all others. -/
theorem AsidsOK.draw {i : ℕ} {d : Creation} (h : AsidsOK nasid x) (hno : x.counter ≠ 0xffffffff)
    (hd : d.asid = x.counter + 1) : AsidsOK nasid ⟨x.counter + 1, x.calls.set i d, x.log⟩ := by
  have hup : ∀ {n : BitVec 32}, n ≤ x.counter → n < x.counter + 1 := by
    intro n hn
    bv_omega
  have hpos : 0 < x.counter + 1 := by bv_omega
  refine ⟨?_, h.nodup, ?_, ?_⟩
  · intro n hn
    obtain ⟨h1, h2, h3⟩ := h.given n hn
    exact ⟨h1, BitVec.le_of_lt (hup h2), h3⟩
  · intro j n hn
    rcases Asids.holds_set hn with ⟨-, -, rfl⟩ | ⟨-, hn⟩
    · rw [hd]
      exact ⟨hpos, BitVec.le_refl _, fun hin => BitVec.lt_irrefl _ (hup (h.given _ hin).2.1)⟩
    · obtain ⟨h1, h2, h3⟩ := h.held j n hn
      exact ⟨h1, BitVec.le_of_lt (hup h2), h3⟩
  · intro j k n hj hk
    rcases Asids.holds_set hj with ⟨rfl, -, hn⟩ | ⟨-, hj'⟩
    · rcases Asids.holds_set hk with ⟨rfl, -, -⟩ | ⟨-, hk'⟩
      · rfl
      · rw [← hn, hd] at hk'
        exact absurd (hup (h.held k _ hk').2.1) (BitVec.lt_irrefl _)
    · rcases Asids.holds_set hk with ⟨rfl, -, hn⟩ | ⟨-, hk'⟩
      · rw [← hn, hd] at hj'
        exact absurd (hup (h.held j _ hj').2.1) (BitVec.lt_irrefl _)
      · exact h.apart j k n hj' hk'

/-- **The assertion holds**, and the ASID is handed out. -/
theorem AsidsOK.hand {i : ℕ} {c d : Creation} (h : AsidsOK nasid x) (hi : x.calls[i]? = some c) (hc : c.stage = .drawn)
    (hd : d.stage ≠ .drawn) (hlt : c.asid < nasid) : AsidsOK nasid ⟨x.counter, x.calls.set i d, c.asid :: x.log⟩ := by
  have hheld : x.Holds i c.asid := ⟨c, hi, hc, rfl⟩
  obtain ⟨hpos, hle, hnew⟩ := h.held i _ hheld
  -- the other calls hold other numbers
  have hold : ∀ {j n}, Asids.Holds ⟨x.counter, x.calls.set i d, c.asid :: x.log⟩ j n → j ≠ i ∧ x.Holds j n := by
    intro j n hj
    rcases Asids.holds_set hj with ⟨-, hst, -⟩ | hj
    · exact absurd hst hd
    · exact hj
  refine ⟨?_, List.nodup_cons.2 ⟨hnew, h.nodup⟩, ?_, ?_⟩
  · intro n hn
    rcases List.mem_cons.1 hn with rfl | hn
    · exact ⟨hpos, hle, hlt⟩
    · exact h.given n hn
  · intro j n hj
    obtain ⟨hne, hj⟩ := hold hj
    obtain ⟨h1, h2, h3⟩ := h.held j n hj
    refine ⟨h1, h2, ?_⟩
    rw [List.mem_cons, not_or]
    refine ⟨?_, h3⟩
    rintro rfl
    exact hne (h.apart j i _ hj hheld)
  · intro j k n hj hk
    exact h.apart j k n (hold hj).2 (hold hk).2

/-- **One step.** -/
theorem AsidsOK.step {act : AsidAct} (h : AsidsOK nasid x) (hno : ¬ x.Wraps act) (hs : x.step nasid act = .ok x') :
    AsidsOK nasid x' := by
  cases act with
  | create vm =>
    rw [← Except.ok.inj hs]
    refine h.fewer rfl rfl ?_
    rintro i n ⟨c, hc, hst, hn⟩
    simp only at hc
    rcases Nat.lt_or_ge i x.calls.length with hi | hi
    · rw [List.getElem?_append_left hi] at hc
      exact ⟨c, hc, hst, hn⟩
    · rw [List.getElem?_append_right hi, List.getElem?_singleton] at hc
      split at hc
      · rw [← Option.some.inj hc] at hst
        simp at hst
      · simp at hc
  | advance i granted =>
    simp only [Asids.step] at hs
    cases hi : x.calls[i]? with
    | none =>
      rw [hi] at hs
      rwa [← Except.ok.inj hs]
    | some c =>
      rw [hi] at hs
      -- a call that draws nothing and was not about to be asserted
      have hgone : ∀ d : Creation, d.stage ≠ .drawn → AsidsOK nasid { x with calls := x.calls.set i d } := by
        intro d hd
        refine h.fewer rfl rfl ?_
        intro j n hj
        rcases Asids.holds_set hj with ⟨-, hst, -⟩ | ⟨-, hj⟩
        · exact absurd hst hd
        · exact hj
      simp only [Creation.advance] at hs
      cases hst : c.stage with
      | allocating =>
        simp only [hst] at hs
        cases granted with
        | false =>
          rw [← Except.ok.inj hs]
          exact hgone _ (by simp)
        | true =>
          have hlow : x.counter ≠ 0xffffffff := fun hc => hno ⟨hc, i, c, rfl, hi, hst⟩
          rw [← Except.ok.inj hs]
          refine h.draw hlow ?_
          unfold Creation.asid
          rw [BitVec.setWidth_append]
          simp
      | drawn =>
        simp only [hst] at hs
        split at hs
        · rename_i hlt
          rw [← Except.ok.inj hs]
          exact h.hand hi hst (by simp) hlt
        · simp at hs
      | initialised =>
        simp only [hst] at hs
        rw [← Except.ok.inj hs]
        exact hgone _ (by simp)
      | gone =>
        simp only [hst] at hs
        rwa [← Except.ok.inj hs]

/-! ## Runs -/

theorem Asids.run_cons {act : AsidAct} {acts : List AsidAct} :
    x.run nasid (act :: acts) = (x.step nasid act >>= fun x₁ => x₁.run nasid acts) := List.foldlM_cons ..

/-- A run after its first step. -/
theorem Asids.run_step {act : AsidAct} {acts : List AsidAct} (h : x.step nasid act = .ok x') :
    x.run nasid (act :: acts) = x'.run nasid acts := by
  rw [Asids.run_cons, h]
  rfl

theorem Asids.run_after {acts : List AsidAct} (h : x.run nasid acts = .ok x') (acts' : List AsidAct) :
    x.run nasid (acts ++ acts') = x'.run nasid acts' := by
  unfold Asids.run at h ⊢
  rw [List.foldlM_append, h]
  rfl

/-- **Runs in which no draw wraps the counter.** -/
theorem AsidsOK.run (acts : List AsidAct) : ∀ x : Asids, AsidsOK nasid x →
    (∀ pre act post y, acts = pre ++ act :: post → x.run nasid pre = .ok y → ¬ y.Wraps act) →
    x.run nasid acts = .ok x' → AsidsOK nasid x' := by
  induction acts with
  | nil =>
    intro x h _ hrun
    rwa [← Except.ok.inj hrun]
  | cons act acts ih =>
    intro x h hno hrun
    rw [Asids.run_cons] at hrun
    obtain ⟨x₁, hs, hrun⟩ := bind_eq_ok.1 hrun
    refine ih x₁ (h.step (hno [] act acts x rfl rfl) hs) ?_ hrun
    intro pre act' post y heq hpre
    refine hno (act :: pre) act' post y (by rw [heq, List.cons_append]) ?_
    rw [Asids.run_cons, hs]
    exact hpre

/-- **ASIDs are unique.** In every interleaving of creations and destructions since loading in
which no vcpu is initialised when the counter is at `0xffffffff`, the ASIDs handed out are
different, not zero, and smaller than their number. -/
theorem asid_unique {acts : List AsidAct} (hrun : Asids.init.run nasid acts = .ok x)
    (hno : ∀ pre act post y, acts = pre ++ act :: post → Asids.init.run nasid pre = .ok y → ¬ y.Wraps act) :
    x.log.Nodup ∧ ∀ n ∈ x.log, n ≠ 0 ∧ n < nasid := by
  have hok := AsidsOK.run acts Asids.init (AsidsOK.init nasid) hno hrun
  refine ⟨hok.nodup, ?_⟩
  intro n hn
  obtain ⟨hpos, -, hlt⟩ := hok.given n hn
  exact ⟨(BitVec.ne_of_lt hpos).symm, hlt⟩

/-- A step draws one number at most. -/
theorem Asids.step_counter {act : AsidAct} (h : x.step nasid act = .ok x') : x'.counter.toNat ≤ x.counter.toNat + 1 := by
  cases act with
  | create vm =>
    rw [← Except.ok.inj h]
    simp only
    omega
  | advance i granted =>
    simp only [Asids.step] at h
    cases hi : x.calls[i]? with
    | none =>
      rw [hi] at h
      rw [← Except.ok.inj h]
      omega
    | some c =>
      rw [hi] at h
      simp only [Creation.advance] at h
      split at h
      · split at h
        · rw [← Except.ok.inj h]
          simp only
          rw [BitVec.toNat_add]
          exact Nat.mod_le _ _
        · rw [← Except.ok.inj h]
          simp only
          omega
      · split at h
        · rw [← Except.ok.inj h]
          simp only
          omega
        · simp at h
      · rw [← Except.ok.inj h]
        simp only
        omega
      · rw [← Except.ok.inj h]
        omega

theorem Asids.run_counter (acts : List AsidAct) : ∀ x : Asids, x.run nasid acts = .ok x' →
    x'.counter.toNat ≤ x.counter.toNat + acts.length := by
  induction acts with
  | nil =>
    intro x h
    rw [← Except.ok.inj h]
    omega
  | cons act acts ih =>
    intro x h
    rw [Asids.run_cons] at h
    obtain ⟨x₁, hs, h⟩ := bind_eq_ok.1 h
    have h1 := Asids.step_counter hs
    have h2 := ih x₁ h
    rw [List.length_cons]
    omega

/-- A run of fewer than `2^32 - 2` steps wraps nothing. -/
theorem Asids.short {acts pre post : List AsidAct} {act : AsidAct} (hlen : acts.length + 2 < 2 ^ 32)
    (heq : acts = pre ++ act :: post) (h : Asids.init.run nasid pre = .ok x) : ¬ x.Wraps act := by
  rintro ⟨hmax, -⟩
  have hle := Asids.run_counter pre Asids.init h
  have hone : Asids.init.counter.toNat = 1 := rfl
  have hlast : (0xffffffff : BitVec 32).toNat = 2 ^ 32 - 1 := by decide
  rw [heq, List.length_append, List.length_cons] at hlen
  rw [hmax, hone, hlast] at hle
  omega

/-- Two calls, the second of which overtakes the first. -/
theorem asid_unique_two : ∃ x, Asids.init.run 16
      [.create 0, .create 1, .advance 0 true, .advance 1 true, .advance 1 true, .advance 0 true] = .ok x ∧
    x.log = [2, 3] ∧ x.log.Nodup ∧ ∀ n ∈ x.log, n ≠ 0 ∧ n < 16 := by
  obtain ⟨x, hx, hlog⟩ : ∃ x, Asids.init.run 16
      [.create 0, .create 1, .advance 0 true, .advance 1 true, .advance 1 true, .advance 0 true] = .ok x ∧
      x.log = [2, 3] := ⟨_, rfl, by decide⟩
  refine ⟨x, hx, hlog, asid_unique hx ?_⟩
  intro pre act post y heq hpre
  exact Asids.short (by simp) heq hpre

/-! ## The steps of a call -/

section Steps

variable {i : ℕ} {c : Creation}

/-- A call after its draw. -/
def Creation.draw (c : Creation) (n : BitVec 32) : Creation :=
  { c with stage := .drawn, control := c.control.extractLsb' 32 32 ++ n }

theorem Creation.draw_asid (c : Creation) (n : BitVec 32) : (c.draw n).asid = n := by
  unfold Creation.draw Creation.asid
  rw [BitVec.setWidth_append]
  simp

theorem Asids.step_draw (hi : x.calls[i]? = some c) (hc : c.stage = .allocating) :
    x.step nasid (.advance i true) = .ok ⟨x.counter + 1, x.calls.set i (c.draw (x.counter + 1)), x.log⟩ := by
  simp only [Asids.step, hi, Creation.advance, hc, if_true]
  rfl

theorem Asids.step_check (granted : Bool) (hi : x.calls[i]? = some c) (hc : c.stage = .drawn) (hlt : c.asid < nasid) :
    x.step nasid (.advance i granted) =
      .ok ⟨x.counter, x.calls.set i { c with stage := .initialised }, c.asid :: x.log⟩ := by
  simp only [Asids.step, hi, Creation.advance, hc, if_pos hlt]

theorem Asids.step_destroy (granted : Bool) (hi : x.calls[i]? = some c) (hc : c.stage = .initialised) :
    x.step nasid (.advance i granted) = .ok ⟨x.counter, x.calls.set i { c with stage := .gone }, x.log⟩ := by
  simp only [Asids.step, hi, Creation.advance, hc]

/-- `yakvm_vcpu_init_vmcb` with no other call in between. -/
theorem Asids.run_init (nasid : BitVec 32) (hi : x.calls[i]? = some c) (hc : c.stage = .allocating) (hlt : x.counter + 1 < nasid) :
    x.run nasid [.advance i true, .advance i true] =
      .ok ⟨x.counter + 1, x.calls.set i { c.draw (x.counter + 1) with stage := .initialised },
        (x.counter + 1) :: x.log⟩ := by
  have hlen : i < x.calls.length := (List.getElem?_eq_some_iff.1 hi).1
  have hcheck : Asids.step nasid (.advance i true) ⟨x.counter + 1, x.calls.set i (c.draw (x.counter + 1)), x.log⟩ = _ :=
    Asids.step_check true (List.getElem?_set_self hlen) rfl (by rw [Creation.draw_asid]; exact hlt)
  rw [Asids.run_step (Asids.step_draw hi hc), Asids.run_step hcheck, Creation.draw_asid]
  simp only [List.set_set]
  rfl

/-- **A draw that wraps hands out the ASID 0**, unless its call never goes on. -/
theorem Asids.wraps_zero (hw : x.Wraps (.advance i true)) (hn : 0 < nasid) :
    ∃ x', x.run nasid [.advance i true, .advance i true] = .ok x' ∧ 0 ∈ x'.log := by
  obtain ⟨hmax, j, c, hj, hc, hst⟩ := hw
  obtain ⟨rfl, -⟩ := AsidAct.advance.inj hj
  have hzero : x.counter + 1 = 0 := by rw [hmax]; decide
  refine ⟨_, Asids.run_init nasid hc hst (by rw [hzero]; exact hn), ?_⟩
  rw [hzero]
  exact List.mem_cons_self

end Steps

/-! ## The counter wraps -/

/-- A call of `yakvm_create_vcpu` with the number `i`, whose vcpu is destroyed. -/
def Asids.cycle (i : ℕ) : List AsidAct := [.create 0, .advance i true, .advance i true, .advance i true]

/-- One call after another. -/
theorem Asids.run_cycles (nasid : BitVec 32) (n : ℕ) (hn : n + 1 < nasid.toNat ∨ n = 0) :
    ∃ x, Asids.init.run nasid ((List.range n).flatMap Asids.cycle) = .ok x ∧ x.counter.toNat = n + 1 ∧
      x.calls.length = n := by
  induction n with
  | zero => exact ⟨Asids.init, rfl, rfl, rfl⟩
  | succ n ih =>
    obtain ⟨x, hx, hcounter, hlen⟩ := ih (by omega)
    have hnext : (x.counter + 1).toNat = n + 1 + 1 := by
      have := nasid.isLt
      rw [toNat_next (by omega), hcounter]
    set x₁ : Asids := { x with calls := x.calls ++ [⟨0, .allocating, 0⟩] } with hx₁
    have hcall : x₁.calls[n]? = some ⟨0, .allocating, 0⟩ := by
      rw [hx₁, ← hlen]
      exact List.getElem?_concat_length
    have hinit := Asids.run_init nasid hcall rfl (by
      rw [BitVec.lt_def]
      change (x.counter + 1).toNat < _
      omega)
    set d : Creation := { Creation.draw ⟨0, .allocating, 0⟩ (x₁.counter + 1) with stage := .initialised } with hd
    set x₂ : Asids := ⟨x₁.counter + 1, x₁.calls.set n d, (x₁.counter + 1) :: x₁.log⟩ with hx₂
    have hdone : x₂.calls[n]? = some d := List.getElem?_set_self (List.getElem?_eq_some_iff.1 hcall).1
    refine ⟨⟨x₂.counter, x₂.calls.set n { d with stage := .gone }, x₂.log⟩, ?_, hnext, ?_⟩
    · have hcreate : x.step nasid (.create 0) = .ok x₁ := rfl
      have hcycle : Asids.cycle n = .create 0 :: ([.advance n true, .advance n true] ++ [.advance n true]) := rfl
      rw [List.range_succ, List.flatMap_append, List.flatMap_singleton, Asids.run_after hx, hcycle,
        Asids.run_step hcreate, Asids.run_after hinit]
      exact Asids.run_step (Asids.step_destroy true hdone rfl)
    · simp only [hx₂, hx₁, List.length_set, List.length_append, List.length_singleton, hlen]

/-- With `NASID = n + 2`, the counter is at `n + 1` after `n` calls. The next call draws
`n + 2`; before its assertion fails, one more call draws 0 and returns. -/
theorem Asids.wrapped {n : ℕ} (hn : n + 3 = 2 ^ 32) : ∃ x, Asids.init.run 0xffffffff
      ((List.range n).flatMap Asids.cycle ++
        [.create 0, .create 1, .advance n true, .advance (n + 1) true, .advance (n + 1) true]) = .ok x ∧ 0 ∈ x.log := by
  have hmax : (0xffffffff : BitVec 32).toNat = n + 2 := by
    have : (0xffffffff : BitVec 32).toNat = 2 ^ 32 - 1 := by decide
    omega
  obtain ⟨x, hx, hcounter, hlen⟩ := Asids.run_cycles 0xffffffff n (Or.inl (by omega))
  -- two more calls, the first of which draws the last number
  set x₁ : Asids := { x with calls := x.calls ++ [⟨0, .allocating, 0⟩, ⟨1, .allocating, 0⟩] } with hx₁
  have hfirst : x₁.calls[n]? = some ⟨0, .allocating, 0⟩ := by
    rw [hx₁, ← hlen]
    simp
  have hsecond : x₁.calls[n + 1]? = some ⟨1, .allocating, 0⟩ := by
    rw [hx₁, ← hlen]
    simp
  have hdraw : x₁.step 0xffffffff (.advance n true) = _ := Asids.step_draw hfirst rfl
  set x₂ : Asids := ⟨x₁.counter + 1, x₁.calls.set n (Creation.draw ⟨0, .allocating, 0⟩ (x₁.counter + 1)), x₁.log⟩
    with hx₂
  have hwraps : x₂.Wraps (.advance (n + 1) true) := by
    refine ⟨?_, n + 1, ⟨1, .allocating, 0⟩, rfl, ?_, rfl⟩
    · apply BitVec.eq_of_toNat_eq
      rw [hmax]
      change (x.counter + 1).toNat = _
      rw [toNat_next (by omega), hcounter]
    · rw [hx₂, List.getElem?_set_ne (by omega)]
      exact hsecond
  have hpos : (0 : BitVec 32) < 0xffffffff := by decide
  obtain ⟨x', hrun, hzero⟩ := Asids.wraps_zero hwraps hpos
  refine ⟨x', ?_, hzero⟩
  set x₀ : Asids := { x with calls := x.calls ++ [⟨0, .allocating, 0⟩] } with hx₀
  have hcreate₀ : x.step 0xffffffff (.create 0) = .ok x₀ := rfl
  have hcreate₁ : x₀.step 0xffffffff (.create 1) = .ok x₁ := by
    rw [hx₁, hx₀]
    simp only [Asids.step, List.append_assoc, List.cons_append, List.nil_append]
  rw [Asids.run_after hx, Asids.run_step hcreate₀, Asids.run_step hcreate₁, Asids.run_step hdraw]
  exact hrun

/-- **The ASID 0 is handed out** when `NASID` is `0xffffffff`. -/
theorem asid_zero : ∃ x, Asids.init.run 0xffffffff
      ((List.range 0xfffffffd).flatMap Asids.cycle ++
        [.create 0, .create 1, .advance 0xfffffffd true, .advance 0xfffffffe true, .advance 0xfffffffe true]) = .ok x ∧
    0 ∈ x.log :=
  Asids.wrapped (by norm_num)

/-! ## Whole calls -/

section Whole

variable {k k' : Kernel} {vm : ℕ} {a : VcpuAsk} {s s' : Sys}

/-- **A whole call of `yakvm_create_vcpu`** is a call here with no step of another in between.
The number it hands out is the one that its control block holds. -/
theorem createVcpu_follows {v : Vm} {r : Except Errno ℕ} (hk : KernelOK k) (hv : k.vms vm = some v)
    (h : createVcpu nasid a vm k = .ok (r, k')) (hx : x.counter = k.asid) :
    ∃ acts x', x.run nasid acts = .ok x' ∧ x'.counter = k'.asid ∧
      ((∃ e, r = .error e ∧ x'.log = x.log) ∨ ∃ c vc, r = .ok c ∧ k'.vcpus c = some vc ∧
        x'.log = (k'.phys.mem vc.gvmcb controlAsid).setWidth 32 :: x.log) := by
  set n := x.calls.length with hn
  set x₁ : Asids := { x with calls := x.calls ++ [⟨vm, .allocating, 0⟩] } with hx₁
  have hcreate : x.step nasid (.create vm) = .ok x₁ := rfl
  have hcall : x₁.calls[n]? = some ⟨vm, .allocating, 0⟩ := List.getElem?_concat_length
  cases hg : a.granted k.phys with
  | false =>
    obtain ⟨k₁, hd, hsame⟩ := createVcpu_denied nasid vm hg
    rw [hd] at h
    obtain ⟨rfl, rfl⟩ := Prod.mk.inj (Except.ok.inj h)
    have hfail : x₁.step nasid (.advance n false) =
        .ok { x₁ with calls := x₁.calls.set n ⟨vm, .gone, 0⟩ } := by
      simp only [Asids.step, hcall, Creation.advance, Bool.false_eq_true, if_false]
    have hrun : x.run nasid [.create vm, .advance n false] =
        .ok { x₁ with calls := x₁.calls.set n ⟨vm, .gone, 0⟩ } := by
      rw [Asids.run_step hcreate, Asids.run_step hfail]
      rfl
    exact ⟨_, _, hrun, by rw [hsame]; exact hx, Or.inl ⟨.ENOMEM, rfl, rfl⟩⟩
  | true =>
    by_cases hlt : k.asid + 1 < nasid
    · obtain ⟨c, vc, k₁, hd, hasid, hvc, hstored⟩ := createVcpu_granted hk hv hg hlt
      rw [hd] at h
      obtain ⟨rfl, rfl⟩ := Prod.mk.inj (Except.ok.inj h)
      have hinit := Asids.run_init nasid hcall rfl (by rw [← hx] at hlt; exact hlt)
      refine ⟨_, _, (Asids.run_step hcreate).trans hinit, ?_, Or.inr ⟨c, vc, rfl, hvc, ?_⟩⟩
      · rw [hasid, ← hx]
      · rw [hstored, ← hx]
    · rw [createVcpu_panics hk hv hg hlt] at h
      simp at h

theorem Sys.put_asid (h : s.put vm = .ok s') : s'.k.asid = s.k.asid := by
  obtain ⟨k', hp, h⟩ := bind_eq_ok.1 h
  rw [← Except.ok.inj h]
  exact putVm_asid hp

/-- After `yakvm_create_vcpu`, a request leaves the counter alone. -/
theorem Req.advance_asid {r : Req} {fd : Bool} {stage : Stage} (hst : r.stage ≠ .start)
    (h : r.advance nasid a fd s = .ok (stage, s')) : s'.k.asid = s.k.asid := by
  simp only [Req.advance] at h
  cases hr : r.stage with
  | start => exact absurd hr hst
  | allocated c =>
    simp only [hr] at h
    obtain ⟨v, -, h⟩ := bind_eq_ok.1 h
    split at h
    · rw [← (Prod.mk.inj (Except.ok.inj h)).2]
    · obtain ⟨k', hset, h⟩ := bind_eq_ok.1 h
      rw [← (Prod.mk.inj (Except.ok.inj h)).2]
      exact setVcpu_asid hset
  | published c =>
    simp only [hr] at h
    obtain ⟨k', hget, h⟩ := bind_eq_ok.1 h
    rw [← (Prod.mk.inj (Except.ok.inj h)).2]
    exact getVm_asid hget
  | got c =>
    simp only [hr] at h
    split at h <;> rw [← (Prod.mk.inj (Except.ok.inj h)).2]
  | failed c =>
    simp only [hr] at h
    obtain ⟨k', hset, h⟩ := bind_eq_ok.1 h
    rw [← (Prod.mk.inj (Except.ok.inj h)).2]
    exact setVcpu_asid hset
  | cleared c =>
    simp only [hr] at h
    obtain ⟨s₁, hput, h⟩ := bind_eq_ok.1 h
    rw [← (Prod.mk.inj (Except.ok.inj h)).2]
    exact Sys.put_asid hput
  | put c =>
    simp only [hr] at h
    obtain ⟨k', hd, h⟩ := bind_eq_ok.1 h
    rw [← (Prod.mk.inj (Except.ok.inj h)).2]
    exact destroyVcpu_asid hd
  | refused c =>
    simp only [hr] at h
    obtain ⟨k', hd, h⟩ := bind_eq_ok.1 h
    rw [← (Prod.mk.inj (Except.ok.inj h)).2]
    exact destroyVcpu_asid hd
  | finished =>
    simp only [hr] at h
    rw [← (Prod.mk.inj (Except.ok.inj h)).2]

/-- A step of the machine of whole calls. -/
theorem Sys.step_follows {act : Act} (hs : SysOK s) (h : s.step nasid act = .ok s') (hx : x.counter = s.k.asid) :
    ∃ acts x', x.run nasid acts = .ok x' ∧ x'.counter = s'.k.asid := by
  -- a step that draws nothing
  have hstay : s'.k.asid = s.k.asid → ∃ acts x', x.run nasid acts = .ok x' ∧ x'.counter = s'.k.asid := by
    intro hsame
    exact ⟨[], x, rfl, by rw [hsame]; exact hx⟩
  cases act with
  | createVm a =>
    obtain ⟨⟨r, k'⟩, hc, h⟩ := bind_eq_ok.1 h
    apply hstay
    cases r <;> (rw [← Except.ok.inj h]; exact createVm_asid hc)
  | openVm vm fd =>
    apply hstay
    simp only [Sys.step] at h
    split at h
    · split at h
      · rw [← Except.ok.inj h]
      · obtain ⟨k', hd, h⟩ := bind_eq_ok.1 h
        rw [← Except.ok.inj h]
        exact destroyVm_asid hd
    · rw [← Except.ok.inj h]
  | request vm =>
    apply hstay
    simp only [Sys.step] at h
    split at h <;> rw [← Except.ok.inj h]
  | advance i a fd =>
    simp only [Sys.step] at h
    cases hi : s.reqs[i]? with
    | none =>
      rw [hi] at h
      exact hstay (by rw [← Except.ok.inj h])
    | some r =>
      rw [hi] at h
      obtain ⟨⟨stage, s₁⟩, hadv, h⟩ := bind_eq_ok.1 h
      rw [← Except.ok.inj h]
      by_cases hst : r.stage = .start
      · obtain ⟨v, hv⟩ := hs.reqVm hi (by rw [hst]; simp)
        simp only [Req.advance, hst] at hadv
        obtain ⟨⟨z, k'⟩, hc, hadv⟩ := bind_eq_ok.1 hadv
        obtain ⟨acts, x', hrun, hcounter, -⟩ := createVcpu_follows hs.kernel hv hc hx
        refine ⟨acts, x', hrun, ?_⟩
        cases z <;> (rw [← (Prod.mk.inj (Except.ok.inj hadv)).2]; exact hcounter)
      · refine ⟨[], x, rfl, ?_⟩
        simp only
        rw [Req.advance_asid hst hadv]
        exact hx
  | closeVm vm =>
    apply hstay
    simp only [Sys.step] at h
    split at h
    · obtain ⟨s₁, hput, h⟩ := bind_eq_ok.1 h
      have hsame := Sys.put_asid hput
      rw [← Except.ok.inj h]
      exact hsame
    · rw [← Except.ok.inj h]
  | closeVcpu vcpu =>
    apply hstay
    simp only [Sys.step] at h
    split at h
    · obtain ⟨vc, -, h⟩ := bind_eq_ok.1 h
      obtain ⟨s₁, hput, h⟩ := bind_eq_ok.1 h
      have hsame := Sys.put_asid hput
      rw [← Except.ok.inj h]
      exact hsame
    · rw [← Except.ok.inj h]
  | mmapPage vm gpa ask =>
    apply hstay
    simp only [Sys.step] at h
    split at h
    · obtain ⟨v, -, h⟩ := bind_eq_ok.1 h
      obtain ⟨m, -, h⟩ := bind_eq_ok.1 h
      obtain ⟨r, -, h⟩ := bind_eq_ok.1 h
      rw [← Except.ok.inj h]
    · rw [← Except.ok.inj h]
  | fault vm address vmStart ask =>
    apply hstay
    simp only [Sys.step] at h
    split at h
    · obtain ⟨v, -, h⟩ := bind_eq_ok.1 h
      obtain ⟨m, -, h⟩ := bind_eq_ok.1 h
      obtain ⟨r, -, h⟩ := bind_eq_ok.1 h
      rw [← Except.ok.inj h]
    · rw [← Except.ok.inj h]

/-- **Runs of the machine of whole calls.** -/
theorem Sys.run_follows (acts : List Act) : ∀ (s : Sys) (x : Asids), SysOK s → x.counter = s.k.asid →
    s.run nasid acts = .ok s' → ∃ acts' x', x.run nasid acts' = .ok x' ∧ x'.counter = s'.k.asid := by
  induction acts with
  | nil =>
    intro s x _ hx h
    exact ⟨[], x, rfl, by rw [← Except.ok.inj h]; exact hx⟩
  | cons act acts ih =>
    intro s x hs hx h
    unfold Sys.run at h
    rw [List.foldlM_cons] at h
    obtain ⟨s₁, hstep, h⟩ := bind_eq_ok.1 h
    obtain ⟨acts₁, x₁, hrun₁, hx₁⟩ := Sys.step_follows hs hstep hx
    obtain ⟨acts₂, x₂, hrun₂, hx₂⟩ := ih s₁ x₁ ((Leads.step act hstep).ok hs) hx₁ h
    refine ⟨acts₁ ++ acts₂, x₂, ?_, hx₂⟩
    rw [Asids.run_after hrun₁]
    exact hrun₂

end Whole

end Yakvm
