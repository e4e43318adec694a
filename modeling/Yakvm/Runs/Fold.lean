import Mathlib.Data.List.Basic

/-!
# Runs of a step that can fail

A machine is a step `σ → α → Except ε σ`; a run folds it over a list of actions.

* `foldlM_error_iff`: a run fails exactly where one of its steps fails, in the state that the steps before it have reached.
* `foldlM_keeps`: what every step keeps holds after every run.
-/

namespace Runs

variable {σ α ε : Type*} {step : σ → α → Except ε σ} {x x' : σ} {a : α} {l : List α} {e : ε}

theorem foldlM_cons_ok (hs : step x a = .ok x') : (a :: l).foldlM step x = l.foldlM step x' := by
  rw [List.foldlM_cons, hs]
  rfl

theorem foldlM_cons_error (hs : step x a = .error e) : (a :: l).foldlM step x = .error e := by
  rw [List.foldlM_cons, hs]
  rfl

/-- A run over two lists is a run over the first and then one over the second. -/
theorem foldlM_append_ok (before after : List α) (h : before.foldlM step x = .ok x') :
    (before ++ after).foldlM step x = after.foldlM step x' := by
  rw [List.foldlM_append, h]
  rfl

/-- **Where a run fails.** -/
theorem foldlM_error_iff (l : List α) (x : σ) : l.foldlM step x = .error e ↔
    ∃ before a after y, l = before ++ a :: after ∧ before.foldlM step x = .ok y ∧ step y a = .error e := by
  constructor
  · intro h
    induction l generalizing x with
    | nil => cases h
    | cons a l ih =>
      cases hs : step x a with
      | error e' =>
        rw [foldlM_cons_error hs] at h
        obtain rfl := Except.error.inj h
        exact ⟨[], a, l, x, List.nil_append _, rfl, hs⟩
      | ok x₁ =>
        rw [foldlM_cons_ok hs] at h
        obtain ⟨before, b, after, y, hl, hrun, hfail⟩ := ih x₁ h
        exact ⟨a :: before, b, after, y, by rw [hl, List.cons_append], by rw [foldlM_cons_ok hs, hrun], hfail⟩
  · rintro ⟨before, a, after, y, rfl, hrun, hfail⟩
    rw [foldlM_append_ok before _ hrun, foldlM_cons_error hfail]

/-- **What every step keeps, every run keeps.** -/
theorem foldlM_keeps {P : σ → Prop} (hstep : ∀ x a x', P x → step x a = .ok x' → P x') (l : List α) :
    ∀ x, P x → l.foldlM step x = .ok x' → P x' := by
  induction l with
  | nil =>
    intro x hx h
    obtain rfl := Except.ok.inj h
    exact hx
  | cons a l ih =>
    intro x hx h
    cases hs : step x a with
    | error e =>
      rw [foldlM_cons_error hs] at h
      cases h
    | ok x₁ =>
      rw [foldlM_cons_ok hs] at h
      exact ih x₁ (hstep x a x₁ hx hs) h

end Runs
