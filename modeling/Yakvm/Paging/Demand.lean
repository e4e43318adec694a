import Mathlib.Logic.Function.Basic

/-!
# Memory that is mapped on demand

Pages of an address space are backed by frames only once they are touched. To its users the address space is a flat memory
that is `zero` until it is written.

* `Demand`: the flat memory `view` is what the frames hold, and `zero` where there is none yet.
* `Demand.write`: a write through the map.
* `Demand.change`: pages get zeroed frames, and other frames are written.
-/

namespace Paging

variable {K F V : Type*} {dom dom' : K → Prop} {maps maps' : K → F → Prop} {mem mem' : F → V} {zero : V} {view : K → V}
  {k : K} {f : F}

/-- The pages in `dom` hold what `view` says: the contents of their frames, and `zero` without one. -/
structure Demand (dom : K → Prop) (maps : K → F → Prop) (mem : F → V) (zero : V) (view : K → V) : Prop where
  mapped : ∀ k f, dom k → maps k f → view k = mem f
  unmapped : ∀ k, dom k → (∀ f, ¬ maps k f) → view k = zero

/-- Nothing is mapped yet. -/
theorem Demand.empty (h : ∀ k f, ¬ maps k f) : Demand dom maps mem zero fun _ => zero :=
  ⟨fun k f _ hf => absurd hf (h k f), fun _ _ _ => rfl⟩

/-- **A write through the map** changes one page of the flat memory, if no other page shares the frame. -/
theorem Demand.write [DecidableEq K] [DecidableEq F] (h : Demand dom maps mem zero view) (hk : maps k f)
    (honly : ∀ k', dom k' → maps k' f → k' = k) (hfun : ∀ f', maps k f' → f' = f) (v : V) :
    Demand dom maps (Function.update mem f v) zero (Function.update view k v) := by
  constructor
  · intro k' f' hdom hf'
    by_cases hkk : k' = k
    · subst hkk
      rw [hfun f' hf', Function.update_self, Function.update_self]
    · have hff : f' ≠ f := fun heq => hkk (honly k' hdom (heq ▸ hf'))
      rw [Function.update_of_ne hkk, Function.update_of_ne hff]
      exact h.mapped k' f' hdom hf'
  · intro k' hdom hno
    have hkk : k' ≠ k := fun heq => hno f (heq ▸ hk)
    rw [Function.update_of_ne hkk]
    exact h.unmapped k' hdom hno

/-- **A change that the users do not see**: pages of the address space keep their frames with their contents, or get their
first frame, which is zeroed. -/
theorem Demand.change (h : Demand dom maps mem zero view) (hdom : ∀ k, dom' k → dom k)
    (hkeep : ∀ k f, dom' k → maps' k f → maps k f ∧ mem' f = mem f ∨ (∀ g, ¬ maps k g) ∧ mem' f = zero)
    (hgrow : ∀ k f, dom' k → maps k f → ∃ g, maps' k g) : Demand dom' maps' mem' zero view := by
  constructor
  · intro k f hk hf
    rcases hkeep k f hk hf with ⟨hold, hmem⟩ | ⟨hno, hmem⟩
    · rw [hmem]
      exact h.mapped k f (hdom k hk) hold
    · rw [hmem]
      exact h.unmapped k (hdom k hk) hno
  · intro k hk hno
    refine h.unmapped k (hdom k hk) fun f hf => ?_
    obtain ⟨g, hg⟩ := hgrow k f hk hf
    exact hno g hg

end Paging
