import Yakvm.Proof.PageMap

/-!
# Destroying a nested page table

`yakvm_vmm_destroy_table` frees the pages of the tree in post-order. On a well-formed table
that is a list without duplicates of exactly the tree's pages (`destroyVmm_spec`), so a
table that was created and grown by any calls, whatever their outcome, is torn down to the
page: `teardown_exact`.
-/

namespace Yakvm

open Radix

variable {s s' : Phys} {root t : Frame} {np : Option (List Slot)} {p : List Slot}

theorem mem_slots (i : Slot) : i ∈ slots := by
  unfold slots
  rw [List.mem_map]
  exact ⟨i.toNat, by simp [ptrsPerPage, i.isLt], by simp⟩

theorem slots_nodup : slots.Nodup := by
  unfold slots
  refine List.Nodup.map_on ?_ List.nodup_range
  intro x hx y hy h
  rw [List.mem_range] at hx hy
  have := congrArg BitVec.toNat h
  simp only [BitVec.toNat_ofNat, ptrsPerPage] at *
  omega

theorem mapM_eq_map {α β : Type} {g : α → Except Crash β} {h : α → β} :
    ∀ l : List α, (∀ a ∈ l, g a = .ok (h a)) → l.mapM g = .ok (l.map h) := by
  intro l
  induction l with
  | nil => intro _; rfl
  | cons a l ih =>
    intro hl
    rw [List.mapM_cons, hl a List.mem_cons_self, ih (fun b hb => hl b (List.mem_cons_of_mem _ hb))]
    rfl

/-- **`yakvm_vmm_destroy_table` frees the subtree** of the table it is called on, and its
assertion holds at every nonzero entry. -/
theorem vmmDestroyTable_eq (hs : NptOK s root np) : ∀ (l : ℕ) (p : List Slot) (t : Frame),
    p.length + l = 4 → nodeAt s root p = some t →
    vmmDestroyTable s.mem l t = .ok (nodes (kids s.mem) slots l t) := by
  intro l
  induction l with
  | zero => intro p t _ _; rfl
  | succ l ih =>
    intro p t hp ht
    -- each slot contributes the pages below it
    have hslot : ∀ i ∈ slots, (if s.mem t i = 0 then .ok []
        else if destroyAssert (s.mem t i) then vmmDestroyTable s.mem l (vmmPhysToVirt (s.mem t i))
        else .error .panic : Except Crash (List Frame)) =
        .ok ((kids s.mem t i).elim [] (nodes (kids s.mem) slots l)) := by
      intro i _
      by_cases h0 : s.mem t i = 0
      · rw [if_pos h0]
        simp only [kids, h0, child_zero, Option.elim_none]
      · have hl := hs.linked p t i (by omega) ht h0
        have hc : nodeAt s root (p ++ [i]) = some (vmmPhysToVirt (s.mem t i)) := by
          rw [nodeAt_concat ht]; exact child_eq_some.2 ⟨h0, rfl⟩
        rw [if_neg h0, if_pos ((destroyAssert_iff _).2 ⟨hl.user, hl.rw⟩),
          ih (p ++ [i]) _ (by simp; omega) hc]
        simp only [kids, child_eq_some.2 ⟨h0, rfl⟩, Option.elim_some]
    simp only [vmmDestroyTable]
    rw [mapM_eq_map slots hslot]
    simp only [bind, Except.bind, nodes, List.flatMap_def]

/-- Freeing a list of distinct allocated pages. -/
theorem freePages_ok : ∀ (fs : List Frame) (s : Phys), fs.Nodup → (∀ f ∈ fs, f ∈ s.pages) →
    s.freePages fs = .ok { s with pages := s.pages \ fs.toFinset } := by
  intro fs
  induction fs with
  | nil => intro s _ _; simp [Phys.freePages, pure, Except.pure]
  | cons f fs ih =>
    intro s hnd hmem
    obtain ⟨hf, hnd'⟩ := List.nodup_cons.1 hnd
    simp only [Phys.freePages, List.foldlM_cons]
    rw [Phys.freePage_ok (hmem f List.mem_cons_self)]
    have := ih { s with pages := s.pages.erase f } hnd' (fun g hg =>
      Finset.mem_erase.2 ⟨fun h => hf (h ▸ hg), hmem g (List.mem_cons_of_mem _ hg)⟩)
    simp only [Phys.freePages] at this
    simp only [bind, Except.bind, this, List.toFinset_cons]
    congr 2
    ext g
    simp only [Finset.mem_sdiff, Finset.mem_erase, Finset.mem_insert, List.mem_toFinset]
    tauto

/-- **`yakvm_destroy_vmm`** passes its assertions and frees each page of the tree once. -/
theorem destroyVmm_spec {o : ℕ} {vmm : Vmm} (hs : NptOK s (vmmPhysToVirt vmm.ncr3) np) (ho : o ∈ s.slab) :
    ∃ freed, vmmDestroyTable s.mem PML4T (vmmPhysToVirt vmm.ncr3) = .ok freed ∧ freed.Nodup ∧
      (∀ f, f ∈ freed ↔ ∃ q, q.length ≤ 4 ∧ nodeAt s (vmmPhysToVirt vmm.ncr3) q = some f) ∧
      destroyVmm o vmm s = .ok { s with pages := s.pages \ freed.toFinset, slab := s.slab.erase o } := by
  have heq := vmmDestroyTable_eq hs 4 [] _ rfl nodeAt_nil
  have hmem : ∀ f, f ∈ nodes (kids s.mem) slots 4 (vmmPhysToVirt vmm.ncr3) ↔
      ∃ q, q.length ≤ 4 ∧ nodeAt s (vmmPhysToVirt vmm.ncr3) q = some f := fun f => mem_nodes mem_slots 4 _
  have hnd := nodes_nodup mem_slots slots_nodup 4 _ hs.tree
  refine ⟨_, heq, hnd, hmem, ?_⟩
  have hfree := freePages_ok _ s hnd (fun f hf => by
    obtain ⟨q, hq, h⟩ := (hmem f).1 hf
    exact hs.live q f hq h)
  unfold destroyVmm PML4T
  simp only [heq, hfree, bind, Except.bind]
  exact Phys.kfree_ok ho

/-- Runs of a nested page table: calls of `yakvm_vmm_npt_create` that return, with a page or
with an error, and updates of Accessed and Dirty bits. -/
inductive VmmRun (ncr3 : Word) (s₀ : Phys) : Phys → Prop
  | start : VmmRun ncr3 s₀ s₀
  | call {s s' : Phys} {gpa : Word} {ask : ℕ → Option Frame} {r : Except Errno Word} :
      VmmRun ncr3 s₀ s → vmmNptCreate ncr3 gpa false ask s = .ok (r, s') → VmmRun ncr3 s₀ s'
  | setAd {s : Phys} {t : Frame} {i : Slot} {a d : Bool} :
      VmmRun ncr3 s₀ s → s.mem t i ≠ 0 → VmmRun ncr3 s₀ (hwSetAd s t i a d)

/-- **A run keeps the table well formed and its pages accounted for.** -/
theorem VmmRun.inv {ncr3 : Word} {s₀ : Phys} {base : Finset Frame} (hr : VmmRun ncr3 s₀ s)
    (h0 : NptOK s₀ (vmmPhysToVirt ncr3) np) (ho : Owns base s₀ (vmmPhysToVirt ncr3)) :
    NptOK s (vmmPhysToVirt ncr3) np ∧ Owns base s (vmmPhysToVirt ncr3) ∧ s.slab = s₀.slab := by
  induction hr with
  | start => exact ⟨h0, ho, rfl⟩
  | call _ hc ih =>
    obtain ⟨h1, h2, h3⟩ := ih
    have hg := vmmNptCreate_grow h1 hc
    exact ⟨hg.ok h1, h2.grow h1 hg, hg.slab.1.trans h3⟩
  | setAd _ hne ih =>
    obtain ⟨h1, h2, h3⟩ := ih
    obtain ⟨h4, h5⟩ := hwSetAd_ok h1 hne _ _
    exact ⟨h4, h2.congr rfl (fun q _ => h5 q), h3⟩

/-- **Exact teardown.** After `yakvm_create_vmm`, any calls that return and any hardware
updates, `yakvm_destroy_vmm` completes: its assertion holds at every nonzero entry it
meets, and the pages it frees, each once, are exactly those allocated since. -/
theorem teardown_exact {a : VmmAsk} {o : ℕ} {vmm : Vmm} {s₀ s₁ : Phys}
    (h : createVmm a s₀ = .ok (.ok (o, vmm), s₁)) (hr : VmmRun vmm.ncr3 s₁ s) :
    ∃ freed s', vmmDestroyTable s.mem PML4T (vmmPhysToVirt vmm.ncr3) = .ok freed ∧ freed.Nodup ∧
      (∀ f, f ∈ freed ↔ f ∈ s.pages ∧ f ∉ s₀.pages) ∧
      destroyVmm o vmm s = .ok s' ∧ s'.pages = s₀.pages ∧ s'.slab = s₁.slab.erase o := by
  have hf := createVmm_fresh h
  obtain ⟨hs, hown, hslab⟩ := hr.inv hf.ok hf.owns
  have ho : o ∈ s.slab := by rw [hslab, hf.slab.2.1]; exact Finset.mem_insert_self _ _
  obtain ⟨freed, h1, h2, h3, h4⟩ := destroyVmm_spec hs ho
  have hmem : ∀ f, f ∈ freed ↔ f ∈ s.pages ∧ f ∉ s₀.pages := by
    intro f
    rw [h3]
    constructor
    · rintro ⟨q, hq, hn⟩; exact ⟨hs.live q f hq hn, hown.apart q f hq hn⟩
    · rintro ⟨hp, hb⟩; exact hown.cover f hp hb
  refine ⟨freed, _, h1, h2, hmem, h4, ?_, by simp only [hslab]⟩
  ext f
  simp only [Finset.mem_sdiff, List.mem_toFinset, hmem]
  constructor
  · rintro ⟨hp, hn⟩; by_contra hb; exact hn ⟨hp, hb⟩
  · intro hb; exact ⟨hown.base hb, fun h => h.2 hb⟩

/-- A new vm in which one call succeeded and one ran out of memory half way is torn down
to nothing. -/
theorem teardown_exact_half : ∃ s₁ s s', createVmm countingAsk emptyPhys = .ok (.ok (0, ⟨pageToPhys 1⟩), s₁) ∧
    VmmRun (pageToPhys 1) s₁ s ∧ s.pages = {1, 2, 3, 4, 5, 6, 7} ∧
    destroyVmm 0 ⟨pageToPhys 1⟩ s = .ok s' ∧ s'.pages = ∅ := by
  obtain ⟨s₁, hs₁⟩ := counting_created
  have hcalls : ∃ s₂ s₃, vmmNptCreate (pageToPhys 1) 0x1000 false (fun _ => some 6) s₁ = .ok (.ok 6, s₂) ∧
      vmmNptCreate (pageToPhys 1) 0x200000 false (fun l => if l = 2 then some 7 else none) s₂
        = .ok (.error .ENOMEM, s₃) ∧ s₃.pages = {1, 2, 3, 4, 5, 6, 7} := by
    cases hs₁
    exact ⟨_, _, rfl, rfl, by decide⟩
  obtain ⟨s₂, s₃, h2, h3, hp⟩ := hcalls
  have hr : VmmRun (pageToPhys 1) s₁ s₃ := .call (.call .start h2) h3
  obtain ⟨-, s', -, -, -, hd, hp', -⟩ := teardown_exact hs₁ hr
  exact ⟨s₁, s₃, s', hs₁, hr, hp, hd, hp'⟩

end Yakvm
