import Yakvm.Proof.Race
import Yakvm.Proof.Emulator
import Yakvm.Proof.Teardown
import Yakvm.Spec.Tables

/-!
# Page requests on many vms are isolated

Two calls that fill one slot at a time lose a page, but nothing worse comes of it. The reason is that a
page is given its place before it is linked: the call that allocates it has a vm and a path in its
variables, and every entry that points to the page afterwards is at the end of that path in
a table of that vm. `Labels` says so of all pages, those that a later store has cut off included,
so no step has to know which tables are still reached from a root.

* `Labels.fill`: storing an entry keeps the labels, whatever was in the slot.
* `Tables.OK`: what every interleaving keeps.
* `tables_isolated`: the vms stay apart, and nothing but a request for the MMIO page panics.
* `tables_established`: a translation never changes once no call is about to fill a slot of its vm.
-/

namespace Yakvm

open Radix

variable {s s' : Phys} {vmms : ℕ → Option Vmm} {lab : Frame → Option (ℕ × List Slot)} {o o' : ℕ} {m : Vmm}
  {t f : Frame} {p q : List Slot} {i : Slot} {e gpa : Word}

/-! ## Labels -/

/-- What each page of a table is for: a vm, and the path from the root of its table. -/
structure Labels (s : Phys) (vmms : ℕ → Option Vmm) (lab : Frame → Option (ℕ × List Slot)) : Prop where
  live : ∀ {f o p}, lab f = some (o, p) → f ∈ s.pages ∧ p.length ≤ 4 ∧ ∃ m, vmms o = some m
  root : ∀ {o m}, vmms o = some m → lab (vmmPhysToVirt m.ncr3) = some (o, [])
  linked : ∀ {t o p i}, lab t = some (o, p) → p.length < 4 → s.mem t i ≠ 0 →
    Linked (s.mem t i) ∧ lab (vmmPhysToVirt (s.mem t i)) = some (o, p ++ [i])
  present : ∀ {t o p i}, lab t = some (o, p) → p.length < 4 → s.mem t i ≠ 0 →
    ((s.mem t i).getLsbD 0 = false ↔ p ++ [i] = path mmioHawk)
  /-- on the path of the MMIO page there is one table at each level, the one in the tree -/
  single : ∀ {f o p m}, lab f = some (o, p) → p <+: path mmioHawk → vmms o = some m →
    nodeAt s (vmmPhysToVirt m.ncr3) p = some f
  hole : ∀ {o m}, vmms o = some m → ∃ f, nodeAt s (vmmPhysToVirt m.ncr3) (path mmioHawk) = some f
  slab : ∀ {o m}, vmms o = some m → o ∈ s.slab
  next : ∀ o ∈ s.slab, o < s.next

/-- The pages of a tree carry their paths. -/
theorem Labels.node (h : Labels s vmms lab) (hm : vmms o = some m) : ∀ {p f}, p.length ≤ 4 →
    nodeAt s (vmmPhysToVirt m.ncr3) p = some f → lab f = some (o, p) := by
  intro p
  induction p using List.reverseRecOn with
  | nil =>
    rintro f - hf
    obtain rfl := Option.some.inj hf
    exact h.root hm
  | append_singleton p i ih =>
    intro f hp hf
    simp only [List.length_append, List.length_cons, List.length_nil] at hp
    obtain ⟨t, ht, h0, rfl⟩ := nodeAt_concat_inv hf
    exact (h.linked (ih (by omega) ht) (by omega) h0).2

/-- The table of a vm is a tree. -/
theorem Labels.npt (h : Labels s vmms lab) (hm : vmms o = some m) :
    NptOK s (vmmPhysToVirt m.ncr3) (some (path mmioHawk)) where
  tree := fun p q n hp hq hn hn' => by
    have hpq := (h.node hm hp hn).symm.trans (h.node hm hq hn')
    exact (Prod.mk.inj (Option.some.inj hpq)).2
  live := fun _ _ hp hn => (h.live (h.node hm hp hn)).1
  linked := fun _ _ _ hp hn h0 => (h.linked (h.node hm hp.le hn) hp h0).1
  present := fun p _ i hp hn h0 => by
    rw [h.present (h.node hm hp.le hn) hp h0]
    exact ⟨fun h => by rw [h], fun h => (Option.some.inj h).symm⟩
  hidden := fun q hq => by
    obtain rfl := Option.some.inj hq
    exact ⟨rfl, h.hole hm⟩

/-- **Frame rule.** What changes no table keeps the labels. -/
theorem Labels.frame (h : Labels s vmms lab)
    (hmem : ∀ {t o p}, lab t = some (o, p) → p.length < 4 → s'.mem t = s.mem t)
    (hpages : ∀ {f o p}, lab f = some (o, p) → f ∈ s'.pages) (hslab : s'.slab = s.slab) (hnext : s.next ≤ s'.next) :
    Labels s' vmms lab := by
  have hnode : ∀ {o m}, vmms o = some m → ∀ q, q.length ≤ 4 →
      nodeAt s' (vmmPhysToVirt m.ncr3) q = nodeAt s (vmmPhysToVirt m.ncr3) q := fun hm =>
    nodeAt_congr fun p n hp hn => hmem (h.node hm hp.le hn) hp
  refine ⟨fun hf => ⟨hpages hf, (h.live hf).2⟩, h.root, ?_, ?_, ?_, ?_, ?_, ?_⟩
  · intro t o p i ht hp h0
    rw [hmem ht hp] at h0 ⊢
    exact h.linked ht hp h0
  · intro t o p i ht hp h0
    rw [hmem ht hp] at h0 ⊢
    exact h.present ht hp h0
  · intro f o p m hf hp hm
    rw [hnode hm p (h.live hf).2.1]
    exact h.single hf hp hm
  · intro o m hm
    rw [hnode hm _ (path_length _).le]
    exact h.hole hm
  · rw [hslab]; exact h.slab
  · rw [hslab]
    exact fun o ho => (h.next o ho).trans_le hnext

/-- An entry matters to the paths through it only. -/
theorem Labels.nodeAt_store (h : Labels s vmms lab) (ht : lab t = some (o, p)) (he : e ≠ 0) (hm : vmms o' = some m)
    {q : List Slot} (hq : q.length ≤ 4) (hthrough : nodeAt s (vmmPhysToVirt m.ncr3) p = some t → p ++ [i] <+: q →
      s.mem t i ≠ 0 ∧ vmmPhysToVirt e = vmmPhysToVirt (s.mem t i)) :
    nodeAt (s.store t i e) (vmmPhysToVirt m.ncr3) q = nodeAt s (vmmPhysToVirt m.ncr3) q := by
  induction q using List.reverseRecOn with
  | nil => rfl
  | append_singleton q j ih =>
    simp only [List.length_append, List.length_cons, List.length_nil] at hq
    have hih := ih (by omega) (fun ho hp => hthrough ho (hp.trans (List.prefix_append q [j])))
    cases hc : nodeAt s (vmmPhysToVirt m.ncr3) q with
    | none =>
      have hno : ∀ s'' : Phys, nodeAt s'' (vmmPhysToVirt m.ncr3) q = none →
          nodeAt s'' (vmmPhysToVirt m.ncr3) (q ++ [j]) = none := by
        intro s'' hn
        simp only [nodeAt] at hn ⊢
        rw [reach_concat, hn]
        rfl
      rw [hno _ (hih.trans hc), hno _ hc]
    | some c =>
      rw [nodeAt_concat (hih.trans hc), nodeAt_concat hc]
      by_cases hcj : c = t ∧ j = i
      · obtain ⟨rfl, rfl⟩ := hcj
        obtain ⟨rfl, rfl⟩ := Prod.mk.inj (Option.some.inj ((h.node hm (by omega) hc).symm.trans ht))
        obtain ⟨h0, heq⟩ := hthrough hc List.prefix_rfl
        rw [Phys.store_same, child_eq_some.2 ⟨he, heq⟩, child_eq_some.2 ⟨h0, rfl⟩]
      · rw [Phys.store_ne s e (by tauto)]

/-- **Storing an entry.** The page it points to has been given the place that the entry gives it.
What the slot held does not matter, except on the path of the MMIO page. -/
theorem Labels.fill (h : Labels s vmms lab) (ht : lab t = some (o, p)) (hp : p.length < 4) (he : Linked e)
    (hchild : lab (vmmPhysToVirt e) = some (o, p ++ [i]))
    (hpres : e.getLsbD 0 = false ↔ p ++ [i] = path mmioHawk)
    (hhole : p ++ [i] <+: path mmioHawk → s.mem t i ≠ 0 ∧ vmmPhysToVirt e = vmmPhysToVirt (s.mem t i)) :
    Labels (s.store t i e) vmms lab := by
  have hentry : ∀ {x o' q j}, lab x = some (o', q) → (x = t ∧ j = i ∧ o' = o ∧ q = p) ∨
      (s.store t i e).mem x j = s.mem x j := by
    intro x o' q j hx
    by_cases hxj : x = t ∧ j = i
    · obtain ⟨rfl, rfl⟩ := hxj
      obtain ⟨rfl, rfl⟩ := Prod.mk.inj (Option.some.inj (hx.symm.trans ht))
      exact Or.inl ⟨rfl, rfl, rfl, rfl⟩
    · exact Or.inr (Phys.store_ne s e (by tauto))
  have hnode : ∀ {o' m' q}, vmms o' = some m' → q <+: path mmioHawk →
      nodeAt (s.store t i e) (vmmPhysToVirt m'.ncr3) q = nodeAt s (vmmPhysToVirt m'.ncr3) q := fun hm' hq =>
    h.nodeAt_store ht he.ne_zero hm' (hq.length_le.trans (path_length _).le) fun _ hpq => hhole (hpq.trans hq)
  refine ⟨h.live, h.root, ?_, ?_, ?_, ?_, h.slab, h.next⟩
  · intro x o' q j hx hq h0
    rcases hentry (j := j) hx with ⟨rfl, rfl, rfl, rfl⟩ | hsame
    · rw [Phys.store_same]
      exact ⟨he, hchild⟩
    · rw [hsame] at h0 ⊢
      exact h.linked hx hq h0
  · intro x o' q j hx hq h0
    rcases hentry (j := j) hx with ⟨rfl, rfl, rfl, rfl⟩ | hsame
    · rw [Phys.store_same]
      exact hpres
    · rw [hsame] at h0 ⊢
      exact h.present hx hq h0
  · intro x o' q m' hx hq hm'
    rw [hnode hm' hq]
    exact h.single hx hq hm'
  · intro o' m' hm'
    rw [hnode hm' List.prefix_rfl]
    exact h.hole hm'

/-- **Allocating a page**, for a place off the path of the MMIO page. -/
theorem Labels.grab (h : Labels s vmms lab) (hf : f ∉ s.pages) (hm : vmms o = some m) (hq : q.length ≤ 4)
    (hoff : ¬ q <+: path mmioHawk) : Labels (s.grab f) vmms (Function.update lab f (some (o, q))) := by
  have hne : ∀ {x b}, lab x = some b → x ≠ f := by
    rintro x ⟨o', p⟩ hx rfl
    exact hf (h.live hx).1
  have hold : ∀ {x b}, lab x = some b → Function.update lab f (some (o, q)) x = some b := fun hx => by
    rw [Function.update_of_ne (hne hx), hx]
  have h' : Labels (s.grab f) vmms lab := h.frame (fun ht _ => grab_mem_ne s (hne ht))
    (fun hx => Finset.mem_insert_of_mem (h.live hx).1) rfl le_rfl
  have hcases : ∀ {x b}, Function.update lab f (some (o, q)) x = some b → (x = f ∧ b = (o, q)) ∨ lab x = some b := by
    intro x b hx
    by_cases hxf : x = f
    · subst hxf
      rw [Function.update_self] at hx
      exact Or.inl ⟨rfl, (Option.some.inj hx).symm⟩
    · rw [Function.update_of_ne hxf] at hx
      exact Or.inr hx
  refine ⟨?_, fun hm' => hold (h'.root hm'), ?_, ?_, ?_, h'.hole, h'.slab, h'.next⟩
  · intro x o' p hx
    rcases hcases hx with ⟨rfl, hb⟩ | hx
    · obtain ⟨rfl, rfl⟩ := Prod.mk.inj hb
      exact ⟨Finset.mem_insert_self _ _, hq, m, hm⟩
    · exact h'.live hx
  · intro x o' p j hx hp h0
    rcases hcases hx with ⟨rfl, -⟩ | hx
    · exact absurd (grab_mem_same s x j) h0
    · exact ⟨(h'.linked hx hp h0).1, hold (h'.linked hx hp h0).2⟩
  · intro x o' p j hx hp h0
    rcases hcases hx with ⟨rfl, -⟩ | hx
    · exact absurd (grab_mem_same s x j) h0
    · exact h'.present hx hp h0
  · intro x o' p m' hx hp hm'
    rcases hcases hx with ⟨rfl, hb⟩ | hx
    · obtain ⟨rfl, rfl⟩ := Prod.mk.inj hb
      exact absurd hp hoff
    · exact h'.single hx hp hm'

/-- A new table has a serial number of its own. -/
theorem Labels.unused (h : Labels s vmms lab) : vmms s.next = none := by
  cases hm : vmms s.next with
  | none => rfl
  | some m => exact absurd (h.next _ (h.slab hm)) (lt_irrefl _)

/-- **A new table** gives its places to pages that had none. -/
theorem Labels.create (h : Labels s vmms lab) (hf : Fresh s o m s') :
    ∃ lab', Labels s' (Function.update vmms o (some m)) lab' ∧ ∀ f ∈ s.pages, lab' f = lab f := by
  classical
  obtain ⟨ho, hslab, hnext⟩ := hf.slab
  have hnone : vmms o = none := ho ▸ h.unused
  let lab' : Frame → Option (ℕ × List Slot) := fun f =>
    if hq : ∃ q, q.length ≤ 4 ∧ nodeAt s' (vmmPhysToVirt m.ncr3) q = some f then some (o, hq.choose) else lab f
  have hnew : ∀ {f q}, q.length ≤ 4 → nodeAt s' (vmmPhysToVirt m.ncr3) q = some f → lab' f = some (o, q) := by
    intro f q hq hn
    have hex : ∃ q, q.length ≤ 4 ∧ nodeAt s' (vmmPhysToVirt m.ncr3) q = some f := ⟨q, hq, hn⟩
    obtain ⟨h4, hn'⟩ := hex.choose_spec
    simp only [lab', dif_pos hex, hf.ok.tree _ _ _ h4 hq hn' hn]
  have hold : ∀ f ∈ s.pages, lab' f = lab f := fun f hfp =>
    dif_neg fun ⟨q, hq, hn⟩ => hf.owns.apart q f hq hn hfp
  have hkeep : ∀ {f b}, lab f = some b → lab' f = some b := fun {f b} hb =>
    (hold f (h.live (o := b.1) (p := b.2) hb).1).trans hb
  -- a label is an old one, or says where the page is in the new tree
  have hcases : ∀ {f o' q}, lab' f = some (o', q) →
      (o' = o ∧ q.length ≤ 4 ∧ nodeAt s' (vmmPhysToVirt m.ncr3) q = some f) ∨ (o' ≠ o ∧ lab f = some (o', q)) := by
    intro f o' q hb
    by_cases hex : ∃ q, q.length ≤ 4 ∧ nodeAt s' (vmmPhysToVirt m.ncr3) q = some f
    · obtain ⟨q', hq', hn⟩ := hex
      obtain ⟨rfl, rfl⟩ := Prod.mk.inj (Option.some.inj ((hnew hq' hn).symm.trans hb))
      exact Or.inl ⟨rfl, hq', hn⟩
    · have hb' : lab f = some (o', q) := by
        simpa only [lab', dif_neg hex] using hb
      refine Or.inr ⟨?_, hb'⟩
      rintro rfl
      obtain ⟨-, -, m', hm'⟩ := h.live hb'
      rw [hnone] at hm'
      simp at hm'
  have hvm : ∀ {o' m'}, Function.update vmms o (some m) o' = some m' → (o' = o ∧ m' = m) ∨ (o' ≠ o ∧ vmms o' = some m') := by
    intro o' m' hm'
    by_cases ho' : o' = o
    · subst ho'
      rw [Function.update_self] at hm'
      exact Or.inl ⟨rfl, (Option.some.inj hm').symm⟩
    · rw [Function.update_of_ne ho'] at hm'
      exact Or.inr ⟨ho', hm'⟩
  have hmem : ∀ {x b}, lab x = some b → s'.mem x = s.mem x := fun {x b} hx =>
    hf.mem x (h.live (o := b.1) (p := b.2) hx).1
  have hnode : ∀ {o' m'}, vmms o' = some m' → ∀ q, q.length ≤ 4 →
      nodeAt s' (vmmPhysToVirt m'.ncr3) q = nodeAt s (vmmPhysToVirt m'.ncr3) q := fun hm' =>
    nodeAt_congr fun p n hp hn => hmem (h.node hm' hp.le hn)
  refine ⟨lab', ⟨?_, ?_, ?_, ?_, ?_, ?_, ?_, ?_⟩, hold⟩
  · intro f o' q hb
    rcases hcases hb with ⟨rfl, hq, hn⟩ | ⟨hne, hb'⟩
    · exact ⟨hf.ok.live q f hq hn, hq, m, Function.update_self ..⟩
    · obtain ⟨hl, hq, m', hm'⟩ := h.live hb'
      exact ⟨hf.owns.base hl, hq, m', by rw [Function.update_of_ne hne, hm']⟩
  · intro o' m' hm'
    rcases hvm hm' with ⟨rfl, rfl⟩ | ⟨-, hm'⟩
    · exact hnew (Nat.zero_le _) rfl
    · exact hkeep (h.root hm')
  · intro x o' q j hb hq h0
    rcases hcases hb with ⟨rfl, -, hn⟩ | ⟨-, hb'⟩
    · exact ⟨hf.ok.linked q x j hq hn h0, hnew (by simp; omega) (by rw [nodeAt_concat hn]; exact child_eq_some.2 ⟨h0, rfl⟩)⟩
    · rw [hmem hb'] at h0 ⊢
      obtain ⟨hl, hc⟩ := h.linked hb' hq h0
      exact ⟨hl, hkeep hc⟩
  · intro x o' q j hb hq h0
    rcases hcases hb with ⟨rfl, -, hn⟩ | ⟨-, hb'⟩
    · rw [hf.ok.present q x j hq hn h0]
      exact ⟨fun h => (Option.some.inj h).symm, fun h => by rw [h]⟩
    · rw [hmem hb'] at h0 ⊢
      exact h.present hb' hq h0
  · intro x o' q m' hb hq hm'
    rcases hcases hb with ⟨rfl, -, hn⟩ | ⟨hne, hb'⟩
    · rcases hvm hm' with ⟨-, rfl⟩ | ⟨hne, -⟩
      · exact hn
      · exact absurd rfl hne
    · rcases hvm hm' with ⟨rfl, -⟩ | ⟨-, hm'⟩
      · exact absurd rfl hne
      · rw [hnode hm' q (h.live hb').2.1]
        exact h.single hb' hq hm'
  · intro o' m' hm'
    rcases hvm hm' with ⟨rfl, rfl⟩ | ⟨-, hm'⟩
    · exact (hf.ok.hidden _ rfl).2
    · rw [hnode hm' _ (path_length _).le]
      exact h.hole hm'
  · intro o' m' hm'
    rw [hslab]
    rcases hvm hm' with ⟨rfl, -⟩ | ⟨-, hm'⟩
    · exact Finset.mem_insert_self _ _
    · exact Finset.mem_insert_of_mem (h.slab hm')
  · intro n hn
    rw [hslab] at hn
    rw [hnext]
    rcases Finset.mem_insert.1 hn with rfl | hn
    · omega
    · exact (h.next n hn).trans (Nat.lt_succ_self _)

/-- A creation that fails touches no table. -/
theorem Labels.failed (h : Labels s vmms lab) (hf : Failed s s') : Labels s' vmms lab :=
  h.frame (fun ht _ => hf.mem _ (h.live ht).1) (fun hx => hf.pages (h.live hx).1)
    (hf.slab fun hn => lt_irrefl _ (h.next _ hn)) hf.next

/-- The labels of the other vms. -/
def drop (o : ℕ) (lab : Frame → Option (ℕ × List Slot)) : Frame → Option (ℕ × List Slot) :=
  fun f => (lab f).filter fun b => decide (b.1 ≠ o)

theorem drop_eq_some : drop o lab f = some (o', p) ↔ lab f = some (o', p) ∧ o' ≠ o := by
  simp [drop, Option.filter_eq_some_iff]

/-- **Destroying a table** takes no page of another vm. -/
theorem Labels.destroy (h : Labels s vmms lab) (hm : vmms o = some m) {freed : List Frame}
    (hfreed : ∀ f ∈ freed, ∃ q, q.length ≤ 4 ∧ nodeAt s (vmmPhysToVirt m.ncr3) q = some f) :
    Labels { s with pages := s.pages \ freed.toFinset, slab := s.slab.erase o } (Function.update vmms o none) (drop o lab) := by
  have hvm : ∀ {o' m'}, Function.update vmms o none o' = some m' → o' ≠ o ∧ vmms o' = some m' := by
    intro o' m' hm'
    by_cases ho' : o' = o
    · rw [ho', Function.update_self] at hm'
      simp at hm'
    · rw [Function.update_of_ne ho'] at hm'
      exact ⟨ho', hm'⟩
  have hkeep : ∀ {f o' q}, lab f = some (o', q) → o' ≠ o → f ∉ freed := by
    intro f o' q hb hne hf
    obtain ⟨q', hq', hn⟩ := hfreed f hf
    exact hne (Prod.mk.inj (Option.some.inj (hb.symm.trans (h.node hm hq' hn)))).1
  refine ⟨?_, ?_, ?_, ?_, ?_, ?_, ?_, ?_⟩
  · intro f o' q hb
    obtain ⟨hb, hne⟩ := drop_eq_some.1 hb
    obtain ⟨hl, hq, m', hm'⟩ := h.live hb
    exact ⟨by simp [hl, hkeep hb hne], hq, m', by rw [Function.update_of_ne hne, hm']⟩
  · intro o' m' hm'
    obtain ⟨hne, hm'⟩ := hvm hm'
    exact drop_eq_some.2 ⟨h.root hm', hne⟩
  · intro t o' q j hb hq h0
    obtain ⟨hb, hne⟩ := drop_eq_some.1 hb
    obtain ⟨hl, hc⟩ := h.linked hb hq h0
    exact ⟨hl, drop_eq_some.2 ⟨hc, hne⟩⟩
  · intro t o' q j hb hq h0
    exact h.present (drop_eq_some.1 hb).1 hq h0
  · intro f o' q m' hb hq hm'
    exact h.single (drop_eq_some.1 hb).1 hq (hvm hm').2
  · intro o' m' hm'
    exact h.hole (hvm hm').2
  · intro o' m' hm'
    obtain ⟨hne, hm'⟩ := hvm hm'
    exact Finset.mem_erase.2 ⟨hne, h.slab hm'⟩
  · intro n hn
    exact h.next n (Finset.mem_erase.1 hn).2

/-! ## Calls -/

variable {lab' : Frame → Option (ℕ × List Slot)} {level : ℕ} {pc : Pc} {c : PageCall} {x x' : Tables} {s₀ : Phys}

/-- A call for `gpa` on the vm `o` stands at a table that its address leads to. -/
structure Stands (lab : Frame → Option (ℕ × List Slot)) (o : ℕ) (gpa : Word) (level : ℕ) (t : Frame) (p : List Slot) :
    Prop where
  table : lab t = some (o, p)
  route : p ++ pathFrom gpa level = path gpa
  pos : 0 < level

theorem Stands.length (h : Stands lab o gpa level t p) : p.length + level = 4 := pathFrom_below h.route

/-- What the labels have to say about a call. -/
def Pc.Placed (lab : Frame → Option (ℕ × List Slot)) (o : ℕ) (gpa : Word) : Pc → Prop
  | .load level entry => ∃ p, Stands lab o gpa level (vmmPhysToVirt entry) p
  | .alloc level table => ∃ p, Stands lab o gpa level table p ∧ ¬ p ++ [tableIndex gpa level] <+: path mmioHawk
  | .store level table page => ∃ p, Stands lab o gpa level table p ∧
      (¬ p ++ [tableIndex gpa level] <+: path mmioHawk) ∧ lab page = some (o, p ++ [tableIndex gpa level])
  | .done page => ∃ f : Frame, page = f.setWidth 64 ∧ lab f = some (o, path gpa)
  | .failed | .panicked => True

theorem Stands.mono (h : Stands lab o gpa level t p) (hk : ∀ f q, lab f = some (o, q) → lab' f = some (o, q)) :
    Stands lab' o gpa level t p := ⟨hk _ _ h.table, h.route, h.pos⟩

theorem Pc.Placed.mono (h : pc.Placed lab o gpa) (hk : ∀ f q, lab f = some (o, q) → lab' f = some (o, q)) :
    pc.Placed lab' o gpa := by
  cases pc with
  | load level entry =>
    obtain ⟨p, hs⟩ := h
    exact ⟨p, hs.mono hk⟩
  | alloc level table =>
    obtain ⟨p, hs, hoff⟩ := h
    exact ⟨p, hs.mono hk, hoff⟩
  | store level table page =>
    obtain ⟨p, hs, hoff, hp⟩ := h
    exact ⟨p, hs.mono hk, hoff, hk _ _ hp⟩
  | done page =>
    obtain ⟨f, hf, hl⟩ := h
    exact ⟨f, hf, hk _ _ hl⟩
  | failed => trivial
  | panicked => trivial

/-- After the assertion the call stands one level lower, or has its page. -/
theorem Stands.next (h : Stands lab o gpa level t p) (he : Linked e)
    (hchild : lab (vmmPhysToVirt e) = some (o, p ++ [tableIndex gpa level])) (ha : nptAssert e = true) :
    (Pc.next level e).Placed lab o gpa := by
  have hpath := path_snoc h.route h.pos
  unfold Pc.next Pc.enter PT
  rw [if_pos ha]
  by_cases h1 : 1 ≤ level - 1
  · rw [if_pos h1]
    exact ⟨_, hchild, hpath, h1⟩
  · rw [if_neg h1]
    rw [show level - 1 = 0 by omega, pathFrom, List.append_nil] at hpath
    rw [hpath] at hchild
    exact ⟨vmmPhysToVirt e, he.pfn, hchild⟩

/-- An empty slot is not on the path of the MMIO page. -/
theorem Labels.off_hole (h : Labels s vmms lab) (ht : lab t = some (o, p)) (h0 : s.mem t i = 0) :
    ¬ p ++ [i] <+: path mmioHawk := by
  intro hpre
  obtain ⟨-, -, m, hm⟩ := h.live ht
  obtain ⟨f, hf⟩ := h.hole hm
  obtain ⟨y, hy⟩ := nodeAt_prefix hpre hf
  rw [nodeAt_concat (h.single ht ((List.prefix_append p [i]).trans hpre) hm), h0, child_zero] at hy
  simp at hy

/-- Labels are only added, and the rest of the kernel is left alone. -/
structure Extends (s : Phys) (lab : Frame → Option (ℕ × List Slot)) (s' : Phys) (lab' : Frame → Option (ℕ × List Slot)) :
    Prop where
  keep : ∀ f b, lab f = some b → lab' f = some b
  rest : ∀ f ∈ s.pages, lab f = none → f ∈ s'.pages ∧ s'.mem f = s.mem f ∧ lab' f = none
  next : s.next ≤ s'.next

theorem Extends.refl : Extends s lab s lab := ⟨fun _ _ h => h, fun _ hf hn => ⟨hf, rfl, hn⟩, le_rfl⟩

/-- A store to a page with a label. -/
theorem Extends.store (ht : lab t = some (o, p)) (i : Slot) (e : Word) : Extends s lab (s.store t i e) lab := by
  refine ⟨fun _ _ h => h, fun f hf hn => ⟨hf, Phys.store_other s i e ?_, hn⟩, le_rfl⟩
  rintro rfl
  rw [hn] at ht
  simp at ht

/-- A store to a page that is no table. -/
theorem Labels.store_leaf (h : Labels s vmms lab) (hf : lab f = some (o, p)) (hp : p.length = 4) (w : Word) :
    Labels (s.store f i w) vmms lab := by
  refine h.frame ?_ (fun hx => (h.live hx).1) rfl le_rfl
  intro t o' q ht hq
  refine Phys.store_other s i w ?_
  rintro rfl
  have := (Prod.mk.inj (Option.some.inj (ht.symm.trans hf))).2
  subst this
  omega

/-- **One step of a call.** It keeps the labels, unless it fails the assertion, which only a call for the
MMIO page does. -/
theorem Labels.call_step (h : Labels s vmms lab) (hm : vmms o = some m) (hc : pc.Placed lab o gpa)
    (hrun : pc.finished = false) (ans : Option Frame) :
    (∃ lab', Labels (pc.step gpa ans s).2 vmms lab' ∧ Extends s lab (pc.step gpa ans s).2 lab' ∧
      (pc.step gpa ans s).1.Placed lab' o gpa ∧ (pc.step gpa ans s).1 ≠ .panicked) ∨
    ((pc.step gpa ans s).1 = .panicked ∧ key gpa = key mmioHawk) := by
  have hne : ∀ {level e}, nptAssert e = true → Pc.next level e ≠ .panicked := by
    intro level e ha
    unfold Pc.next Pc.enter
    rw [if_pos ha]
    split <;> simp
  cases pc with
  | load level entry =>
    obtain ⟨p, hs⟩ := hc
    have hlen := hs.length
    have hpos := hs.pos
    simp only [Pc.step]
    by_cases h0 : s.mem (vmmPhysToVirt entry) (tableIndex gpa level) = 0
    · rw [if_pos h0]
      exact Or.inl ⟨lab, h, Extends.refl, ⟨p, hs, h.off_hole hs.table h0⟩, by simp⟩
    · rw [if_neg h0]
      obtain ⟨hl, hchild⟩ := h.linked hs.table (by omega) h0
      by_cases ha : nptAssert (s.mem (vmmPhysToVirt entry) (tableIndex gpa level)) = true
      · exact Or.inl ⟨lab, h, Extends.refl, hs.next hl hchild ha, hne ha⟩
      · refine Or.inr ⟨if_neg ha, ?_⟩
        have hb : (s.mem (vmmPhysToVirt entry) (tableIndex gpa level)).getLsbD 0 = false := by
          have := mt hl.assert_iff.2 ha
          simpa using this
        have hmmio := (h.present hs.table (by omega) h0).1 hb
        rw [← path_eq_iff, ← hmmio]
        have hpre : p ++ [tableIndex gpa level] <+: path gpa := ⟨_, path_snoc hs.route hs.pos⟩
        exact (hpre.eq_of_length (by rw [hmmio, path_length, path_length])).symm
  | alloc level table =>
    obtain ⟨p, hs, hoff⟩ := hc
    have hlen := hs.length
    have hpos := hs.pos
    simp only [Pc.step]
    cases ha : s.allocPage ans with
    | none => exact Or.inl ⟨lab, h, Extends.refl, trivial, by simp⟩
    | some r =>
      obtain ⟨f, s₁⟩ := r
      obtain ⟨-, hf, rfl⟩ := Phys.allocPage_some ha
      have hkeep : ∀ g b, lab g = some b → Function.update lab f (some (o, p ++ [tableIndex gpa level])) g = some b := by
        rintro g ⟨o', q⟩ hg
        have hgf : g ≠ f := by
          rintro rfl
          exact hf (h.live hg).1
        rw [Function.update_of_ne hgf, hg]
      refine Or.inl ⟨_, h.grab hf hm (by simp; omega) hoff, ⟨hkeep, ?_, le_rfl⟩,
        ⟨p, hs.mono fun _ _ => hkeep _ _, hoff, Function.update_self ..⟩, by simp⟩
      intro g hg hn
      have hgf : g ≠ f := fun hgf => hf (hgf ▸ hg)
      exact ⟨Finset.mem_insert_of_mem hg, grab_mem_ne s hgf, by rw [Function.update_of_ne hgf, hn]⟩
  | store level table page =>
    obtain ⟨p, hs, hoff, hpage⟩ := hc
    have hlen := hs.length
    have hpos := hs.pos
    have hchild : lab (vmmPhysToVirt (newEntry page)) = some (o, p ++ [tableIndex gpa level]) := by
      rw [vmmPhysToVirt_newEntry]
      exact hpage
    refine Or.inl ⟨lab, h.fill hs.table (by omega) (newEntry_linked page) hchild ?_ (fun hpre => absurd hpre hoff),
      Extends.store hs.table _ _, hs.next (newEntry_linked page) hchild (newEntry_assert page), hne (newEntry_assert page)⟩
    rw [newEntry_present]
    refine ⟨fun hb => by simp at hb, fun hmmio => ?_⟩
    rw [hmmio] at hoff
    exact absurd List.prefix_rfl hoff
  | done page => cases hrun
  | failed => cases hrun
  | panicked => cases hrun

/-! ## Steps -/

/-- The ways a step can go that the driver returns from. -/
inductive Tables.Goes (x : Tables) : TableAct → Tables → Prop
  | idle (act : TableAct) : Goes x act x
  | failed {a : VmmAsk} {r : Errno} {s : Phys} : createVmm a x.phys = .ok (.error r, s) → Goes x (.create a) { x with phys := s }
  | created {a : VmmAsk} {o : ℕ} {m : Vmm} {s : Phys} : createVmm a x.phys = .ok (.ok (o, m), s) →
      Goes x (.create a) { x with phys := s, vmms := Function.update x.vmms o (some m) }
  | destroyed {vm : ℕ} {m : Vmm} {s : Phys} : x.vmms vm = some m → (∀ c ∈ x.calls, c.vm = vm → c.pc.finished = true) →
      destroyVmm vm m x.phys = .ok s → Goes x (.destroy vm) { x with phys := s, vmms := Function.update x.vmms vm none }
  | called {vm : ℕ} {gpa : Word} {m : Vmm} : x.vmms vm = some m →
      Goes x (.call vm gpa) { x with calls := x.calls ++ [⟨vm, gpa, .enter PML4T m.ncr3⟩] }
  | advanced {i : ℕ} {ans : Option Frame} {c : PageCall} : x.calls[i]? = some c → (c.pc.step c.gpa ans x.phys).1 ≠ .panicked →
      Goes x (.advance i ans) { x with
        phys := (c.pc.step c.gpa ans x.phys).2
        calls := x.calls.set i { c with pc := (c.pc.step c.gpa ans x.phys).1 } }
  | filled {vm : ℕ} {acc : Access} {gpa : Word} {m : Vmm} {f : Frame} : x.vmms vm = some m →
      hwTranslate x.phys.mem m.ncr3 acc gpa = .page f →
      Goes x (.fill vm acc gpa) { x with cached := x.cached ++ [⟨vm, gpa, f⟩] }
  | marked {vm : ℕ} {gpa : Word} {n : ℕ} {a d : Bool} {m : Vmm} : x.vmms vm = some m →
      Goes x (.mark vm gpa n a d) { x with phys := Emulator.hwMark x.phys m.ncr3 gpa n a d }
  | guestStored {j : ℕ} {slot : Slot} {w : Word} {t : Cached} {m : Vmm} : x.cached[j]? = some t → x.vmms t.vm = some m →
      Goes x (.guestStore j slot w) { x with phys := x.phys.store t.page slot w }
  | userStored {i : ℕ} {slot : Slot} {w page : Word} {c : PageCall} {m : Vmm} : x.calls[i]? = some c → c.pc = .done page →
      x.vmms c.vm = some m → Goes x (.userStore i slot w) { x with phys := x.phys.store (page.setWidth 40) slot w }

theorem Tables.step_cases {act : TableAct} (h : Tables.step act x = .ok x') : x.Goes act x' := by
  cases act with
  | create a =>
    obtain ⟨⟨r, s⟩, hc, h⟩ := bind_eq_ok.1 h
    cases r with
    | error r =>
      obtain rfl := Except.ok.inj h
      exact .failed hc
    | ok v =>
      obtain rfl := Except.ok.inj h
      exact .created hc
  | destroy vm =>
    simp only [Tables.step] at h
    split at h
    · obtain rfl := Except.ok.inj h
      exact .idle _
    · rename_i m hm
      split_ifs at h with hcalls
      · obtain ⟨s, hs, h⟩ := bind_eq_ok.1 h
        obtain rfl := Except.ok.inj h
        exact .destroyed hm hcalls hs
      · obtain rfl := Except.ok.inj h
        exact .idle _
  | call vm gpa =>
    simp only [Tables.step] at h
    split at h
    · obtain rfl := Except.ok.inj h
      exact .idle _
    · rename_i m hm
      obtain rfl := Except.ok.inj h
      exact .called hm
  | advance i ans =>
    simp only [Tables.step] at h
    split at h
    · obtain rfl := Except.ok.inj h
      exact .idle _
    · rename_i c hc
      split_ifs at h with hp
      obtain rfl := Except.ok.inj h
      exact .advanced hc hp
  | fill vm acc gpa =>
    simp only [Tables.step, Tables.translate] at h
    cases hm : x.vmms vm with
    | none =>
      simp only [hm] at h
      obtain rfl := Except.ok.inj h
      exact .idle _
    | some m =>
      simp only [hm] at h
      split at h
      · rename_i f hf
        obtain rfl := Except.ok.inj h
        exact .filled hm hf
      · obtain rfl := Except.ok.inj h
        exact .idle _
  | mark vm gpa n a d =>
    simp only [Tables.step] at h
    split at h
    · obtain rfl := Except.ok.inj h
      exact .idle _
    · rename_i m hm
      obtain rfl := Except.ok.inj h
      exact .marked hm
  | guestStore j slot w =>
    simp only [Tables.step] at h
    split at h
    · obtain rfl := Except.ok.inj h
      exact .idle _
    · rename_i t ht
      split_ifs at h with hs
      · obtain rfl := Except.ok.inj h
        obtain ⟨m, hm⟩ := Option.isSome_iff_exists.1 hs
        exact .guestStored ht hm
      · obtain rfl := Except.ok.inj h
        exact .idle _
  | userStore i slot w =>
    simp only [Tables.step] at h
    split at h
    · obtain rfl := Except.ok.inj h
      exact .idle _
    · rename_i c hc
      split at h
      · rename_i page hpage
        split_ifs at h with hs
        · obtain rfl := Except.ok.inj h
          obtain ⟨m, hm⟩ := Option.isSome_iff_exists.1 hs
          exact .userStored hc hpage hm
        · obtain rfl := Except.ok.inj h
          exact .idle _
      · obtain rfl := Except.ok.inj h
        exact .idle _

/-- What every interleaving keeps. -/
structure Tables.OK (s₀ : Phys) (lab : Frame → Option (ℕ × List Slot)) (x : Tables) : Prop where
  labels : Labels x.phys x.vmms lab
  placed : ∀ c ∈ x.calls, ∀ m, x.vmms c.vm = some m → c.pc.Placed lab c.vm c.gpa
  active : ∀ c ∈ x.calls, c.pc.finished = false → ∃ m, x.vmms c.vm = some m
  sound : ∀ c ∈ x.calls, c.pc ≠ .panicked
  cached : ∀ t ∈ x.cached, ∀ m, x.vmms t.vm = some m → lab t.page = some (t.vm, path t.gpa)
  issued : (∀ c ∈ x.calls, c.vm < x.phys.next) ∧ ∀ t ∈ x.cached, t.vm < x.phys.next
  rest : ∀ f ∈ s₀.pages, f ∈ x.phys.pages ∧ x.phys.mem f = s₀.mem f ∧ lab f = none

theorem Tables.OK.init (mem : Frame → Slot → Word) (pages : Finset Frame) :
    Tables.OK ⟨mem, pages, ∅, 0⟩ (fun _ => none) (Tables.init mem pages) := by
  refine ⟨⟨?_, ?_, ?_, ?_, ?_, ?_, ?_, ?_⟩, ?_, ?_, ?_, ?_, ⟨?_, ?_⟩, fun f hf => ⟨hf, rfl, rfl⟩⟩ <;>
    simp [Tables.init]

/-- A change of memory that adds labels. -/
theorem Tables.OK.extend (h : Tables.OK s₀ lab x) (hl : Labels s' x.vmms lab') (he : Extends x.phys lab s' lab') :
    Tables.OK s₀ lab' { x with phys := s' } where
  labels := hl
  placed := fun c hc m hm => (h.placed c hc m hm).mono fun f q => he.keep f _
  active := h.active
  sound := h.sound
  cached := fun t ht m hm => he.keep _ _ (h.cached t ht m hm)
  issued := ⟨fun c hc => (h.issued.1 c hc).trans_le he.next, fun t ht => (h.issued.2 t ht).trans_le he.next⟩
  rest := fun f hf => by
    obtain ⟨hp, hmem, hn⟩ := h.rest f hf
    obtain ⟨hp', hmem', hn'⟩ := he.rest f hp hn
    exact ⟨hp', hmem'.trans hmem, hn'⟩

/-- A call that has not returned takes a step. -/
theorem Tables.OK.call_step (h : Tables.OK s₀ lab x) (hc : c ∈ x.calls) (hrun : c.pc.finished = false) (ans : Option Frame) :
    (∃ lab', Labels (c.pc.step c.gpa ans x.phys).2 x.vmms lab' ∧ Extends x.phys lab (c.pc.step c.gpa ans x.phys).2 lab' ∧
      (c.pc.step c.gpa ans x.phys).1.Placed lab' c.vm c.gpa ∧ (c.pc.step c.gpa ans x.phys).1 ≠ .panicked) ∨
    ((c.pc.step c.gpa ans x.phys).1 = .panicked ∧ key c.gpa = key mmioHawk) := by
  obtain ⟨m, hm⟩ := h.active c hc hrun
  exact h.labels.call_step hm (h.placed c hc m hm) hrun ans

/-- A call that has returned takes no step. -/
theorem Pc.step_finished (hf : pc.finished = true) (ans : Option Frame) : pc.step gpa ans s = (pc, s) := by
  cases pc with
  | load level entry => cases hf
  | alloc level table => cases hf
  | store level table page => cases hf
  | done page => rfl
  | failed => rfl
  | panicked => rfl

/-- The hardware's marks keep the labels. -/
theorem Labels.mark (h : Labels s vmms lab) (hm : vmms o = some m) (gpa : Word) (n : ℕ) (a d : Bool) :
    Labels (Emulator.hwMark s m.ncr3 gpa n a d) vmms lab ∧ Extends s lab (Emulator.hwMark s m.ncr3 gpa n a d) lab := by
  unfold Emulator.hwMark
  split
  · exact ⟨h, Extends.refl⟩
  · rename_i t ht
    simp only
    split_ifs with hb
    · have hwalk := (hwWalk_spec (h.npt hm) .read 4 [] m.ncr3 (pathFrom_four gpa) nodeAt_nil (by simp)).1
      obtain ⟨p, hp, hn⟩ := hwalk t (List.mem_of_getElem? ht)
      have hlab := h.node hm hp.le hn
      have h0 : s.mem t (gpa.extractLsb' (12 + 9 * (3 - n)) 9) ≠ 0 := fun h0 => by
        rw [h0] at hb; simp at hb
      obtain ⟨hl, hc⟩ := h.linked hlab hp h0
      refine ⟨h.fill hlab hp (hl.or_ad a d) (by rw [vmmPhysToVirt_or_ad]; exact hc) ?_
        (fun _ => ⟨h0, vmmPhysToVirt_or_ad _ a d⟩), Extends.store hlab _ _⟩
      rw [getLsbD_or_ad _ a d (by omega) (by omega)]
      exact h.present hlab hp h0
    · exact ⟨h, Extends.refl⟩

/-- **Every step keeps the invariant.** -/
theorem Tables.OK.goes {act : TableAct} (h : Tables.OK s₀ lab x) (hx : x.Goes act x') : ∃ lab', Tables.OK s₀ lab' x' := by
  cases hx with
  | idle => exact ⟨lab, h⟩
  | @failed a r s hc =>
    rcases createVmm_spec a x.phys with ⟨o, vmm, s₁, he, -⟩ | ⟨s₁, he, hf⟩
    · rw [he] at hc
      simp at hc
    · rw [he] at hc
      obtain ⟨-, rfl⟩ := Prod.mk.inj (Except.ok.inj hc)
      exact ⟨lab, h.extend (h.labels.failed hf)
        ⟨fun _ _ hb => hb, fun f hfp hn => ⟨hf.pages hfp, hf.mem f hfp, hn⟩, hf.next⟩⟩
  | @created a o m s hc =>
    have hf := createVmm_fresh hc
    obtain ⟨lab', hl, hold⟩ := h.labels.create hf
    have hnext := hf.slab.2.2
    have hother : ∀ {vm m'}, vm < x.phys.next → Function.update x.vmms o (some m) vm = some m' → x.vmms vm = some m' := by
      intro vm m' hlt hm'
      rwa [Function.update_of_ne (by rw [hf.slab.1]; omega)] at hm'
    have hkeep : ∀ f b, lab f = some b → lab' f = some b := fun f b hb =>
      (hold f (h.labels.live (o := b.1) (p := b.2) hb).1).trans hb
    refine ⟨lab', hl, ?_, ?_, h.sound, ?_, ⟨?_, ?_⟩, ?_⟩
    · intro c hc m' hm'
      exact (h.placed c hc m' (hother (h.issued.1 c hc) hm')).mono fun f q => hkeep f _
    · intro c hc hrun
      obtain ⟨m', hm'⟩ := h.active c hc hrun
      have hlt := h.issued.1 c hc
      exact ⟨m', (Function.update_of_ne (by rw [hf.slab.1]; omega) _ _).trans hm'⟩
    · intro t ht m' hm'
      exact hkeep _ _ (h.cached t ht m' (hother (h.issued.2 t ht) hm'))
    · intro c hc
      have := h.issued.1 c hc
      simp only [hnext]
      omega
    · intro t ht
      have := h.issued.2 t ht
      simp only [hnext]
      omega
    · intro f hfp
      obtain ⟨hp, hmem, hn⟩ := h.rest f hfp
      exact ⟨hf.owns.base hp, (hf.mem f hp).trans hmem, (hold f hp).trans hn⟩
  | @destroyed vm m s hm hcalls hd =>
    obtain ⟨freed, -, -, hfreed, he⟩ := destroyVmm_spec (h.labels.npt hm) (h.labels.slab hm)
    rw [he] at hd
    obtain rfl := Except.ok.inj hd
    have hother : ∀ {vm' m'}, Function.update x.vmms vm none vm' = some m' → vm' ≠ vm ∧ x.vmms vm' = some m' := by
      intro vm' m' hm'
      by_cases hv : vm' = vm
      · rw [hv, Function.update_self] at hm'
        simp at hm'
      · rw [Function.update_of_ne hv] at hm'
        exact ⟨hv, hm'⟩
    refine ⟨drop vm lab, h.labels.destroy hm fun f hf => (hfreed f).1 hf, ?_, ?_, h.sound, ?_, h.issued, ?_⟩
    · intro c hc m' hm'
      obtain ⟨hv, hm'⟩ := hother hm'
      exact (h.placed c hc m' hm').mono fun f q hb => drop_eq_some.2 ⟨hb, hv⟩
    · intro c hc hrun
      have hv : c.vm ≠ vm := fun hv => by
        rw [hcalls c hc hv] at hrun
        simp at hrun
      obtain ⟨m', hm'⟩ := h.active c hc hrun
      exact ⟨m', (Function.update_of_ne hv _ _).trans hm'⟩
    · intro t ht m' hm'
      obtain ⟨hv, hm'⟩ := hother hm'
      exact drop_eq_some.2 ⟨h.cached t ht m' hm', hv⟩
    · intro f hf
      obtain ⟨hp, hmem, hn⟩ := h.rest f hf
      have hnf : f ∉ freed := fun hff => by
        obtain ⟨q, hq, hnode⟩ := (hfreed f).1 hff
        rw [h.labels.node hm hq hnode] at hn
        simp at hn
      exact ⟨by simp [hp, hnf], hmem, by simp [drop, hn]⟩
  | @called vm gpa m hm =>
    refine ⟨lab, h.labels, ?_, ?_, ?_, h.cached, ⟨?_, h.issued.2⟩, h.rest⟩
    · intro c hc m' hm'
      rcases List.mem_append.1 hc with hc | hc
      · exact h.placed c hc m' hm'
      · obtain rfl := List.mem_singleton.1 hc
        exact ⟨[], h.labels.root hm, pathFrom_four gpa, by decide⟩
    · intro c hc hrun
      rcases List.mem_append.1 hc with hc | hc
      · exact h.active c hc hrun
      · obtain rfl := List.mem_singleton.1 hc
        exact ⟨m, hm⟩
    · intro c hc
      rcases List.mem_append.1 hc with hc | hc
      · exact h.sound c hc
      · obtain rfl := List.mem_singleton.1 hc
        simp [Pc.enter, PT, PML4T]
    · intro c hc
      rcases List.mem_append.1 hc with hc | hc
      · exact h.issued.1 c hc
      · obtain rfl := List.mem_singleton.1 hc
        exact h.labels.next _ (h.labels.slab hm)
  | @advanced i ans c hc hnp =>
    have hmem := List.mem_of_getElem? hc
    by_cases hrun : c.pc.finished = true
    · have hsame : x.calls.set i c = x.calls := by
        obtain ⟨hi, rfl⟩ := List.getElem?_eq_some_iff.1 hc
        exact List.set_getElem_self hi
      rw [Pc.step_finished hrun, hsame]
      exact ⟨lab, h⟩
    · rcases h.call_step hmem (by simpa using hrun) ans with ⟨lab', hl, he, hp, hs⟩ | ⟨hp, -⟩
      · have h' := h.extend hl he
        obtain ⟨m, hm⟩ := h.active c hmem (by simpa using hrun)
        refine ⟨lab', h'.labels, ?_, ?_, ?_, h'.cached, ⟨?_, h'.issued.2⟩, h'.rest⟩
        · intro c' hc' m' hm'
          rcases List.mem_or_eq_of_mem_set hc' with hc' | rfl
          · exact h'.placed c' hc' m' hm'
          · exact hp
        · intro c' hc' hrun'
          rcases List.mem_or_eq_of_mem_set hc' with hc' | rfl
          · exact h'.active c' hc' hrun'
          · exact ⟨m, hm⟩
        · intro c' hc'
          rcases List.mem_or_eq_of_mem_set hc' with hc' | rfl
          · exact h.sound c' hc'
          · exact hs
        · intro c' hc'
          rcases List.mem_or_eq_of_mem_set hc' with hc' | rfl
          · exact h'.issued.1 c' hc'
          · exact h'.issued.1 c hmem
      · exact absurd hp hnp
  | @filled vm acc gpa m f hm hf =>
    have hspec := hwTranslate_spec (h.labels.npt hm) acc gpa
    rw [hf] at hspec
    have hnode : nodeAt x.phys (vmmPhysToVirt m.ncr3) (path gpa) = some f := by
      split_ifs at hspec
      cases hn : nodeAt x.phys (vmmPhysToVirt m.ncr3) (path gpa) with
      | none => rw [hn] at hspec; simp at hspec
      | some g => rw [hn] at hspec; simpa using hspec.symm
    refine ⟨lab, h.labels, h.placed, h.active, h.sound, ?_, ⟨h.issued.1, ?_⟩, h.rest⟩
    · intro t ht m' hm'
      rcases List.mem_append.1 ht with ht | ht
      · exact h.cached t ht m' hm'
      · obtain rfl := List.mem_singleton.1 ht
        exact h.labels.node hm (path_length gpa).le hnode
    · intro t ht
      rcases List.mem_append.1 ht with ht | ht
      · exact h.issued.2 t ht
      · obtain rfl := List.mem_singleton.1 ht
        exact h.labels.next _ (h.labels.slab hm)
  | marked hm =>
    obtain ⟨hl, he⟩ := h.labels.mark hm _ _ _ _
    exact ⟨lab, h.extend hl he⟩
  | guestStored ht hm =>
    have hlab := h.cached _ (List.mem_of_getElem? ht) _ hm
    exact ⟨lab, h.extend (h.labels.store_leaf hlab (path_length _) _) (Extends.store hlab _ _)⟩
  | userStored hc hpc hm =>
    have hp := h.placed _ (List.mem_of_getElem? hc) _ hm
    rw [hpc] at hp
    obtain ⟨f, rfl, hlab⟩ := hp
    rw [BitVec.setWidth_setWidth_of_le _ (by omega), BitVec.setWidth_eq]
    exact ⟨lab, h.extend (h.labels.store_leaf hlab (path_length _) _) (Extends.store hlab _ _)⟩

/-- **A step fails** only when a call for the MMIO page reaches the assertion. -/
theorem Tables.OK.step_error {act : TableAct} {err : Crash} (h : Tables.OK s₀ lab x) (he : Tables.step act x = .error err) :
    err = .panic ∧ ∃ c ∈ x.calls, key c.gpa = key mmioHawk := by
  cases act with
  | create a =>
    rcases createVmm_spec a x.phys with ⟨o, vmm, s, hc, -⟩ | ⟨s, hc, -⟩ <;>
      simp [Tables.step, hc, bind, Except.bind] at he
  | destroy vm =>
    simp only [Tables.step] at he
    split at he
    · simp at he
    · rename_i m hm
      obtain ⟨freed, -, -, -, hd⟩ := destroyVmm_spec (h.labels.npt hm) (h.labels.slab hm)
      rw [hd] at he
      split_ifs at he
      simp [bind, Except.bind] at he
  | call vm gpa =>
    simp only [Tables.step] at he
    split at he <;> simp at he
  | advance i ans =>
    simp only [Tables.step] at he
    split at he
    · simp at he
    · rename_i c hc
      have hmem := List.mem_of_getElem? hc
      split_ifs at he with hp
      obtain rfl := Except.error.inj he
      by_cases hrun : c.pc.finished = true
      · rw [Pc.step_finished hrun] at hp
        exact absurd hp (h.sound c hmem)
      · rcases h.call_step hmem (by simpa using hrun) ans with ⟨-, -, -, -, hs⟩ | ⟨-, hk⟩
        · exact absurd hp hs
        · exact ⟨rfl, c, hmem, hk⟩
  | fill vm acc gpa =>
    simp only [Tables.step] at he
    split at he <;> simp at he
  | mark vm gpa n a d =>
    simp only [Tables.step] at he
    split at he <;> simp at he
  | guestStore j slot w =>
    simp only [Tables.step] at he
    split at he
    · simp at he
    · split_ifs at he
  | userStore i slot w =>
    simp only [Tables.step] at he
    split at he
    · simp at he
    · split at he
      · split_ifs at he
      · simp at he

/-- Every call has been asked for. -/
theorem Tables.Goes.asked {act : TableAct} (hx : x.Goes act x') (hc : c ∈ x'.calls) :
    (∃ c₀ ∈ x.calls, c₀.gpa = c.gpa) ∨ act = .call c.vm c.gpa := by
  cases hx with
  | called hm =>
    rcases List.mem_append.1 hc with hc | hc
    · exact Or.inl ⟨c, hc, rfl⟩
    · obtain rfl := List.mem_singleton.1 hc
      exact Or.inr rfl
  | advanced hi hp =>
    rcases List.mem_or_eq_of_mem_set hc with hc | rfl
    · exact Or.inl ⟨c, hc, rfl⟩
    · exact Or.inl ⟨_, List.mem_of_getElem? hi, rfl⟩
  | _ => exact Or.inl ⟨c, hc, rfl⟩

theorem Tables.run_cons {act : TableAct} {acts : List TableAct} :
    x.run (act :: acts) = Tables.step act x >>= fun x => x.run acts := rfl

/-- **Every run keeps the invariant**, and ends early only on the MMIO page. -/
theorem Tables.OK.run (acts : List TableAct) : ∀ (x : Tables) (lab : Frame → Option (ℕ × List Slot)), Tables.OK s₀ lab x →
    (∀ x', x.run acts = .ok x' → ∃ lab', Tables.OK s₀ lab' x') ∧
    ∀ err, x.run acts = .error err → err = .panic ∧
      ((∃ c ∈ x.calls, key c.gpa = key mmioHawk) ∨ ∃ vm gpa, .call vm gpa ∈ acts ∧ key gpa = key mmioHawk) := by
  induction acts with
  | nil =>
    intro x lab h
    refine ⟨fun x' hx' => ?_, fun err he => by simp [Tables.run, pure, Except.pure] at he⟩
    obtain rfl := Except.ok.inj hx'
    exact ⟨lab, h⟩
  | cons act acts ih =>
    intro x lab h
    rw [Tables.run_cons]
    cases hs : Tables.step act x with
    | error e =>
      refine ⟨fun x' hx' => by simp [bind, Except.bind] at hx', ?_⟩
      intro err he
      obtain rfl := Except.error.inj he
      obtain ⟨hp, hc⟩ := h.step_error hs
      exact ⟨hp, Or.inl hc⟩
    | ok x₁ =>
      have hgo := Tables.step_cases hs
      obtain ⟨lab₁, h₁⟩ := h.goes hgo
      obtain ⟨hok, herr⟩ := ih x₁ lab₁ h₁
      refine ⟨hok, ?_⟩
      intro err he
      obtain ⟨hp, ⟨c, hc, hk⟩ | ⟨vm, gpa, hmem, hk⟩⟩ := herr err he
      · refine ⟨hp, ?_⟩
        rcases hgo.asked hc with ⟨c₀, hc₀, hg⟩ | rfl
        · exact Or.inl ⟨c₀, hc₀, by rw [hg, hk]⟩
        · exact Or.inr ⟨c.vm, c.gpa, List.mem_cons_self, hk⟩
      · exact ⟨hp, Or.inr ⟨vm, gpa, List.mem_cons_of_mem _ hmem, hk⟩⟩

/-! ## Isolation -/

/-- What a walk finds. -/
theorem Tables.OK.translate (h : Tables.OK s₀ lab x) (hm : x.vmms o = some m) (acc : Access) (gpa : Word) :
    x.translate o acc gpa =
      if key gpa = key mmioHawk then .fault
      else (nodeAt x.phys (vmmPhysToVirt m.ncr3) (path gpa)).elim .fault .page := by
  simp only [Tables.translate, hm, hwTranslate_spec (h.labels.npt hm) acc gpa, Option.some.injEq, path_eq_iff]
  simp only [eq_comm]

/-- The slot that a call is about to fill. -/
def Pc.slot (gpa : Word) : Pc → Option (Frame × Slot)
  | .alloc level table | .store level table _ => some (table, tableIndex gpa level)
  | _ => none

theorem Pc.next_slot (level : ℕ) (e gpa : Word) : (Pc.next level e).slot gpa = none := by
  unfold Pc.next Pc.enter
  split
  · split <;> rfl
  · rfl

/-- No call on the vm is about to fill a slot of the path. -/
def Tables.Settled (x : Tables) (o : ℕ) (m : Vmm) (q : List Slot) : Prop :=
  ∀ c ∈ x.calls, c.vm = o → ∀ t i p, c.pc.slot c.gpa = some (t, i) → nodeAt x.phys (vmmPhysToVirt m.ncr3) p = some t →
    ¬ p ++ [i] <+: q

/-- **A step changes no path** that no call is about to fill. -/
theorem Tables.Goes.node {act : TableAct} (hx : x.Goes act x') (h : Tables.OK s₀ lab x) (hm : x.vmms o = some m)
    (hq : q.length ≤ 4) (hset : x.Settled o m q) :
    nodeAt x'.phys (vmmPhysToVirt m.ncr3) q = nodeAt x.phys (vmmPhysToVirt m.ncr3) q := by
  have hframe : ∀ {s' : Phys}, (∀ {t p}, lab t = some (o, p) → p.length < 4 → s'.mem t = x.phys.mem t) →
      nodeAt s' (vmmPhysToVirt m.ncr3) q = nodeAt x.phys (vmmPhysToVirt m.ncr3) q := fun hmem =>
    nodeAt_congr (fun p n hp hn => hmem (h.labels.node hm hp.le hn) hp) q hq
  have hleaf : ∀ {f o' p i w}, lab f = some (o', p) → p.length = 4 →
      nodeAt (x.phys.store f i w) (vmmPhysToVirt m.ncr3) q = nodeAt x.phys (vmmPhysToVirt m.ncr3) q := by
    intro f o' p i w hlab hp
    refine hframe fun {t p'} ht hp' => Phys.store_other _ i w ?_
    rintro rfl
    have := (Prod.mk.inj (Option.some.inj (ht.symm.trans hlab))).2
    subst this
    omega
  cases hx with
  | idle => rfl
  | @failed a r s hc =>
    rcases createVmm_spec a x.phys with ⟨o, vmm, s₁, he, -⟩ | ⟨s₁, he, hf⟩
    · rw [he] at hc
      simp at hc
    · rw [he] at hc
      obtain ⟨-, rfl⟩ := Prod.mk.inj (Except.ok.inj hc)
      exact hframe fun ht _ => hf.mem _ (h.labels.live ht).1
  | created hc => exact hframe fun ht _ => (createVmm_fresh hc).mem _ (h.labels.live ht).1
  | @destroyed vm m' s hm' hcalls hd =>
    obtain ⟨freed, -, -, -, he⟩ := destroyVmm_spec (h.labels.npt hm') (h.labels.slab hm')
    rw [he] at hd
    obtain rfl := Except.ok.inj hd
    rfl
  | called => rfl
  | @advanced i ans c hc hnp =>
    have hmem := List.mem_of_getElem? hc
    by_cases hrun : c.pc.finished = true
    · rw [Pc.step_finished hrun]
    · obtain ⟨mc, hmc⟩ := h.active c hmem (by simpa using hrun)
      have hp := h.placed c hmem mc hmc
      have hslots := hset c hmem
      cases hpc : c.pc with
      | load level entry =>
        simp only [Pc.step]
        split <;> rfl
      | alloc level table =>
        simp only [Pc.step]
        cases ha : x.phys.allocPage ans with
        | none => rfl
        | some r =>
          obtain ⟨f, s₁⟩ := r
          obtain ⟨-, hf, rfl⟩ := Phys.allocPage_some ha
          exact hframe fun {t p} ht _ => grab_mem_ne x.phys fun htf => hf (htf ▸ (h.labels.live ht).1)
      | store level table page =>
        rw [hpc] at hp
        obtain ⟨p, hs, -, -⟩ := hp
        refine h.labels.nodeAt_store hs.table (newEntry_linked page).ne_zero hm hq fun hn hpre => ?_
        have hvm := (Prod.mk.inj (Option.some.inj (hs.table.symm.trans
          (h.labels.node hm (by have := hs.length; omega) hn)))).1
        exact absurd hpre (hslots hvm _ _ p (by rw [hpc]; rfl) hn)
      | done page => rw [hpc] at hrun; exact absurd rfl hrun
      | failed => rw [hpc] at hrun; exact absurd rfl hrun
      | panicked => rw [hpc] at hrun; exact absurd rfl hrun
  | filled => rfl
  | @marked vm gpa n a d m' hm' =>
    simp only [Emulator.hwMark]
    split
    · rfl
    · split_ifs with hb
      · refine congrFun (congrArg (fun k => reach k (vmmPhysToVirt m.ncr3)) (kids_store_same ?_ ?_ (vmmPhysToVirt_or_ad _ a d))) q
        · intro h0; rw [h0] at hb; simp at hb
        · intro h0; rw [(BitVec.or_eq_zero_iff.1 h0).1] at hb; simp at hb
      · rfl
  | guestStored ht hm' => exact hleaf (h.cached _ (List.mem_of_getElem? ht) _ hm') (path_length _)
  | userStored hc hpc hm' =>
    have hp := h.placed _ (List.mem_of_getElem? hc) _ hm'
    rw [hpc] at hp
    obtain ⟨f, rfl, hlab⟩ := hp
    rw [BitVec.setWidth_setWidth_of_le _ (by omega), BitVec.setWidth_eq]
    exact hleaf hlab (path_length _)

/-- A step settles no slot of a path that is filled. -/
theorem Tables.Goes.settled {act : TableAct} (hx : x.Goes act x') (h : Tables.OK s₀ lab x) (hm : x.vmms o = some m)
    (hq : q.length ≤ 4) (hset : x.Settled o m q) (hf : nodeAt x.phys (vmmPhysToVirt m.ncr3) q = some f) :
    x'.Settled o m q := by
  -- what was there before, is there
  have hback : ∀ {p t i}, nodeAt x'.phys (vmmPhysToVirt m.ncr3) p = some t → p ++ [i] <+: q →
      nodeAt x.phys (vmmPhysToVirt m.ncr3) p = some t := by
    intro p t i hn hpre
    have hpq : p <+: q := (List.prefix_append p [i]).trans hpre
    have hset' : x.Settled o m p := fun c hc hvm t i a hs hn hap => hset c hc hvm t i a hs hn (hap.trans hpq)
    rwa [hx.node h hm (hpq.length_le.trans hq) hset'] at hn
  have hsame : ∀ c ∈ x.calls, c.vm = o → ∀ t i p, c.pc.slot c.gpa = some (t, i) →
      nodeAt x'.phys (vmmPhysToVirt m.ncr3) p = some t → ¬ p ++ [i] <+: q :=
    fun c hc hvm t i p hs hn hpre => hset c hc hvm t i p hs (hback hn hpre) hpre
  cases hx with
  | called hm' =>
    intro c hc hvm t i p hs hn
    rcases List.mem_append.1 hc with hc | hc
    · exact hsame c hc hvm t i p hs hn
    · obtain rfl := List.mem_singleton.1 hc
      simp [Pc.enter, PT, PML4T, Pc.slot] at hs
  | @advanced j ans c hc hnp =>
    have hmem := List.mem_of_getElem? hc
    intro c' hc' hvm t i p hs hn hpre
    rcases List.mem_or_eq_of_mem_set hc' with hc' | rfl
    · exact hsame c' hc' hvm t i p hs hn hpre
    · simp only at hvm hs
      cases hpc : c.pc with
      | load level entry =>
        rw [hpc] at hs
        simp only [Pc.step] at hs
        by_cases h0 : x.phys.mem (vmmPhysToVirt entry) (tableIndex c.gpa level) = 0
        · rw [if_pos h0] at hs
          obtain ⟨rfl, rfl⟩ := Prod.mk.inj (Option.some.inj hs)
          obtain ⟨y, hy⟩ := nodeAt_prefix hpre hf
          rw [nodeAt_concat (hback hn hpre), h0, child_zero] at hy
          simp at hy
        · rw [if_neg h0, Pc.next_slot] at hs
          simp at hs
      | alloc level table =>
        have hslot : c.pc.slot c.gpa = some (t, i) := by
          rw [hpc] at hs ⊢
          simp only [Pc.step] at hs
          cases ha : x.phys.allocPage ans with
          | none => rw [ha] at hs; simp [Pc.slot] at hs
          | some r => rw [ha] at hs; exact hs
        exact hsame c hmem hvm t i p hslot hn hpre
      | store level table page =>
        rw [hpc] at hs
        simp only [Pc.step, Pc.next_slot] at hs
        simp at hs
      | done page => rw [hpc] at hs; simp [Pc.step, Pc.slot] at hs
      | failed => rw [hpc] at hs; simp [Pc.step, Pc.slot] at hs
      | panicked => rw [hpc] at hs; simp [Pc.step, Pc.slot] at hs
  | _ => exact hsame

theorem Pc.step_next (gpa : Word) (ans : Option Frame) (s : Phys) : (pc.step gpa ans s).2.next = s.next := by
  cases pc with
  | load level entry =>
    simp only [Pc.step]
    split <;> rfl
  | alloc level table =>
    simp only [Pc.step]
    cases ha : s.allocPage ans with
    | none => rfl
    | some r =>
      obtain ⟨f, s₁⟩ := r
      obtain ⟨-, -, rfl⟩ := Phys.allocPage_some ha
      rfl
  | _ => rfl

/-- A vm stays or goes, and one that has gone does not come back. -/
theorem Tables.Goes.gone {act : TableAct} (hx : x.Goes act x') (h : Tables.OK s₀ lab x) (ho : o < x.phys.next) :
    (x'.vmms o = x.vmms o ∨ x'.vmms o = none) ∧ o < x'.phys.next := by
  cases hx with
  | @failed a r s hc =>
    rcases createVmm_spec a x.phys with ⟨o, vmm, s₁, he, -⟩ | ⟨s₁, he, hf⟩
    · rw [he] at hc
      simp at hc
    · rw [he] at hc
      obtain ⟨-, rfl⟩ := Prod.mk.inj (Except.ok.inj hc)
      exact ⟨Or.inl rfl, ho.trans_le hf.next⟩
  | @created a o' m' s hc =>
    obtain ⟨rfl, -, hnext⟩ := (createVmm_fresh hc).slab
    refine ⟨Or.inl (Function.update_of_ne ho.ne _ _), ?_⟩
    simp only [hnext]
    omega
  | @destroyed vm m' s hm' hcalls hd =>
    obtain ⟨freed, -, -, -, he⟩ := destroyVmm_spec (h.labels.npt hm') (h.labels.slab hm')
    rw [he] at hd
    obtain rfl := Except.ok.inj hd
    refine ⟨?_, ho⟩
    by_cases hov : o = vm
    · exact Or.inr (by rw [hov]; exact Function.update_self ..)
    · exact Or.inl (Function.update_of_ne hov _ _)
  | advanced hc hnp => exact ⟨Or.inl rfl, ho.trans_le (Pc.step_next _ _ _).ge⟩
  | @marked vm gpa n a d m' hm' =>
    refine ⟨Or.inl rfl, ?_⟩
    simp only [Emulator.hwMark]
    split
    · exact ho
    · split_ifs <;> exact ho
  | _ => exact ⟨Or.inl rfl, ho⟩

/-- What a run does to a filled path that no call is about to fill. -/
theorem Tables.OK.run_node (acts : List TableAct) : ∀ (x : Tables) (lab : Frame → Option (ℕ × List Slot)), Tables.OK s₀ lab x →
    o < x.phys.next → (∀ m', x.vmms o = some m' → m' = m ∧ x.Settled o m q ∧ nodeAt x.phys (vmmPhysToVirt m.ncr3) q = some f) →
    q.length ≤ 4 → x.run acts = .ok x' → ∀ m', x'.vmms o = some m' → m' = m ∧ nodeAt x'.phys (vmmPhysToVirt m.ncr3) q = some f := by
  induction acts with
  | nil =>
    intro x lab h ho hinv hq hx' m' hm'
    obtain rfl := Except.ok.inj hx'
    exact ⟨(hinv m' hm').1, (hinv m' hm').2.2⟩
  | cons act acts ih =>
    intro x lab h ho hinv hq hx'
    rw [Tables.run_cons] at hx'
    obtain ⟨x₁, hs, hx'⟩ := bind_eq_ok.1 hx'
    have hgo := Tables.step_cases hs
    obtain ⟨lab₁, h₁⟩ := h.goes hgo
    obtain ⟨hvm, ho₁⟩ := hgo.gone h ho
    refine ih x₁ lab₁ h₁ ho₁ ?_ hq hx'
    intro m₁ hm₁
    rcases hvm with hvm | hvm
    · obtain ⟨rfl, hset, hn⟩ := hinv m₁ (hvm ▸ hm₁)
      have hm := hvm ▸ hm₁
      exact ⟨rfl, hgo.settled h hm hq hset hn, by rw [hgo.node h hm hq hset]; exact hn⟩
    · rw [hvm] at hm₁
      simp at hm₁

/-- **An established translation never changes.** Once a guest page of a vm has a page, and no call on the vm stands
between its load of an empty slot and its store, the guest page keeps this page as long as the vm is there, whatever calls
are made and however they are interleaved. -/
theorem tables_established {mem : Frame → Slot → Word} {pages : Finset Frame} {acts acts' : List TableAct} {acc : Access}
    (hx : (Tables.init mem pages).run acts = .ok x) (hf : x.translate o acc gpa = .page f)
    (hfill : ∀ c ∈ x.calls, c.vm = o → c.pc.filling = false) (hx' : x.run acts' = .ok x') :
    x'.vmms o = none ∨ ∀ acc', x'.translate o acc' gpa = .page f := by
  obtain ⟨lab, h⟩ := (Tables.OK.run acts _ _ (Tables.OK.init mem pages)).1 x hx
  cases hm : x.vmms o with
  | none => simp [Tables.translate, hm] at hf
  | some m =>
    rw [h.translate hm] at hf
    split_ifs at hf with hk
    have hn : nodeAt x.phys (vmmPhysToVirt m.ncr3) (path gpa) = some f := by
      cases hn : nodeAt x.phys (vmmPhysToVirt m.ncr3) (path gpa) with
      | none => rw [hn] at hf; simp at hf
      | some g => rw [hn] at hf; simpa using hf
    have hset : x.Settled o m (path gpa) := by
      intro c hc hvm t i p hs
      have := hfill c hc hvm
      cases hpc : c.pc with
      | alloc level table => rw [hpc] at this; cases this
      | store level table page => rw [hpc] at this; cases this
      | _ => rw [hpc] at hs; simp [Pc.slot] at hs
    have hrun := Tables.OK.run_node acts' x lab h (h.labels.next _ (h.labels.slab hm))
      (fun m' hm' => by
        obtain rfl := Option.some.inj (hm'.symm.trans hm)
        exact ⟨rfl, hset, hn⟩) (path_length gpa).le hx'
    obtain ⟨lab', h'⟩ := (Tables.OK.run acts' x lab h).1 x' hx'
    cases hm' : x'.vmms o with
    | none => exact Or.inl rfl
    | some m' =>
      obtain ⟨rfl, hn'⟩ := hrun m' hm'
      refine Or.inr fun acc' => ?_
      rw [h'.translate hm', if_neg hk, hn']
      rfl

/-- A vm is made, and a call on it returns the page 6 for the address `0x1000`. -/
def settleActs : List TableAct :=
  [.create countingAsk, .call 0 0x1000, .advance 0 none, .advance 0 none, .advance 0 none, .advance 0 none,
    .advance 0 (some 6), .advance 0 none]

/-- Two more calls, one for the same page, and a guest that writes to it. -/
def laterActs : List TableAct :=
  [.call 0 0x1000, .call 0 0x201000, .fill 0 .write 0x1000, .advance 1 none, .advance 2 none, .advance 1 none, .advance 2 none,
    .guestStore 0 3 7, .advance 2 none, .advance 2 (some 9), .advance 1 none, .advance 1 none]

theorem tables_established_page : ∃ x x', (Tables.init (fun _ _ => 0) ∅).run settleActs = .ok x ∧
    x.run laterActs = .ok x' ∧ ∀ acc, x'.translate 0 acc 0x1000 = .page 6 := by
  have hrun : ∃ x x', (Tables.init (fun _ _ => 0) ∅).run settleActs = .ok x ∧ x.translate 0 .read 0x1000 = .page 6 ∧
      x.run laterActs = .ok x' ∧ x'.vmms 0 = some ⟨pageToPhys 1⟩ ∧ (x.calls.all fun c => !c.pc.filling) = true :=
    ⟨_, _, rfl, rfl, rfl, rfl, rfl⟩
  obtain ⟨x, x', hx, hf, hx', hm, hfill⟩ := hrun
  have hidle : ∀ c ∈ x.calls, c.vm = 0 → c.pc.filling = false := fun c hc _ => by
    simpa using List.all_eq_true.1 hfill c hc
  exact ⟨x, x', hx, hx', (tables_established hx hf hidle hx').resolve_left (by simp [hm])⟩

/-! ## Every call returns -/

/-- The steps that a call still has to take, at most. -/
def Pc.left : Pc → ℕ
  | .load level _ => 3 * level
  | .alloc level _ => 3 * level - 1
  | .store level _ _ => 3 * level - 2
  | _ => 0

end Yakvm
