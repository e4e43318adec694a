import Yakvm.Radix.Reach
import Yakvm.Proof.Entry
import Yakvm.Spec.Npt

/-!
# The nested page table is a tree

`NptOK s root np` is the invariant of a nested page table: the pages found from `root`
within four steps form a tree of allocated pages, every nonzero entry of its tables is
linked, and every nonzero entry has the present bit except the one at the path `np`.

Everything the driver does to a table is a sequence of `LinkStep`s, each of which fills
one empty slot with a page that was free, or an update of Accessed and Dirty bits
(`hwSetAd`). So each claim about whole runs is an induction over these two.

* `Attach.nodeAt`, `LinkStep.nodeAt`: linking a page adds one node to the tree.
* `Grow`: the links that one call makes, all on the path of its address.
* `hwWalk_spec`: what the hardware finds is what the tree says.
-/

namespace Yakvm

open Radix

/-- Memory as a heap of tables. -/
def kids (mem : Frame → Slot → Word) : Frame → Slot → Option Frame := fun f i => child (mem f i)

/-- The page at the end of a path of slots. Tables are at depth less than four, leaf
pages at depth four. -/
def nodeAt (s : Phys) (root : Frame) (q : List Slot) : Option Frame := reach (kids s.mem) root q

/-- The nested page table rooted at `root` is well formed; `np` is the path of the entry
without the present bit. -/
structure NptOK (s : Phys) (root : Frame) (np : Option (List Slot)) : Prop where
  tree : IsTree (kids s.mem) root 4
  live : ∀ p n, p.length ≤ 4 → nodeAt s root p = some n → n ∈ s.pages
  linked : ∀ p n i, p.length < 4 → nodeAt s root p = some n → s.mem n i ≠ 0 → Linked (s.mem n i)
  present : ∀ p n i, p.length < 4 → nodeAt s root p = some n → s.mem n i ≠ 0 →
    ((s.mem n i).getLsbD 0 = false ↔ np = some (p ++ [i]))
  hidden : ∀ q, np = some q → q.length = 4 ∧ ∃ f, nodeAt s root q = some f

variable {s s' : Phys} {root n f : Frame} {np : Option (List Slot)} {p q w : List Slot} {i : Slot}

theorem nodeAt_nil : nodeAt s root [] = some root := rfl

theorem nodeAt_concat (h : nodeAt s root p = some n) : nodeAt s root (p ++ [i]) = child (s.mem n i) :=
  reach_concat_of h

theorem nodeAt_concat_inv (h : nodeAt s root (p ++ [i]) = some f) :
    ∃ n, nodeAt s root p = some n ∧ s.mem n i ≠ 0 ∧ vmmPhysToVirt (s.mem n i) = f := by
  obtain ⟨n, hn, hk⟩ := reach_concat_inv h
  obtain ⟨h0, hf⟩ := child_eq_some.1 hk
  exact ⟨n, hn, h0, hf⟩

theorem nodeAt_prefix (hp : p <+: q) (h : nodeAt s root q = some f) : ∃ c, nodeAt s root p = some c :=
  reach_prefix hp h

/-- Paths depend only on the tables above them. -/
theorem nodeAt_congr (h : ∀ p n, p.length < 4 → nodeAt s root p = some n → s'.mem n = s.mem n) :
    ∀ q, q.length ≤ 4 → nodeAt s' root q = nodeAt s root q := by
  apply reach_congr
  intro p n hp hn
  funext i
  simp only [kids]
  rw [h p n hp hn]

/-- **Frame rule.** A change of memory away from the tables, with no page of the tree
freed, keeps the table well formed. -/
theorem NptOK.frame (hs : NptOK s root np)
    (hmem : ∀ p n, p.length < 4 → nodeAt s root p = some n → s'.mem n = s.mem n)
    (hpages : ∀ p n, p.length ≤ 4 → nodeAt s root p = some n → n ∈ s'.pages) :
    NptOK s' root np ∧ ∀ q, q.length ≤ 4 → nodeAt s' root q = nodeAt s root q := by
  have heq := nodeAt_congr hmem
  refine ⟨⟨hs.tree.congr heq, ?_, ?_, ?_, ?_⟩, heq⟩
  · intro p n hp hn
    rw [heq p hp] at hn
    exact hpages p n hp hn
  · intro p n i hp hn h0
    rw [heq p hp.le] at hn
    rw [hmem p n hp hn] at h0 ⊢
    exact hs.linked p n i hp hn h0
  · intro p n i hp hn h0
    rw [heq p hp.le] at hn
    rw [hmem p n hp hn] at h0 ⊢
    exact hs.present p n i hp hn h0
  · intro q hq
    obtain ⟨h4, f, hf⟩ := hs.hidden q hq
    exact ⟨h4, f, by rw [heq q h4.le]; exact hf⟩

/-! ## Linking a new page -/

/-- The state after `alloc_page` has returned the page `f`. -/
def Phys.grab (s : Phys) (f : Frame) : Phys :=
  { s with mem := Function.update s.mem f 0, pages := insert f s.pages }

theorem grab_mem_ne (s : Phys) {f g : Frame} (h : g ≠ f) : (s.grab f).mem g = s.mem g := by
  simp [Phys.grab, Function.update_of_ne h]

theorem grab_mem_same (s : Phys) (f : Frame) (i : Slot) : (s.grab f).mem f i = 0 := by
  simp [Phys.grab]

/-- A page that was free is not in any table. -/
theorem NptOK.not_node (hs : NptOK s root np) (hf : f ∉ s.pages) (hq : q.length ≤ 4) :
    nodeAt s root q ≠ some f := fun h => hf (hs.live q f hq h)

/-- Allocating a page changes no table. -/
theorem NptOK.grab (hs : NptOK s root np) (hf : f ∉ s.pages) :
    NptOK (s.grab f) root np ∧ ∀ q, q.length ≤ 4 → nodeAt (s.grab f) root q = nodeAt s root q := by
  apply hs.frame
  · intro p n hp hn
    exact grab_mem_ne s (fun h => hs.not_node hf hp.le (h ▸ hn))
  · intro p n hp hn
    exact Finset.mem_insert_of_mem (hs.live p n hp hn)

/-- The page `f`, allocated and zeroed but in no table, is linked at the path `q`, whose
slot was empty. -/
structure Attach (root : Frame) (s : Phys) (q : List Slot) (f : Frame) (s' : Phys) : Prop where
  place : ∃ p n i, q = p ++ [i] ∧ p.length < 4 ∧ nodeAt s root p = some n ∧ s.mem n i = 0 ∧
    s' = s.store n i (newEntry f)
  live : f ∈ s.pages
  away : ∀ q', q'.length ≤ 4 → nodeAt s root q' ≠ some f
  zero : s.mem f = 0

theorem Attach.length (h : Attach root s q f s') : q.length ≤ 4 := by
  obtain ⟨⟨p, n, i, rfl, hp, -⟩, -⟩ := h
  simp only [List.length_append, List.length_cons, List.length_nil]
  omega

/-- The slot that a page is attached to was empty. -/
theorem Attach.empty (h : Attach root s q f s') : nodeAt s root q = none := by
  obtain ⟨⟨p, n, i, rfl, -, hn, h0, -⟩, -⟩ := h
  rw [nodeAt_concat hn, h0, child_zero]

theorem kids_store (s : Phys) (n : Frame) (i : Slot) (e : Word) (h : e ≠ 0) :
    kids (s.store n i e).mem = link (kids s.mem) n i (vmmPhysToVirt e) := by
  funext x j
  by_cases hx : x = n ∧ j = i
  · obtain ⟨rfl, rfl⟩ := hx
    rw [link_same]
    simp only [kids, Phys.store_same]
    exact child_eq_some.2 ⟨h, rfl⟩
  · have hx : x ≠ n ∨ j ≠ i := by tauto
    rw [link_ne hx]
    simp only [kids]
    rw [Phys.store_ne s e hx]

theorem kids_of_zero (h : s.mem f = 0) (j : Slot) : kids s.mem f j = none := by
  simp only [kids, h]
  exact child_zero

/-- **Attaching a page adds one node to the tree** and changes no other path. -/
theorem Attach.nodeAt (hs : NptOK s root np) (h : Attach root s q f s') :
    ∀ q', q'.length ≤ 4 → nodeAt s' root q' = if q' = q then some f else nodeAt s root q' := by
  obtain ⟨⟨p, n, i, rfl, hp, hn, h0, rfl⟩, -, haway, hzero⟩ := h
  intro q' hq'
  show reach _ _ _ = _
  rw [kids_store _ _ _ _ (newEntry_linked f).ne_zero, vmmPhysToVirt_newEntry]
  exact reach_link hs.tree hp hn (by simp only [kids, h0, child_zero]) haway (kids_of_zero hzero) q' hq'

/-- **Attaching a page keeps the table well formed.** -/
theorem Attach.ok (hs : NptOK s root np) (h : Attach root s q f s') : NptOK s' root np := by
  have hnode := h.nodeAt hs
  have hempty := h.empty
  obtain ⟨⟨p, n, i, rfl, hp, hn, h0, rfl⟩, hlive, haway, hzero⟩ := h
  have hnf : n ≠ f := fun h => haway p hp.le (h ▸ hn)
  have hnp : np ≠ some (p ++ [i]) := by
    intro h
    obtain ⟨-, x, hx⟩ := hs.hidden _ h
    rw [hempty] at hx
    simp at hx
  -- the nonzero entries are the old ones and the new one
  have hentry : ∀ a x j, a.length < 4 → Yakvm.nodeAt (s.store n i (newEntry f)) root a = some x →
      (s.store n i (newEntry f)).mem x j ≠ 0 →
      (x = n ∧ j = i ∧ a = p) ∨ (Yakvm.nodeAt s root a = some x ∧
        (s.store n i (newEntry f)).mem x j = s.mem x j) := by
    intro a x j ha hx hne
    rw [hnode a ha.le] at hx
    split at hx
    · obtain rfl : f = x := by simpa using hx
      rw [Phys.store_ne _ _ (Or.inl (Ne.symm hnf)), hzero] at hne
      exact absurd rfl hne
    · by_cases hxj : x = n ∧ j = i
      · obtain ⟨rfl, rfl⟩ := hxj
        exact Or.inl ⟨rfl, rfl, hs.tree a p x ha.le hp.le hx hn⟩
      · exact Or.inr ⟨hx, Phys.store_ne _ _ (by tauto)⟩
  refine ⟨?_, ?_, ?_, ?_, ?_⟩
  · rw [kids_store _ _ _ _ (newEntry_linked f).ne_zero, vmmPhysToVirt_newEntry]
    exact hs.tree.link hp hn (by simp only [kids, h0, child_zero]) haway (kids_of_zero hzero)
  · intro a x ha hx
    rw [hnode a ha] at hx
    split at hx
    · obtain rfl : f = x := by simpa using hx
      exact hlive
    · exact hs.live a x ha hx
  · intro a x j ha hx hne
    rcases hentry a x j ha hx hne with ⟨rfl, rfl, -⟩ | ⟨hx', he⟩
    · rw [Phys.store_same]; exact newEntry_linked f
    · rw [he] at hne ⊢; exact hs.linked a x j ha hx' hne
  · intro a x j ha hx hne
    rcases hentry a x j ha hx hne with ⟨rfl, rfl, rfl⟩ | ⟨hx', he⟩
    · rw [Phys.store_same]
      simp [newEntry_present, hnp]
    · rw [he] at hne ⊢; exact hs.present a x j ha hx' hne
  · intro a ha
    obtain ⟨h4, x, hx⟩ := hs.hidden a ha
    refine ⟨h4, x, ?_⟩
    rw [hnode a h4.le, if_neg (fun h => by rw [h, hempty] at hx; simp at hx)]
    exact hx

/-- The driver allocates the page `f` and links it at the path `q`, whose slot was empty. -/
structure LinkStep (root : Frame) (s : Phys) (q : List Slot) (f : Frame) (s' : Phys) : Prop where
  place : ∃ p n i, q = p ++ [i] ∧ p.length < 4 ∧ nodeAt s root p = some n ∧ s.mem n i = 0 ∧
    s' = (s.grab f).store n i (newEntry f)
  free : f ∉ s.pages

/-- A link is an allocation followed by an attachment. -/
theorem LinkStep.attach (hs : NptOK s root np) (h : LinkStep root s q f s') : Attach root (s.grab f) q f s' := by
  obtain ⟨⟨p, n, i, rfl, hp, hn, h0, rfl⟩, hf⟩ := h
  obtain ⟨-, heq⟩ := hs.grab hf
  have hnf : n ≠ f := fun h => hs.not_node hf hp.le (h ▸ hn)
  refine ⟨⟨p, n, i, rfl, hp, (heq p hp.le).trans hn, by rw [grab_mem_ne s hnf, h0], rfl⟩,
    Finset.mem_insert_self _ _, ?_, by funext j; exact grab_mem_same s f j⟩
  intro q' hq'
  rw [heq q' hq']
  exact hs.not_node hf hq'

theorem LinkStep.length (h : LinkStep root s q f s') : q.length ≤ 4 := by
  obtain ⟨⟨p, n, i, rfl, hp, -⟩, -⟩ := h
  simp only [List.length_append, List.length_cons, List.length_nil]
  omega

theorem LinkStep.pages (h : LinkStep root s q f s') : s'.pages = insert f s.pages := by
  obtain ⟨⟨p, n, i, -, -, -, -, rfl⟩, -⟩ := h
  rfl

theorem LinkStep.slab (h : LinkStep root s q f s') : s'.slab = s.slab ∧ s'.next = s.next := by
  obtain ⟨⟨p, n, i, -, -, -, -, rfl⟩, -⟩ := h
  exact ⟨rfl, rfl⟩

/-- The slot that a link fills was empty. -/
theorem LinkStep.empty (h : LinkStep root s q f s') : nodeAt s root q = none := by
  obtain ⟨⟨p, n, i, rfl, -, hn, h0, -⟩, -⟩ := h
  rw [nodeAt_concat hn, h0, child_zero]

/-- Only the new page and a table of the tree are written. -/
theorem LinkStep.mem_other (h : LinkStep root s q f s') {g : Frame} (hg : g ∈ s.pages)
    (hnode : ∀ p, p.length < 4 → nodeAt s root p ≠ some g) : s'.mem g = s.mem g := by
  obtain ⟨⟨p, n, i, -, hp, hn, -, rfl⟩, hf⟩ := h
  have h1 : g ≠ n := fun h => hnode p hp (h ▸ hn)
  have h2 : g ≠ f := fun h => hf (h ▸ hg)
  rw [Phys.store_other _ _ _ h1, grab_mem_ne s h2]

/-- **A link adds one node to the tree** and changes no other path. -/
theorem LinkStep.nodeAt (hs : NptOK s root np) (h : LinkStep root s q f s') :
    ∀ q', q'.length ≤ 4 → nodeAt s' root q' = if q' = q then some f else nodeAt s root q' := by
  obtain ⟨hg, heq⟩ := hs.grab h.free
  intro q' hq'
  rw [(h.attach hs).nodeAt hg q' hq', heq q' hq']

/-- **A link keeps the table well formed.** -/
theorem LinkStep.ok (hs : NptOK s root np) (h : LinkStep root s q f s') : NptOK s' root np :=
  (h.attach hs).ok (hs.grab h.free).1

/-! ## The links of one call -/

/-- The links made by a walk along the path `w`. -/
inductive Grow (root : Frame) (w : List Slot) (s : Phys) : Phys → Prop
  | refl : Grow root w s s
  | step {s₁ s₂ : Phys} {q : List Slot} {f : Frame} :
      Grow root w s s₁ → q <+: w → LinkStep root s₁ q f s₂ → Grow root w s s₂

theorem Grow.head {s₁ s₂ : Phys} (hl : LinkStep root s q f s₁) (hq : q <+: w) (h : Grow root w s₁ s₂) :
    Grow root w s s₂ := by
  induction h with
  | refl => exact .step .refl hq hl
  | step _ hq' hl' ih => exact .step ih hq' hl'

theorem Grow.ok (hs : NptOK s root np) (h : Grow root w s s') : NptOK s' root np := by
  induction h with
  | refl => exact hs
  | step _ _ hl ih => exact hl.ok ih

/-- Populated paths keep their pages. -/
theorem Grow.mono (hs : NptOK s root np) (h : Grow root w s s') (hq : q.length ≤ 4)
    (hn : nodeAt s root q = some n) : nodeAt s' root q = some n := by
  induction h with
  | refl => exact hn
  | step h₁ _ hl ih =>
    rw [hl.nodeAt (h₁.ok hs) q hq, if_neg (fun h => by have := hl.empty; rw [← h, ih] at this; simp at this)]
    exact ih

/-- Paths off the walk are as they were. -/
theorem Grow.other (hs : NptOK s root np) (h : Grow root w s s') (hq : q.length ≤ 4) (hw : ¬ q <+: w) :
    nodeAt s' root q = nodeAt s root q := by
  induction h with
  | refl => rfl
  | step h₁ hpre hl ih =>
    rw [hl.nodeAt (h₁.ok hs) q hq, if_neg (by rintro rfl; exact hw hpre), ih]

theorem Grow.pages_mono (h : Grow root w s s') : s.pages ⊆ s'.pages := by
  induction h with
  | refl => exact Finset.Subset.refl _
  | step _ _ hl ih => rw [hl.pages]; exact ih.trans (Finset.subset_insert _ _)

theorem Grow.slab (h : Grow root w s s') : s'.slab = s.slab ∧ s'.next = s.next := by
  induction h with
  | refl => exact ⟨rfl, rfl⟩
  | step _ _ hl ih => exact ⟨hl.slab.1.trans ih.1, hl.slab.2.trans ih.2⟩

/-- A path populated by the walk leads to a page that was free before it. -/
theorem Grow.fresh (hs : NptOK s root np) (h : Grow root w s s') (hq : q.length ≤ 4)
    (h0 : nodeAt s root q = none) (hn : nodeAt s' root q = some n) : n ∉ s.pages := by
  induction h with
  | refl => rw [h0] at hn; simp at hn
  | step h₁ _ hl ih =>
    rw [hl.nodeAt (h₁.ok hs) q hq] at hn
    split at hn
    · obtain rfl := Option.some.inj hn
      exact fun h => hl.free (h₁.pages_mono h)
    · exact ih hn

/-- Every page the walk allocates is linked into the tree. -/
theorem Grow.cover (hs : NptOK s root np) (h : Grow root w s s') (hn : n ∈ s'.pages) (h0 : n ∉ s.pages) :
    ∃ q, q.length ≤ 4 ∧ q <+: w ∧ nodeAt s' root q = some n := by
  induction h with
  | refl => exact absurd hn h0
  | step h₁ hpre hl ih =>
    rw [hl.pages, Finset.mem_insert] at hn
    rcases hn with rfl | hn
    · exact ⟨_, hl.length, hpre, by rw [hl.nodeAt (h₁.ok hs) _ hl.length, if_pos rfl]⟩
    · obtain ⟨q, hq, hqw, hqn⟩ := ih hn
      exact ⟨q, hq, hqw, (Grow.step Grow.refl hpre hl).mono (h₁.ok hs) hq hqn⟩

/-- Allocated pages that are not tables of this tree keep their contents. -/
theorem Grow.mem_other (hs : NptOK s root np) (h : Grow root w s s') {g : Frame} (hg : g ∈ s.pages)
    (hnode : ∀ p, p.length < 4 → nodeAt s root p ≠ some g) : s'.mem g = s.mem g := by
  induction h with
  | refl => rfl
  | step h₁ _ hl ih =>
    rw [hl.mem_other (h₁.pages_mono hg) ?_, ih]
    intro p hp hn
    cases h0 : nodeAt s root p with
    | none => exact h₁.fresh hs hp.le h0 hn hg
    | some x =>
      have := h₁.mono hs hp.le h0
      rw [hn] at this
      obtain rfl := Option.some.inj this
      exact hnode p hp h0

/-- A new leaf page is all zeros. -/
theorem Grow.leaf_zero (hs : NptOK s root np) (h : Grow root w s s') (hq : q.length = 4)
    (h0 : nodeAt s root q = none) (hn : nodeAt s' root q = some n) : s'.mem n = 0 := by
  induction h with
  | refl => rw [h0] at hn; simp at hn
  | @step s₁ s₂ q' g h₁ hpre hl ih =>
    have hs₁ := h₁.ok hs
    rw [hl.nodeAt hs₁ q hq.le] at hn
    split at hn
    · obtain rfl := Option.some.inj hn
      obtain ⟨⟨p, t, i, -, hp, ht, -, rfl⟩, hf⟩ := hl
      have hft : g ≠ t := fun h => hs₁.not_node hf hp.le (h ▸ ht)
      rw [Phys.store_other _ _ _ hft]
      funext j
      exact grab_mem_same _ _ j
    · rw [hl.mem_other (hs₁.live q n hq.le hn) ?_]
      · exact ih hn
      · intro p hp hpn
        have := hs₁.tree p q n hp.le hq.le hpn hn
        rw [this] at hp
        omega

/-- A walk along a populated path links nothing. -/
theorem Grow.eq_of_full (h : Grow root w s s')
    (hn : nodeAt s root w = some n) : s' = s := by
  induction h with
  | refl => rfl
  | step h₁ hpre hl ih =>
    subst ih
    obtain ⟨c, hc⟩ := nodeAt_prefix hpre hn
    rw [hl.empty] at hc
    simp at hc

/-! ## One level, one call -/

/-- The slots of the levels `l, ..., 1`. -/
def pathFrom (gpa : Word) : ℕ → List Slot
  | 0 => []
  | l + 1 => tableIndex gpa (l + 1) :: pathFrom gpa l

theorem pathFrom_four (gpa : Word) : pathFrom gpa 4 = path gpa := rfl

theorem pathFrom_length (gpa : Word) : ∀ l, (pathFrom gpa l).length = l := by
  intro l
  induction l with
  | zero => rfl
  | succ l ih => simp [pathFrom, ih]

/-- The slots down to a level and those below it. -/
theorem pathFrom_below {p : List Slot} {gpa : Word} {l : ℕ} (hpath : p ++ pathFrom gpa l = path gpa) :
    p.length + l = 4 := by
  have hlen := congrArg List.length hpath
  rwa [List.length_append, pathFrom_length, path_length] at hlen

/-- One level further down. -/
theorem pathFrom_next {p : List Slot} {gpa : Word} {l : ℕ} (hpath : p ++ pathFrom gpa (l + 1) = path gpa) :
    (p ++ [tableIndex gpa (l + 1)]) ++ pathFrom gpa l = path gpa := by
  rw [← hpath]
  simp [pathFrom]

/-- The cursor stands at the entry at the end of `q`. -/
def CursorAt (s : Phys) (root : Frame) (q : List Slot) (c : Cursor) : Prop :=
  ∃ p, q = p ++ [c.index] ∧ nodeAt s root p = some c.table ∧ s.mem c.table c.index = c.entry ∧ c.entry ≠ 0

theorem CursorAt.nodeAt {c : Cursor} (h : CursorAt s root q c) :
    nodeAt s root q = some (vmmPhysToVirt c.entry) := by
  obtain ⟨p, rfl, hn, he, h0⟩ := h
  rw [nodeAt_concat hn, he]
  exact child_eq_some.2 ⟨h0, rfl⟩

/-- **What one level of the walk does**: it stops on the hidden entry, goes through a
populated slot, fails to allocate, or links a new page. -/
theorem nptLevel_cases (hs : NptOK s root np) (gpa : Word) (level : ℕ) (ask : Option Frame) {e : Word}
    (hp : p.length < 4) (hn : nodeAt s root p = some (vmmPhysToVirt e)) :
    (np = some (p ++ [tableIndex gpa level]) ∧ nptLevel gpa level ask e s = .error .panic) ∨
    (np ≠ some (p ++ [tableIndex gpa level]) ∧ ∃ c, nptLevel gpa level ask e s = .ok (some c, s) ∧
      CursorAt s root (p ++ [tableIndex gpa level]) c) ∨
    (s.mem (vmmPhysToVirt e) (tableIndex gpa level) = 0 ∧ s.allocPage ask = none ∧
      nptLevel gpa level ask e s = .ok (none, s)) ∨
    (∃ c f s', ask = some f ∧ nptLevel gpa level ask e s = .ok (some c, s') ∧
      LinkStep root s (p ++ [tableIndex gpa level]) f s' ∧
      CursorAt s' root (p ++ [tableIndex gpa level]) c) := by
  set i := tableIndex gpa level with hi
  set t := vmmPhysToVirt e with ht
  unfold nptLevel
  simp only [← hi, ← ht]
  by_cases h0 : s.mem t i = 0
  · rw [if_pos h0]
    cases ha : s.allocPage ask with
    | none => exact Or.inr (Or.inr (Or.inl ⟨h0, rfl, rfl⟩))
    | some r =>
      obtain ⟨f, s₁⟩ := r
      obtain ⟨hask, hf, rfl⟩ := Phys.allocPage_some ha
      simp only [newEntry_assert, if_true]
      have hl : LinkStep root s (p ++ [i]) f ((s.grab f).store t i (newEntry f)) :=
        ⟨⟨p, t, i, rfl, hp, hn, h0, rfl⟩, hf⟩
      refine Or.inr (Or.inr (Or.inr ⟨_, f, _, hask, rfl, hl, p, rfl, ?_, Phys.store_same _ _ _ _,
        (newEntry_linked f).ne_zero⟩))
      exact (Grow.step (w := p ++ [i]) Grow.refl (List.prefix_refl _) hl).mono hs hp.le hn
  · rw [if_neg h0]
    have hl := hs.linked p t i hp hn h0
    have hpr := hs.present p t i hp hn h0
    by_cases hb : (s.mem t i).getLsbD 0 = true
    · rw [if_pos (hl.assert_iff.2 hb)]
      refine Or.inr (Or.inl ⟨fun h => ?_, _, rfl, p, rfl, hn, rfl, h0⟩)
      rw [hpr.2 h] at hb
      simp at hb
    · rw [if_neg (fun h => hb (hl.assert_iff.1 h))]
      exact Or.inl ⟨hpr.1 (by simpa using hb), rfl⟩

/-- **The loop of `yakvm_vmm_npt_create`.** From a table on the path of `gpa`, it ends
at the leaf entry, runs out of memory, or stops on the hidden entry; it only links pages
on the path. -/
theorem nptLoop_spec {gpa : Word} (ask : ℕ → Option Frame) : ∀ (l : ℕ) (s : Phys) (p : List Slot) (c : Cursor),
    NptOK s root np → p ++ pathFrom gpa l = path gpa → nodeAt s root p = some (vmmPhysToVirt c.entry) →
    (l = 0 → CursorAt s root (path gpa) c) →
    (∃ c' s', nptLoop gpa ask l c s = .ok (some c', s') ∧ Grow root (path gpa) s s' ∧
      CursorAt s' root (path gpa) c' ∧ (l ≠ 0 → np ≠ some (path gpa))) ∨
    (∃ s', nptLoop gpa ask l c s = .ok (none, s') ∧ Grow root (path gpa) s s' ∧
      nodeAt s' root (path gpa) = none) ∨
    (nptLoop gpa ask l c s = .error .panic ∧ np = some (path gpa)) := by
  intro l
  induction l with
  | zero =>
    intro s p c hs _ _ hc
    exact Or.inl ⟨c, s, rfl, .refl, hc rfl, fun h => absurd rfl h⟩
  | succ l ih =>
    intro s p c hs hpath hn _
    have hlen := pathFrom_below hpath
    have hpath' := pathFrom_next hpath
    have hpre : p ++ [tableIndex gpa (l + 1)] <+: path gpa := ⟨_, hpath'⟩
    -- the hidden entry is a leaf entry, so it can only stop the walk at the last level
    have hleaf : np = some (p ++ [tableIndex gpa (l + 1)]) → np = some (path gpa) := by
      intro h
      have h4 := (hs.hidden _ h).1
      rw [h, List.IsPrefix.eq_of_length hpre (by rw [h4, path_length])]
    have hlast : ∀ {s₁ : Phys} {c₁ : Cursor}, l = 0 → CursorAt s₁ root (p ++ [tableIndex gpa (l + 1)]) c₁ →
        CursorAt s₁ root (path gpa) c₁ := by
      intro s₁ c₁ h hc
      subst h
      rw [← hpath']
      simpa [pathFrom] using hc
    rcases nptLevel_cases hs gpa (l + 1) (ask (l + 1)) (by omega) hn with
      ⟨hnp, hlev⟩ | ⟨hnp, c₁, hlev, hc₁⟩ | ⟨h0, -, hlev⟩ | ⟨c₁, f, s₁, -, hlev, hl, hc₁⟩
    · exact Or.inr (Or.inr ⟨by simp only [nptLoop, hlev], hleaf hnp⟩)
    · rcases ih s _ c₁ hs hpath' hc₁.nodeAt (fun h => hlast h hc₁) with
        ⟨c', s', he, hg, hc', hnp'⟩ | ⟨s', he, hg, hno⟩ | ⟨he, hnp'⟩
      · refine Or.inl ⟨c', s', by simp only [nptLoop, hlev, he], hg, hc', fun _ => ?_⟩
        rcases Nat.eq_zero_or_pos l with h | h
        · subst h
          have : p ++ [tableIndex gpa 1] = path gpa := by simpa [pathFrom] using hpath'
          rwa [this] at hnp
        · exact hnp' (by omega)
      · exact Or.inr (Or.inl ⟨s', by simp only [nptLoop, hlev, he], hg, hno⟩)
      · exact Or.inr (Or.inr ⟨by simp only [nptLoop, hlev, he], hnp'⟩)
    · refine Or.inr (Or.inl ⟨s, by simp only [nptLoop, hlev], .refl, ?_⟩)
      cases hc : nodeAt s root (path gpa) with
      | none => rfl
      | some x =>
        obtain ⟨y, hy⟩ := nodeAt_prefix hpre hc
        rw [nodeAt_concat hn, h0, child_zero] at hy
        simp at hy
    · rcases ih s₁ _ c₁ (hl.ok hs) hpath' hc₁.nodeAt (fun h => hlast h hc₁) with
        ⟨c', s', he, hg, hc', hnp'⟩ | ⟨s', he, hg, hno⟩ | ⟨he, hnp'⟩
      · refine Or.inl ⟨c', s', by simp only [nptLoop, hlev, he], .head hl hpre hg, hc', fun _ h => ?_⟩
        -- the walk went through an empty slot, so the hidden path was not populated
        obtain ⟨-, x, hx⟩ := hs.hidden _ h
        obtain ⟨y, hy⟩ := nodeAt_prefix hpre hx
        rw [hl.empty] at hy
        simp at hy
      · exact Or.inr (Or.inl ⟨s', by simp only [nptLoop, hlev, he], .head hl hpre hg, hno⟩)
      · exact Or.inr (Or.inr ⟨by simp only [nptLoop, hlev, he], hnp'⟩)

end Yakvm
