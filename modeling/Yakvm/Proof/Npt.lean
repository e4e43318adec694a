import Yakvm.Proof.Tree

/-!
# The operations on a nested page table

One specification per operation, in terms of the tree:

* `vmmNptCreate_spec`: `yakvm_vmm_npt_create` links pages on the path of its address and
  returns the page at its end, or runs out of memory, or fails its assertion; the last
  exactly on the page of the hidden entry.
* `createVmm_spec`: `yakvm_create_vmm` builds a table of pages that were free, with the
  entry of the MMIO page hidden.
* `hwSetAd_ok`: Accessed and Dirty bits change no path.
* `hwWalk_spec`: the hardware reads only tables of the tree and ends at its leaves.
-/

namespace Yakvm

open Radix

variable {s s' : Phys} {root n f t : Frame} {np : Option (List Slot)} {p q w : List Slot} {i : Slot} {gpa : Word}

/-! ## Updates in place -/

/-- Changing the flags of a nonzero entry leaves the heap of tables as it is. -/
theorem kids_store_same {e : Word} (h0 : s.mem t i ≠ 0) (he : e ≠ 0)
    (hf : vmmPhysToVirt e = vmmPhysToVirt (s.mem t i)) : kids (s.store t i e).mem = kids s.mem := by
  funext x j
  by_cases hx : x = t ∧ j = i
  · obtain ⟨rfl, rfl⟩ := hx
    simp only [kids, Phys.store_same, child, if_neg h0, if_neg he, hf]
  · simp only [kids]
    rw [Phys.store_ne s e (by tauto)]

/-- An update in place that keeps the entry linked and its present bit as `np'` says. -/
theorem NptOK.update {np' : Option (List Slot)} {e : Word} (hs : NptOK s root np) (h0 : s.mem t i ≠ 0)
    (he : e ≠ 0) (hf : vmmPhysToVirt e = vmmPhysToVirt (s.mem t i))
    (hlink : Linked (s.mem t i) → Linked e)
    (hpres : ∀ p x j, p.length < 4 → nodeAt s root p = some x → s.mem x j ≠ 0 →
      (((s.store t i e).mem x j).getLsbD 0 = false ↔ np' = some (p ++ [j])))
    (hhid : ∀ q, np' = some q → q.length = 4 ∧ ∃ f, nodeAt s root q = some f) :
    NptOK (s.store t i e) root np' ∧ ∀ q, nodeAt (s.store t i e) root q = nodeAt s root q := by
  have hk := kids_store_same h0 he hf
  have heq : ∀ q, nodeAt (s.store t i e) root q = nodeAt s root q := by
    intro q; simp only [nodeAt, hk]
  have hnz : ∀ {x j}, (s.store t i e).mem x j ≠ 0 → s.mem x j ≠ 0 := by
    intro x j h
    by_cases hx : x = t ∧ j = i
    · obtain ⟨rfl, rfl⟩ := hx; exact h0
    · rwa [Phys.store_ne s e (by tauto)] at h
  refine ⟨⟨by rw [hk]; exact hs.tree, ?_, ?_, ?_, ?_⟩, heq⟩
  · intro p x hp hx
    rw [heq] at hx
    exact hs.live p x hp hx
  · intro p x j hp hx hne
    rw [heq] at hx
    have hne' := hnz hne
    by_cases hxj : x = t ∧ j = i
    · obtain ⟨rfl, rfl⟩ := hxj
      rw [Phys.store_same]
      exact hlink (hs.linked p x j hp hx hne')
    · rw [Phys.store_ne s e (by tauto)]
      exact hs.linked p x j hp hx hne'
  · intro p x j hp hx hne
    rw [heq] at hx
    exact hpres p x j hp hx (hnz hne)
  · intro q hq
    obtain ⟨h4, f, hf⟩ := hhid q hq
    exact ⟨h4, f, by rw [heq]; exact hf⟩

/-- **The hardware's updates change no path.** -/
theorem hwSetAd_ok (hs : NptOK s root np) (h0 : s.mem t i ≠ 0) (a d : Bool) :
    NptOK (hwSetAd s t i a d) root np ∧ ∀ q, nodeAt (hwSetAd s t i a d) root q = nodeAt s root q := by
  refine hs.update h0 ?_ (vmmPhysToVirt_or_ad _ a d) (fun h => h.or_ad a d) ?_ hs.hidden
  · intro h
    exact h0 (BitVec.or_eq_zero_iff.1 h).1
  · intro p x j hp hx hne
    rw [← hs.present p x j hp hx hne]
    by_cases hxj : x = t ∧ j = i
    · obtain ⟨rfl, rfl⟩ := hxj
      rw [Phys.store_same, getLsbD_or_ad _ a d (by omega) (by omega)]
    · rw [Phys.store_ne s _ (by tauto)]

@[simp] theorem hwSetAd_pages (s : Phys) (t : Frame) (i : Slot) (a d : Bool) :
    (hwSetAd s t i a d).pages = s.pages := rfl

/-- Hiding a leaf entry. -/
theorem clear_ok (hs : NptOK s root none) (hp : p.length = 3) (hn : nodeAt s root p = some t)
    (h0 : s.mem t i ≠ 0) :
    NptOK (s.store t i (s.mem t i &&& ~~~pagePresent)) root (some (p ++ [i])) ∧
      ∀ q, nodeAt (s.store t i (s.mem t i &&& ~~~pagePresent)) root q = nodeAt s root q := by
  have hl := hs.linked p t i (by omega) hn h0
  refine hs.update h0 hl.clear.ne_zero (vmmPhysToVirt_clear _) Linked.clear ?_ ?_
  · intro a x j ha hx hne
    by_cases hxj : x = t ∧ j = i
    · obtain ⟨rfl, rfl⟩ := hxj
      have : a = p := hs.tree a p x ha.le (by omega) hx hn
      rw [Phys.store_same, clear_present, this]
      simp
    · rw [Phys.store_ne s _ (by tauto), hs.present a x j ha hx hne]
      constructor
      · intro h; simp at h
      · intro h
        obtain ⟨rfl, h2⟩ := List.append_inj' (Option.some.inj h) rfl
        obtain rfl : i = j := by simpa using h2
        rw [hn] at hx
        exact absurd ⟨(Option.some.inj hx).symm, rfl⟩ hxj
  · intro q hq
    obtain rfl := Option.some.inj hq
    exact ⟨by simp [hp], _, by rw [nodeAt_concat hn]; exact child_eq_some.2 ⟨h0, rfl⟩⟩

/-! ## Creating entries -/

/-- The page returned for the cursor at the end of the walk. -/
theorem CursorAt.page {c : Cursor} (hs : NptOK s root np) (hc : CursorAt s root (path gpa) c) :
    pfnToPage c.entry = (vmmPhysToVirt c.entry).setWidth 64 := by
  obtain ⟨p, hq, hn, he, h0⟩ := hc
  have hp : p.length < 4 := by
    have := congrArg List.length hq
    simp only [path_length, List.length_append, List.length_cons, List.length_nil] at this
    omega
  have := hs.linked p _ _ hp hn (by rw [he]; exact h0)
  rw [he] at this
  exact this.pfn

/-- **`yakvm_vmm_npt_create`** on a well-formed table. -/
theorem vmmNptCreate_spec {ncr3 : Word} (hs : NptOK s (vmmPhysToVirt ncr3) np) (gpa : Word) (ask : ℕ → Option Frame) :
    (∃ f s', vmmNptCreate ncr3 gpa false ask s = .ok (.ok (f.setWidth 64), s') ∧
      Grow (vmmPhysToVirt ncr3) (path gpa) s s' ∧ nodeAt s' (vmmPhysToVirt ncr3) (path gpa) = some f ∧
      np ≠ some (path gpa)) ∨
    (∃ s', vmmNptCreate ncr3 gpa false ask s = .ok (.error .ENOMEM, s') ∧
      Grow (vmmPhysToVirt ncr3) (path gpa) s s' ∧ nodeAt s' (vmmPhysToVirt ncr3) (path gpa) = none) ∨
    (vmmNptCreate ncr3 gpa false ask s = .error .panic ∧ np = some (path gpa)) := by
  unfold vmmNptCreate PML4T
  rcases nptLoop_spec ask 4 s [] ⟨ncr3, 0, 0⟩ hs (pathFrom_four gpa) nodeAt_nil (by simp) with
    ⟨c, s', he, hg, hc, hnp⟩ | ⟨s', he, hg, hno⟩ | ⟨he, hnp⟩
  · refine Or.inl ⟨vmmPhysToVirt c.entry, s', ?_, hg, hc.nodeAt, hnp (by omega)⟩
    simp only [he, hc.page (hg.ok hs)]
    rfl
  · exact Or.inr (Or.inl ⟨s', by simp only [he], hg, hno⟩)
  · exact Or.inr (Or.inr ⟨by simp only [he], hnp⟩)

/-- A call panics exactly on the hidden page. -/
theorem vmmNptCreate_panic_iff {ncr3 : Word} (hs : NptOK s (vmmPhysToVirt ncr3) np) (ask : ℕ → Option Frame)
    {e : Crash} : vmmNptCreate ncr3 gpa false ask s = .error e ↔ e = .panic ∧ np = some (path gpa) := by
  rcases vmmNptCreate_spec hs gpa ask with ⟨f, s', he, -, -, hnp⟩ | ⟨s', he, hg, hno⟩ | ⟨he, hnp⟩
  · rw [he]; simp [hnp]
  · rw [he]
    simp only [reduceCtorEq, false_iff, not_and]
    intro _ h
    obtain ⟨-, x, hx⟩ := hs.hidden _ h
    rw [hg.mono hs (by simp [path_length]) hx] at hno
    simp at hno
  · rw [he]; simp [hnp, eq_comm]

/-- A call that returns a page. -/
theorem vmmNptCreate_page {ncr3 page : Word} {ask : ℕ → Option Frame} (hs : NptOK s (vmmPhysToVirt ncr3) np)
    (h : vmmNptCreate ncr3 gpa false ask s = .ok (.ok page, s')) :
    Grow (vmmPhysToVirt ncr3) (path gpa) s s' ∧ np ≠ some (path gpa) ∧
      ∃ f, page = f.setWidth 64 ∧ nodeAt s' (vmmPhysToVirt ncr3) (path gpa) = some f := by
  rcases vmmNptCreate_spec hs gpa ask with ⟨f, s₁, he, hg, hn, hnp⟩ | ⟨s₁, he, -⟩ | ⟨he, -⟩
  · rw [he] at h
    simp only [Except.ok.injEq, Prod.mk.injEq] at h
    obtain ⟨rfl, rfl⟩ := h
    exact ⟨hg, hnp, f, rfl, hn⟩
  · rw [he] at h; simp at h
  · rw [he] at h; simp at h

/-- Every call that returns only links pages on its path. -/
theorem vmmNptCreate_grow {ncr3 : Word} {ask : ℕ → Option Frame} {r : Except Errno Word}
    (hs : NptOK s (vmmPhysToVirt ncr3) np) (h : vmmNptCreate ncr3 gpa false ask s = .ok (r, s')) :
    Grow (vmmPhysToVirt ncr3) (path gpa) s s' := by
  rcases vmmNptCreate_spec hs gpa ask with ⟨f, s₁, he, hg, -⟩ | ⟨s₁, he, hg, -⟩ | ⟨he, -⟩
  · rw [he] at h; cases h; exact hg
  · rw [he] at h; cases h; exact hg
  · rw [he] at h; simp at h

/-! ## Enough memory -/

/-- The entry of level `n` on the path of `gpa` is empty, or its table does not exist. -/
def Missing (s : Phys) (root : Frame) (gpa : Word) (n : ℕ) : Prop := nodeAt s root ((path gpa).take (5 - n)) = none

/-- The allocations that a walk makes from level `l` down succeed: each missing level is
answered with a page that is free when it is asked for. -/
def SuppliedTo (s : Phys) (root : Frame) (gpa : Word) (ask : ℕ → Option Frame) (l : ℕ) : Prop :=
  ∀ n, 1 ≤ n → n ≤ l → Missing s root gpa n → ∃ f, ask n = some f ∧ f ∉ s.pages ∧
    ∀ n', n < n' → n' ≤ l → Missing s root gpa n' → ask n' ≠ some f

/-- All the allocations of a call succeed. -/
def Supplied (s : Phys) (root : Frame) (gpa : Word) (ask : ℕ → Option Frame) : Prop :=
  SuppliedTo s root gpa ask PML4T

theorem path_take {l : ℕ} (hpath : p ++ pathFrom gpa (l + 1) = path gpa) :
    (path gpa).take (5 - (l + 1)) = p ++ [tableIndex gpa (l + 1)] := by
  have hlen := pathFrom_below hpath
  have hsplit := (pathFrom_next hpath).symm
  have hcut : 5 - (l + 1) = (p ++ [tableIndex gpa (l + 1)]).length := by
    simp only [List.length_append, List.length_cons, List.length_nil]; omega
  rw [hsplit, hcut, List.take_left]

/-- Below a missing level every level is missing. -/
theorem Missing.below {m n : ℕ} (h : Missing s root gpa n) (hm : m ≤ n) : Missing s root gpa m := by
  unfold Missing at h ⊢
  cases hx : nodeAt s root ((path gpa).take (5 - m)) with
  | none => rfl
  | some x =>
    have hpre : (path gpa).take (5 - n) <+: (path gpa).take (5 - m) := List.take_prefix_take_left (by omega)
    obtain ⟨y, hy⟩ := nodeAt_prefix hpre hx
    rw [h] at hy
    simp at hy

/-- A level that is there asks for nothing. -/
theorem suppliedTo_skip {l : ℕ} {ask : ℕ → Option Frame} (h : ¬ Missing s root gpa (l + 1)) :
    SuppliedTo s root gpa ask (l + 1) ↔ SuppliedTo s root gpa ask l := by
  constructor
  · intro hs n h1 hn hm
    obtain ⟨f, ha, hf, hd⟩ := hs n h1 (by omega) hm
    exact ⟨f, ha, hf, fun n' h2 h3 => hd n' h2 (by omega)⟩
  · intro hs n h1 hn hm
    have hne : n ≠ l + 1 := fun he => h (he ▸ hm)
    obtain ⟨f, ha, hf, hd⟩ := hs n h1 (by omega) hm
    refine ⟨f, ha, hf, fun n' h2 h3 hm' => hd n' h2 ?_ hm'⟩
    have : n' ≠ l + 1 := fun he => h (he ▸ hm')
    omega

/-- A level that was missing has been linked: the levels below are still missing. -/
theorem suppliedTo_link {l : ℕ} {ask : ℕ → Option Frame} (hs : NptOK s root np) (hl4 : l + 1 ≤ 4)
    (hl : LinkStep root s ((path gpa).take (5 - (l + 1))) f s') (ha : ask (l + 1) = some f) :
    SuppliedTo s root gpa ask (l + 1) ↔ SuppliedTo s' root gpa ask l := by
  have hmiss : ∀ n, n ≤ l + 1 → Missing s root gpa n := fun n hn => Missing.below (n := l + 1) hl.empty hn
  have hmiss' : ∀ n, 1 ≤ n → n ≤ l → Missing s' root gpa n := by
    intro n h1 hn
    unfold Missing
    have hlen : ((path gpa).take (5 - n)).length = 5 - n := by rw [List.length_take, path_length]; omega
    have hlen' : ((path gpa).take (5 - (l + 1))).length = 5 - (l + 1) := by rw [List.length_take, path_length]; omega
    rw [hl.nodeAt hs _ (by omega), if_neg (fun he => by rw [he, hlen'] at hlen; omega)]
    exact hmiss n (by omega)
  have hpages := hl.pages
  constructor
  · intro hsup n h1 hn _
    obtain ⟨g, hg, hfree, hd⟩ := hsup n h1 (by omega) (hmiss n (by omega))
    have hne : g ≠ f := fun he => hd (l + 1) (by omega) le_rfl (hmiss _ le_rfl) (he ▸ ha)
    refine ⟨g, hg, by rw [hpages, Finset.mem_insert]; tauto, fun n' h2 h3 _ => ?_⟩
    exact hd n' h2 (by omega) (hmiss n' (by omega))
  · intro hsup n h1 hn _
    rcases Nat.lt_or_ge l n with hlast | hbelow
    · obtain rfl : n = l + 1 := by omega
      exact ⟨f, ha, hl.free, fun n' h2 h3 => absurd h3 (by omega)⟩
    · obtain ⟨g, hg, hfree, hd⟩ := hsup n h1 hbelow (hmiss' n h1 hbelow)
      rw [hpages, Finset.mem_insert, not_or] at hfree
      refine ⟨g, hg, hfree.2, fun n' h2 h3 _ => ?_⟩
      rcases Nat.lt_or_ge l n' with hlast | hbelow'
      · obtain rfl : n' = l + 1 := by omega
        rw [ha]
        exact fun he => hfree.1 (Option.some.inj he).symm
      · exact hd n' h2 hbelow' (hmiss' n' (by omega) hbelow')

/-- **The loop reaches the last level** exactly when its allocations succeed. -/
theorem nptLoop_returns_iff (ask : ℕ → Option Frame) : ∀ (l : ℕ) (s : Phys) (p : List Slot) (c : Cursor),
    NptOK s root np → np ≠ some (path gpa) → p ++ pathFrom gpa l = path gpa →
    nodeAt s root p = some (vmmPhysToVirt c.entry) →
    ((∃ c' s', nptLoop gpa ask l c s = .ok (some c', s')) ↔ SuppliedTo s root gpa ask l) := by
  intro l
  induction l with
  | zero =>
    intro s p c _ _ _ _
    exact ⟨fun _ n h1 hn => absurd hn (by omega), fun _ => ⟨c, s, rfl⟩⟩
  | succ l ih =>
    intro s p c hs hnp hpath hn
    have hlen := pathFrom_below hpath
    have hpath' := pathFrom_next hpath
    have htake := path_take hpath
    rcases nptLevel_cases hs gpa (l + 1) (ask (l + 1)) (by omega) hn with
      ⟨hhid, hlev⟩ | ⟨-, c₁, hlev, hc₁⟩ | ⟨h0, hask, hlev⟩ | ⟨c₁, f, s₁, hask, hlev, hl, hc₁⟩
    · -- the hidden entry is the last of its path
      have h4 := (hs.hidden _ hhid).1
      rw [List.IsPrefix.eq_of_length ⟨_, hpath'⟩ (by rw [h4, path_length])] at hhid
      exact absurd hhid hnp
    · have hthere : ¬ Missing s root gpa (l + 1) := by
        unfold Missing; rw [htake, hc₁.nodeAt]; simp
      rw [suppliedTo_skip hthere, ← ih s _ c₁ hs hnp hpath' hc₁.nodeAt]
      simp only [nptLoop, hlev]
    · have hmiss : Missing s root gpa (l + 1) := by
        unfold Missing; rw [htake, nodeAt_concat hn, h0, child_zero]
      simp only [nptLoop, hlev, Except.ok.injEq, Prod.mk.injEq, reduceCtorEq, false_and, exists_false, false_iff]
      intro hsup
      obtain ⟨f, ha, hf, -⟩ := hsup (l + 1) (by omega) le_rfl hmiss
      rw [ha, Phys.allocPage_fresh hf] at hask
      simp at hask
    · rw [← htake] at hl
      rw [suppliedTo_link hs (by omega) hl hask, ← ih s₁ _ c₁ (hl.ok hs) hnp hpath' hc₁.nodeAt]
      simp only [nptLoop, hlev]

/-- **A call returns a page** exactly when its allocations succeed. -/
theorem vmmNptCreate_returns_iff {ncr3 : Word} (hs : NptOK s (vmmPhysToVirt ncr3) np) (hnp : np ≠ some (path gpa))
    (ask : ℕ → Option Frame) :
    (∃ page s', vmmNptCreate ncr3 gpa false ask s = .ok (.ok page, s')) ↔ Supplied s (vmmPhysToVirt ncr3) gpa ask := by
  unfold Supplied
  rw [← nptLoop_returns_iff ask PML4T s [] ⟨ncr3, 0, 0⟩ hs hnp (pathFrom_four gpa) nodeAt_nil]
  unfold vmmNptCreate
  constructor
  · rintro ⟨page, s', h⟩
    split at h
    · simp at h
    · simp at h
    · rename_i c s₁ he
      exact ⟨c, s₁, he⟩
  · rintro ⟨c, s', h⟩
    simp only [h]
    exact ⟨_, _, rfl⟩

/-! ## Creating the table -/

/-- A zeroed page has no children. -/
theorem grab_childless (s : Phys) (f : Frame) (j : Slot) : kids (s.grab f).mem f j = none := by
  simp only [kids, grab_mem_same, child_zero]

/-- A new root page is an empty table. -/
theorem grab_root (s : Phys) (f : Frame) : NptOK (s.grab f) f none := by
  have hnil : ∀ q n, nodeAt (s.grab f) f q = some n → q = [] ∧ n = f :=
    fun q n h => reach_childless (grab_childless s f) h
  refine ⟨?_, ?_, ?_, ?_, ?_⟩
  · intro p q n _ _ h1 h2
    rw [(hnil p n h1).1, (hnil q n h2).1]
  · intro p n _ h
    rw [(hnil p n h).2]
    exact Finset.mem_insert_self _ _
  · intro p n i _ h h0
    rw [(hnil p n h).2, grab_mem_same] at h0
    exact absurd rfl h0
  · intro p n i _ h h0
    rw [(hnil p n h).2, grab_mem_same] at h0
    exact absurd rfl h0
  · intro q h; simp at h

/-- The pages of the table at `root` are exactly those allocated beside `base`. -/
structure Owns (base : Finset Frame) (s : Phys) (root : Frame) : Prop where
  cover : ∀ n, n ∈ s.pages → n ∉ base → ∃ q, q.length ≤ 4 ∧ nodeAt s root q = some n
  apart : ∀ q n, q.length ≤ 4 → nodeAt s root q = some n → n ∉ base
  base : base ⊆ s.pages

theorem Owns.grow {base : Finset Frame} (ho : Owns base s root) (hs : NptOK s root np)
    (h : Grow root w s s') : Owns base s' root := by
  refine ⟨?_, ?_, ho.base.trans h.pages_mono⟩
  · intro n hn hb
    by_cases h0 : n ∈ s.pages
    · obtain ⟨q, hq, hqn⟩ := ho.cover n h0 hb
      exact ⟨q, hq, h.mono hs hq hqn⟩
    · obtain ⟨q, hq, -, hqn⟩ := h.cover hs hn h0
      exact ⟨q, hq, hqn⟩
  · intro q n hq hn hb
    cases h0 : nodeAt s root q with
    | none => exact h.fresh hs hq h0 hn (ho.base hb)
    | some x =>
      rw [h.mono hs hq h0] at hn
      obtain rfl := Option.some.inj hn
      exact ho.apart q x hq h0 hb

theorem Owns.congr {base : Finset Frame} (ho : Owns base s root) (hp : s'.pages = s.pages)
    (hn : ∀ q, q.length ≤ 4 → nodeAt s' root q = nodeAt s root q) : Owns base s' root := by
  refine ⟨?_, ?_, by rw [hp]; exact ho.base⟩
  · intro n hm hb
    rw [hp] at hm
    obtain ⟨q, hq, h⟩ := ho.cover n hm hb
    exact ⟨q, hq, by rw [hn q hq]; exact h⟩
  · intro q n hq h
    rw [hn q hq] at h
    exact ho.apart q n hq h

/-- What `yakvm_create_vmm` leaves behind when it succeeds. -/
structure Fresh (s : Phys) (o : ℕ) (vmm : Vmm) (s' : Phys) : Prop where
  root : ∃ f, f ∉ s.pages ∧ vmm.ncr3 = pageToPhys f
  ok : NptOK s' (vmmPhysToVirt vmm.ncr3) (some (path mmioHawk))
  owns : Owns s.pages s' (vmmPhysToVirt vmm.ncr3)
  only : ∀ q n, q.length ≤ 4 → nodeAt s' (vmmPhysToVirt vmm.ncr3) q = some n → q <+: path mmioHawk
  mem : ∀ g ∈ s.pages, s'.mem g = s.mem g
  slab : o = s.next ∧ s'.slab = insert o s.slab ∧ s'.next = s.next + 1

/-- Hiding the entry at the end of the walk of `mmioHawk`. -/
theorem mmio_spec {f : Frame} (gpa : Word) (ask : ℕ → Option Frame) (hs : NptOK s f none) :
    (∃ s₁ s' e t i page, vmmNptCreate (pageToPhys f) gpa true ask s = .ok (.ok page, s') ∧
      Grow f (path gpa) s s₁ ∧ s' = s₁.store t i e ∧ NptOK s' f (some (path gpa)) ∧
      (∀ q, nodeAt s' f q = nodeAt s₁ f q) ∧ ∃ p, p.length < 4 ∧ nodeAt s₁ f p = some t) ∨
    (∃ s', vmmNptCreate (pageToPhys f) gpa true ask s = .ok (.error .ENOMEM, s') ∧ Grow f (path gpa) s s') := by
  unfold vmmNptCreate PML4T
  rcases nptLoop_spec ask 4 s [] ⟨pageToPhys f, 0, 0⟩ hs (pathFrom_four gpa)
      (by rw [nodeAt_nil, vmmPhysToVirt_pageToPhys]) (by simp) with
    ⟨c, s₁, he, hg, hc, -⟩ | ⟨s₁, he, hg, -⟩ | ⟨-, hnp⟩
  · obtain ⟨p, hq, hn, hmem, h0⟩ := hc
    have hp : p.length = 3 := by
      have := congrArg List.length hq
      simp only [path_length, List.length_append, List.length_cons, List.length_nil] at this
      omega
    obtain ⟨h1, h2⟩ := clear_ok (hg.ok hs) hp hn (by rw [hmem]; exact h0)
    rw [← hq] at h1
    exact Or.inl ⟨s₁, _, _, _, _, _, by simp only [he, if_true]; rfl, hg, rfl, h1, h2, p, by omega, hn⟩
  · exact Or.inr ⟨s₁, by simp only [he], hg⟩
  · simp at hnp

/-- What `yakvm_create_vmm` leaves behind when it fails. Pages it allocated may stay
allocated: the unwinding frees the root only, not the tables already linked below it. -/
structure Failed (s s' : Phys) : Prop where
  pages : s.pages ⊆ s'.pages
  mem : ∀ g ∈ s.pages, s'.mem g = s.mem g
  slab : s.next ∉ s.slab → s'.slab = s.slab
  next : s.next ≤ s'.next

/-- The state in which `yakvm_create_vmm` creates the MMIO entry: a root page and an
object, both new. -/
def Phys.withRoot (s : Phys) (f : Frame) : Phys := { s.grab f with slab := insert s.next s.slab, next := s.next + 1 }

theorem root_ready (s : Phys) (hf : f ∉ s.pages) : NptOK (s.withRoot f) f none ∧ Owns s.pages (s.withRoot f) f := by
  have hg := grab_root s f
  refine ⟨⟨hg.tree, hg.live, hg.linked, hg.present, hg.hidden⟩, ?_, ?_, ?_⟩
  · intro n hn hb
    rcases Finset.mem_insert.1 hn with rfl | hn
    · exact ⟨[], by simp, rfl⟩
    · exact absurd hn hb
  · intro q n _ hn
    have hn' : nodeAt (s.grab f) f q = some n := hn
    rw [(reach_childless (grab_childless s f) hn').2]
    exact hf
  · exact Finset.subset_insert _ _

/-- The new root has no tables below it. -/
theorem withRoot_bare (s : Phys) (f : Frame) {q : List Slot} (hq : q ≠ []) : nodeAt (s.withRoot f) f q = none := by
  cases hn : nodeAt (s.withRoot f) f q with
  | none => rfl
  | some n =>
    have hn' : nodeAt (s.grab f) f q = some n := hn
    exact absurd (reach_childless (grab_childless s f) hn').1 hq

/-- **The paths of `yakvm_create_vmm`**: no root page; no object; or the outcome of the call for the
MMIO page, with the object and the root page freed again if that fails. -/
theorem createVmm_cases (a : VmmAsk) (s : Phys) :
    (s.allocPage a.pml4t = none ∧ createVmm a s = .ok (.error .ENOMEM, s)) ∨
    ∃ f, s.allocPage a.pml4t = some (f, s.grab f) ∧ f ∉ s.pages ∧
      ((a.vmm = false ∧ createVmm a s = .ok (.error .ENOMEM, { s.grab f with pages := s.pages })) ∨
      (a.vmm = true ∧ ∃ page s', vmmNptCreate (pageToPhys f) mmioHawk true a.mmio (s.withRoot f) = .ok (.ok page, s') ∧
        createVmm a s = .ok (.ok (s.next, ⟨pageToPhys f⟩), s')) ∨
      (a.vmm = true ∧ ∃ s', vmmNptCreate (pageToPhys f) mmioHawk true a.mmio (s.withRoot f) = .ok (.error .ENOMEM, s') ∧
        Grow f (path mmioHawk) (s.withRoot f) s' ∧ createVmm a s =
          .ok (.error .ENOMEM, { s' with slab := s'.slab.erase s.next, pages := s'.pages.erase f }))) := by
  unfold createVmm
  cases hpg : s.allocPage a.pml4t with
  | none => exact Or.inl ⟨rfl, rfl⟩
  | some r =>
    obtain ⟨f, s₀⟩ := r
    obtain ⟨-, hf, hs₀⟩ := Phys.allocPage_some hpg
    obtain rfl : s₀ = s.grab f := hs₀
    refine Or.inr ⟨f, rfl, hf, ?_⟩
    simp only
    cases hk : a.vmm with
    | true =>
      have hkm : (s.grab f).kmalloc true = some (s.next, s.withRoot f) := by simp [Phys.kmalloc, Phys.withRoot, Phys.grab]
      rw [hkm]
      rcases mmio_spec mmioHawk a.mmio (root_ready s hf).1 with ⟨-, s', -, -, -, page, he, -⟩ | ⟨s', he, hg⟩
      · exact Or.inr (Or.inl ⟨rfl, page, s', he, by simp only [he, bind, Except.bind]⟩)
      · refine Or.inr (Or.inr ⟨rfl, s', he, hg, ?_⟩)
        have ho : s.next ∈ s'.slab := by
          rw [hg.slab.1]
          exact Finset.mem_insert_self _ _
        have hfp : f ∈ s'.pages := hg.pages_mono (Finset.mem_insert_self _ _)
        simp only [he, bind, Except.bind, Phys.kfree_ok ho]
        rw [Phys.freePage_ok (by exact hfp)]
    | false =>
      have hkm : (s.grab f).kmalloc false = none := by simp [Phys.kmalloc]
      have hfp : f ∈ (s.grab f).pages := Finset.mem_insert_self _ _
      have hold : (s.grab f).pages.erase f = s.pages := Finset.erase_insert hf
      rw [hkm]
      refine Or.inl ⟨rfl, ?_⟩
      simp only [Phys.freePage_ok hfp, hold, bind, Except.bind]

/-- **`yakvm_create_vmm`** builds a table of its own out of free pages, or fails without
touching what was there. -/
theorem createVmm_spec (a : VmmAsk) (s : Phys) :
    (∃ o vmm s', createVmm a s = .ok (.ok (o, vmm), s') ∧ Fresh s o vmm s') ∨
    (∃ s', createVmm a s = .ok (.error .ENOMEM, s') ∧ Failed s s') := by
  rcases createVmm_cases a s with ⟨-, hc⟩ | ⟨f, -, hf, hcases⟩
  · exact Or.inr ⟨s, hc, subset_rfl, fun _ _ => rfl, fun _ => rfl, le_rfl⟩
  have hne : ∀ {g}, g ∈ s.pages → g ≠ f := fun hg h => hf (h ▸ hg)
  obtain ⟨hroot, hown⟩ := root_ready s hf
  have hkeep : ∀ {s₁}, Grow f (path mmioHawk) (s.withRoot f) s₁ → ∀ g ∈ s.pages, s₁.mem g = s.mem g := by
    intro s₁ hg g hgp
    rw [hg.mem_other hroot (hown.base hgp) (fun p hp hn => hown.apart p g hp.le hn hgp)]
    exact grab_mem_ne s (hne hgp)
  rcases hcases with ⟨-, hc⟩ | ⟨-, page, s₃, hcall, hc⟩ | ⟨-, s₃, -, hg, hc⟩
  · exact Or.inr ⟨_, hc, subset_rfl, fun g hgp => grab_mem_ne s (hne hgp), fun _ => rfl, le_rfl⟩
  · refine Or.inl ⟨s.next, ⟨pageToPhys f⟩, s₃, hc, ?_⟩
    rcases mmio_spec mmioHawk a.mmio hroot with
      ⟨s₁, s₄, e, t, i, page', he, hg, hst, hok, heq, p, hp, hpt⟩ | ⟨s₄, he, -⟩
    · rw [hcall] at he
      obtain ⟨-, rfl⟩ := Prod.mk.inj (Except.ok.inj he)
      have hown₁ := hown.grow hroot hg
      refine ⟨⟨f, hf, rfl⟩, ?_, ?_, ?_, ?_, rfl, ?_, ?_⟩
      · rw [vmmPhysToVirt_pageToPhys]; exact hok
      · rw [vmmPhysToVirt_pageToPhys]
        exact hown₁.congr (by rw [hst]; rfl) (fun q _ => heq q)
      · intro q n hq hn
        rw [vmmPhysToVirt_pageToPhys, heq q] at hn
        by_contra hpre
        have hnil : q ≠ [] := by
          rintro rfl
          exact hpre List.nil_prefix
        rw [hg.other hroot hq hpre, withRoot_bare s f hnil] at hn
        simp at hn
      · intro g hgp
        have hgt : g ≠ t := by
          rintro rfl
          exact hown₁.apart p g hp.le hpt hgp
        rw [hst, Phys.store_other _ _ _ hgt, hkeep hg g hgp]
      · rw [hst, Phys.store_slab, hg.slab.1]
        rfl
      · rw [hst, Phys.store_next, hg.slab.2]
        rfl
    · rw [hcall] at he
      simp at he
  · refine Or.inr ⟨_, hc, ?_, fun g hgp => hkeep hg g hgp, ?_, ?_⟩
    · intro g hgp
      exact Finset.mem_erase.2 ⟨hne hgp, hg.pages_mono (Finset.mem_insert_of_mem hgp)⟩
    · intro hn
      simp only [hg.slab.1]
      exact Finset.erase_insert hn
    · simp only [hg.slab.2]
      exact Nat.le_succ _

/-- A successful `yakvm_create_vmm`. -/
theorem createVmm_fresh {a : VmmAsk} {o : ℕ} {vmm : Vmm}
    (h : createVmm a s = .ok (.ok (o, vmm), s')) : Fresh s o vmm s' := by
  rcases createVmm_spec a s with ⟨o', vmm', s₁, he, hf⟩ | ⟨s₁, he, -⟩
  · rw [he] at h; cases h; exact hf
  · rw [he] at h; simp at h

/-! ## The hardware's walk -/

theorem hwIndex_eq (gpa : Word) {l : ℕ} (hl : l < 4) :
    gpa.extractLsb' (12 + 9 * l) 9 = tableIndex gpa (l + 1) := by
  apply BitVec.eq_of_toNat_eq
  rw [tableIndex_toNat, BitVec.extractLsb'_toNat, Nat.shiftRight_eq_div_pow]
  have : levelShift (l + 1) = 12 + 9 * l := by
    interval_cases l <;> rfl
  rw [this]

/-- A linked entry with the present bit lets every access through. -/
theorem Linked.permits {e : Word} (h : Linked e) (acc : Access) : hwPermits acc e = e.getLsbD 0 := by
  simp only [hwPermits, h.rw, h.user, h.high 63 (by omega)]
  cases acc <;> cases e.getLsbD 0 <;> rfl

/-- **The hardware walk follows the tree.** It reads only tables, and its outcome is the
leaf page at the end of the path, or a fault if there is none or its entry is hidden. -/
theorem hwWalk_spec (hs : NptOK s root np) (acc : Access) : ∀ (l : ℕ) (p : List Slot) (e : Word),
    p ++ pathFrom gpa l = path gpa → nodeAt s root p = some (vmmPhysToVirt e) →
    (l = 0 → np ≠ some (path gpa)) →
    (∀ t ∈ (hwWalk s.mem acc gpa l e).1, ∃ q, q.length < 4 ∧ nodeAt s root q = some t) ∧
    (hwWalk s.mem acc gpa l e).2 =
      if np = some (path gpa) then .fault else (nodeAt s root (path gpa)).elim .fault .page := by
  intro l
  induction l with
  | zero =>
    intro p e hpath hn hnp
    simp only [pathFrom, List.append_nil] at hpath
    subst hpath
    refine ⟨by simp [hwWalk], ?_⟩
    rw [if_neg (hnp rfl), hn]
    simp [hwWalk, vmmPhysToVirt_eq]
  | succ l ih =>
    intro p e hpath hn _
    have hlen := pathFrom_below hpath
    have hpath' := pathFrom_next hpath
    have hpre : p ++ [tableIndex gpa (l + 1)] <+: path gpa := ⟨_, hpath'⟩
    have htab : ∃ q, q.length < 4 ∧ nodeAt s root q = some (e.extractLsb' 12 40) :=
      ⟨p, by omega, by rw [hn, vmmPhysToVirt_eq]⟩
    simp only [hwWalk, hwIndex_eq gpa (show l < 4 by omega)]
    rw [← vmmPhysToVirt_eq e]
    set e' := s.mem (vmmPhysToVirt e) (tableIndex gpa (l + 1)) with he'
    rw [← vmmPhysToVirt_eq e] at htab
    by_cases h0 : e' = 0
    · -- an empty slot: the hardware faults, and the path is not populated
      have hno : nodeAt s root (path gpa) = none := by
        cases hc : nodeAt s root (path gpa) with
        | none => rfl
        | some x =>
          obtain ⟨y, hy⟩ := nodeAt_prefix hpre hc
          rw [nodeAt_concat hn, ← he', h0, child_zero] at hy
          simp at hy
      have hperm : hwPermits acc e' = false := by rw [h0]; simp [hwPermits]
      simp only [hperm, hno, Bool.not_false, if_true]
      exact ⟨by simpa using htab, by simp⟩
    · have hl := hs.linked p _ _ (by omega) hn h0
      have hpr := hs.present p _ _ (by omega) hn h0
      rw [← he'] at hl hpr
      by_cases hb : e'.getLsbD 0 = true
      · have hperm : hwPermits acc e' = true := by rw [hl.permits, hb]
        have hnp' : np ≠ some (p ++ [tableIndex gpa (l + 1)]) := by
          intro h; rw [hpr.2 h] at hb; simp at hb
        have hn' : nodeAt s root (p ++ [tableIndex gpa (l + 1)]) = some (vmmPhysToVirt e') := by
          rw [nodeAt_concat hn]; exact child_eq_some.2 ⟨h0, rfl⟩
        obtain ⟨h1, h2⟩ := ih _ e' hpath' hn' (by
          intro hz; subst hz
          rwa [← hpath', pathFrom, List.append_nil])
        simp only [hperm, hl.pse, Bool.not_true, Bool.false_and, Bool.false_eq_true, if_false]
        refine ⟨?_, h2⟩
        intro t ht
        rcases List.mem_cons.1 ht with rfl | ht
        · exact htab
        · exact h1 t ht
      · -- the hidden entry, which is the last one of its path
        have hperm : hwPermits acc e' = false := by rw [hl.permits]; simpa using hb
        have hnp' := hpr.1 (by simpa using hb)
        have h4 := (hs.hidden _ hnp').1
        have heq := List.IsPrefix.eq_of_length hpre (by rw [h4, path_length])
        rw [heq] at hnp'
        simp only [hperm, hnp', Bool.not_false, if_true]
        exact ⟨by simpa using htab, trivial⟩

/-- The hardware's translation, from the root. -/
theorem hwTranslate_spec {ncr3 : Word} (hs : NptOK s (vmmPhysToVirt ncr3) np) (acc : Access) (gpa : Word) :
    hwTranslate s.mem ncr3 acc gpa =
      if np = some (path gpa) then .fault
      else (nodeAt s (vmmPhysToVirt ncr3) (path gpa)).elim .fault .page :=
  (hwWalk_spec hs acc 4 [] ncr3 (pathFrom_four gpa) nodeAt_nil (by simp)).2

end Yakvm
