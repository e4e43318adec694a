import Yakvm.Proof.PageMap
import Yakvm.Spec.Threads

/-!
# Two page requests at once

`yakvm_vmm_npt_create` reads an entry, allocates and stores without a lock. Two calls whose
paths meet in an empty slot can both find it empty; the second store then hides the
table of the first.

* `solo_nptCreate`: a call left to itself is `yakvm_vmm_npt_create`.
* `Pc.step_spec`: what one step of a call does to the table.
* `Calls.Inv`: what every interleaving keeps when the slots the two paths share are filled.
* `lost_of_shared`: an interleaving that loses a page when one of them is not.
-/

namespace Yakvm

open Radix

variable {s s' : Phys} {root n f t : Frame} {np : Option (List Slot)} {p q w : List Slot} {gpa : Word}

/-! ## A call by itself -/

theorem Pc.solo_append (a b : List (Option Frame)) (x : Pc × Phys) :
    Pc.solo gpa (a ++ b) x = Pc.solo gpa b (Pc.solo gpa a x) := List.foldl_append

theorem Pc.enter_succ (l : ℕ) (e : Word) : Pc.enter (l + 1) e = .load (l + 1) e := by
  unfold Pc.enter PT
  rw [if_pos (by omega)]

theorem Pc.next_succ (l : ℕ) {e : Word} (h : nptAssert e = true) : Pc.next (l + 1) e = .enter l e := by
  unfold Pc.next
  rw [if_pos h, Nat.add_sub_cancel]

/-- The steps that follow a load from an empty slot, when the allocation succeeds. -/
theorem Pc.solo_link (gpa : Word) (l : ℕ) (e : Word) {s : Phys} (h0 : s.mem (vmmPhysToVirt e) (tableIndex gpa (l + 1)) = 0)
    (hf : f ∉ s.pages) :
    Pc.solo gpa [none, some f, none] (.enter (l + 1) e, s) =
      (.enter l (newEntry f),
        (s.grab f).store (vmmPhysToVirt e) (tableIndex gpa (l + 1)) (newEntry f)) := by
  rw [Pc.enter_succ]
  simp only [Pc.solo, List.foldl_cons, List.foldl_nil, Pc.step, h0, if_true, Phys.allocPage_fresh hf,
    Pc.next_succ l (newEntry_assert f)]
  rfl

/-- A call by itself runs through one level as `nptLevel` does. -/
theorem solo_nptLevel (gpa : Word) (l : ℕ) (ask : Option Frame) (e : Word) (s : Phys) :
    (∃ c s', nptLevel gpa (l + 1) ask e s = .ok (some c, s') ∧
      ∃ answers, Pc.solo gpa answers (.enter (l + 1) e, s) = (.enter l c.entry, s')) ∨
    (nptLevel gpa (l + 1) ask e s = .ok (none, s) ∧
      ∃ answers, Pc.solo gpa answers (.enter (l + 1) e, s) = (.failed, s)) ∨
    (nptLevel gpa (l + 1) ask e s = .error .panic ∧
      ∃ answers, Pc.solo gpa answers (.enter (l + 1) e, s) = (.panicked, s)) := by
  unfold nptLevel
  simp only
  by_cases h0 : s.mem (vmmPhysToVirt e) (tableIndex gpa (l + 1)) = 0
  · rw [if_pos h0]
    cases ha : s.allocPage ask with
    | none =>
      refine Or.inr (Or.inl ⟨rfl, [none, ask], ?_⟩)
      rw [Pc.enter_succ]
      simp only [Pc.solo, List.foldl_cons, List.foldl_nil, Pc.step, h0, if_true, ha]
    | some r =>
      obtain ⟨f, s₁⟩ := r
      obtain ⟨-, hf, rfl⟩ := Phys.allocPage_some ha
      simp only [newEntry_assert, if_true]
      exact Or.inl ⟨_, _, rfl, _, Pc.solo_link gpa l e h0 hf⟩
  · rw [if_neg h0]
    have hstep : Pc.solo gpa [none] (.enter (l + 1) e, s) =
        (.next (l + 1) (s.mem (vmmPhysToVirt e) (tableIndex gpa (l + 1))), s) := by
      rw [Pc.enter_succ]
      simp only [Pc.solo, List.foldl_cons, List.foldl_nil, Pc.step, if_neg h0]
    by_cases hb : nptAssert (s.mem (vmmPhysToVirt e) (tableIndex gpa (l + 1))) = true
    · rw [if_pos hb]
      rw [Pc.next_succ l hb] at hstep
      exact Or.inl ⟨_, _, rfl, _, hstep⟩
    · rw [if_neg hb]
      simp only [Pc.next, if_neg hb] at hstep
      exact Or.inr (Or.inr ⟨rfl, _, hstep⟩)

/-- The outcome of a call, as the place where its steps stop. -/
def outcome : Except Crash (Except Errno Word × Phys) → Pc
  | .ok (.ok page, _) => .done page
  | .ok (.error _, _) => .failed
  | .error _ => .panicked

/-- A state of the machine has stopped the way the loop did. -/
def Stopped (x : Pc × Phys) : Except Crash (Option Cursor × Phys) → Prop
  | .ok (some c, s) => x = (.done (pfnToPage c.entry), s)
  | .ok (none, s) => x = (.failed, s)
  | .error _ => x.1 = .panicked

theorem solo_nptLoop (gpa : Word) (ask : ℕ → Option Frame) (l : ℕ) : ∀ (c : Cursor) (s : Phys),
    ∃ answers, Stopped (Pc.solo gpa answers (.enter l c.entry, s)) (nptLoop gpa ask l c s) := by
  induction l with
  | zero => intro c s; exact ⟨[], rfl⟩
  | succ l ih =>
    intro c s
    simp only [nptLoop]
    rcases solo_nptLevel gpa l (ask (l + 1)) c.entry s with
      ⟨c₁, s₁, he, a, ha⟩ | ⟨he, a, ha⟩ | ⟨he, a, ha⟩
    · obtain ⟨b, hb⟩ := ih c₁ s₁
      refine ⟨a ++ b, ?_⟩
      simp only [he, Pc.solo_append, ha]
      exact hb
    · exact ⟨a, by simp only [he]; exact ha⟩
    · exact ⟨a, by simp only [he, Stopped, ha]⟩

/-- **A call left to itself is `yakvm_vmm_npt_create`**: some answers to its steps make it
stop with the same outcome, in the same memory if the call returns. -/
theorem solo_nptCreate (ncr3 : Word) (gpa : Word) (ask : ℕ → Option Frame) (s : Phys) :
    ∃ answers, (Pc.solo gpa answers (.enter PML4T ncr3, s)).1 = outcome (vmmNptCreate ncr3 gpa false ask s) ∧
      ∀ r s', vmmNptCreate ncr3 gpa false ask s = .ok (r, s') →
        (Pc.solo gpa answers (.enter PML4T ncr3, s)).2 = s' := by
  obtain ⟨answers, h⟩ := solo_nptLoop gpa ask PML4T ⟨ncr3, 0, 0⟩ s
  refine ⟨answers, ?_⟩
  unfold vmmNptCreate
  cases hl : nptLoop gpa ask PML4T ⟨ncr3, 0, 0⟩ s with
  | error e =>
    rw [hl] at h
    exact ⟨h, by simp⟩
  | ok x =>
    obtain ⟨_ | c, s₁⟩ := x
    · rw [hl] at h
      simp only [Stopped] at h
      exact ⟨by rw [h]; rfl, by rintro r s' ⟨⟩; rw [h]⟩
    · rw [hl] at h
      simp only [Stopped] at h
      exact ⟨by rw [h]; rfl, by rintro r s' ⟨⟩; rw [h]; rfl⟩

/-! ## One step of a call -/

/-- The call for `gpa` is about to fill the slot at the end of `p`, at `level`. -/
structure Facing (s : Phys) (root : Frame) (gpa : Word) (level : ℕ) (t : Frame) (p : List Slot) : Prop where
  route : p ++ pathFrom gpa level = path gpa
  pos : 0 < level
  node : nodeAt s root p = some t
  empty : s.mem t (tableIndex gpa level) = 0

/-- An allocated page that is in no table yet. -/
structure Pending (s : Phys) (root f : Frame) : Prop where
  live : f ∈ s.pages
  zero : s.mem f = 0
  away : ∀ q, q.length ≤ 4 → nodeAt s root q ≠ some f

/-- What the table has to say about a call: the variables of the call agree with it. -/
def Pc.At (s : Phys) (root : Frame) (np : Option (List Slot)) (gpa : Word) : Pc → Prop
  | .load level entry => ∃ p, p ++ pathFrom gpa level = path gpa ∧ 0 < level ∧
      nodeAt s root p = some (vmmPhysToVirt entry)
  | .alloc level table => ∃ p, Facing s root gpa level table p
  | .store level table page => (∃ p, Facing s root gpa level table p) ∧ Pending s root page
  | .done page => np ≠ some (path gpa) ∧ ∃ f : Frame, page = f.setWidth 64 ∧ nodeAt s root (path gpa) = some f
  | .failed => True
  | .panicked => True

/-- The page a call has allocated and not yet stored. -/
def Pc.pending : Pc → Option Frame
  | .store _ _ page => some page
  | _ => none

theorem Facing.length {level : ℕ} (h : Facing s root gpa level t p) : p.length + level = 4 := pathFrom_below h.route

theorem path_snoc {level : ℕ} (h : p ++ pathFrom gpa level = path gpa) (hl : 0 < level) :
    p ++ [tableIndex gpa level] ++ pathFrom gpa (level - 1) = path gpa := by
  obtain ⟨l, rfl⟩ : ∃ l, level = l + 1 := ⟨level - 1, by omega⟩
  rw [← h]
  simp [pathFrom]

/-- Where the slots of the lower levels stand in a path. -/
theorem path_split (gpa : Word) : ∀ l ≤ 4, ∃ a : List Slot, a.length + l = 4 ∧ a ++ pathFrom gpa l = path gpa := by
  intro l hl
  refine ⟨(path gpa).take (4 - l), by simp [path_length]; omega, ?_⟩
  interval_cases l <;> rfl

/-- After the assertion the call stands one level lower, or has its page. -/
theorem Pc.At.next {level : ℕ} {e : Word} (hs : NptOK s root np) (hp : p ++ pathFrom gpa level = path gpa)
    (hl : 0 < level) (hn : nodeAt s root p = some t) (hm : s.mem t (tableIndex gpa level) = e) (h0 : e ≠ 0) :
    (Pc.next level e).At s root np gpa := by
  have hlen := pathFrom_below hp
  have hlink := hs.linked p t (tableIndex gpa level) (by omega) hn (by rw [hm]; exact h0)
  have hpres := hs.present p t (tableIndex gpa level) (by omega) hn (by rw [hm]; exact h0)
  rw [hm] at hlink hpres
  have hnode : nodeAt s root (p ++ [tableIndex gpa level]) = some (vmmPhysToVirt e) := by
    rw [nodeAt_concat hn, hm]
    exact hlink.child
  have hpath := path_snoc hp hl
  unfold Pc.next
  by_cases ha : nptAssert e = true
  · rw [if_pos ha]
    unfold Pc.enter PT
    by_cases h1 : 1 ≤ level - 1
    · rw [if_pos h1]
      exact ⟨_, hpath, by omega, hnode⟩
    · rw [if_neg h1]
      rw [show level - 1 = 0 by omega, pathFrom, List.append_nil] at hpath
      rw [hpath] at hnode hpres
      refine ⟨fun h => ?_, vmmPhysToVirt e, hlink.pfn, hnode⟩
      have := hlink.assert_iff.1 ha
      rw [hpres.2 h] at this
      simp at this
  · rw [if_neg ha]
    trivial

/-- The effects a step can have on the memory. -/
inductive Effect (root : Frame) (w : List Slot) (s : Phys) (pc : Pc) : Pc → Phys → Prop
  | read {pc' : Pc} : pc.pending = none → pc'.pending = none → Effect root w s pc pc' s
  | grab {pc' : Pc} {f : Frame} : f ∉ s.pages → pc.pending = none → pc'.pending = some f →
      Effect root w s pc pc' (s.grab f)
  | attach {pc' : Pc} {f : Frame} {q : List Slot} {s' : Phys} : q ≠ [] → q <+: w → Attach root s q f s' →
      pc.pending = some f → pc'.pending = none → Effect root w s pc pc' s'

theorem Pc.next_pending (level : ℕ) (e : Word) : (Pc.next level e).pending = none := by
  unfold Pc.next Pc.enter
  split
  · split <;> rfl
  · rfl

/-- **What one step does.** The call's variables still agree with the table, and the step
reads, allocates, or attaches the page allocated before to a slot on the call's path. -/
theorem Pc.step_spec (hs : NptOK s root np) {pc : Pc} (h : pc.At s root np gpa) (ans : Option Frame) :
    Effect root (path gpa) s pc (pc.step gpa ans s).1 (pc.step gpa ans s).2 ∧
      (NptOK (pc.step gpa ans s).2 root np → (pc.step gpa ans s).1.At (pc.step gpa ans s).2 root np gpa) := by
  cases pc with
  | load level e =>
    obtain ⟨p, hp, hl, hn⟩ := h
    simp only [Pc.step]
    by_cases h0 : s.mem (vmmPhysToVirt e) (tableIndex gpa level) = 0
    · rw [if_pos h0]
      exact ⟨.read rfl rfl, fun _ => ⟨p, hp, hl, hn, h0⟩⟩
    · rw [if_neg h0]
      exact ⟨.read rfl (Pc.next_pending _ _), fun _ => Pc.At.next hs hp hl hn rfl h0⟩
  | alloc level table =>
    obtain ⟨p, hface⟩ := h
    simp only [Pc.step]
    cases ha : s.allocPage ans with
    | none => exact ⟨.read rfl rfl, fun _ => trivial⟩
    | some r =>
      obtain ⟨f, s₁⟩ := r
      obtain ⟨-, hf, hs₁⟩ := Phys.allocPage_some ha
      obtain rfl : s₁ = s.grab f := hs₁
      obtain ⟨-, heq⟩ := hs.grab hf
      have hlen := hface.length
      have hlv := hface.pos
      have htf : table ≠ f := fun h => hs.not_node hf (show p.length ≤ 4 by omega) (h ▸ hface.node)
      refine ⟨.grab hf rfl rfl, fun _ => ⟨⟨p, hface.route, hlv, ?_, ?_⟩, Finset.mem_insert_self _ _, ?_, ?_⟩⟩
      · rw [heq p (by omega)]; exact hface.node
      · rw [grab_mem_ne s htf]; exact hface.empty
      · funext j; exact grab_mem_same s f j
      · intro q hq
        rw [heq q hq]
        exact hs.not_node hf hq
  | store level table page =>
    obtain ⟨⟨p, hface⟩, hpend⟩ := h
    have hlen := hface.length
    have hlv := hface.pos
    have hatt : Attach root s (p ++ [tableIndex gpa level]) page
        (s.store table (tableIndex gpa level) (newEntry page)) :=
      ⟨⟨p, table, _, rfl, by omega, hface.node, hface.empty, rfl⟩, hpend.live, hpend.away, hpend.zero⟩
    simp only [Pc.step]
    refine ⟨.attach (by simp) ⟨_, path_snoc hface.route hlv⟩ hatt rfl (Pc.next_pending _ _), fun hs' => ?_⟩
    refine Pc.At.next hs' hface.route hlv ?_ (Phys.store_same _ _ _ _) (newEntry_linked page).ne_zero
    rw [hatt.nodeAt hs p (by omega), if_neg (by simp)]
    exact hface.node
  | done page => exact ⟨.read rfl rfl, fun _ => h⟩
  | failed => exact ⟨.read rfl rfl, fun _ => trivial⟩
  | panicked => exact ⟨.read rfl rfl, fun _ => trivial⟩

theorem Effect.ok {pc pc' : Pc} (hs : NptOK s root np) (h : Effect root w s pc pc' s') : NptOK s' root np := by
  cases h with
  | read => exact hs
  | grab hf => exact (hs.grab hf).1
  | attach _ _ ha => exact ha.ok hs

/-- Populated paths stay populated. -/
theorem Effect.mono {pc pc' : Pc} (hs : NptOK s root np) (h : Effect root w s pc pc' s') (hq : q.length ≤ 4)
    (hn : nodeAt s root q = some n) : nodeAt s' root q = some n := by
  cases h with
  | read => exact hn
  | grab hf => rw [(hs.grab hf).2 q hq]; exact hn
  | attach _ _ ha =>
    rw [ha.nodeAt hs q hq, if_neg (fun h => by have := ha.empty; rw [← h, hn] at this; simp at this)]
    exact hn

/-! ## Calls that do not meet -/

section Other

variable {pc pc₁ pc₁' : Pc}

/-- A step of another call leaves the slot that a call faces empty, if the paths of the
two meet in filled slots only. -/
theorem Facing.other {level : ℕ} (hs : NptOK s root np) (h : Effect root w s pc₁ pc₁' s')
    (hoff : ∀ q, q ≠ [] → q <+: w → q <+: path gpa → nodeAt s root q ≠ none)
    (hf : Facing s root gpa level t p) : Facing s' root gpa level t p := by
  have hlen := hf.length
  have hpos := hf.pos
  refine ⟨hf.route, hpos, h.mono hs (by omega) hf.node, ?_⟩
  cases h with
  | read => exact hf.empty
  | @grab f hfree =>
    have htf : t ≠ f := fun h => hs.not_node hfree (show p.length ≤ 4 by omega) (h ▸ hf.node)
    rw [grab_mem_ne s htf]
    exact hf.empty
  | attach hq hqw ha =>
    have hempty := ha.empty
    obtain ⟨⟨p', n, i, rfl, hp', hn', -, rfl⟩, -⟩ := ha
    by_cases hsame : t = n ∧ tableIndex gpa level = i
    · -- the slot would be on both paths
      obtain ⟨rfl, rfl⟩ := hsame
      have hpp : p = p' := hs.tree p p' t (by omega) hp'.le hf.node hn'
      subst hpp
      exact absurd hempty (hoff _ hq hqw ⟨_, path_snoc hf.route hpos⟩)
    · rw [Phys.store_ne s _ (by tauto)]
      exact hf.empty

theorem Pending.other (hs : NptOK s root np) (h : Effect root w s pc₁ pc₁' s') (hne : pc₁.pending ≠ some f)
    (hf : Pending s root f) : Pending s' root f := by
  cases h with
  | read => exact hf
  | @grab g hfree =>
    obtain ⟨-, heq⟩ := hs.grab hfree
    have hfg : f ≠ g := fun h => hfree (h ▸ hf.live)
    refine ⟨Finset.mem_insert_of_mem hf.live, by rw [grab_mem_ne s hfg]; exact hf.zero, ?_⟩
    intro q hq
    rw [heq q hq]
    exact hf.away q hq
  | @attach g q₀ _ hq hqw ha hpend =>
    have hnode := ha.nodeAt hs
    have hgf : g ≠ f := fun h => hne (h ▸ hpend)
    obtain ⟨⟨p', n, i, -, hp', hn', -, rfl⟩, -⟩ := ha
    have hfn : f ≠ n := fun h => hf.away p' hp'.le (h ▸ hn')
    refine ⟨hf.live, by rw [Phys.store_other _ _ _ hfn]; exact hf.zero, ?_⟩
    intro q hq
    rw [hnode q hq]
    split
    · intro h; exact hgf (Option.some.inj h)
    · exact hf.away q hq

/-- **Non-interference.** A step of one call keeps what the table says about the other. -/
theorem Pc.At.other (hs : NptOK s root np) (h : Effect root w s pc₁ pc₁' s')
    (hoff : ∀ q, q ≠ [] → q <+: w → q <+: path gpa → nodeAt s root q ≠ none)
    (hne : ∀ f, pc.pending = some f → pc₁.pending ≠ some f)
    (hat : pc.At s root np gpa) : pc.At s' root np gpa := by
  cases pc with
  | load level e =>
    obtain ⟨p, hp, hl, hn⟩ := hat
    have hlen := pathFrom_below hp
    exact ⟨p, hp, hl, h.mono hs (by omega) hn⟩
  | alloc level table =>
    obtain ⟨p, hf⟩ := hat
    exact ⟨p, hf.other hs h hoff⟩
  | store level table page =>
    obtain ⟨⟨p, hf⟩, hpend⟩ := hat
    exact ⟨⟨p, hf.other hs h hoff⟩, hpend.other hs h (hne page rfl)⟩
  | done page =>
    obtain ⟨hnp, f, hf, hn⟩ := hat
    exact ⟨hnp, f, hf, h.mono hs (path_length _).le hn⟩
  | failed => trivial
  | panicked => trivial

end Other

/-- Every slot that the paths of the two calls share is filled. -/
def SharedFilled (s : Phys) (root : Frame) (gpa : Bool → Word) : Prop :=
  ∀ q, q ≠ [] → q <+: path (gpa false) → q <+: path (gpa true) → nodeAt s root q ≠ none

/-- What an interleaving keeps, from the memory `s₀` on. -/
structure Calls.Inv (s₀ : Phys) (root : Frame) (np : Option (List Slot)) (gpa : Bool → Word) (c : Calls) :
    Prop where
  ok : NptOK c.phys root np
  mono : ∀ q n, q.length ≤ 4 → nodeAt s₀ root q = some n → nodeAt c.phys root q = some n
  agree : ∀ b, (c.pc b).At c.phys root np (gpa b)
  apart : ∀ b b' f, b ≠ b' → (c.pc b).pending = some f → (c.pc b').pending ≠ some f
  cover : ∀ f ∈ c.phys.pages, f ∉ s₀.pages →
    (∃ q, q.length ≤ 4 ∧ nodeAt c.phys root q = some f) ∨ ∃ b, (c.pc b).pending = some f

theorem Pc.At.pending_live {pc : Pc} (h : pc.At s root np gpa) (hf : pc.pending = some f) : f ∈ s.pages := by
  cases pc with
  | store level table page =>
    obtain rfl : page = f := by simpa [Pc.pending] using hf
    exact h.2.live
  | _ => simp [Pc.pending] at hf

theorem SharedFilled.off {s₀ : Phys} {gpa : Bool → Word} {c : Calls} (h : SharedFilled s₀ root gpa)
    (hc : c.Inv s₀ root np gpa) {b b' : Bool} (hb : b ≠ b') :
    ∀ q, q ≠ [] → q <+: path (gpa b) → q <+: path (gpa b') → nodeAt c.phys root q ≠ none := by
  intro q hq h1 h2
  have h0 : nodeAt s₀ root q ≠ none := by
    cases b <;> cases b'
    · exact absurd rfl hb
    · exact h q hq h1 h2
    · exact h q hq h2 h1
    · exact absurd rfl hb
  obtain ⟨n, hn⟩ := Option.ne_none_iff_exists'.1 h0
  rw [hc.mono q n (by have := h1.length_le; rwa [path_length] at this) hn]
  simp

/-- A page that becomes pending was free, so it is pending nowhere else. -/
theorem Calls.Inv.new_pending {s₀ : Phys} {gpa : Bool → Word} {c : Calls} {b b' : Bool} {pc' : Pc}
    (hc : c.Inv s₀ root np gpa) (h : Effect root w c.phys (c.pc b) pc' s') (hf : pc'.pending = some f) :
    (c.pc b').pending ≠ some f := by
  intro hb'
  cases h with
  | read _ h2 => rw [h2] at hf; simp at hf
  | grab hfree _ h2 =>
    obtain rfl := Option.some.inj (h2.symm.trans hf)
    exact hfree ((hc.agree b').pending_live hb')
  | attach _ _ _ _ h2 => rw [h2] at hf; simp at hf

/-- A new page is pending or in the table, and stays so. -/
theorem Calls.Inv.covered {s₀ : Phys} {gpa : Bool → Word} {c : Calls} {b : Bool} {pc' : Pc}
    (hc : c.Inv s₀ root np gpa) (h : Effect root w c.phys (c.pc b) pc' s') (hf : f ∈ s'.pages)
    (hf0 : f ∉ s₀.pages) :
    (∃ q, q.length ≤ 4 ∧ nodeAt s' root q = some f) ∨
      ∃ b', (Function.update c.pc b pc' b').pending = some f := by
  have hold : f ∈ c.phys.pages → (c.pc b).pending ≠ some f →
      (∃ q, q.length ≤ 4 ∧ nodeAt s' root q = some f) ∨
        ∃ b', (Function.update c.pc b pc' b').pending = some f := by
    intro hin hnp
    rcases hc.cover f hin hf0 with ⟨q, hq, hn⟩ | ⟨b', hb'⟩
    · exact Or.inl ⟨q, hq, h.mono hc.ok hq hn⟩
    · have hb : b' ≠ b := by rintro rfl; exact hnp hb'
      exact Or.inr ⟨b', by rw [Function.update_of_ne hb]; exact hb'⟩
  cases h with
  | read h1 _ => exact hold hf (by rw [h1]; simp)
  | @grab g hfree h1 h2 =>
    rcases Finset.mem_insert.1 hf with rfl | hin
    · exact Or.inr ⟨b, by rw [Function.update_self]; exact h2⟩
    · exact hold hin (by rw [h1]; simp)
  | @attach g q _ _ _ ha h1 _ =>
    by_cases hgf : g = f
    · -- the page attached by this step
      subst hgf
      exact Or.inl ⟨q, ha.length, by rw [ha.nodeAt hc.ok q ha.length, if_pos rfl]⟩
    · refine hold ?_ (by rw [h1]; intro h; exact hgf (Option.some.inj h))
      obtain ⟨⟨p', n, i, -, -, -, -, rfl⟩, -⟩ := ha
      exact hf

/-- **One step of an interleaving.** -/
theorem Calls.Inv.step {s₀ : Phys} {gpa : Bool → Word} {c : Calls} (hsh : SharedFilled s₀ root gpa)
    (hc : c.Inv s₀ root np gpa) (x : Bool × Option Frame) : (c.step gpa x).Inv s₀ root np gpa := by
  obtain ⟨b, ans⟩ := x
  obtain ⟨heff, hat⟩ := Pc.step_spec hc.ok (hc.agree b) ans
  unfold Calls.step
  simp only
  generalize ((c.pc b).step (gpa b) ans c.phys).1 = pc' at heff hat ⊢
  generalize ((c.pc b).step (gpa b) ans c.phys).2 = s' at heff hat ⊢
  refine ⟨heff.ok hc.ok, fun q n hq hn => heff.mono hc.ok hq (hc.mono q n hq hn), ?_, ?_,
    fun f hf hf0 => hc.covered heff hf hf0⟩
  · intro b'
    by_cases hb : b' = b
    · subst hb
      simp only [Function.update_self]
      exact hat (heff.ok hc.ok)
    · simp only [Function.update_of_ne hb]
      exact (hc.agree b').other hc.ok heff (hsh.off hc (Ne.symm hb)) (fun f hf => hc.apart b' b f hb hf)
  · intro b₁ b₂ f hne h1
    by_cases hb1 : b₁ = b
    · subst hb1
      simp only [Function.update_self, Function.update_of_ne (Ne.symm hne)] at h1 ⊢
      exact hc.new_pending heff h1
    · simp only [Function.update_of_ne hb1] at h1
      by_cases hb2 : b₂ = b
      · subst hb2
        simp only [Function.update_self]
        exact fun h2 => hc.new_pending heff h2 h1
      · simp only [Function.update_of_ne hb2]
        exact hc.apart b₁ b₂ f hne h1

/-- **Every interleaving** keeps the invariant. -/
theorem Calls.Inv.run {s₀ : Phys} {gpa : Bool → Word} (hsh : SharedFilled s₀ root gpa)
    (sched : List (Bool × Option Frame)) :
    ∀ c : Calls, c.Inv s₀ root np gpa → (c.run gpa sched).Inv s₀ root np gpa := by
  induction sched with
  | nil => intro c hc; exact hc
  | cons x sched ih => intro c hc; exact ih _ (hc.step hsh x)

theorem Calls.Inv.start {ncr3 : Word} (gpa : Bool → Word) (hs : NptOK s (vmmPhysToVirt ncr3) np) :
    (Calls.start ncr3 s).Inv s (vmmPhysToVirt ncr3) np gpa := by
  have hpc : ∀ b, (Calls.start ncr3 s).pc b = .load 4 ncr3 := fun _ => rfl
  refine ⟨hs, fun _ _ _ h => h, ?_, ?_, fun f hf hf0 => absurd hf hf0⟩
  · intro b
    rw [hpc]
    exact ⟨[], pathFrom_four _, by omega, nodeAt_nil⟩
  · intro b b' f _ h
    rw [hpc] at h
    simp [Pc.pending] at h

/-- **No mapping is lost**: whenever both calls have returned a page, in whatever order
their steps were taken, the hardware translates the address of each call to the page it
returned, and every page they allocated is in the table. -/
def NoLoss (ncr3 : Word) (gpa : Bool → Word) (s : Phys) : Prop :=
  ∀ sched c, (Calls.start ncr3 s).run gpa sched = c → ∀ page : Bool → Word, (∀ b, c.pc b = .done (page b)) →
    (∀ b, ∃ f : Frame, page b = f.setWidth 64 ∧ ∀ acc, hwTranslate c.phys.mem ncr3 acc (gpa b) = .page f) ∧
    (∀ f ∈ c.phys.pages, f ∉ s.pages → ∃ q, q.length ≤ 4 ∧ nodeAt c.phys (vmmPhysToVirt ncr3) q = some f)

/-- Calls that meet in filled slots only lose nothing. -/
theorem noLoss_of_sharedFilled {ncr3 : Word} {gpa : Bool → Word} (hs : NptOK s (vmmPhysToVirt ncr3) np)
    (hsh : SharedFilled s (vmmPhysToVirt ncr3) gpa) : NoLoss ncr3 gpa s := by
  intro sched c hrun page hdone
  have hc : c.Inv s (vmmPhysToVirt ncr3) np gpa := by
    rw [← hrun]
    exact Calls.Inv.run hsh sched _ (Calls.Inv.start gpa hs)
  refine ⟨?_, ?_⟩
  · intro b
    have hat := hc.agree b
    rw [hdone b] at hat
    obtain ⟨hnp, f, hf, hn⟩ := hat
    refine ⟨f, hf, fun acc => ?_⟩
    rw [hwTranslate_spec hc.ok, if_neg hnp, hn]
    rfl
  · intro f hf hf0
    rcases hc.cover f hf hf0 with h | ⟨b, hb⟩
    · exact h
    · rw [hdone b] at hb
      simp [Pc.pending] at hb

/-! ## Calls that meet -/

/-- While fewer than `2^40` pages are in use, one is free. -/
theorem exists_free (h : s.pages.card < 2 ^ 40) : ∃ f, f ∉ s.pages := by
  by_contra hall
  push Not at hall
  have hle : (Finset.range (2 ^ 40)).card ≤ s.pages.card := by
    apply Finset.card_le_card_of_injOn (BitVec.ofNat 40)
    · intro a _
      exact hall _
    · intro a ha b hb hab
      have := congrArg BitVec.toNat hab
      simp only [Finset.coe_range, Set.mem_Iio] at ha hb
      rwa [BitVec.toNat_ofNat, BitVec.toNat_ofNat, Nat.mod_eq_of_lt ha, Nat.mod_eq_of_lt hb] at this
  rw [Finset.card_range] at hle
  omega

/-- A call that has come to an empty table can finish, and writes only that table and
pages that were free. -/
theorem solo_complete (gpa : Word) : ∀ (l : ℕ) (e : Word) (s : Phys), s.mem (vmmPhysToVirt e) = 0 →
    vmmPhysToVirt e ∈ s.pages → s.pages.card + l ≤ 2 ^ 40 →
    ∃ answers page s', Pc.solo gpa answers (.enter l e, s) = (.done page, s') ∧ s.pages ⊆ s'.pages ∧
      s'.pages.card ≤ s.pages.card + l ∧ ∀ g ∈ s.pages, g ≠ vmmPhysToVirt e → s'.mem g = s.mem g := by
  intro l
  induction l with
  | zero => intro e s _ _ _; exact ⟨[], _, s, rfl, subset_rfl, le_rfl, fun _ _ _ => rfl⟩
  | succ l ih =>
    intro e s h0 hin hcard
    set t := vmmPhysToVirt e with ht
    obtain ⟨f, hf⟩ := exists_free (s := s) (by omega)
    have hft : f ≠ t := fun h => hf (h ▸ hin)
    have hlink := Pc.solo_link gpa l e (by rw [← ht, h0]; rfl) hf
    rw [← ht] at hlink
    set s₁ := (s.grab f).store t (tableIndex gpa (l + 1)) (newEntry f) with hs₁
    have hcard₁ : s₁.pages.card = s.pages.card + 1 := Finset.card_insert_of_notMem hf
    have hzero : s₁.mem (vmmPhysToVirt (newEntry f)) = 0 := by
      rw [vmmPhysToVirt_newEntry, hs₁, Phys.store_other _ _ _ hft]
      funext j
      exact grab_mem_same s f j
    obtain ⟨a, page, s', hrun, hsub, hc, hmem⟩ := ih (newEntry f) s₁ hzero
      (by rw [vmmPhysToVirt_newEntry]; exact Finset.mem_insert_self _ _) (by omega)
    have hsub₁ : s.pages ⊆ s₁.pages := Finset.subset_insert _ _
    refine ⟨_ ++ a, page, s', by rw [Pc.solo_append, hlink, hrun], hsub₁.trans hsub, by omega, ?_⟩
    intro g hg hgt
    have hgf : g ≠ f := fun h => hf (h ▸ hg)
    rw [hmem g (hsub₁ hg) (by rwa [vmmPhysToVirt_newEntry]), hs₁, Phys.store_other _ _ _ hgt, grab_mem_ne s hgf]

/-- A call comes to any table that is on its path. -/
theorem solo_descend {ncr3 : Word} (hs : NptOK s (vmmPhysToVirt ncr3) np) (p : List Slot) :
    ∀ (l : ℕ) (t : Frame), p ++ pathFrom gpa (l + 1) = path gpa → nodeAt s (vmmPhysToVirt ncr3) p = some t →
    ∃ answers e, Pc.solo gpa answers (.enter PML4T ncr3, s) = (.enter (l + 1) e, s) ∧ vmmPhysToVirt e = t := by
  induction p using List.reverseRecOn with
  | nil =>
    intro l t hp hn
    have hl : l + 1 = 4 := by simpa using pathFrom_below hp
    exact ⟨[], ncr3, by rw [hl]; rfl, Option.some.inj hn⟩
  | append_singleton p i ih =>
    intro l t hp hn
    have hlen : p.length + 1 + (l + 1) = 4 := by simpa using pathFrom_below hp
    obtain ⟨a, ha, hpre⟩ := path_split gpa (l + 2) (by omega)
    obtain ⟨rfl, hi⟩ : a = p ∧ pathFrom gpa (l + 2) = i :: pathFrom gpa (l + 1) := by
      have : a ++ pathFrom gpa (l + 2) = p ++ (i :: pathFrom gpa (l + 1)) := by
        rw [hpre, ← hp]; simp
      exact List.append_inj this (by omega)
    obtain rfl : tableIndex gpa (l + 2) = i := (List.cons.inj hi).1
    obtain ⟨x, hx, h0, rfl⟩ := nodeAt_concat_inv hn
    obtain ⟨b, e, hb, rfl⟩ := ih (l + 1) x hpre hx
    -- only a leaf entry can be hidden, and this one leads to a table
    have hassert : nptAssert (s.mem (vmmPhysToVirt e) (tableIndex gpa (l + 2))) = true := by
      rw [(hs.linked a _ _ (by omega) hx h0).assert_iff]
      by_contra hcon
      have hnp := (hs.present a _ _ (by omega) hx h0).1 (by simpa using hcon)
      have := (hs.hidden _ hnp).1
      simp only [List.length_append, List.length_cons, List.length_nil] at this
      omega
    refine ⟨b ++ [none], _, ?_, rfl⟩
    rw [Pc.solo_append, hb, Pc.enter_succ]
    simp only [Pc.solo, List.foldl_cons, List.foldl_nil, Pc.step, if_neg h0, Pc.next_succ (l + 1) hassert]

/-- A call comes to an empty slot on its path and asks for a page. -/
theorem solo_face {ncr3 : Word} {l : ℕ} (hs : NptOK s (vmmPhysToVirt ncr3) np)
    (hf : Facing s (vmmPhysToVirt ncr3) gpa (l + 1) t p) :
    ∃ answers, Pc.solo gpa answers (.enter PML4T ncr3, s) = (.alloc (l + 1) t, s) := by
  obtain ⟨a, e, ha, rfl⟩ := solo_descend hs p l t hf.route hf.node
  refine ⟨a ++ [none], ?_⟩
  rw [Pc.solo_append, ha, Pc.enter_succ]
  simp only [Pc.solo, List.foldl_cons, List.foldl_nil, Pc.step, hf.empty, if_true]

/-- An allocated page that no path leads to. -/
structure Stray (s : Phys) (root m : Frame) : Prop where
  live : m ∈ s.pages
  away : ∀ q, q.length ≤ 4 → nodeAt s root q ≠ some m

/-- A stray page stays one while a call that does not hold it runs. -/
theorem solo_stray {m : Frame} (answers : List (Option Frame)) : ∀ (pc : Pc) (s : Phys), NptOK s root np →
    pc.At s root np gpa → pc.pending ≠ some m → Stray s root m →
    NptOK (Pc.solo gpa answers (pc, s)).2 root np ∧ Stray (Pc.solo gpa answers (pc, s)).2 root m := by
  induction answers with
  | nil => intro pc s hs _ _ hm; exact ⟨hs, hm⟩
  | cons ans answers ih =>
    intro pc s hs hat hne hm
    obtain ⟨heff, hat'⟩ := Pc.step_spec hs hat ans
    simp only [Pc.solo, List.foldl_cons]
    generalize pc.step gpa ans s = x at heff hat' ⊢
    obtain ⟨pc', s'⟩ := x
    simp only at heff hat'
    have hs' := heff.ok hs
    refine ih pc' s' hs' (hat' hs') ?_ ?_
    · cases heff with
      | read _ h2 => rw [h2]; simp
      | grab hfree _ h2 => rw [h2]; exact fun h => hfree (Option.some.inj h ▸ hm.live)
      | attach _ _ _ _ h2 => rw [h2]; simp
    · cases heff with
      | read => exact hm
      | grab hfree =>
        refine ⟨Finset.mem_insert_of_mem hm.live, fun q hq => ?_⟩
        rw [(hs.grab hfree).2 q hq]
        exact hm.away q hq
      | @attach g q₀ _ _ _ ha h1 =>
        refine ⟨?_, fun q hq => ?_⟩
        · obtain ⟨⟨p', n, i, -, -, -, -, rfl⟩, -⟩ := ha
          exact hm.live
        · rw [ha.nodeAt hs q hq]
          split
          · exact fun h => hne (h ▸ h1)
          · exact hm.away q hq

/-- An interleaving leads from one configuration to another. -/
def Calls.Reaches (gpa : Bool → Word) (c c' : Calls) : Prop := ∃ sched, c.run gpa sched = c'

theorem Calls.Reaches.trans {gpa : Bool → Word} {c₁ c₂ c₃ : Calls} (h : Calls.Reaches gpa c₁ c₂)
    (h' : Calls.Reaches gpa c₂ c₃) : Calls.Reaches gpa c₁ c₃ := by
  obtain ⟨a, rfl⟩ := h
  obtain ⟨b, rfl⟩ := h'
  exact ⟨a ++ b, List.foldl_append⟩

/-- Let call `b` run alone. -/
theorem Calls.Reaches.solo (gpa : Bool → Word) (b : Bool) (answers : List (Option Frame)) :
    ∀ (c : Calls) (pc' : Pc) (s' : Phys), Pc.solo (gpa b) answers (c.pc b, c.phys) = (pc', s') →
    Calls.Reaches gpa c ⟨Function.update c.pc b pc', s'⟩ := by
  induction answers with
  | nil =>
    intro c pc' s' h
    refine ⟨[], ?_⟩
    obtain ⟨rfl, rfl⟩ := Prod.mk.inj h
    simp [Calls.run]
  | cons ans answers ih =>
    intro c pc' s' h
    have hstep : Calls.Reaches gpa c (c.step gpa (b, ans)) := ⟨[(b, ans)], rfl⟩
    refine hstep.trans ?_
    obtain ⟨sched, hs⟩ := ih (c.step gpa (b, ans)) pc' s' (by simpa [Calls.step, Pc.solo] using h)
    exact ⟨sched, by rw [hs]; simp [Calls.step]⟩

/-- A path that is not populated goes through a first empty slot. -/
theorem first_empty : ∀ q, nodeAt s root q = none →
    ∃ p i n, p ++ [i] <+: q ∧ nodeAt s root p = some n ∧ s.mem n i = 0 := by
  intro q
  induction q using List.reverseRecOn with
  | nil => intro h; simp [nodeAt_nil] at h
  | append_singleton q j ih =>
    intro h
    cases hq : nodeAt s root q with
    | none =>
      obtain ⟨p, i, n, hp, hn, h0⟩ := ih hq
      exact ⟨p, i, n, hp.trans (List.prefix_append _ _), hn, h0⟩
    | some n =>
      rw [nodeAt_concat hq] at h
      exact ⟨q, j, n, List.prefix_refl _, hq, child_eq_none.1 h⟩

theorem Facing.of_prefix {i : Slot} (h : p ++ [i] <+: path gpa) (hn : nodeAt s root p = some t)
    (h0 : s.mem t i = 0) : Facing s root gpa (3 - p.length + 1) t p ∧ tableIndex gpa (3 - p.length + 1) = i := by
  obtain ⟨r, hr⟩ := h
  have hlen : p.length + 1 + r.length = 4 := by
    have := congrArg List.length hr
    simp only [List.length_append, List.length_cons, List.length_nil, path_length] at this
    omega
  obtain ⟨a, ha, hpath⟩ := path_split gpa (3 - p.length + 1) (by omega)
  obtain ⟨rfl, hi⟩ : a = p ∧ pathFrom gpa (3 - p.length + 1) = i :: r := by
    have : a ++ pathFrom gpa (3 - p.length + 1) = p ++ (i :: r) := by
      rw [hpath, ← hr]; simp
    exact List.append_inj this (by omega)
  obtain rfl : tableIndex gpa (3 - a.length + 1) = i := (List.cons.inj hi).1
  exact ⟨⟨hpath, by omega, hn, h0⟩, rfl⟩

theorem Phys.store_store (s : Phys) (f : Frame) (i : Slot) (w w' : Word) :
    (s.store f i w).store f i w' = s.store f i w' := by
  unfold Phys.store
  simp

/-- Both calls have found the same slot empty; they allocate one after the other and then
store one after the other. The second store overwrites the first. -/
theorem Calls.collide {gpa : Bool → Word} {l : ℕ} {i : Slot} {m : Bool → Frame}
    (hi : ∀ b, tableIndex (gpa b) (l + 1) = i) (h0 : m false ∉ s.pages) (h1 : m true ∉ (s.grab (m false)).pages) :
    Calls.Reaches gpa ⟨fun _ => .alloc (l + 1) t, s⟩
      ⟨fun b => .enter l (newEntry (m b)), ((s.grab (m false)).grab (m true)).store t i (newEntry (m true))⟩ := by
  refine ⟨[(false, some (m false)), (true, some (m true)), (false, none), (true, none)], ?_⟩
  have ha0 : s.allocPage (some (m false)) = some (m false, s.grab (m false)) := Phys.allocPage_fresh h0
  have ha1 : (s.grab (m false)).allocPage (some (m true)) = some (m true, (s.grab (m false)).grab (m true)) :=
    Phys.allocPage_fresh h1
  have hnext : ∀ b, Pc.next (l + 1) (newEntry (m b)) = .enter l (newEntry (m b)) :=
    fun b => Pc.next_succ l (newEntry_assert _)
  simp only [Calls.run, List.foldl_cons, List.foldl_nil, Calls.step, Pc.step, ha0, ne_eq,
    not_false_eq_true, Function.update_of_ne, ha1, Function.update_self, Bool.false_eq_true,
    Bool.true_eq_false, hnext, hi, Phys.store_store]
  congr 1
  funext b
  cases b <;> simp

/-- Both calls come to a slot that both face, and find it empty. -/
theorem Calls.both_face {ncr3 : Word} {gpa : Bool → Word} {l : ℕ} (hs : NptOK s (vmmPhysToVirt ncr3) np)
    (hf : ∀ b, Facing s (vmmPhysToVirt ncr3) (gpa b) (l + 1) t p) :
    Calls.Reaches gpa (.start ncr3 s) ⟨fun _ => .alloc (l + 1) t, s⟩ := by
  obtain ⟨a₀, ha₀⟩ := solo_face hs (hf false)
  obtain ⟨a₁, ha₁⟩ := solo_face hs (hf true)
  refine (Calls.Reaches.solo gpa false a₀ (.start ncr3 s) _ _ ha₀).trans ?_
  obtain ⟨sched, hr⟩ := Calls.Reaches.solo gpa true a₁
    ⟨Function.update (Calls.start ncr3 s).pc false (.alloc (l + 1) t), s⟩ _ _ ha₁
  refine ⟨sched, hr.trans ?_⟩
  congr 1
  funext b
  cases b <;> simp

/-- After the collision: the page `m₁` of the second call is in the table and empty, the
page `m₀` of the first is empty and stray. -/
structure Collided (root : Frame) (np : Option (List Slot)) (gpa : Word) (l : ℕ) (m₀ m₁ : Frame) (s : Phys) :
    Prop where
  ok : NptOK s root np
  agree : (Pc.enter l (newEntry m₁)).At s root np gpa
  stray : Stray s root m₀
  live : m₁ ∈ s.pages
  zero₀ : s.mem m₀ = 0
  zero₁ : s.mem m₁ = 0
  ne : m₀ ≠ m₁

theorem Collided.of_facing {l : ℕ} {m₀ m₁ : Frame} (hs : NptOK s root np)
    (hf : Facing s root gpa (l + 1) t p) (hm₀ : m₀ ∉ s.pages) (hm₁ : m₁ ∉ (s.grab m₀).pages) :
    Collided root np gpa l m₀ m₁
      (((s.grab m₀).grab m₁).store t (tableIndex gpa (l + 1)) (newEntry m₁)) := by
  have hp : p.length ≤ 4 := by have := hf.length; omega
  have hne : m₀ ≠ m₁ := fun h => hm₁ (h ▸ Finset.mem_insert_self _ _)
  obtain ⟨hok₀, heq₀⟩ := hs.grab hm₀
  have hnode₀ : nodeAt (s.grab m₀) root p = some t := by rw [heq₀ p hp]; exact hf.node
  have htm₀ : t ≠ m₀ := fun h => hs.not_node hm₀ hp (h ▸ hf.node)
  have htm₁ : t ≠ m₁ := fun h => hok₀.not_node hm₁ hp (h ▸ hnode₀)
  set s₂ := ((s.grab m₀).grab m₁).store t (tableIndex gpa (l + 1)) (newEntry m₁) with hs₂
  have hlink : LinkStep root (s.grab m₀) (p ++ [tableIndex gpa (l + 1)]) m₁ s₂ :=
    ⟨⟨p, t, _, rfl, by have := hf.length; omega, hnode₀, by rw [grab_mem_ne s htm₀]; exact hf.empty, rfl⟩, hm₁⟩
  refine ⟨hlink.ok hok₀, ?_, ⟨?_, ?_⟩, Finset.mem_insert_self _ _, ?_, ?_, hne⟩
  · rw [← Pc.next_succ l (newEntry_assert m₁)]
    refine Pc.At.next (t := t) (hlink.ok hok₀) hf.route (by omega) ?_ (by rw [hs₂, Phys.store_same])
      (newEntry_linked m₁).ne_zero
    rw [hlink.nodeAt hok₀ p hp, if_neg (by simp)]
    exact hnode₀
  · exact Finset.mem_insert_of_mem (Finset.mem_insert_self _ _)
  · intro a ha
    rw [hlink.nodeAt hok₀ a ha]
    split
    · exact fun h => hne (Option.some.inj h).symm
    · rw [heq₀ a ha]
      exact hs.not_node hm₀ ha
  · rw [hs₂, Phys.store_other _ _ _ (Ne.symm htm₀), grab_mem_ne _ hne]
    funext j
    exact grab_mem_same s m₀ j
  · rw [hs₂, Phys.store_other _ _ _ (Ne.symm htm₁)]
    funext j
    exact grab_mem_same _ m₁ j

/-- From a collision both calls can finish, and the page `m₀` stays stray: the second call
runs in the table, away from `m₀`, and the first below `m₀`, away from the table. -/
theorem Collided.finish {gpa : Bool → Word} {l : ℕ} {m₀ m₁ : Frame}
    (h : Collided root np (gpa true) l m₀ m₁ s) (hroom : s.pages.card + 2 * l ≤ 2 ^ 40) :
    ∃ s', ∃ page : Bool → Word,
      Calls.Reaches gpa ⟨fun b => .enter l (newEntry (cond b m₁ m₀)), s⟩ ⟨fun b => .done (page b), s'⟩ ∧
      Stray s' root m₀ := by
  obtain ⟨a₁, page₁, s₃, hrun₁, hsub₁, hc₁, hmem₁⟩ := solo_complete (gpa true) l (newEntry m₁) s
    (by rw [vmmPhysToVirt_newEntry]; exact h.zero₁) (by rw [vmmPhysToVirt_newEntry]; exact h.live) (by omega)
  obtain ⟨hok₃, hstray₃⟩ := solo_stray a₁ _ s h.ok h.agree
    (by rw [← Pc.next_succ l (newEntry_assert m₁), Pc.next_pending]; simp) h.stray
  rw [hrun₁] at hok₃ hstray₃
  have hzero₃ : s₃.mem m₀ = 0 := by
    rw [hmem₁ m₀ h.stray.live (by rw [vmmPhysToVirt_newEntry]; exact h.ne), h.zero₀]
  obtain ⟨a₀, page₀, s₄, hrun₀, hsub₀, -, hmem₀⟩ := solo_complete (gpa false) l (newEntry m₀) s₃
    (by rw [vmmPhysToVirt_newEntry]; exact hzero₃) (by rw [vmmPhysToVirt_newEntry]; exact hstray₃.live)
    (by omega)
  have heq₄ : ∀ a, a.length ≤ 4 → nodeAt s₄ root a = nodeAt s₃ root a := by
    apply nodeAt_congr
    intro a n ha hn
    refine hmem₀ n (hok₃.live a n ha.le hn) ?_
    rw [vmmPhysToVirt_newEntry]
    rintro rfl
    exact hstray₃.away a ha.le hn
  refine ⟨s₄, fun b => cond b page₁ page₀, ?_, hsub₀ hstray₃.live,
    fun a ha => by rw [heq₄ a ha]; exact hstray₃.away a ha⟩
  refine (Calls.Reaches.solo gpa true a₁ _ _ _ hrun₁).trans ?_
  obtain ⟨sched, hr⟩ := Calls.Reaches.solo gpa false a₀
    ⟨Function.update (fun b => Pc.enter l (newEntry (cond b m₁ m₀))) true (.done page₁), s₃⟩ _ _ hrun₀
  refine ⟨sched, hr.trans ?_⟩
  congr 1
  funext b
  cases b <;> simp

/-- **A lost page.** If the two paths share an empty slot, and there are eight pages to
allocate, some interleaving lets both calls return and leaves a page that they allocated
outside the table. -/
theorem lost_of_shared {ncr3 : Word} {gpa : Bool → Word} (hs : NptOK s (vmmPhysToVirt ncr3) np)
    (hroom : s.pages.card + 8 ≤ 2 ^ 40) (hq : ∀ b, q <+: path (gpa b))
    (hempty : nodeAt s (vmmPhysToVirt ncr3) q = none) :
    ∃ s', ∃ page : Bool → Word, ∃ m, Calls.Reaches gpa (.start ncr3 s) ⟨fun b => .done (page b), s'⟩ ∧
      m ∉ s.pages ∧ Stray s' (vmmPhysToVirt ncr3) m := by
  obtain ⟨p, i, t, hpre, hn, h0⟩ := first_empty q hempty
  have hface := fun b => Facing.of_prefix (hpre.trans (hq b)) hn h0
  obtain ⟨m₀, hm₀⟩ := exists_free (s := s) (by omega)
  have hcard₀ : (s.grab m₀).pages.card = s.pages.card + 1 := Finset.card_insert_of_notMem hm₀
  obtain ⟨m₁, hm₁⟩ := exists_free (s := s.grab m₀) (by omega)
  have hcard₁ : ((s.grab m₀).grab m₁).pages.card = s.pages.card + 1 + 1 := by
    rw [← hcard₀]
    exact Finset.card_insert_of_notMem hm₁
  have hcol := Calls.collide (t := t) (m := fun b => cond b m₁ m₀) (fun b => (hface b).2) hm₀ hm₁
  have hc := Collided.of_facing hs (hface true).1 hm₀ hm₁
  rw [(hface true).2] at hc
  obtain ⟨s', page, hfin, hstray⟩ := hc.finish (by rw [Phys.store_pages]; omega)
  exact ⟨s', page, m₀, ((Calls.both_face hs (fun b => (hface b).1)).trans hcol).trans hfin, hm₀, hstray⟩

/-- **When concurrent requests lose no mapping.** Two calls of `yakvm_vmm_npt_create` on a
well-formed table lose nothing in any interleaving if every slot that their paths share
is filled when they start; and, given eight free pages, only then. -/
theorem noLoss_iff_sharedFilled {ncr3 : Word} {np : Option (List Slot)} {s : Phys} (gpa : Bool → Word)
    (hs : NptOK s (vmmPhysToVirt ncr3) np) :
    (SharedFilled s (vmmPhysToVirt ncr3) gpa → NoLoss ncr3 gpa s) ∧
    (s.pages.card + 8 ≤ 2 ^ 40 → NoLoss ncr3 gpa s → SharedFilled s (vmmPhysToVirt ncr3) gpa) := by
  refine ⟨noLoss_of_sharedFilled hs, ?_⟩
  intro hroom hno q _ h1 h2 hempty
  obtain ⟨s', page, m, ⟨sched, hrun⟩, hm, hstray⟩ :=
    lost_of_shared hs hroom (fun b => by cases b; exacts [h1, h2]) hempty
  obtain ⟨a, ha, hn⟩ := (hno sched _ hrun page (fun _ => rfl)).2 m hstray.live hm
  exact hstray.away a ha hn

/-- In a new vm, concurrent requests for the pages at `0x1000` and `0x2000` lose nothing:
creation has filled the slots above them. -/
theorem noLoss_neighbours : ∃ s, createVmm countingAsk emptyPhys = .ok (.ok (0, ⟨pageToPhys 1⟩), s) ∧
    NoLoss (pageToPhys 1) (fun b => cond b 0x2000 0x1000) s := by
  obtain ⟨s, hs⟩ := counting_created
  refine ⟨s, hs, (noLoss_iff_sharedFilled (fun b => cond b 0x2000 0x1000) (createVmm_fresh hs).ok).1 ?_⟩
  intro q _ h1 h2
  have hfull : ∃ f, nodeAt s (vmmPhysToVirt (pageToPhys 1)) [0, 0, 0] = some f := by
    cases hs
    exact ⟨4, by decide⟩
  have hq : q <+: [0, 0, 0] := by
    have e1 : path 0x1000 = [0, 0, 0, 1] := by decide
    have e2 : path 0x2000 = [0, 0, 0, 2] := by decide
    simp only [cond_false, cond_true, e1, e2] at h1 h2
    rcases Nat.lt_or_ge q.length 4 with h | h
    · exact List.prefix_of_prefix_length_le h1 (List.prefix_append [0, 0, 0] [1]) (by simpa using Nat.le_of_lt_succ h)
    · have := (List.IsPrefix.eq_of_length h1 (le_antisymm h1.length_le h)).symm.trans
        (List.IsPrefix.eq_of_length h2 (le_antisymm h2.length_le h))
      simp at this
  obtain ⟨f, hf⟩ := hfull
  obtain ⟨x, hx⟩ := nodeAt_prefix hq hf
  rw [hx]
  simp

/-- **A lost mapping.** In a new vm, two concurrent requests for the page at `0x1000` both
load the empty leaf entry before either stores it. They return frames 6 and 7, and the
hardware translates the address to 7. -/
theorem race_loses_page : ∃ s, createVmm countingAsk emptyPhys = .ok (.ok (0, ⟨pageToPhys 1⟩), s) ∧
    ¬ NoLoss (pageToPhys 1) (fun _ => 0x1000) s := by
  refine ⟨_, rfl, fun h => ?_⟩
  have hrun := (h [(false, none), (false, none), (false, none), (false, none),
    (true, none), (true, none), (true, none), (true, none),
    (false, some 6), (true, some 7), (false, none), (true, none)] _ rfl (fun b => cond b 7 6)
    (by intro b; cases b <;> rfl)).1 false
  obtain ⟨f, hf, htr⟩ := hrun
  have h7 : Translation.page 7 = .page f := htr .read
  obtain rfl : 7 = f := Translation.page.inj h7
  exact absurd hf (by decide)

end Yakvm
