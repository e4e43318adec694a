import Mathlib.Data.List.Induction
import Mathlib.Data.List.Flatten
import Mathlib.Data.List.Nodup
import Mathlib.Logic.Function.Basic
import Mathlib.Data.Finset.Card
import Mathlib.Tactic.Push

/-!
# Pointer trees of bounded depth in a heap

A heap of nodes is given by its child function: `kids n i` is the node that slot
`i` of node `n` points to, if any. `reach kids r p` follows the path `p` from `r`.
Nothing forces such a heap to be a tree; `IsTree kids r d` says that it is one down
to depth `d`: every node found within `d` steps of `r` is found by one path only.

* `reach_congr`: the paths of length `d` depend only on the nodes above depth `d`.
* `reach_link`: filling an empty slot with a fresh node adds exactly one path.
* `nodes`: the post-order list of the nodes, which is duplicate free on a tree.
-/

namespace Radix

variable {N I : Type*}

/-- The node found from `r` along a path of slots. -/
def reach (kids : N → I → Option N) : N → List I → Option N
  | r, [] => some r
  | r, i :: p => (kids r i).bind fun c => reach kids c p

/-- Every node within `d` steps of `r` is reached by a single path. -/
def IsTree (kids : N → I → Option N) (r : N) (d : ℕ) : Prop :=
  ∀ p q n, p.length ≤ d → q.length ≤ d → reach kids r p = some n → reach kids r q = some n → p = q

variable {kids kids' : N → I → Option N} {r n m : N} {p q : List I} {i : I} {d : ℕ}

@[simp] theorem reach_nil : reach kids r [] = some r := rfl

theorem reach_append (r : N) (p q : List I) :
    reach kids r (p ++ q) = (reach kids r p).bind fun c => reach kids c q := by
  induction p generalizing r with
  | nil => rfl
  | cons i p ih =>
    simp only [List.cons_append, reach]
    cases kids r i with
    | none => rfl
    | some c => exact ih c

theorem reach_concat (r : N) (p : List I) (i : I) :
    reach kids r (p ++ [i]) = (reach kids r p).bind fun c => kids c i := by
  rw [reach_append]
  congr 1
  funext c
  simp [reach]

theorem reach_concat_of (h : reach kids r p = some n) : reach kids r (p ++ [i]) = kids n i := by
  rw [reach_concat, h]; rfl

/-- A path that is populated has all its prefixes populated. -/
theorem reach_prefix (hp : p <+: q) (h : reach kids r q = some n) : ∃ c, reach kids r p = some c := by
  obtain ⟨t, rfl⟩ := hp
  rw [reach_append] at h
  cases hc : reach kids r p with
  | none => rw [hc] at h; simp at h
  | some c => exact ⟨c, rfl⟩

/-- A non-empty populated path ends in a slot of a populated node. -/
theorem reach_concat_inv (h : reach kids r (p ++ [i]) = some m) :
    ∃ n, reach kids r p = some n ∧ kids n i = some m := by
  rw [reach_concat] at h
  cases hc : reach kids r p with
  | none => rw [hc] at h; simp at h
  | some c => rw [hc] at h; exact ⟨c, rfl, h⟩

/-- From a node without children only the empty path leads anywhere. -/
theorem reach_childless (h : ∀ j, kids r j = none) (hq : reach kids r q = some n) : q = [] ∧ n = r := by
  cases q with
  | nil => exact ⟨rfl, (Option.some.inj hq).symm⟩
  | cons j q => simp [reach, h j] at hq

/-- **Locality.** Paths of length at most `d` depend only on the children of the
nodes above depth `d`. -/
theorem reach_congr (h : ∀ p n, p.length < d → reach kids r p = some n → kids' n = kids n) :
    ∀ q, q.length ≤ d → reach kids' r q = reach kids r q := by
  intro q
  induction q using List.reverseRecOn with
  | nil => intro _; rfl
  | append_singleton q j ih =>
    intro hq
    simp only [List.length_append, List.length_cons, List.length_nil] at hq
    rw [reach_concat, reach_concat, ih (by omega)]
    cases hc : reach kids r q with
    | none => rfl
    | some c => simp only [Option.bind_some]; rw [h q c (by omega) hc]

theorem IsTree.mono {d' : ℕ} (h : IsTree kids r d) (hd : d' ≤ d) : IsTree kids r d' :=
  fun p q n hp hq => h p q n (by omega) (by omega)

theorem IsTree.congr (h : IsTree kids r d) (he : ∀ q, q.length ≤ d → reach kids' r q = reach kids r q) :
    IsTree kids' r d := by
  intro p q n hp hq h1 h2
  rw [he p hp] at h1
  rw [he q hq] at h2
  exact h p q n hp hq h1 h2

/-- The part of a tree below a node is a tree. -/
theorem IsTree.sub {d' : ℕ} (h : IsTree kids r d) (hn : reach kids r p = some n)
    (hd : p.length + d' ≤ d) : IsTree kids n d' := by
  intro a b x ha hb h1 h2
  have key : p ++ a = p ++ b := by
    apply h (p ++ a) (p ++ b) x
    · simp only [List.length_append]; omega
    · simp only [List.length_append]; omega
    · rw [reach_append, hn]; exact h1
    · rw [reach_append, hn]; exact h2
  exact List.append_cancel_left key

section Link

variable [DecidableEq N] [DecidableEq I]

/-- Make slot `i` of node `n` point to `m`. -/
def link (kids : N → I → Option N) (n : N) (i : I) (m : N) : N → I → Option N :=
  Function.update kids n (Function.update (kids n) i (some m))

theorem link_same : link kids n i m n i = some m := by simp [link]

theorem link_ne {x : N} {j : I} (h : x ≠ n ∨ j ≠ i) : link kids n i m x j = kids x j := by
  unfold link
  by_cases hx : x = n
  · subst hx
    have hj : j ≠ i := h.resolve_left (fun h => h rfl)
    simp [Function.update_of_ne hj]
  · simp [Function.update_of_ne hx]

/-- **Filling an empty slot.** After slot `i` of the node at `p` is made to point to a
childless node `m` outside the tree, the path through that slot leads to `m`, and every
other path is as it was. -/
theorem reach_link (ht : IsTree kids r d) (hp : p.length < d) (hn : reach kids r p = some n)
    (he : kids n i = none) (hfresh : ∀ q, q.length ≤ d → reach kids r q ≠ some m)
    (hm : ∀ j, kids m j = none) :
    ∀ q, q.length ≤ d → reach (link kids n i m) r q = if q = p ++ [i] then some m else reach kids r q := by
  have hmn : m ≠ n := fun h => hfresh p hp.le (h ▸ hn)
  intro q
  induction q using List.reverseRecOn with
  | nil => intro _; simp
  | append_singleton q j ih =>
    intro hq
    simp only [List.length_append, List.length_cons, List.length_nil] at hq
    rw [reach_concat, ih (by omega), reach_concat]
    by_cases h1 : q = p ++ [i]
    · -- one step below the new node: it has no children, and nothing was there before
      subst h1
      rw [if_pos rfl, if_neg (by simp), reach_concat_of hn, he]
      simp [link_ne (Or.inl hmn), hm]
    · rw [if_neg h1]
      by_cases h3 : q ++ [j] = p ++ [i]
      · obtain ⟨rfl, h4⟩ := List.append_inj' h3 rfl
        obtain rfl : j = i := by simpa using h4
        rw [if_pos rfl, hn]
        simp [link_same]
      · rw [if_neg h3]
        cases hc : reach kids r q with
        | none => rfl
        | some c =>
          -- only the path `p` leads to `n`, so the slot just written is not used here
          simp only [Option.bind_some]
          apply link_ne
          by_contra hcon
          push Not at hcon
          obtain ⟨rfl, rfl⟩ := hcon
          exact h3 (by rw [ht q p c (by omega) hp.le hc hn])

/-- Filling an empty slot keeps the heap a tree. -/
theorem IsTree.link (ht : IsTree kids r d) (hp : p.length < d) (hn : reach kids r p = some n)
    (he : kids n i = none) (hfresh : ∀ q, q.length ≤ d → reach kids r q ≠ some m)
    (hm : ∀ j, kids m j = none) : IsTree (link kids n i m) r d := by
  have hr := reach_link ht hp hn he hfresh hm
  intro a b x ha hb h1 h2
  rw [hr a ha] at h1
  rw [hr b hb] at h2
  split at h1
  · rename_i ea
    split at h2
    · rename_i eb; rw [ea, eb]
    · obtain rfl : m = x := by simpa using h1
      exact absurd h2 (hfresh b hb)
  · split at h2
    · obtain rfl : m = x := by simpa using h2
      exact absurd h1 (hfresh a ha)
    · exact ht a b x ha hb h1 h2

end Link

section Nodes

/-- The nodes within `d` steps below `n`, children before their parent. -/
def nodes (kids : N → I → Option N) (slots : List I) : ℕ → N → List N
  | 0, n => [n]
  | d + 1, n => (slots.flatMap fun i => (kids n i).elim [] (nodes kids slots d)) ++ [n]

variable {slots : List I}

/-- The list holds exactly the nodes on paths of length at most `d`. -/
theorem mem_nodes (hs : ∀ i, i ∈ slots) {x : N} : ∀ d n,
    x ∈ nodes kids slots d n ↔ ∃ p, p.length ≤ d ∧ reach kids n p = some x := by
  intro d
  induction d with
  | zero =>
    intro n
    constructor
    · intro h; simp [nodes] at h; subst h; exact ⟨[], le_rfl, rfl⟩
    · rintro ⟨p, hp, h⟩
      obtain rfl : p = [] := List.eq_nil_of_length_eq_zero (by omega)
      simp at h; subst h; simp [nodes]
  | succ d ih =>
    intro n
    simp only [nodes, List.mem_append, List.mem_flatMap, List.mem_singleton]
    constructor
    · rintro (⟨i, -, hx⟩ | rfl)
      · cases hk : kids n i with
        | none => rw [hk] at hx; simp at hx
        | some c =>
          rw [hk] at hx
          obtain ⟨p, hp, h⟩ := (ih c).1 hx
          exact ⟨i :: p, by simpa using hp, by simp [reach, hk, h]⟩
      · exact ⟨[], Nat.zero_le _, rfl⟩
    · rintro ⟨p, hp, h⟩
      cases p with
      | nil => right; simpa using h.symm
      | cons i p =>
        left
        cases hk : kids n i with
        | none => simp [reach, hk] at h
        | some c =>
          refine ⟨i, hs i, ?_⟩
          rw [hk]
          exact (ih c).2 ⟨p, by simpa using hp, by simpa [reach, hk] using h⟩

/-- **No node is listed twice** when the heap is a tree. -/
theorem nodes_nodup (hs : ∀ i, i ∈ slots) (hd : slots.Nodup) :
    ∀ d n, IsTree kids n d → (nodes kids slots d n).Nodup := by
  intro d
  induction d with
  | zero => intro n _; simp [nodes]
  | succ d ih =>
    intro n ht
    have hchild : ∀ {i c}, kids n i = some c → reach kids n [i] = some c := by
      intro i c h; simp [reach, h]
    have hlist : ∀ {i c x}, kids n i = some c → x ∈ nodes kids slots d c →
        ∃ p, p.length ≤ d ∧ reach kids n (i :: p) = some x := by
      intro i c x hk hx
      obtain ⟨p, hp, h⟩ := (mem_nodes hs d c).1 hx
      exact ⟨p, hp, by simp [reach, hk, h]⟩
    simp only [nodes]
    refine List.Nodup.append ?_ (by simp) ?_
    · refine List.nodup_flatMap.2 ⟨?_, ?_⟩
      · intro i _
        cases hk : kids n i with
        | none => simp
        | some c => exact ih c (ht.sub (hchild hk) (by simp; omega))
      · refine hd.imp ?_
        intro i j hij
        -- subtrees below different slots are disjoint: their paths start differently
        simp only [Function.onFun, List.disjoint_left]
        intro x hi hj
        cases hki : kids n i with
        | none => rw [hki] at hi; simp at hi
        | some ci =>
          cases hkj : kids n j with
          | none => rw [hkj] at hj; simp at hj
          | some cj =>
            rw [hki] at hi
            rw [hkj] at hj
            obtain ⟨p, hp, h1⟩ := hlist hki hi
            obtain ⟨q, hq, h2⟩ := hlist hkj hj
            have := ht (i :: p) (j :: q) x (by simpa using hp) (by simpa using hq) h1 h2
            exact hij (by simpa using (List.cons.inj this).1)
    · rw [List.disjoint_left]
      intro x hx hxn
      obtain rfl : x = n := by simpa using hxn
      obtain ⟨i, -, hx⟩ := List.mem_flatMap.1 hx
      cases hk : kids x i with
      | none => rw [hk] at hx; simp at hx
      | some c =>
        rw [hk] at hx
        obtain ⟨p, hp, h⟩ := hlist hk hx
        have := ht (i :: p) [] x (by simpa using hp) (Nat.zero_le _) h rfl
        simp at this

end Nodes

end Radix
