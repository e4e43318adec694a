import Yakvm.Proof.Requests
import Mathlib.Data.Finset.Union
import Mathlib.Data.List.Infix

/-!
# What page requests populate

A slot of the tables is named by its path from the root. A call of
`yakvm_vmm_npt_create` populates slots on the path of its address, one new page each
(`Grow.exact`), so what a run of calls populates and how many pages it takes are read off
the addresses alone:

* `createAll_spec`: a run of calls populates the prefixes of its addresses, and allocates one
  page for each prefix that was not populated.
* `createAll_perm`: the order of the calls does not matter.
* `create_failed`: a call that runs out of memory changes no translation, and can be retried.
-/

namespace Yakvm

variable {s s' s₁ s₂ : Phys} {root n f : Frame} {np : Option (List Slot)} {p q w : List Slot} {gpa : Word}

/-! ## Prefixes -/

/-- The slots on the path of an address, as the paths that lead to them. They end at the levels
`PML4T`, `PDPT`, `PDT` and `PT`. -/
def prefixes (gpa : Word) : Finset (List Slot) :=
  {(path gpa).take 1, (path gpa).take 2, (path gpa).take 3, (path gpa).take 4}

theorem mem_prefixes : q ∈ prefixes gpa ↔ q ≠ [] ∧ q <+: path gpa := by
  unfold prefixes
  rw [List.prefix_iff_eq_take]
  simp only [Finset.mem_insert, Finset.mem_singleton]
  constructor
  · rintro (rfl | rfl | rfl | rfl) <;> simp [path]
  · rintro ⟨hne, hq⟩
    have hpos : 0 < q.length := List.length_pos_iff.2 hne
    have hle : q.length ≤ 4 := by
      have hlen := congrArg List.length hq
      rw [List.length_take, path_length] at hlen
      omega
    generalize q.length = k at hq hpos hle
    interval_cases k
    · exact Or.inl hq
    · exact Or.inr (Or.inl hq)
    · exact Or.inr (Or.inr (Or.inl hq))
    · exact Or.inr (Or.inr (Or.inr hq))

/-- The first `k` slots of two paths agree exactly when the bits from 47 down to `48 - 9 * k` of the
addresses do. -/
theorem take_path_eq_iff (a b : Word) {k : ℕ} (hk : k ≤ 4) : (path a).take k = (path b).take k ↔
    a.extractLsb' (48 - 9 * k) (9 * k) = b.extractLsb' (48 - 9 * k) (9 * k) := by
  have ha := a.isLt
  have hb := b.isLt
  rw [← BitVec.toNat_inj, BitVec.extractLsb'_toNat, BitVec.extractLsb'_toNat]
  simp only [Nat.shiftRight_eq_div_pow]
  interval_cases k <;>
    simp only [path, List.take, List.cons.injEq, and_true, ← BitVec.toNat_inj, tableIndex_toNat, levelShift, PML4T,
      PDPT, PDT, PT] <;> norm_num <;> omega

/-! ## One call -/

/-- **The links of one call, counted**: the slots it populates were empty, are on its path, and
take one page each. -/
theorem Grow.exact (hs : NptOK s root np) (h : Grow root w s s') : ∃ new : Finset (List Slot),
    (∀ q ∈ new, q ≠ [] ∧ q <+: w ∧ q.length ≤ 4 ∧ nodeAt s root q = none) ∧
    (∀ q, q.length ≤ 4 → (nodeAt s' root q ≠ none ↔ nodeAt s root q ≠ none ∨ q ∈ new)) ∧
    s'.pages.card = s.pages.card + new.card := by
  induction h with
  | refl => exact ⟨∅, by simp, by simp, by simp⟩
  | @step s₁ s₂ q₁ f h₁ hpre hl ih =>
    obtain ⟨new, hnew, hpop, hcard⟩ := ih
    have hs₁ := h₁.ok hs
    -- the slot of the last link was empty up to now
    have hempty : nodeAt s root q₁ = none ∧ q₁ ∉ new := by
      have hiff := hpop q₁ hl.length
      rw [hl.empty] at hiff
      simpa using hiff
    have hne : q₁ ≠ [] := by
      rintro rfl
      have := hl.empty
      rw [nodeAt_nil] at this
      simp at this
    refine ⟨insert q₁ new, ?_, ?_, ?_⟩
    · intro q hq
      rcases Finset.mem_insert.1 hq with rfl | hq
      · exact ⟨hne, hpre, hl.length, hempty.1⟩
      · exact hnew q hq
    · intro q hq
      rw [hl.nodeAt hs₁ q hq, Finset.mem_insert]
      by_cases hqq : q = q₁
      · simp [hqq]
      · rw [if_neg hqq, hpop q hq]
        simp [hqq]
    · rw [hl.pages, Finset.card_insert_of_notMem hl.free, hcard, Finset.card_insert_of_notMem hempty.2]
      omega

/-- The slots on the path of an address that are not populated. -/
def absent (s : Phys) (root : Frame) (slots : Finset (List Slot)) : Finset (List Slot) :=
  slots.filter fun q => nodeAt s root q = none

/-- **A call that returns a page** populates its path, and takes a page for each slot of it that was
empty. -/
theorem Grow.full (hs : NptOK s root np) (h : Grow root (path gpa) s s') (hn : nodeAt s' root (path gpa) = some n) :
    (∀ q, q.length ≤ 4 → (nodeAt s' root q ≠ none ↔ nodeAt s root q ≠ none ∨ q ∈ prefixes gpa)) ∧
    s'.pages.card = s.pages.card + (absent s root (prefixes gpa)).card := by
  obtain ⟨new, hnew, hpop, hcard⟩ := h.exact hs
  have hall : ∀ q ∈ prefixes gpa, q.length ≤ 4 ∧ nodeAt s' root q ≠ none := by
    intro q hq
    have hpre := (mem_prefixes.1 hq).2
    obtain ⟨c, hc⟩ := nodeAt_prefix hpre hn
    refine ⟨by have := hpre.length_le; rwa [path_length] at this, by rw [hc]; simp⟩
  have heq : new = absent s root (prefixes gpa) := by
    ext q
    unfold absent
    rw [Finset.mem_filter]
    constructor
    · intro hq
      obtain ⟨hne, hpre, -, h0⟩ := hnew q hq
      exact ⟨mem_prefixes.2 ⟨hne, hpre⟩, h0⟩
    · rintro ⟨hq, h0⟩
      obtain ⟨hlen, hsome⟩ := hall q hq
      exact ((hpop q hlen).1 hsome).resolve_left (fun h => h h0)
  refine ⟨?_, heq ▸ hcard⟩
  intro q hq
  constructor
  · intro hsome
    refine ((hpop q hq).1 hsome).imp id fun hmem => ?_
    obtain ⟨hne, hpre, -, -⟩ := hnew q hmem
    exact mem_prefixes.2 ⟨hne, hpre⟩
  · rintro (hold | hmem)
    · exact (hpop q hq).2 (Or.inl hold)
    · exact (hall q hmem).2

/-- A page that a walk allocates stands in a slot of its path that was empty. -/
theorem Grow.linked (hs : NptOK s root np) (h : Grow root (path gpa) s s') (hf : f ∈ s'.pages) (hold : f ∉ s.pages) :
    ∃ q ∈ absent s root (prefixes gpa), nodeAt s' root q = some f := by
  obtain ⟨q, hq, hpre, hn⟩ := h.cover hs hf hold
  have hempty : nodeAt s root q = none := by
    cases h0 : nodeAt s root q with
    | none => rfl
    | some x =>
      have hx := h.mono hs hq h0
      rw [hn] at hx
      obtain rfl := Option.some.inj hx
      exact absurd (hs.live q f hq h0) hold
  have hne : q ≠ [] := by
    rintro rfl
    rw [nodeAt_nil] at hempty
    simp at hempty
  exact ⟨q, Finset.mem_filter.2 ⟨mem_prefixes.2 ⟨hne, hpre⟩, hempty⟩, hn⟩

/-! ## Calls that fail -/

variable {ncr3 : Word}

/-- A call that fails has run out of memory before its leaf. -/
theorem vmmNptCreate_failed {ask : ℕ → Option Frame} {r : Errno} (hs : NptOK s (vmmPhysToVirt ncr3) np)
    (h : vmmNptCreate ncr3 gpa false ask s = .ok (.error r, s')) :
    r = .ENOMEM ∧ Grow (vmmPhysToVirt ncr3) (path gpa) s s' ∧ nodeAt s' (vmmPhysToVirt ncr3) (path gpa) = none := by
  rcases vmmNptCreate_spec hs gpa ask with ⟨f, s₁, he, -⟩ | ⟨s₁, he, hg, hno⟩ | ⟨he, -⟩
  · rw [he] at h
    simp at h
  · rw [he] at h
    obtain ⟨hr, rfl⟩ := Prod.mk.inj (Except.ok.inj h)
    exact ⟨(Except.error.inj hr).symm, hg, hno⟩
  · rw [he] at h
    simp at h

/-- A call for a page that is there returns it and changes nothing. -/
theorem vmmNptCreate_mapped (hs : NptOK s (vmmPhysToVirt ncr3) np) (hnp : np ≠ some (path gpa))
    (hn : nodeAt s (vmmPhysToVirt ncr3) (path gpa) = some f) (ask : ℕ → Option Frame) :
    vmmNptCreate ncr3 gpa false ask s = .ok (.ok (f.setWidth 64), s) := by
  rcases vmmNptCreate_spec hs gpa ask with ⟨g, s₁, he, hg, hn₁, -⟩ | ⟨s₁, he, hg, hno⟩ | ⟨-, hhid⟩
  · obtain rfl := hg.eq_of_full hn
    rw [hn] at hn₁
    rw [he, Option.some.inj hn₁]
  · obtain rfl := hg.eq_of_full hn
    rw [hn] at hno
    simp at hno
  · exact absurd hhid hnp

/-- A walk that does not reach its leaf changes no leaf. -/
theorem Grow.leaf_same (hs : NptOK s root np) (h : Grow root (path gpa) s s') (hno : nodeAt s' root (path gpa) = none)
    (g : Word) : nodeAt s' root (path g) = nodeAt s root (path g) := by
  by_cases hpre : path g <+: path gpa
  · -- the path of the call itself, which is not populated on either side
    rw [List.IsPrefix.eq_of_length hpre rfl, hno]
    cases hn : nodeAt s root (path gpa) with
    | none => rfl
    | some x =>
      rw [h.mono hs (path_length gpa).le hn] at hno
      simp at hno
  · exact h.other hs (path_length g).le hpre

/-- **A page request that fails is harmless and can be retried.** It fails with `-ENOMEM`; the
hardware translates every address as before, and a call for a page that was mapped, or for
the MMIO page, has the same outcome as before. The table is well formed, and every page that the
call allocated is linked on the path of its address. With its allocations answered, the same
call then returns a page that the hardware finds, and what it allocates are the pages of the
slots that were still empty, one for each. -/
theorem create_failed {ask : ℕ → Option Frame} {r : Errno} (hs : NptOK s (vmmPhysToVirt ncr3) (some (path mmioHawk)))
    (h : vmmNptCreate ncr3 gpa false ask s = .ok (.error r, s')) :
    r = .ENOMEM ∧
    (∀ acc g, hwTranslate s'.mem ncr3 acc g = hwTranslate s.mem ncr3 acc g) ∧
    (∀ g ask', nodeAt s (vmmPhysToVirt ncr3) (path g) ≠ none →
      (vmmNptCreate ncr3 g false ask' s').map Prod.fst = (vmmNptCreate ncr3 g false ask' s).map Prod.fst) ∧
    NptOK s' (vmmPhysToVirt ncr3) (some (path mmioHawk)) ∧
    (∀ f ∈ s'.pages, f ∉ s.pages → ∃ q ∈ prefixes gpa, nodeAt s' (vmmPhysToVirt ncr3) q = some f) ∧
    (∀ ask', Supplied s' (vmmPhysToVirt ncr3) gpa ask' → ∃ f s'',
      vmmNptCreate ncr3 gpa false ask' s' = .ok (.ok (f.setWidth 64), s'') ∧
      (∀ acc, hwTranslate s''.mem ncr3 acc gpa = .page f) ∧
      (∀ g ∈ s''.pages, g ∉ s'.pages →
        ∃ q ∈ absent s' (vmmPhysToVirt ncr3) (prefixes gpa), nodeAt s'' (vmmPhysToVirt ncr3) q = some g) ∧
      (s''.pages \ s'.pages).card = (absent s' (vmmPhysToVirt ncr3) (prefixes gpa)).card) := by
  obtain ⟨hr, hg, hno⟩ := vmmNptCreate_failed hs h
  have hs' := hg.ok hs
  have hleaf := hg.leaf_same hs hno
  -- the call is not for the hidden page, whose path is populated
  have hvis : some (path mmioHawk) ≠ some (path gpa) := by
    intro he
    obtain ⟨-, x, hx⟩ := hs.hidden _ rfl
    rw [Option.some.inj he, ← hleaf, hno] at hx
    simp at hx
  refine ⟨hr, ?_, ?_, hs', ?_, ?_⟩
  · intro acc g
    rw [hwTranslate_spec hs, hwTranslate_spec hs', hleaf g]
  · intro g ask' hmapped
    by_cases hhid : some (path mmioHawk) = some (path g)
    · rw [(vmmNptCreate_panic_iff hs ask').2 ⟨rfl, hhid⟩, (vmmNptCreate_panic_iff hs' ask').2 ⟨rfl, hhid⟩]
    · obtain ⟨x, hx⟩ := Option.ne_none_iff_exists'.1 hmapped
      rw [vmmNptCreate_mapped hs hhid hx, vmmNptCreate_mapped hs' hhid ((hleaf g).trans hx)]
      rfl
  · intro f hf hf0
    obtain ⟨q, hq, hn⟩ := hg.linked hs hf hf0
    exact ⟨q, (Finset.mem_filter.1 hq).1, hn⟩
  · intro ask' hsup
    obtain ⟨page, s'', hret⟩ := (vmmNptCreate_returns_iff hs' hvis ask').2 hsup
    obtain ⟨hg', -, f, rfl, hn⟩ := vmmNptCreate_page hs' hret
    obtain ⟨-, hcard⟩ := hg'.full hs' hn
    refine ⟨f, s'', hret, ?_, fun g hnew hold => hg'.linked hs' hnew hold, ?_⟩
    · intro acc
      rw [hwTranslate_spec (hg'.ok hs'), if_neg hvis, hn]
      rfl
    · rw [Finset.card_sdiff_of_subset hg'.pages_mono, hcard, Nat.add_sub_cancel_left]

/-- In a new vm, a call for `0x8000000000` gets two of the three tables it needs. Its repetition
maps the page. -/
theorem create_failed_half : ∃ s s' f s'', createVmm countingAsk emptyPhys = .ok (.ok (0, ⟨pageToPhys 1⟩), s) ∧
    vmmNptCreate (pageToPhys 1) 0x8000000000 false
      (fun level => if 3 ≤ level then some (BitVec.ofNat 40 (10 - level)) else none) s = .ok (.error .ENOMEM, s') ∧
    vmmNptCreate (pageToPhys 1) 0x8000000000 false (fun level => some (BitVec.ofNat 40 (20 - level))) s' =
      .ok (.ok (f.setWidth 64), s'') ∧
    hwTranslate s''.mem (pageToPhys 1) .write 0x8000000000 = .page f := by
  obtain ⟨s, hs⟩ := counting_created
  have hok := (createVmm_fresh hs).ok
  have hfail : ∃ s', vmmNptCreate (pageToPhys 1) 0x8000000000 false
      (fun level => if 3 ≤ level then some (BitVec.ofNat 40 (10 - level)) else none) s = .ok (.error .ENOMEM, s') ∧
      ∃ page s'', vmmNptCreate (pageToPhys 1) 0x8000000000 false (fun level => some (BitVec.ofNat 40 (20 - level))) s' =
        .ok (.ok page, s'') := by
    cases hs
    exact ⟨_, rfl, _, _, rfl⟩
  obtain ⟨s', hs', hretry⟩ := hfail
  obtain ⟨-, -, -, hok', -, hagain⟩ := create_failed hok hs'
  obtain ⟨f, s'', hret, hpage, -⟩ := hagain _ ((vmmNptCreate_returns_iff hok' (by decide) _).1 hretry)
  exact ⟨s, s', f, s'', hs, hs', hret, hpage .write⟩

/-! ## Runs of calls -/

/-- A run of calls of `yakvm_vmm_npt_create`, with what each of them returns. A call is an address
and the allocator's answers. -/
def createAll (ncr3 : Word) : List (Word × (ℕ → Option Frame)) → Phys →
    Except Crash (List (Except Errno Word) × Phys)
  | [], s => .ok ([], s)
  | (gpa, ask) :: calls, s => do
    let (page, s) ← vmmNptCreate ncr3 gpa false ask s
    let (pages, s) ← createAll ncr3 calls s
    .ok (page :: pages, s)

/-- The slots on the paths of a list of addresses. -/
def allPrefixes (gpas : List Word) : Finset (List Slot) := gpas.toFinset.biUnion prefixes

theorem allPrefixes_cons (gpa : Word) (gpas : List Word) :
    allPrefixes (gpa :: gpas) = prefixes gpa ∪ allPrefixes gpas := by
  unfold allPrefixes
  rw [List.toFinset_cons, Finset.biUnion_insert]

variable {calls calls' : List (Word × (ℕ → Option Frame))} {rs : List (Except Errno Word)}

/-- A run of calls, none of them for the hidden page, returns. -/
theorem createAll_returns (hs : NptOK s (vmmPhysToVirt ncr3) np) (hnp : ∀ c ∈ calls, np ≠ some (path c.1)) :
    ∃ rs s', createAll ncr3 calls s = .ok (rs, s') := by
  induction calls generalizing s with
  | nil => exact ⟨[], s, rfl⟩
  | cons c calls ih =>
    obtain ⟨gpa, ask⟩ := c
    have hgpa : np ≠ some (path gpa) := hnp (gpa, ask) List.mem_cons_self
    cases hc : vmmNptCreate ncr3 gpa false ask s with
    | error e => exact absurd ((vmmNptCreate_panic_iff hs ask).1 hc).2 hgpa
    | ok x =>
      obtain ⟨page, s₁⟩ := x
      have hs₁ := (vmmNptCreate_grow hs hc).ok hs
      obtain ⟨rs, s', hrun⟩ := ih hs₁ fun c hm => hnp c (List.mem_cons_of_mem _ hm)
      refine ⟨page :: rs, s', ?_⟩
      simp only [createAll, hc, hrun, bind, Except.bind]

/-- The pages of two lists of slots, the second counted after the first has been populated. -/
theorem absent_union {A B : Finset (List Slot)} (hA : ∀ q ∈ A, q.length ≤ 4) (hB : ∀ q ∈ B, q.length ≤ 4)
    (hpop : ∀ q, q.length ≤ 4 → (nodeAt s' root q ≠ none ↔ nodeAt s root q ≠ none ∨ q ∈ A)) :
    (absent s root (A ∪ B)).card = (absent s root A).card + (absent s' root B).card := by
  rw [← Finset.card_union_of_disjoint]
  · congr 1
    ext q
    simp only [absent, Finset.mem_union, Finset.mem_filter]
    constructor
    · rintro ⟨hq, h0⟩
      by_cases hqA : q ∈ A
      · exact Or.inl ⟨hqA, h0⟩
      · have hqB := hq.resolve_left hqA
        refine Or.inr ⟨hqB, ?_⟩
        by_contra hsome
        rcases (hpop q (hB q hqB)).1 hsome with h | h
        · exact h h0
        · exact hqA h
    · rintro (⟨hq, h0⟩ | ⟨hq, h0⟩)
      · exact ⟨Or.inl hq, h0⟩
      · refine ⟨Or.inr hq, ?_⟩
        by_contra hsome
        exact (hpop q (hB q hq)).2 (Or.inl hsome) h0
  · rw [Finset.disjoint_left]
    intro q hqA hqB
    simp only [absent, Finset.mem_filter] at hqA hqB
    exact (hpop q (hA q hqA.1)).2 (Or.inr hqA.1) hqB.2

theorem prefixes_length (hq : q ∈ prefixes gpa) : q.length ≤ 4 := by
  have hlen := (mem_prefixes.1 hq).2.length_le
  rwa [path_length] at hlen

theorem allPrefixes_length {gpas : List Word} (hq : q ∈ allPrefixes gpas) : q.length ≤ 4 := by
  unfold allPrefixes at hq
  obtain ⟨gpa, -, hq⟩ := Finset.mem_biUnion.1 hq
  exact prefixes_length hq

/-- **A run of calls whose allocations succeed** populates the prefixes of its addresses, and takes
one page for each that was not populated. -/
theorem createAll_spec (hs : NptOK s (vmmPhysToVirt ncr3) np) (h : createAll ncr3 calls s = .ok (rs, s'))
    (hrs : .error .ENOMEM ∉ rs) :
    NptOK s' (vmmPhysToVirt ncr3) np ∧ s.pages ⊆ s'.pages ∧
    (∀ q, q.length ≤ 4 → (nodeAt s' (vmmPhysToVirt ncr3) q ≠ none ↔
      nodeAt s (vmmPhysToVirt ncr3) q ≠ none ∨ q ∈ allPrefixes (calls.map Prod.fst))) ∧
    s'.pages.card = s.pages.card + (absent s (vmmPhysToVirt ncr3) (allPrefixes (calls.map Prod.fst))).card := by
  induction calls generalizing s rs with
  | nil =>
    obtain ⟨rfl, rfl⟩ := Prod.mk.inj (Except.ok.inj h)
    exact ⟨hs, subset_rfl, by simp [allPrefixes], by simp [allPrefixes, absent]⟩
  | cons c calls ih =>
    obtain ⟨gpa, ask⟩ := c
    obtain ⟨⟨page, s₁⟩, hc, h⟩ := bind_eq_ok.1 h
    obtain ⟨⟨pages, s₂⟩, hrun, h⟩ := bind_eq_ok.1 h
    obtain ⟨rfl, rfl⟩ := Prod.mk.inj (Except.ok.inj h)
    rw [List.mem_cons, not_or] at hrs
    rcases vmmNptCreate_spec hs gpa ask with ⟨f, s₃, he, hg, hn, -⟩ | ⟨s₃, he, -⟩ | ⟨he, -⟩
    · rw [hc] at he
      obtain ⟨-, rfl⟩ := Prod.mk.inj (Except.ok.inj he)
      obtain ⟨hpop, hcard⟩ := hg.full hs hn
      obtain ⟨hok, hsub, hpop', hcard'⟩ := ih (hg.ok hs) hrun hrs.2
      refine ⟨hok, hg.pages_mono.trans hsub, ?_, ?_⟩
      · intro q hq
        rw [hpop' q hq, hpop q hq, List.map_cons, allPrefixes_cons, Finset.mem_union, or_assoc]
      · rw [hcard', hcard, List.map_cons, allPrefixes_cons,
          absent_union (fun _ => prefixes_length) (fun _ => allPrefixes_length) hpop, Nat.add_assoc]
    · rw [hc] at he
      obtain ⟨rfl, -⟩ := Prod.mk.inj (Except.ok.inj he)
      exact absurd rfl hrs.1
    · rw [hc] at he
      simp at he

/-- **The order of page requests does not matter**, and what they allocate is exact. Two runs of
the same calls in different orders, from a well-formed table and with every allocation answered,
both return. They populate the same slots at each of the four levels and make the hardware translate
the same guest pages, and each allocates as many pages as there are prefixes of the
addresses that were not populated before. -/
theorem createAll_perm (hs : NptOK s (vmmPhysToVirt ncr3) (some (path mmioHawk)))
    (hperm : (calls.map Prod.fst).Perm (calls'.map Prod.fst))
    (hmmio : ∀ gpa ∈ calls.map Prod.fst, key gpa ≠ key mmioHawk)
    (hask : ∀ rs s', createAll ncr3 calls s = .ok (rs, s') → .error .ENOMEM ∉ rs)
    (hask' : ∀ rs s', createAll ncr3 calls' s = .ok (rs, s') → .error .ENOMEM ∉ rs) :
    ∃ rs rs' s₁ s₂, createAll ncr3 calls s = .ok (rs, s₁) ∧ createAll ncr3 calls' s = .ok (rs', s₂) ∧
      (∀ q, q.length ≤ 4 → (nodeAt s₁ (vmmPhysToVirt ncr3) q ≠ none ↔ nodeAt s₂ (vmmPhysToVirt ncr3) q ≠ none)) ∧
      (∀ acc g, hwTranslate s₁.mem ncr3 acc g ≠ .fault ↔ hwTranslate s₂.mem ncr3 acc g ≠ .fault) ∧
      (s₁.pages \ s.pages).card = (absent s (vmmPhysToVirt ncr3) (allPrefixes (calls.map Prod.fst))).card ∧
      (s₂.pages \ s.pages).card = (absent s (vmmPhysToVirt ncr3) (allPrefixes (calls.map Prod.fst))).card := by
  have hsame : allPrefixes (calls'.map Prod.fst) = allPrefixes (calls.map Prod.fst) := by
    unfold allPrefixes
    rw [List.toFinset_eq_of_perm _ _ hperm]
  have hvisible : ∀ gpa, key gpa ≠ key mmioHawk → some (path mmioHawk) ≠ some (path gpa) := fun gpa hk he =>
    hk ((path_eq_iff _ _).1 (Option.some.inj he).symm)
  obtain ⟨rs, s₁, h₁⟩ := createAll_returns hs fun c hc => hvisible c.1 (hmmio _ (List.mem_map_of_mem hc))
  obtain ⟨rs', s₂, h₂⟩ := createAll_returns hs fun c hc =>
    hvisible c.1 (hmmio _ (hperm.mem_iff.2 (List.mem_map_of_mem hc)))
  obtain ⟨hok₁, hsub₁, hpop₁, hcard₁⟩ := createAll_spec hs h₁ (hask _ _ h₁)
  obtain ⟨hok₂, hsub₂, hpop₂, hcard₂⟩ := createAll_spec hs h₂ (hask' _ _ h₂)
  rw [hsame] at hcard₂
  have hpop : ∀ q, q.length ≤ 4 →
      (nodeAt s₁ (vmmPhysToVirt ncr3) q ≠ none ↔ nodeAt s₂ (vmmPhysToVirt ncr3) q ≠ none) := by
    intro q hq
    rw [hpop₁ q hq, hpop₂ q hq, hsame]
  refine ⟨rs, rs', s₁, s₂, h₁, h₂, hpop, ?_, ?_, ?_⟩
  · intro acc g
    have hleaf := hpop (path g) (path_length g).le
    rw [hwTranslate_spec hok₁, hwTranslate_spec hok₂]
    split
    · simp
    · cases h1 : nodeAt s₁ (vmmPhysToVirt ncr3) (path g) <;> cases h2 : nodeAt s₂ (vmmPhysToVirt ncr3) (path g) <;>
        simp_all
  · rw [Finset.card_sdiff_of_subset hsub₁, hcard₁, Nat.add_sub_cancel_left]
  · rw [Finset.card_sdiff_of_subset hsub₂, hcard₂, Nat.add_sub_cancel_left]

/-- Two calls for pages that share two tables. -/
def lowCall : Word × (ℕ → Option Frame) := (0x1000, fun _ => some 6)

def highCall : Word × (ℕ → Option Frame) := (0x200000, fun level => some (BitVec.ofNat 40 (10 - level)))

/-- Two pages of a new vm, mapped in both orders: both runs return and take as many pages. -/
theorem createAll_perm_two : ∃ s rs rs' s₁ s₂, createVmm countingAsk emptyPhys = .ok (.ok (0, ⟨pageToPhys 1⟩), s) ∧
    createAll (pageToPhys 1) [lowCall, highCall] s = .ok (rs, s₁) ∧
    createAll (pageToPhys 1) [highCall, lowCall] s = .ok (rs', s₂) ∧
    (s₁.pages \ s.pages).card = (s₂.pages \ s.pages).card := by
  obtain ⟨s, hs⟩ := counting_created
  have hruns : (∃ rs s₁, createAll (pageToPhys 1) [lowCall, highCall] s = .ok (rs, s₁) ∧ .error .ENOMEM ∉ rs) ∧
      ∃ rs s₂, createAll (pageToPhys 1) [highCall, lowCall] s = .ok (rs, s₂) ∧ .error .ENOMEM ∉ rs := by
    cases hs
    exact ⟨⟨_, _, rfl, by simp⟩, ⟨_, _, rfl, by simp⟩⟩
  obtain ⟨⟨_, _, h₁, hno₁⟩, ⟨_, _, h₂, hno₂⟩⟩ := hruns
  have hperm : ([lowCall, highCall].map Prod.fst).Perm ([highCall, lowCall].map Prod.fst) := List.Perm.swap _ _ []
  have hmmio : ∀ gpa ∈ [lowCall, highCall].map Prod.fst, key gpa ≠ key mmioHawk :=
    List.forall_mem_cons.2 ⟨by decide, List.forall_mem_cons.2 ⟨by decide, by simp⟩⟩
  obtain ⟨rs, rs', s₁, s₂, hrun₁, hrun₂, -, -, hcard₁, hcard₂⟩ :=
    createAll_perm (createVmm_fresh hs).ok hperm hmmio (fun _ _ h => by rw [h₁] at h; cases h; exact hno₁)
      (fun _ _ h => by rw [h₂] at h; cases h; exact hno₂)
  exact ⟨s, rs, rs', s₁, s₂, hs, hrun₁, hrun₂, hcard₁.trans hcard₂.symm⟩

end Yakvm
