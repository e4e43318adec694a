import Yakvm.Proof.Requests
import Yakvm.Spec.Mapping

/-!
# The userspace view of guest memory

A mapped page stands for the guest page at its file offset. The areas of the kernel keep
that relation through every `mmap`, `munmap`, split and merge (`MapOK`). The fault handler
computes the guest page from the distance to `vm_start` alone, without `vm_pgoff`;
`fault_coherent_iff` says exactly when that is the right page.
-/

namespace Yakvm

variable {v w : Vma} {m m' : Mapping} {a b u : ℕ}

/-! ## Areas -/

/-- What is left of an area keeps its place in the file. -/
theorem Vma.cut_sound (hw : w ∈ v.cut a b) (hu : w.Has u) :
    v.Has u ∧ ¬ (a ≤ u ∧ u < b) ∧ w.vmPgoff + (u - w.vmStart) = v.vmPgoff + (u - v.vmStart) := by
  unfold Vma.cut at hw
  rcases List.mem_append.1 hw with hw | hw
  · split at hw
    · obtain rfl := List.mem_singleton.1 hw
      unfold Vma.Has at hu ⊢
      simp only at hu
      refine ⟨?_, ?_, rfl⟩ <;> omega
    · simp at hw
  · split at hw
    · obtain rfl := List.mem_singleton.1 hw
      unfold Vma.Has at hu ⊢
      simp only at hu ⊢
      refine ⟨?_, ?_, ?_⟩ <;> omega
    · simp at hw

/-- Nothing else is lost. -/
theorem Vma.cut_complete (hv : v.Has u) (hu : ¬ (a ≤ u ∧ u < b)) : ∃ w ∈ v.cut a b, w.Has u := by
  unfold Vma.Has at hv
  unfold Vma.cut
  rcases Nat.lt_or_ge u a with hlt | hge
  · rw [if_pos (by omega : v.vmStart < min v.vmEnd a)]
    refine ⟨_, List.mem_append_left _ (List.mem_singleton.2 rfl), ?_⟩
    unfold Vma.Has
    simp only
    omega
  · rw [if_pos (by omega : max v.vmStart b < v.vmEnd)]
    refine ⟨_, List.mem_append_right _ (List.mem_singleton.2 rfl), ?_⟩
    unfold Vma.Has
    simp only
    omega

/-! ## The invariant -/

/-- The areas agree with the `mmap` calls that made them, and the nested page table is well
formed. -/
structure MapOK (m : Mapping) : Prop where
  table : NptOK m.phys (vmmPhysToVirt m.vmm.ncr3) (some (path mmioHawk))
  sound : ∀ v ∈ m.vmas, ∀ u, v.Has u → ∃ s o, m.origin u = some (s, o) ∧ s ≤ u ∧
    o + (u - s) = v.vmPgoff + (u - v.vmStart)
  covered : ∀ u s o, m.origin u = some (s, o) → ∃ v ∈ m.vmas, v.Has u

theorem MapOK.munmap (h : MapOK m) (a b : ℕ) : MapOK (m.munmap a b) := by
  refine ⟨h.table, ?_, ?_⟩
  · intro w hw u hu
    obtain ⟨v, hv, hw⟩ := List.mem_flatMap.1 hw
    obtain ⟨hvu, hout, hoff⟩ := Vma.cut_sound hw hu
    obtain ⟨s, o, ho, hs, heq⟩ := h.sound v hv u hvu
    exact ⟨s, o, (if_neg hout).trans ho, hs, by omega⟩
  · intro u s o hu
    have hout : ¬ (a ≤ u ∧ u < b) := fun hin => by
      simp only [Mapping.munmap, if_pos hin, reduceCtorEq] at hu
    simp only [Mapping.munmap, if_neg hout] at hu
    obtain ⟨v, hv, hvu⟩ := h.covered u s o hu
    obtain ⟨w, hw, hwu⟩ := Vma.cut_complete hvu hout
    exact ⟨w, List.mem_flatMap.2 ⟨v, hv, hw⟩, hwu⟩

theorem MapOK.mmap (h : MapOK m) (s n o : ℕ) : MapOK (m.mmap s n o) := by
  have h₁ := h.munmap s (s + n)
  unfold Mapping.mmap
  split
  · exact h
  refine ⟨h.table, ?_, ?_⟩
  · intro v hv u hu
    rcases List.mem_cons.1 hv with rfl | hv
    · exact ⟨s, o, if_pos hu, hu.1, rfl⟩
    · obtain ⟨s', o', ho, hs, heq⟩ := h₁.sound v hv u hu
      have hout : ¬ (s ≤ u ∧ u < s + n) := fun hin => by
        simp only [Mapping.munmap, if_pos hin, reduceCtorEq] at ho
      exact ⟨s', o', (if_neg hout).trans ho, hs, heq⟩
  · intro u s' o' hu
    by_cases hin : s ≤ u ∧ u < s + n
    · exact ⟨_, List.mem_cons_self, hin⟩
    · simp only [if_neg hin] at hu
      obtain ⟨v, hv, hvu⟩ := h₁.covered u s' o' hu
      exact ⟨v, List.mem_cons_of_mem _ hv, hvu⟩

theorem MapOK.merge (h : MapOK m) (v w : Vma) : MapOK (m.merge v w) := by
  unfold Mapping.merge
  split
  swap
  · exact h
  rename_i hmerge
  obtain ⟨hv, hw, hvle, hwle, hend, hoff⟩ := hmerge
  have hboth : ∀ u, (⟨v.vmStart, w.vmEnd, v.vmPgoff⟩ : Vma).Has u ↔ v.Has u ∨ w.Has u := by
    intro u
    unfold Vma.Has
    simp only
    omega
  refine ⟨h.table, ?_, ?_⟩
  · intro x hx u hu
    rcases List.mem_cons.1 hx with rfl | hx
    · rcases (hboth u).1 hu with hvu | hwu
      · exact h.sound v hv u hvu
      · obtain ⟨s, o, ho, hs, heq⟩ := h.sound w hw u hwu
        refine ⟨s, o, ho, hs, ?_⟩
        unfold Vma.Has at hwu
        simp only
        omega
    · exact h.sound x (List.mem_filter.1 hx).1 u hu
  · intro u s o hu
    obtain ⟨x, hx, hxu⟩ := h.covered u s o hu
    by_cases hxv : x = v
    · exact ⟨_, List.mem_cons_self, (hboth u).2 (Or.inl (hxv ▸ hxu))⟩
    by_cases hxw : x = w
    · exact ⟨_, List.mem_cons_self, (hboth u).2 (Or.inr (hxw ▸ hxu))⟩
    exact ⟨x, List.mem_cons_of_mem _ (List.mem_filter.2 ⟨hx, by simp [hxv, hxw]⟩), hxu⟩

/-- Requests change the nested page table only. -/
theorem MapOK.setPhys {s : Phys} (h : MapOK m) (hok : NptOK s (vmmPhysToVirt m.vmm.ncr3) (some (path mmioHawk))) :
    MapOK { m with phys := s } := ⟨hok, h.sound, h.covered⟩

theorem pageAddr_sub (h : b ≤ a) : pageAddr a - pageAddr b = pageAddr (a - b) := by
  unfold pageAddr
  apply BitVec.eq_of_toNat_eq
  rw [BitVec.toNat_sub, BitVec.toNat_ofNat, BitVec.toNat_ofNat, BitVec.toNat_ofNat]
  omega

theorem key_pageAddr (n : ℕ) : (key (pageAddr n)).toNat = n % 2 ^ 36 := by
  unfold key pageAddr pageShift
  rw [BitVec.toNat_setWidth, BitVec.toNat_ushiftRight, BitVec.toNat_ofNat, Nat.shiftRight_eq_div_pow]
  omega

/-- What a fault can end in. -/
theorem MapOK.fault_cases (h : MapOK m) (u : ℕ) (ask : ℕ → Option Frame) :
    m.fault u ask = .ok (none, m) ∨ m.fault u ask = .error .panic ∨
    ∃ v page s, m.vmas.find? (fun v => v.Has u) = some v ∧ m.fault u ask = .ok (page, { m with phys := s }) ∧
      NptOK s (vmmPhysToVirt m.vmm.ncr3) (some (path mmioHawk)) ∧
      ∀ f, page = some f → vmmNptCreate m.vmm.ncr3 (pageAddr (u - v.vmStart)) false ask m.phys = .ok (.ok f, s) := by
  cases hv : m.vmas.find? (fun v => v.Has u) with
  | none =>
    left
    unfold Mapping.fault
    simp only [hv]
  | some v =>
    have hle : v.vmStart ≤ u := by
      have hhas : v.Has u := by simpa using List.find?_some hv
      exact hhas.1
    unfold Mapping.fault
    simp only [hv, vmVmmFault, pageAddr_sub hle]
    right
    rcases vmmNptCreate_spec h.table (pageAddr (u - v.vmStart)) ask with
      ⟨f, s, hc, hg, -, -⟩ | ⟨s, hc, hg, -⟩ | ⟨hc, -⟩
    · refine Or.inr ⟨v, some (f.setWidth 64), s, rfl, by simp only [hc, bind, Except.bind], hg.ok h.table, ?_⟩
      intro x hx
      rw [hc, Option.some.inj hx]
    · exact Or.inr ⟨v, none, s, rfl, by simp only [hc, bind, Except.bind], hg.ok h.table, by simp⟩
    · exact Or.inl (by simp only [hc, bind, Except.bind])

/-- **A step keeps the invariant.** -/
theorem MapOK.step (h : MapOK m) (act : Mapping.Act) (he : Mapping.step act m = .ok m') :
    MapOK m' ∧ m'.vmm = m.vmm := by
  cases act with
  | mmap s n o =>
    obtain rfl := Except.ok.inj he
    refine ⟨h.mmap s n o, ?_⟩
    unfold Mapping.mmap
    split <;> rfl
  | munmap a n =>
    obtain rfl := Except.ok.inj he
    exact ⟨h.munmap a (a + n), rfl⟩
  | merge v w =>
    obtain rfl := Except.ok.inj he
    refine ⟨h.merge v w, ?_⟩
    unfold Mapping.merge
    split <;> rfl
  | fault u ask =>
    simp only [Mapping.step] at he
    rcases h.fault_cases u ask with hf | hf | ⟨v, page, s, -, hf, hok, -⟩
    · rw [hf] at he
      obtain rfl := Except.ok.inj he
      exact ⟨h, rfl⟩
    · rw [hf] at he; simp [bind, Except.bind] at he
    · rw [hf] at he
      obtain rfl := Except.ok.inj he
      exact ⟨h.setPhys hok, rfl⟩
  | mmapPage gpa ask =>
    simp only [Mapping.step, vmIoctlMmapPage] at he
    rcases vmmNptCreate_spec h.table gpa ask with ⟨f, s, hc, hg, -, -⟩ | ⟨s, hc, hg, -⟩ | ⟨hc, -⟩
    · rw [hc] at he
      obtain rfl := Except.ok.inj he
      exact ⟨h.setPhys (hg.ok h.table), rfl⟩
    · rw [hc] at he
      obtain rfl := Except.ok.inj he
      exact ⟨h.setPhys (hg.ok h.table), rfl⟩
    · rw [hc] at he; simp [bind, Except.bind] at he

/-- **A run keeps the invariant.** -/
theorem MapOK.run (acts : List Mapping.Act) : ∀ m : Mapping, MapOK m → m.run acts = .ok m' →
    MapOK m' ∧ m'.vmm = m.vmm := by
  induction acts with
  | nil =>
    intro m h he
    obtain rfl := Except.ok.inj he
    exact ⟨h, rfl⟩
  | cons act acts ih =>
    intro m h he
    unfold Mapping.run at he
    rw [List.foldlM_cons] at he
    cases hs : Mapping.step act m with
    | error e => rw [hs] at he; simp [bind, Except.bind] at he
    | ok m₁ =>
      rw [hs] at he
      obtain ⟨h₁, hvmm₁⟩ := h.step act hs
      obtain ⟨h₂, hvmm₂⟩ := ih m₁ h₁ he
      exact ⟨h₂, hvmm₂.trans hvmm₁⟩

/-! ## Coherence -/

/-- The page returned for one address is translated to from another exactly when the
addresses are in the same page. -/
theorem created_translates_iff {s s' : Phys} {ncr3 page d g : Word} {np : Option (List Slot)} {ask : ℕ → Option Frame}
    (hs : NptOK s (vmmPhysToVirt ncr3) np) (hc : vmmNptCreate ncr3 d false ask s = .ok (.ok page, s')) :
    (∃ f, page = f.setWidth 64 ∧ ∀ acc, hwTranslate s'.mem ncr3 acc g = .page f) ↔ key g = key d := by
  obtain ⟨hg, hnp, f, rfl, hf⟩ := vmmNptCreate_page hs hc
  have hs' := hg.ok hs
  constructor
  · rintro ⟨x, hx, hacc⟩
    obtain rfl : f = x := by
      have := congrArg (BitVec.setWidth 40) hx
      simpa using this
    have hspec := hwTranslate_spec hs' .read g
    rw [hacc .read] at hspec
    split at hspec
    · simp at hspec
    · cases hn : nodeAt s' (vmmPhysToVirt ncr3) (path g) with
      | none => rw [hn] at hspec; simp at hspec
      | some y =>
        rw [hn] at hspec
        simp only [Option.elim_some, Translation.page.injEq] at hspec
        subst hspec
        -- a leaf page is at the end of one path only
        exact (path_eq_iff g d).1 (hs'.tree _ _ f (by simp [path_length]) (by simp [path_length]) hn hf)
  · intro hk
    refine ⟨f, rfl, fun acc => ?_⟩
    rw [hwTranslate_spec hs' acc g, (path_eq_iff g d).2 hk, if_neg hnp, hf]
    rfl

/-- **When the userspace view is coherent.** In every state that a run of `mmap`, `munmap`,
merges, faults and page requests on a new vm reaches, let `u` be a page that was mapped by a
call at `s` with the offset `o`. A fault at `u` installs the host page of the guest page
`o + (u - s)` if and only if the area that contains `u` has the offset zero, as far as four
levels tell pages apart. -/
theorem fault_coherent_iff {c : VmmAsk} {n : ℕ} {vmm : Vmm} {s₀ s₁ : Phys} {acts : List Mapping.Act} {s o : ℕ}
    (hc : createVmm c s₀ = .ok (.ok (n, vmm), s₁)) (hr : (Mapping.start s₁ vmm).run acts = .ok m)
    (hu : m.origin u = some (s, o)) :
    ∃ v, m.vmas.find? (fun v => v.Has u) = some v ∧ ∀ ask page m', m.fault u ask = .ok (some page, m') →
      ((∃ f, page = f.setWidth 64 ∧
        ∀ acc, hwTranslate m'.phys.mem vmm.ncr3 acc (pageAddr (o + (u - s))) = .page f) ↔ v.vmPgoff % 2 ^ 36 = 0) := by
  have hstart : MapOK (Mapping.start s₁ vmm) := ⟨(createVmm_fresh hc).ok, by simp [Mapping.start], by simp [Mapping.start]⟩
  obtain ⟨h, hvmm⟩ := MapOK.run acts _ hstart hr
  have hvmm' : m.vmm = vmm := hvmm
  subst hvmm'
  obtain ⟨v₀, hv₀, hhas₀⟩ := h.covered u s o hu
  obtain ⟨v, hv⟩ : ∃ v, m.vmas.find? (fun v => v.Has u) = some v := by
    rw [← Option.isSome_iff_exists, List.find?_isSome]
    exact ⟨v₀, hv₀, by simpa using hhas₀⟩
  refine ⟨v, hv, ?_⟩
  intro ask page m' hf
  have hhas : v.Has u := by simpa using List.find?_some hv
  obtain ⟨s', o', ho, -, hoff⟩ := h.sound v (List.mem_of_find?_eq_some hv) u hhas
  rw [hu] at ho
  obtain ⟨rfl, rfl⟩ : s = s' ∧ o = o' := by simpa using ho
  rcases h.fault_cases u ask with hf' | hf' | ⟨v', page', s₂, hv', hf', -, hcall⟩
  · rw [hf'] at hf; simp at hf
  · rw [hf'] at hf; simp at hf
  rw [hv] at hv'
  obtain rfl := Option.some.inj hv'
  rw [hf'] at hf
  obtain ⟨rfl, rfl⟩ : page' = some page ∧ { m with phys := s₂ } = m' := by simpa using hf
  rw [created_translates_iff h.table (hcall page rfl), ← BitVec.toNat_inj, key_pageAddr, key_pageAddr, hoff]
  omega

/-- Three pages of a new vm are mapped at offset zero. A fault at the second installs the page
of `0x1000`. -/
theorem fault_coherent_page : ∃ s₁ m m', createVmm countingAsk emptyPhys = .ok (.ok (0, ⟨pageToPhys 1⟩), s₁) ∧
    (Mapping.start s₁ ⟨pageToPhys 1⟩).run [.mmap 0x7f000 3 0] = .ok m ∧ m.origin 0x7f001 = some (0x7f000, 0) ∧
    m.fault 0x7f001 (fun _ => some 6) = .ok (some 6, m') ∧
    ∃ f, (6 : Word) = f.setWidth 64 ∧ ∀ acc, hwTranslate m'.phys.mem (pageToPhys 1) acc 0x1000 = .page f := by
  obtain ⟨s₁, m, m', hc, hr, ho, hf, hv⟩ : ∃ s₁ m m', createVmm countingAsk emptyPhys = .ok (.ok (0, ⟨pageToPhys 1⟩), s₁) ∧
      (Mapping.start s₁ ⟨pageToPhys 1⟩).run [.mmap 0x7f000 3 0] = .ok m ∧ m.origin 0x7f001 = some (0x7f000, 0) ∧
      m.fault 0x7f001 (fun _ => some 6) = .ok (some 6, m') ∧
      m.vmas.find? (fun v => v.Has 0x7f001) = some ⟨0x7f000, 0x7f003, 0⟩ := ⟨_, _, _, rfl, rfl, rfl, rfl, rfl⟩
  obtain ⟨v, hv', hiff⟩ := fault_coherent_iff hc hr ho
  obtain rfl := Option.some.inj (hv.symm.trans hv')
  exact ⟨s₁, m, m', hc, hr, ho, hf, (hiff _ _ _ hf).2 rfl⟩

/-- **A mapping can show the wrong guest page.** Three pages are mapped at offset zero and the
first is unmapped. A fault at the third, which stands for `0x2000`, installs the page of
`0x1000`, while `0x2000` is not in the table. -/
theorem fault_incoherent : ∃ s₁ m m', createVmm countingAsk emptyPhys = .ok (.ok (0, ⟨pageToPhys 1⟩), s₁) ∧
    (Mapping.start s₁ ⟨pageToPhys 1⟩).run [.mmap 0x7f000 3 0, .munmap 0x7f000 1] = .ok m ∧
    m.origin 0x7f002 = some (0x7f000, 0) ∧ m.fault 0x7f002 (fun _ => some 6) = .ok (some 6, m') ∧
    hwTranslate m'.phys.mem (pageToPhys 1) .read 0x1000 = .page 6 ∧
    ¬ ∃ f, (6 : Word) = f.setWidth 64 ∧
      ∀ acc, hwTranslate m'.phys.mem (pageToPhys 1) acc (pageAddr (0 + (0x7f002 - 0x7f000))) = .page f := by
  refine ⟨_, _, _, rfl, rfl, rfl, rfl, rfl, ?_⟩
  rintro ⟨f, -, hacc⟩
  have hread := hacc .read
  have hfault : ∀ {t : Translation}, t = .fault → t ≠ .page f := by
    rintro t rfl
    simp
  exact hfault rfl hread

end Yakvm
