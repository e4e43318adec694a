import Yakvm.Proof.Npt

/-!
# The nested page table refines a finite map

The abstract component is a map from guest pages to host pages in which the first
request for a guest page decides its host page. `MapRun` runs the two side by side;
`Refines` is the relation they keep, and `npt_refines_map` reads off it that the table
answers requests as the map does and that the hardware translates by the map.
-/

namespace Yakvm

/-- A map from guest pages to host pages. -/
abbrev PageMap := BitVec 36 → Option Word

/-- A request for the guest page `k` that is answered by `page`: an existing page stays. -/
def PageMap.create (m : PageMap) (k : BitVec 36) (page : Word) : PageMap :=
  Function.update m k ((m k).or (some page))

/-- Runs of a nested page table: successful calls of `yakvm_vmm_npt_create`, recorded in
the map, and updates of Accessed and Dirty bits in any entry. -/
inductive MapRun (ncr3 : Word) (s₀ : Phys) : PageMap → Phys → Prop
  | start : MapRun ncr3 s₀ (fun _ => none) s₀
  | create {m : PageMap} {s s' : Phys} {gpa page : Word} {ask : ℕ → Option Frame} :
      MapRun ncr3 s₀ m s → vmmNptCreate ncr3 gpa false ask s = .ok (.ok page, s') →
      MapRun ncr3 s₀ (m.create (key gpa) page) s'
  | setAd {m : PageMap} {s : Phys} {t : Frame} {i : Slot} {a d : Bool} :
      MapRun ncr3 s₀ m s → s.mem t i ≠ 0 → MapRun ncr3 s₀ m (hwSetAd s t i a d)

/-- The map holds the leaf pages of the table, the hidden one excepted. -/
structure Refines (root : Frame) (m : PageMap) (s : Phys) : Prop where
  ok : NptOK s root (some (path mmioHawk))
  map : ∀ g page, m (key g) = some page ↔
    key g ≠ key mmioHawk ∧ ∃ f : Frame, page = f.setWidth 64 ∧ nodeAt s root (path g) = some f

variable {root : Frame} {m : PageMap} {s s' s₀ : Phys} {gpa : Word}

/-- No mapped page: the new table translates nothing. -/
theorem Fresh.refines {o : ℕ} {vmm : Vmm} (h : Fresh s o vmm s') :
    Refines (vmmPhysToVirt vmm.ncr3) (fun _ => none) s' := by
  refine ⟨h.ok, ?_⟩
  intro g page
  simp only [reduceCtorEq, false_iff]
  rintro ⟨hk, f, -, hn⟩
  have hpre := h.only (path g) f (by simp [path_length]) hn
  have heq := List.IsPrefix.eq_of_length hpre (by simp [path_length])
  exact hk ((path_eq_iff _ _).1 heq)

/-- **One call refines one request of the map.** -/
theorem Refines.create {ncr3 page : Word} {ask : ℕ → Option Frame} (h : Refines (vmmPhysToVirt ncr3) m s)
    (hc : vmmNptCreate ncr3 gpa false ask s = .ok (.ok page, s')) :
    Refines (vmmPhysToVirt ncr3) (m.create (key gpa) page) s' := by
  obtain ⟨hg, hnp, f, rfl, hf⟩ := vmmNptCreate_page h.ok hc
  have hk : key gpa ≠ key mmioHawk := fun hk => hnp (by rw [(path_eq_iff _ _).2 hk])
  refine ⟨hg.ok h.ok, ?_⟩
  intro g page
  by_cases hkg : key g = key gpa
  · -- the page asked for: mapped before, or mapped to the page just returned
    have hpath : path g = path gpa := (path_eq_iff _ _).2 hkg
    simp only [PageMap.create, hkg, Function.update_self, hpath, hf, ne_eq, hk, not_false_eq_true, true_and]
    cases hm : m (key gpa) with
    | none =>
      simp only [Option.none_or, Option.some.injEq]
      constructor
      · rintro rfl; exact ⟨f, rfl, rfl⟩
      · rintro ⟨x, rfl, hx⟩; rw [hx]
    | some first =>
      obtain ⟨-, x, rfl, hx⟩ := (h.map gpa first).1 hm
      have hxf := hg.mono h.ok (by simp [path_length]) hx
      rw [hf] at hxf
      obtain rfl := Option.some.inj hxf
      simp only [Option.some_or, Option.some.injEq]
      constructor
      · rintro rfl; exact ⟨f, rfl, rfl⟩
      · rintro ⟨x, rfl, hx⟩; rw [hx]
  · -- any other page: its leaf is off the path of the call
    have hoff : ¬ path g <+: path gpa := by
      intro hpre
      exact hkg ((path_eq_iff _ _).1 (List.IsPrefix.eq_of_length hpre (by simp [path_length])))
    simp only [PageMap.create, Function.update_of_ne hkg]
    rw [hg.other h.ok (by simp [path_length]) hoff]
    exact h.map g page

/-- **Every run refines the map.** -/
theorem MapRun.refines {ncr3 : Word} (h0 : Refines (vmmPhysToVirt ncr3) (fun _ => none) s₀)
    (hr : MapRun ncr3 s₀ m s) : Refines (vmmPhysToVirt ncr3) m s := by
  induction hr with
  | start => exact h0
  | create _ hc ih => exact ih.create hc
  | setAd _ hne ih =>
    obtain ⟨h1, h2⟩ := hwSetAd_ok ih.ok hne _ _
    refine ⟨h1, ?_⟩
    intro g page
    rw [h2]
    exact ih.map g page

/-- The hardware translates by the map. -/
theorem Refines.translate {ncr3 : Word} (h : Refines (vmmPhysToVirt ncr3) m s) (acc : Access) (g : Word) (f : Frame) :
    hwTranslate s.mem ncr3 acc g = .page f ↔ m (key g) = some (f.setWidth 64) := by
  rw [hwTranslate_spec h.ok, h.map]
  by_cases hk : key g = key mmioHawk
  · rw [if_pos (by rw [(path_eq_iff _ _).2 hk])]
    simp [hk]
  · rw [if_neg (fun he => hk ((path_eq_iff _ _).1 (Option.some.inj he).symm))]
    cases hn : nodeAt s (vmmPhysToVirt ncr3) (path g) with
    | none => simp
    | some x =>
      simp only [Option.elim_some, Translation.page.injEq, ne_eq, hk, not_false_eq_true, Option.some.injEq, true_and]
      constructor
      · rintro rfl; exact ⟨x, rfl, rfl⟩
      · rintro ⟨y, hy, rfl⟩; exact (setWidth_frame_inj hy).symm

/-- **The nested page table refines a finite map.** After `yakvm_create_vmm` and any run of
successful calls and hardware updates: the hardware translates an address, for any kind
of access, exactly to the page the map gives its key; the page of `YAKVM_MMIO_HAWK` has a
leaf entry without the present bit; and a further call returns a new zeroed leaf page if
its key is new, returns the page of the first call and changes nothing if it is not, and
leaves the translation of every other key alone. -/
theorem npt_refines_map {a : VmmAsk} {o : ℕ} {vmm : Vmm} {s₀ s₁ s : Phys} {m : PageMap}
    (h : createVmm a s₀ = .ok (.ok (o, vmm), s₁)) (hr : MapRun vmm.ncr3 s₁ m s) :
    (∀ acc g f, hwTranslate s.mem vmm.ncr3 acc g = .page f ↔ m (key g) = some (f.setWidth 64)) ∧
    (∃ t, nodeAt s (vmmPhysToVirt vmm.ncr3) ((path mmioHawk).take 3) = some t ∧
      (s.mem t (tableIndex mmioHawk PT)).getLsbD 0 = false) ∧
    (∀ gpa ask page s', vmmNptCreate vmm.ncr3 gpa false ask s = .ok (.ok page, s') →
      (m (key gpa) = none → ∃ f, page = f.setWidth 64 ∧ f ∉ s.pages ∧ f ∈ s'.pages ∧ s'.mem f = 0 ∧
        nodeAt s' (vmmPhysToVirt vmm.ncr3) (path gpa) = some f) ∧
      (∀ first, m (key gpa) = some first → page = first ∧ s' = s) ∧
      (∀ acc g, key g ≠ key gpa →
        hwTranslate s'.mem vmm.ncr3 acc g = hwTranslate s.mem vmm.ncr3 acc g)) := by
  have href := hr.refines (createVmm_fresh h).refines
  refine ⟨href.translate, ?_, ?_⟩
  · obtain ⟨-, f, hf⟩ := href.ok.hidden _ rfl
    have hsplit : path mmioHawk = (path mmioHawk).take 3 ++ [tableIndex mmioHawk PT] := rfl
    rw [hsplit] at hf
    obtain ⟨t, ht, hne, -⟩ := nodeAt_concat_inv hf
    exact ⟨t, ht, (href.ok.present _ t _ (by simp [path_length]) ht hne).2 rfl⟩
  · intro gpa ask page s' hc
    obtain ⟨hg, hnp, f, rfl, hf⟩ := vmmNptCreate_page href.ok hc
    have hk : key gpa ≠ key mmioHawk := fun hk => hnp (by rw [(path_eq_iff _ _).2 hk])
    refine ⟨?_, ?_, ?_⟩
    · intro hm
      have hno : nodeAt s (vmmPhysToVirt vmm.ncr3) (path gpa) = none := by
        cases hx : nodeAt s (vmmPhysToVirt vmm.ncr3) (path gpa) with
        | none => rfl
        | some x => rw [(href.map gpa _).2 ⟨hk, x, rfl, hx⟩] at hm; simp at hm
      refine ⟨f, rfl, hg.fresh href.ok (by simp [path_length]) hno hf, ?_,
        hg.leaf_zero href.ok (path_length gpa) hno hf, hf⟩
      exact (hg.ok href.ok).live (path gpa) f (by simp [path_length]) hf
    · intro first hm
      obtain ⟨-, x, rfl, hx⟩ := (href.map gpa first).1 hm
      have hs := hg.eq_of_full hx
      subst hs
      rw [hx] at hf
      rw [Option.some.inj hf]
      exact ⟨rfl, rfl⟩
    · intro acc g hkg
      have hoff : ¬ path g <+: path gpa := fun hpre =>
        hkg ((path_eq_iff _ _).1 (List.IsPrefix.eq_of_length hpre (by simp [path_length])))
      rw [hwTranslate_spec href.ok, hwTranslate_spec (hg.ok href.ok), hg.other href.ok (by simp [path_length]) hoff]

/-- A machine with no page in use. -/
def emptyPhys : Phys := ⟨fun _ _ => 0, ∅, ∅, 0⟩

/-- An allocator that answers with the frames `1, 2, ...`. -/
def countingAsk : VmmAsk := ⟨some 1, true, fun level => some (BitVec.ofNat 40 (6 - level))⟩

theorem counting_created :
    ∃ s, createVmm countingAsk emptyPhys = .ok (.ok (0, ⟨pageToPhys 1⟩), s) := ⟨_, rfl⟩

/-- In a new vm, a call for the page at `0x1000` that is answered with frame 6 makes the
hardware translate that page to frame 6, also after Accessed and Dirty bits are set in
the root. -/
theorem npt_refines_map_page : ∃ s₁ s m, createVmm countingAsk emptyPhys = .ok (.ok (0, ⟨pageToPhys 1⟩), s₁) ∧
    MapRun (pageToPhys 1) s₁ m s ∧ hwTranslate s.mem (pageToPhys 1) .write 0x1000 = .page 6 := by
  obtain ⟨s₁, hs₁⟩ := counting_created
  have hcall : ∃ s, vmmNptCreate (pageToPhys 1) 0x1000 false (fun _ => some 6) s₁ = .ok (.ok 6, s) ∧
      s.mem 1 0 ≠ 0 := by
    cases hs₁
    exact ⟨_, rfl, by decide⟩
  obtain ⟨s, hs, hne⟩ := hcall
  have hr : MapRun (pageToPhys 1) s₁ (PageMap.create (fun _ => none) (key 0x1000) 6) (hwSetAd s 1 0 true true) :=
    .setAd (.create .start hs) hne
  exact ⟨s₁, _, _, hs₁, hr, ((npt_refines_map hs₁ hr).1 _ _ _).2 rfl⟩

end Yakvm
