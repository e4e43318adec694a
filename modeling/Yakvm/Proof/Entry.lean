import Yakvm.Spec.Entry
import Mathlib.Tactic.IntervalCases

/-!
# Decoding entries

The driver decodes entries in two ways, with a mask (`vmmPhysToVirt`, to descend) and
without one (`pfnToPage`, for the page it returns). `Linked` collects what the driver
maintains of every nonzero entry, whichever of the Accessed and Dirty bits the
hardware has set in it; on such entries the two decoders agree (`Linked.pfn`).
-/

namespace Yakvm

theorem and_twoPow_ne_zero (x : Word) {k : ℕ} (hk : k < 64) :
    x &&& BitVec.twoPow 64 k ≠ 0 ↔ x.getLsbD k = true := by
  have hbit : (BitVec.twoPow 64 k).getLsbD k = true := by simp [hk]
  rw [BitVec.and_twoPow]
  by_cases hx : x.getLsbD k = true
  · rw [if_pos hx]
    refine ⟨fun _ => hx, fun _ h0 => ?_⟩
    rw [h0] at hbit
    simp at hbit
  · simp [hx]

theorem present_iff (e : Word) : e &&& pagePresent ≠ 0 ↔ e.getLsbD 0 = true :=
  and_twoPow_ne_zero e (by omega)

theorem rw_iff (e : Word) : e &&& pageRw ≠ 0 ↔ e.getLsbD 1 = true := and_twoPow_ne_zero e (by omega)

theorem user_iff (e : Word) : e &&& pageUser ≠ 0 ↔ e.getLsbD 2 = true := and_twoPow_ne_zero e (by omega)

theorem nptAssert_iff (e : Word) :
    nptAssert e = true ↔ e.getLsbD 0 = true ∧ e.getLsbD 1 = true ∧ e.getLsbD 2 = true := by
  simp only [nptAssert, Bool.and_eq_true, decide_eq_true_eq]
  rw [present_iff, rw_iff, user_iff, and_assoc]

theorem destroyAssert_iff (e : Word) :
    destroyAssert e = true ↔ e.getLsbD 2 = true ∧ e.getLsbD 1 = true := by
  simp only [destroyAssert, Bool.and_eq_true, decide_eq_true_eq]
  rw [rw_iff, user_iff]

/-- The masked decoder reads bits 12 to 51. -/
theorem vmmPhysToVirt_eq (pa : Word) : vmmPhysToVirt pa = pa.extractLsb' 12 40 := by
  have h1 : physAddrMask = 0xfffffffffffff#64 := by decide
  have h2 : pageMask = 0xfffffffffffff000#64 := by decide
  ext i hi
  simp only [vmmPhysToVirt, vmmPage, pageShift, h1, h2]
  interval_cases i <;> simp

/-- What every nonzero entry of a nested page table keeps: writable and user flags, no
large-page bit, nothing above the physical address. -/
structure Linked (e : Word) : Prop where
  rw : e.getLsbD 1 = true
  user : e.getLsbD 2 = true
  pse : e.getLsbD 7 = false
  high : ∀ k, 52 ≤ k → e.getLsbD k = false

/-- **The two decoders agree** on linked entries. -/
theorem Linked.pfn {e : Word} (h : Linked e) : pfnToPage e = (vmmPhysToVirt e).setWidth 64 := by
  rw [vmmPhysToVirt_eq]
  ext i hi
  simp only [pfnToPage, pageShift, BitVec.getElem_ushiftRight, BitVec.getElem_setWidth,
    BitVec.getLsbD_extractLsb']
  by_cases h40 : i < 40
  · simp [h40]
  · simp [h40, h.high (12 + i) (by omega)]

theorem Linked.ne_zero {e : Word} (h : Linked e) : e ≠ 0 := by
  intro h0; have := h.rw; simp [h0] at this

theorem Linked.child {e : Word} (h : Linked e) : child e = some (vmmPhysToVirt e) := by
  unfold Yakvm.child
  rw [if_neg h.ne_zero]

theorem child_zero : child 0 = none := by simp [child]

theorem child_eq_none {e : Word} : child e = none ↔ e = 0 := by
  unfold child; split <;> simp_all

theorem child_eq_some {e : Word} {f : Frame} : child e = some f ↔ e ≠ 0 ∧ vmmPhysToVirt e = f := by
  unfold child; split <;> simp_all

theorem Linked.assert_iff {e : Word} (h : Linked e) : nptAssert e = true ↔ e.getLsbD 0 = true := by
  rw [nptAssert_iff]; simp [h.rw, h.user]

/-- Frame numbers are recovered from words. -/
theorem setWidth_frame_inj {f g : Frame} (h : f.setWidth 64 = g.setWidth 64) : f = g := by
  have := congrArg (BitVec.setWidth 40) h
  simpa using this

/-! ## New entries and the hardware's updates -/

theorem newEntry_getLsbD (f : Frame) {k : ℕ} (hk : k < 64) :
    (newEntry f).getLsbD k = (decide (12 ≤ k) && f.getLsbD (k - 12) || decide (k ≤ 2)) := by
  simp only [newEntry, pageToPhys, pagePresent, pageRw, pageUser, pageShift, BitVec.getLsbD_or,
    BitVec.getLsbD_shiftLeft, BitVec.getLsbD_setWidth, BitVec.getLsbD_twoPow]
  by_cases h12 : k < 12
  · interval_cases k <;> simp
  · have h1 : k - 12 < 64 := by omega
    have h2 : ¬ k ≤ 2 := by omega
    have h3 : 0 ≠ k ∧ 1 ≠ k ∧ 2 ≠ k := by omega
    simp [hk, h1, h12, h2, h3, show 12 ≤ k by omega]

theorem newEntry_linked (f : Frame) : Linked (newEntry f) where
  rw := by rw [newEntry_getLsbD f (by omega)]; simp
  user := by rw [newEntry_getLsbD f (by omega)]; simp
  pse := by rw [newEntry_getLsbD f (by omega)]; simp
  high := by
    intro k hk
    by_cases h : k < 64
    · rw [newEntry_getLsbD f h]
      have : f.getLsbD (k - 12) = false := BitVec.getLsbD_of_ge f _ (by omega)
      simp [this]; omega
    · exact BitVec.getLsbD_of_ge _ _ (by omega)

theorem newEntry_present (f : Frame) : (newEntry f).getLsbD 0 = true := by
  rw [newEntry_getLsbD f (by omega)]; simp

theorem newEntry_assert (f : Frame) : nptAssert (newEntry f) = true :=
  (newEntry_linked f).assert_iff.2 (newEntry_present f)

theorem vmmPhysToVirt_newEntry (f : Frame) : vmmPhysToVirt (newEntry f) = f := by
  rw [vmmPhysToVirt_eq]
  ext i hi
  simp only [BitVec.getElem_extractLsb', newEntry_getLsbD f (show 12 + i < 64 by omega)]
  have h1 : 12 ≤ 12 + i := by omega
  have h2 : ¬ 12 + i ≤ 2 := by omega
  simp [h1, h2, BitVec.getLsbD_eq_getElem hi]

theorem getLsbD_or_ad (e : Word) (a d : Bool) {k : ℕ} (h5 : k ≠ 5) (h6 : k ≠ 6) :
    (e ||| adBits a d).getLsbD k = e.getLsbD k := by
  have h : (adBits a d).getLsbD k = false := by
    cases a <;> cases d <;> simp [adBits, pageAccessed, pageDirty, Ne.symm h5, Ne.symm h6]
  rw [BitVec.getLsbD_or, h, Bool.or_false]

theorem Linked.or_ad {e : Word} (he : Linked e) (a d : Bool) : Linked (e ||| adBits a d) where
  rw := by rw [getLsbD_or_ad e a d (by omega) (by omega)]; exact he.rw
  user := by rw [getLsbD_or_ad e a d (by omega) (by omega)]; exact he.user
  pse := by rw [getLsbD_or_ad e a d (by omega) (by omega)]; exact he.pse
  high := fun k hk => by rw [getLsbD_or_ad e a d (by omega) (by omega)]; exact he.high k hk

theorem vmmPhysToVirt_or_ad (e : Word) (a d : Bool) :
    vmmPhysToVirt (e ||| adBits a d) = vmmPhysToVirt e := by
  rw [vmmPhysToVirt_eq, vmmPhysToVirt_eq]
  ext i hi
  simp only [BitVec.getElem_extractLsb']
  exact getLsbD_or_ad e a d (by omega) (by omega)

/-! ## Clearing the present bit -/

theorem getLsbD_clear (e : Word) {k : ℕ} (hk : k ≠ 0) :
    (e &&& ~~~pagePresent).getLsbD k = e.getLsbD k := by
  by_cases h : k < 64
  · have h0 : (~~~pagePresent).getLsbD k = true := by
      rw [BitVec.getLsbD_not, pagePresent, BitVec.getLsbD_twoPow]
      simp [h, Ne.symm hk]
    rw [BitVec.getLsbD_and, h0, Bool.and_true]
  · rw [BitVec.getLsbD_of_ge _ _ (by omega), BitVec.getLsbD_of_ge _ _ (by omega)]

theorem clear_present (e : Word) : (e &&& ~~~pagePresent).getLsbD 0 = false := by
  simp [pagePresent]

theorem Linked.clear {e : Word} (he : Linked e) : Linked (e &&& ~~~pagePresent) where
  rw := by rw [getLsbD_clear e (by omega)]; exact he.rw
  user := by rw [getLsbD_clear e (by omega)]; exact he.user
  pse := by rw [getLsbD_clear e (by omega)]; exact he.pse
  high := fun k hk => by rw [getLsbD_clear e (by omega)]; exact he.high k hk

theorem vmmPhysToVirt_clear (e : Word) : vmmPhysToVirt (e &&& ~~~pagePresent) = vmmPhysToVirt e := by
  rw [vmmPhysToVirt_eq, vmmPhysToVirt_eq]
  ext i hi
  simp only [BitVec.getElem_extractLsb']
  exact getLsbD_clear e (by omega)

/-- The frame of a root pointer. -/
theorem vmmPhysToVirt_pageToPhys (f : Frame) : vmmPhysToVirt (pageToPhys f) = f := by
  rw [vmmPhysToVirt_eq]
  ext i hi
  have h1 : 12 + i < 64 := by omega
  simp [pageToPhys, pageShift, BitVec.getLsbD_eq_getElem hi, h1]

/-! ## Paths and keys -/

theorem path_length (gpa : Word) : (path gpa).length = 4 := rfl

theorem tableIndex_toNat (a : Word) (l : ℕ) :
    (tableIndex a l).toNat = a.toNat / 2 ^ levelShift l % 512 := by
  have : BitVec.ofNat 64 (ptrsPerPage - 1) = BitVec.ofNat 64 (2 ^ 9 - 1) := by decide
  simp only [tableIndex, this, BitVec.toNat_setWidth, BitVec.toNat_and, BitVec.toNat_ushiftRight,
    BitVec.toNat_ofNat, Nat.shiftRight_eq_div_pow]
  norm_num [Nat.and_two_pow_sub_one_eq_mod _ 9]

/-- **Two addresses take the same path exactly when their keys agree.** -/
theorem path_eq_iff (a b : Word) : path a = path b ↔ key a = key b := by
  simp only [path, List.cons.injEq, and_true, ← BitVec.toNat_inj, tableIndex_toNat, key, pageShift,
    BitVec.toNat_setWidth, BitVec.toNat_ushiftRight, Nat.shiftRight_eq_div_pow, levelShift, PML4T, PDPT, PDT, PT]
  have ha := a.isLt
  have hb := b.isLt
  norm_num
  omega

end Yakvm
