import Yakvm.Bytes.Memory

/-!
# Structures in memory

Where C places the members of a structure, assignments to the members, and the bytes that these
leave as they were.

* `layout_inside`, `layout_pairwise`: members are in order and inside the structure.
* `storeFields_byte`: each byte after the assignments; `load_storeFields`: each member.
* `bytesAt_storeFields_iff`: two structures with the same members have the same bytes exactly when
  the bytes of no member were the same before.
-/

namespace Bytes

variable {w n k i j : ℕ} {m m' : Mem w} {a b : BitVec w}

/-! ## Layout -/

/-- `i` rounded up to a multiple of `k`. -/
def alignUp (i k : ℕ) : ℕ := (i + k - 1) / k * k

/-- The places of scalar members of the given sizes, from offset `i` on: offset and size of each.
A member is aligned to its size. -/
def layout : ℕ → List ℕ → List (ℕ × ℕ)
  | _, [] => []
  | i, k :: ks => (alignUp i k, k) :: layout (alignUp i k + k) ks

/-- The end of the last member. -/
def layoutEnd : ℕ → List ℕ → ℕ
  | i, [] => i
  | i, k :: ks => layoutEnd (alignUp i k + k) ks

/-- The size of a structure with members of the given sizes: it is aligned to the largest. -/
def sizeofStruct (ks : List ℕ) : ℕ := alignUp (layoutEnd 0 ks) (ks.foldr max 1)

theorem le_alignUp (i : ℕ) (hk : 0 < k) : i ≤ alignUp i k := by
  unfold alignUp
  have hdiv := Nat.div_add_mod (i + k - 1) k
  have hmod := Nat.mod_lt (i + k - 1) hk
  rw [Nat.mul_comm] at hdiv
  omega

theorem layout_inside {ks : List ℕ} (hks : ∀ k ∈ ks, 0 < k) :
    i ≤ layoutEnd i ks ∧ ∀ x ∈ layout i ks, i ≤ x.1 ∧ x.1 + x.2 ≤ layoutEnd i ks ∧ 0 < x.2 := by
  induction ks generalizing i with
  | nil => exact ⟨le_rfl, by simp [layout]⟩
  | cons k ks ih =>
    obtain ⟨hend, hall⟩ := ih (i := alignUp i k + k) fun x hx => hks x (List.mem_cons_of_mem _ hx)
    have hk : 0 < k := hks k List.mem_cons_self
    have hle := le_alignUp i hk
    unfold layout layoutEnd
    refine ⟨by omega, ?_⟩
    intro x hx
    rcases List.mem_cons.1 hx with rfl | hx
    · exact ⟨hle, hend, hk⟩
    · obtain ⟨h1, h2, h3⟩ := hall x hx
      exact ⟨by omega, h2, h3⟩

theorem layout_pairwise {ks : List ℕ} (hks : ∀ k ∈ ks, 0 < k) :
    (layout i ks).Pairwise fun x y => x.1 + x.2 ≤ y.1 := by
  induction ks generalizing i with
  | nil => exact List.Pairwise.nil
  | cons k ks ih =>
    have hks' : ∀ k ∈ ks, 0 < k := fun x hx => hks x (List.mem_cons_of_mem _ hx)
    unfold layout
    rw [List.pairwise_cons]
    exact ⟨fun y hy => ((layout_inside hks').2 y hy).1, ih hks'⟩

/-! ## Assignments to members -/

/-- A member of a structure, and the value assigned to it. -/
structure Field where
  off : ℕ
  size : ℕ
  val : BitVec (8 * size)

/-- Assignments to members of the structure at `a`. -/
def storeFields (m : Mem w) (a : BitVec w) (fs : List Field) : Mem w :=
  fs.foldl (fun m f => store m (a + BitVec.ofNat w f.off) f.size f.val) m

/-- The member is a range of an address space of `w` bits. -/
def Field.Fits (w : ℕ) (f : Field) : Prop := 0 < f.size ∧ f.off + f.size ≤ 2 ^ w

/-- What a member has at offset `i` of the structure. -/
def Field.byte (f : Field) (i : ℕ) : Option (BitVec 8) :=
  if f.off ≤ i ∧ i < f.off + f.size then some (f.val.extractLsb' (8 * (i - f.off)) 8) else none

/-- What the assignments leave at offset `i`; none, if it is in no member. -/
def fieldsByte : List Field → ℕ → Option (BitVec 8)
  | [], _ => none
  | f :: fs, i => (fieldsByte fs i).or (f.byte i)

theorem storeFields_cons (m : Mem w) (a : BitVec w) (f : Field) (fs : List Field) :
    storeFields m a (f :: fs) = storeFields (store m (a + BitVec.ofNat w f.off) f.size f.val) a fs := rfl

theorem fieldsByte_cons (f : Field) (fs : List Field) (i : ℕ) :
    fieldsByte (f :: fs) i = (fieldsByte fs i).or (f.byte i) := rfl

theorem store_byte (m : Mem w) (a : BitVec w) {f : Field} (hf : f.Fits w) (hi : i < 2 ^ w) :
    store m (a + BitVec.ofNat w f.off) f.size f.val (a + BitVec.ofNat w i) =
      (f.byte i).getD (m (a + BitVec.ofNat w i)) := by
  obtain ⟨hpos, hle'⟩ := hf
  unfold Field.byte
  rcases Nat.lt_or_ge i f.off with hlt | hle
  · have hdist := (toNat_ofNat_sub a hlt (by omega)).2
    rw [store_other _ _ (by omega), if_neg (by omega), Option.getD_none]
  · have hdist : (a + BitVec.ofNat w i - (a + BitVec.ofNat w f.off)).toNat = i - f.off := by
      rw [add_sub_add a hle, BitVec.toNat_ofNat, Nat.mod_eq_of_lt (by omega)]
    by_cases hin : i < f.off + f.size
    · unfold store
      rw [hdist, if_pos (by omega), if_pos ⟨hle, hin⟩, Option.getD_some]
    · rw [store_other _ _ (by omega), if_neg (by omega), Option.getD_none]

/-- Each byte after the assignments. -/
theorem storeFields_byte {fs : List Field} (hfs : ∀ f ∈ fs, f.Fits w) (a : BitVec w) (hi : i < 2 ^ w) :
    ∀ m : Mem w, storeFields m a fs (a + BitVec.ofNat w i) = (fieldsByte fs i).getD (m (a + BitVec.ofNat w i)) := by
  induction fs with
  | nil => intro m; rfl
  | cons f fs ih =>
    intro m
    rw [storeFields_cons, ih (fun g hg => hfs g (List.mem_cons_of_mem _ hg)),
      store_byte m a (hfs f List.mem_cons_self) hi, fieldsByte_cons]
    cases fieldsByte fs i with
    | none => rw [Option.none_or, Option.getD_none]
    | some b => rfl

theorem fieldsByte_none_iff {fs : List Field} :
    fieldsByte fs i = none ↔ ∀ f ∈ fs, ¬(f.off ≤ i ∧ i < f.off + f.size) := by
  induction fs with
  | nil => simp [fieldsByte]
  | cons f fs ih =>
    rw [fieldsByte_cons, Option.or_eq_none_iff, ih, List.forall_mem_cons, and_comm]
    unfold Field.byte
    simp

/-- **The bytes of a structure after the same assignments** are the same exactly when those that
are in no member were the same before. -/
theorem bytesAt_storeFields_iff {fs : List Field} (hfs : ∀ f ∈ fs, f.Fits w) (hn : n ≤ 2 ^ w) :
    bytesAt (storeFields m a fs) a n = bytesAt (storeFields m' b fs) b n ↔
      ∀ i, i < n → (∀ f ∈ fs, ¬(f.off ≤ i ∧ i < f.off + f.size)) →
        m (a + BitVec.ofNat w i) = m' (b + BitVec.ofNat w i) := by
  rw [bytesAt_eq_iff]
  refine forall₂_congr fun i hi => ?_
  rw [storeFields_byte hfs a (by omega), storeFields_byte hfs b (by omega), ← fieldsByte_none_iff]
  cases fieldsByte fs i with
  | none => simp
  | some b => simp

theorem load_storeFields_apart {fs : List Field} {l : BitVec w} {d : ℕ}
    (h : ∀ f ∈ fs, Apart l d (a + BitVec.ofNat w f.off) f.size) :
    ∀ m : Mem w, load (storeFields m a fs) l d = load m l d := by
  induction fs with
  | nil => intro m; rfl
  | cons f fs ih =>
    intro m
    rw [storeFields_cons, ih (fun g hg => h g (List.mem_cons_of_mem _ hg)),
      load_store_apart m f.val (h f List.mem_cons_self)]

/-- Each member holds what was assigned to it. -/
theorem load_storeFields {fs : List Field} (hfs : ∀ f ∈ fs, f.Fits w)
    (hpair : fs.Pairwise fun f g => f.off + f.size ≤ g.off) {f : Field} (hf : f ∈ fs) :
    ∀ m : Mem w, load (storeFields m a fs) (a + BitVec.ofNat w f.off) f.size = f.val := by
  induction fs with
  | nil => simp at hf
  | cons g fs ih =>
    intro m
    rw [List.pairwise_cons] at hpair
    have hfs' : ∀ f ∈ fs, f.Fits w := fun f hf => hfs f (List.mem_cons_of_mem _ hf)
    rw [storeFields_cons]
    rcases List.mem_cons.1 hf with rfl | hf
    · obtain ⟨hpos, hle⟩ := hfs f List.mem_cons_self
      rw [load_storeFields_apart, load_store_same m _ (by omega)]
      intro x hx
      obtain ⟨hpos', hle'⟩ := hfs' x hx
      exact apart_offsets a hpos (hpair.1 x hx) hpos' (by omega)
    · exact ih hfs' hpair.2 hf _

end Bytes
