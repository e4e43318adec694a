import Mathlib.Data.List.Basic
import Mathlib.Tactic.Ring

/-!
# Byte-addressed memory

Memory as a function from addresses of `w` bits to bytes, with little-endian loads and
stores of `n` bytes. Ranges wrap around at the end of the address space; `Apart` says that
two ranges share no byte.

* `load_store_same`, `load_store_apart`: the two laws of loads and stores.
* `load_storeAll_mem`, `load_storeAll_apart`: the same for a list of stores to ranges that
  are pairwise apart; `storeAll_load_same`: stores of what is there already.
* `Only`: what a piece of code may change, and `Only.load`: what it then keeps.
* `bytesAt_writeBytes`, `writeBytes_only`: bytes written to a range.
-/

namespace Bytes

variable {w n k : ℕ}

/-- Memory with addresses of `w` bits. -/
abbrev Mem (w : ℕ) := BitVec w → BitVec 8

/-- A load of `n` bytes. -/
def load (m : Mem w) (a : BitVec w) : (n : ℕ) → BitVec (8 * n)
  | 0 => 0
  | n + 1 => load m (a + 1) n ++ m a

/-- A store of `n` bytes. -/
def store (m : Mem w) (a : BitVec w) (n : ℕ) (v : BitVec (8 * n)) : Mem w := fun x =>
  if (x - a).toNat < n then v.extractLsb' (8 * (x - a).toNat) 8 else m x

/-- The ranges of `n` bytes at `a` and of `k` bytes at `b` share no byte. -/
def Apart (a : BitVec w) (n : ℕ) (b : BitVec w) (k : ℕ) : Prop :=
  n ≤ (b - a).toNat ∧ k ≤ (a - b).toNat

instance (a : BitVec w) (n : ℕ) (b : BitVec w) (k : ℕ) : Decidable (Apart a n b k) :=
  inferInstanceAs (Decidable (_ ∧ _))

/-- The range of `n` bytes at `a` is part of the range of `k` bytes at `b`. -/
def Inside (a : BitVec w) (n : ℕ) (b : BitVec w) (k : ℕ) : Prop :=
  ∃ i, a = b + BitVec.ofNat w i ∧ i + n ≤ k

/-! ## Ranges -/

variable {a b c d : BitVec w} {i j l : ℕ}

theorem Apart.symm (h : Apart a n b k) : Apart b k a n := ⟨h.2, h.1⟩

theorem add_sub_add (b : BitVec w) (h : i ≤ j) :
    b + BitVec.ofNat w j - (b + BitVec.ofNat w i) = BitVec.ofNat w (j - i) := by
  have hj : BitVec.ofNat w j = BitVec.ofNat w (j - i) + BitVec.ofNat w i := by
    rw [← BitVec.ofNat_add, Nat.sub_add_cancel h]
  rw [hj, ← BitVec.add_assoc, BitVec.add_comm b (BitVec.ofNat w (j - i)), BitVec.add_assoc, BitVec.add_sub_cancel]

/-- The two distances between different addresses add up to the address space. -/
theorem toNat_ofNat_sub (b : BitVec w) (hij : i < j) (hj : j < i + 2 ^ w) :
    (b + BitVec.ofNat w j - (b + BitVec.ofNat w i)).toNat = j - i ∧
      (b + BitVec.ofNat w i - (b + BitVec.ofNat w j)).toNat = i + 2 ^ w - j := by
  have hfull : b + BitVec.ofNat w i = b + BitVec.ofNat w (i + 2 ^ w) := by
    apply BitVec.eq_of_toNat_eq
    simp
  refine ⟨?_, ?_⟩
  · rw [add_sub_add b hij.le, BitVec.toNat_ofNat, Nat.mod_eq_of_lt (by omega)]
  · rw [hfull, add_sub_add b hj.le, BitVec.toNat_ofNat, Nat.mod_eq_of_lt (by omega)]

/-- Two ranges at different offsets of one address. -/
theorem apart_offsets (b : BitVec w) (hn : 0 < n) (hij : i + n ≤ j) (hk : 0 < k) (hj : j + k ≤ i + 2 ^ w) :
    Apart (b + BitVec.ofNat w i) n (b + BitVec.ofNat w j) k := by
  obtain ⟨h1, h2⟩ := toNat_ofNat_sub (w := w) b (show i < j by omega) (by omega)
  exact ⟨by omega, by omega⟩

/-- Parts of ranges that are apart are apart. -/
theorem Apart.inside (h : Apart b k d l) (hn : 0 < n) (ha : Inside a n b k) {m : ℕ} (hm : 0 < m)
    (hc : Inside c m d l) : Apart a n c m := by
  obtain ⟨i, rfl, hi⟩ := ha
  obtain ⟨j, rfl, hj⟩ := hc
  -- measured from `b`, the range at `d` starts at `x`
  set x := (d - b).toNat with hx
  have hd : d = b + BitVec.ofNat w x := by
    rw [hx, BitVec.ofNat_toNat, BitVec.setWidth_eq, BitVec.add_comm, BitVec.sub_add_cancel]
  have hx1 : k ≤ x := h.1
  have hlt : x < 2 ^ w := (d - b).isLt
  have hx2 : l ≤ 2 ^ w - x := by
    have h2 := h.2
    have hb : b = b + BitVec.ofNat w 0 := by simp
    rw [hd] at h2
    nth_rewrite 1 [hb] at h2
    rw [(toNat_ofNat_sub b (by omega) (by omega)).2] at h2
    omega
  rw [hd, BitVec.add_assoc, ← BitVec.ofNat_add]
  exact apart_offsets b hn (by omega) hm (by omega)

/-! ## Loads and stores -/

/-- The bits of a load. -/
theorem getLsbD_load (m : Mem w) : ∀ (n : ℕ) (a : BitVec w) (i : ℕ), i < 8 * n →
    (load m a n).getLsbD i = (m (a + BitVec.ofNat w (i / 8))).getLsbD (i % 8) := by
  intro n
  induction n with
  | zero => intro a i hi; omega
  | succ n ih =>
    intro a i hi
    unfold load
    rw [BitVec.getLsbD_append]
    by_cases hlow : i < 8
    · rw [if_pos hlow, Nat.div_eq_of_lt hlow, Nat.mod_eq_of_lt hlow]
      simp
    · rw [if_neg hlow, ih (a + 1) (i - 8) (by omega)]
      have hdiv : i / 8 = (i - 8) / 8 + 1 := by omega
      have haddr : a + 1 + BitVec.ofNat w ((i - 8) / 8) = a + BitVec.ofNat w (i / 8) := by
        rw [hdiv, BitVec.ofNat_add, BitVec.add_assoc, BitVec.add_comm 1]
        rfl
      rw [haddr, show (i - 8) % 8 = i % 8 by omega]

/-- A load depends on the bytes of its range only. -/
theorem load_congr {m m' : Mem w} (h : ∀ i, i < n → m (a + BitVec.ofNat w i) = m' (a + BitVec.ofNat w i)) :
    load m a n = load m' a n := by
  apply BitVec.eq_of_getLsbD_eq
  intro i hi
  rw [getLsbD_load m n a i hi, getLsbD_load m' n a i hi, h (i / 8) (by omega)]

theorem add_ofNat_sub (a : BitVec w) (hi : i < 2 ^ w) : (a + BitVec.ofNat w i - a).toNat = i := by
  rw [BitVec.add_comm, BitVec.add_sub_cancel, BitVec.toNat_ofNat, Nat.mod_eq_of_lt hi]

theorem load_store_same (m : Mem w) (a : BitVec w) (hn : n ≤ 2 ^ w) (v : BitVec (8 * n)) :
    load (store m a n v) a n = v := by
  apply BitVec.eq_of_getLsbD_eq
  intro i hi
  rw [getLsbD_load _ n a i hi]
  unfold store
  rw [add_ofNat_sub a (by omega), if_pos (by omega), BitVec.getLsbD_extractLsb']
  rw [show 8 * (i / 8) + i % 8 = i by omega]
  simp [Nat.mod_lt]

/-- A byte outside the range is kept. -/
theorem store_other (m : Mem w) (v : BitVec (8 * k)) {x : BitVec w} (h : k ≤ (x - b).toNat) :
    store m b k v x = m x := if_neg (by omega)

theorem Apart.byte (h : Apart a n b k) (hi : i < n) : k ≤ (a + BitVec.ofNat w i - b).toNat := by
  rcases Nat.eq_zero_or_pos k with hk | hk
  · omega
  · exact (h.inside (n := 1) Nat.one_pos ⟨i, rfl, hi⟩ hk ⟨0, by simp, by omega⟩).2

theorem load_store_apart (m : Mem w) (v : BitVec (8 * k)) (h : Apart a n b k) :
    load (store m b k v) a n = load m a n :=
  load_congr fun _ hi => store_other m v (h.byte hi)

/-! ## Lists of stores -/

/-- A sequence of stores of `n` bytes. -/
def storeAll (n : ℕ) (m : Mem w) (ws : List (BitVec w × BitVec (8 * n))) : Mem w :=
  ws.foldl (fun m x => store m x.1 n x.2) m

theorem storeAll_cons (m : Mem w) (x : BitVec w × BitVec (8 * n)) (ws : List (BitVec w × BitVec (8 * n))) :
    storeAll n m (x :: ws) = storeAll n (store m x.1 n x.2) ws := rfl

/-- What a byte holds after a sequence of stores depends on what it held before, and on no other
byte. -/
theorem storeAll_congr {ws : List (BitVec w × BitVec (8 * n))} {x : BitVec w} : ∀ {m m' : Mem w}, m x = m' x →
    storeAll n m ws x = storeAll n m' ws x := by
  induction ws with
  | nil => intro m m' h; exact h
  | cons y ws ih =>
    intro m m' h
    rw [storeAll_cons, storeAll_cons]
    apply ih
    unfold store
    rw [h]

/-- A byte outside the ranges is kept. -/
theorem storeAll_other {ws : List (BitVec w × BitVec (8 * n))} {x : BitVec w} (h : ∀ y ∈ ws, n ≤ (x - y.1).toNat) :
    ∀ m : Mem w, storeAll n m ws x = m x := by
  induction ws with
  | nil => intro m; rfl
  | cons y ws ih =>
    intro m
    rw [storeAll_cons, ih (fun z hz => h z (List.mem_cons_of_mem _ hz)), store_other m y.2 (h y List.mem_cons_self)]

theorem load_storeAll_apart {ws : List (BitVec w × BitVec (8 * n))} (h : ∀ x ∈ ws, Apart a k x.1 n) :
    ∀ m : Mem w, load (storeAll n m ws) a k = load m a k := by
  induction ws with
  | nil => intro m; rfl
  | cons x ws ih =>
    intro m
    rw [storeAll_cons, ih (fun y hy => h y (List.mem_cons_of_mem _ hy)),
      load_store_apart m x.2 (h x List.mem_cons_self)]

theorem load_storeAll_mem {ws : List (BitVec w × BitVec (8 * n))} (hn : n ≤ 2 ^ w)
    (h : ws.Pairwise fun x y => Apart x.1 n y.1 n) {x : BitVec w × BitVec (8 * n)} (hx : x ∈ ws) :
    ∀ m : Mem w, load (storeAll n m ws) x.1 n = x.2 := by
  induction ws with
  | nil => simp at hx
  | cons y ws ih =>
    intro m
    rw [List.pairwise_cons] at h
    rw [storeAll_cons]
    rcases List.mem_cons.1 hx with rfl | hx
    · rw [load_storeAll_apart h.1, load_store_same m x.1 hn]
    · exact ih h.2 hx _

/-- Storing what is there changes nothing. -/
theorem store_load_same (m : Mem w) (a : BitVec w) (n : ℕ) : store m a n (load m a n) = m := by
  funext x
  unfold store
  by_cases hx : (x - a).toNat < n
  · rw [if_pos hx]
    have haddr : a + BitVec.ofNat w (x - a).toNat = x := by
      rw [BitVec.ofNat_toNat, BitVec.setWidth_eq, BitVec.add_comm, BitVec.sub_add_cancel]
    apply BitVec.eq_of_getLsbD_eq
    intro i hi
    rw [BitVec.getLsbD_extractLsb', getLsbD_load m n a _ (by omega)]
    rw [show (8 * (x - a).toNat + i) / 8 = (x - a).toNat by omega, haddr, show (8 * (x - a).toNat + i) % 8 = i by omega]
    simp [hi]
  · rw [if_neg hx]

theorem storeAll_load_same {m : Mem w} {ws : List (BitVec w × BitVec (8 * n))} (h : ∀ x ∈ ws, load m x.1 n = x.2) :
    storeAll n m ws = m := by
  induction ws with
  | nil => rfl
  | cons x ws ih =>
    rw [storeAll_cons, ← h x List.mem_cons_self, store_load_same]
    exact ih fun y hy => h y (List.mem_cons_of_mem _ hy)

/-! ## What changes -/

/-- `m'` differs from `m` in bytes of the given ranges only. -/
def Only (rs : List (BitVec w × ℕ)) (m m' : Mem w) : Prop :=
  ∀ x, (∀ r ∈ rs, r.2 ≤ (x - r.1).toNat) → m' x = m x

variable {rs rs' : List (BitVec w × ℕ)} {m m' m'' : Mem w}

theorem Only.trans (h : Only rs m m') (h' : Only rs' m' m'') : Only (rs ++ rs') m m'' := by
  intro x hx
  rw [h' x (fun r hr => hx r (List.mem_append_right _ hr)), h x (fun r hr => hx r (List.mem_append_left _ hr))]

/-- A load away from what changed. -/
theorem Only.load (h : Only rs m m') (ha : ∀ r ∈ rs, Apart a n r.1 r.2) : load m' a n = load m a n :=
  load_congr fun _ hi => h _ fun r hr => (ha r hr).byte hi

/-- A byte of a part is a byte of the whole. -/
theorem Inside.byte (h : Inside a n b k) (hk : k ≤ 2 ^ w) {x : BitVec w} (hx : (x - a).toNat < n) :
    (x - b).toNat < k := by
  obtain ⟨i, rfl, hi⟩ := h
  set y := (x - (b + BitVec.ofNat w i)).toNat with hy
  have hxe : x = b + BitVec.ofNat w (i + y) := by
    rw [BitVec.ofNat_add, ← BitVec.add_assoc, hy, BitVec.ofNat_toNat, BitVec.setWidth_eq,
      BitVec.add_comm, BitVec.sub_add_cancel]
  rw [hxe, add_ofNat_sub b (by omega)]
  omega

theorem store_only (m : Mem w) (v : BitVec (8 * n)) (h : Inside a n b k) (hk : k ≤ 2 ^ w) :
    Only [(b, k)] m (store m a n v) := by
  intro x hx
  apply store_other
  by_contra hlt
  have hin : (x - b).toNat < k := h.byte hk (not_le.1 hlt)
  have hout : k ≤ (x - b).toNat := hx (b, k) List.mem_cons_self
  omega

theorem storeAll_only {ws : List (BitVec w × BitVec (8 * n))} (h : ∀ x ∈ ws, Inside x.1 n b k) (hk : k ≤ 2 ^ w) :
    ∀ m : Mem w, Only [(b, k)] m (storeAll n m ws) := by
  induction ws with
  | nil => intro m x _; rfl
  | cons y ws ih =>
    intro m x hx
    rw [storeAll_cons, ih (fun z hz => h z (List.mem_cons_of_mem _ hz)) _ x hx,
      store_only m y.2 (h y List.mem_cons_self) hk x hx]

/-! ## Ranges of bytes -/

/-- The bytes of a range. -/
def bytesAt (m : Mem w) (a : BitVec w) (n : ℕ) : List (BitVec 8) :=
  (List.range n).map fun i => m (a + BitVec.ofNat w i)

/-- Bytes written to a range. -/
def writeBytes (m : Mem w) (a : BitVec w) (bs : List (BitVec 8)) : Mem w := fun x => bs.getD (x - a).toNat (m x)

theorem bytesAt_eq_iff : bytesAt m a n = bytesAt m' b n ↔
    ∀ i, i < n → m (a + BitVec.ofNat w i) = m' (b + BitVec.ofNat w i) := by
  unfold bytesAt
  rw [List.map_inj_left]
  simp only [List.mem_range]

theorem bytesAt_writeBytes (m : Mem w) (a : BitVec w) {bs : List (BitVec 8)} (h : bs.length ≤ 2 ^ w) :
    bytesAt (writeBytes m a bs) a bs.length = bs := by
  apply List.ext_getElem
  · simp [bytesAt]
  · intro i hi hlt
    simp only [bytesAt, List.getElem_map, List.getElem_range, writeBytes]
    rw [add_ofNat_sub a (by omega), List.getD_eq_getElem?_getD, List.getElem?_eq_getElem hlt, Option.getD_some]

theorem writeBytes_only (m : Mem w) (a : BitVec w) (bs : List (BitVec 8)) :
    Only [(a, bs.length)] m (writeBytes m a bs) := by
  intro x hx
  have hout : bs.length ≤ (x - a).toNat := hx (a, bs.length) List.mem_cons_self
  unfold writeBytes
  rw [List.getD_eq_getElem?_getD, List.getElem?_eq_none hout, Option.getD_none]

/-- A part at an offset. -/
theorem inside_offset_iff (hi : i < 2 ^ w) : Inside (b + BitVec.ofNat w i) n b k ↔ i + n ≤ k := by
  constructor
  · rintro ⟨j, hj, hle⟩
    have hij : i = j % 2 ^ w := by
      have h := congrArg (fun x => (x - b).toNat) hj
      simp only [add_ofNat_sub b hi] at h
      rw [h, BitVec.add_comm, BitVec.add_sub_cancel, BitVec.toNat_ofNat]
    have hmod := Nat.mod_le j (2 ^ w)
    omega
  · intro h
    exact ⟨i, rfl, h⟩

end Bytes
