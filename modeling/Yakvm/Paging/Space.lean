import Mathlib.Data.List.Basic
import Mathlib.Logic.Function.Basic

/-!
# Address spaces

An address space shows pages of files. Its areas say which ones, and its entries are the pages that are installed already.
Areas are cut, split, joined and moved, and entries go with them.

* `Space.Fits`: areas that overlap show the same file, and an entry lies in an area of its file.
* `Space.Within`: an address space shows no other files, and has no other entries, than another one.
* each operation keeps the first, and all but `Space.map` and `Space.install` stay within what was there.
-/

namespace Paging

variable {φ π : Type*}

/-! ## Areas -/

/-- The pages `[first, last)` show a file, from its page `offset` on. -/
structure Area (φ : Type*) where
  first : ℕ
  last : ℕ
  offset : ℕ
  file : φ
  deriving DecidableEq

namespace Area

variable {a b : Area φ} {lo hi u : ℕ}

/-- The page is in the area. -/
def Has (a : Area φ) (u : ℕ) : Prop := a.first ≤ u ∧ u < a.last

instance (a : Area φ) (u : ℕ) : Decidable (a.Has u) := inferInstanceAs (Decidable (_ ∧ _))

/-- The area from a page on. -/
def after (a : Area φ) (u : ℕ) : Area φ := { a with first := u, offset := a.offset + (u - a.first) }

/-- What is left of an area without `[lo, hi)`. -/
def without (a : Area φ) (lo hi : ℕ) : List (Area φ) :=
  (if a.first < min a.last lo then [{ a with last := min a.last lo }] else []) ++
    if max a.first hi < a.last then [a.after (max a.first hi)] else []

theorem file_of_without (hb : b ∈ a.without lo hi) : b.file = a.file := by
  unfold without at hb
  rcases List.mem_append.1 hb with hb | hb
  · split at hb
    · rw [List.mem_singleton.1 hb]
    · cases hb
  · split at hb
    · rw [List.mem_singleton.1 hb]
      rfl
    · cases hb

theorem has_of_without (hb : b ∈ a.without lo hi) (hu : b.Has u) : a.Has u ∧ ¬ (lo ≤ u ∧ u < hi) := by
  unfold without at hb
  unfold Has at hu ⊢
  rcases List.mem_append.1 hb with hb | hb
  · split at hb
    · rw [List.mem_singleton.1 hb] at hu
      simp only at hu
      omega
    · cases hb
  · split at hb
    · rw [List.mem_singleton.1 hb] at hu
      simp only [after] at hu
      omega
    · cases hb

theorem without_has (ha : a.Has u) (hu : ¬ (lo ≤ u ∧ u < hi)) : ∃ b ∈ a.without lo hi, b.Has u := by
  unfold Has at ha
  unfold without
  by_cases hlow : u < lo
  · refine ⟨{ a with last := min a.last lo }, List.mem_append_left _ ?_, ?_⟩
    · rw [if_pos (by omega)]
      exact List.mem_singleton_self _
    · unfold Has
      simp only
      omega
  · refine ⟨a.after (max a.first hi), List.mem_append_right _ ?_, ?_⟩
    · rw [if_pos (by omega)]
      exact List.mem_singleton_self _
    · unfold Has after
      simp only
      omega

end Area

/-! ## Address spaces -/

/-- The areas of an address space, and its entries. -/
structure Space (φ π : Type*) where
  areas : List (Area φ)
  entry : ℕ → Option π

namespace Space

/-- Nothing is mapped. -/
def empty : Space φ π := ⟨[], fun _ => none⟩

/-- `[lo, hi)` is unmapped. -/
def unmap (s : Space φ π) (lo hi : ℕ) : Space φ π :=
  ⟨s.areas.flatMap fun a => a.without lo hi, fun u => if lo ≤ u ∧ u < hi then none else s.entry u⟩

/-- A new area, in place of what is there. -/
def map (s : Space φ π) (a : Area φ) : Space φ π :=
  { s.unmap a.first a.last with areas := a :: (s.unmap a.first a.last).areas }

/-- An entry is installed. -/
def install (s : Space φ π) (u : ℕ) (p : π) : Space φ π := { s with entry := Function.update s.entry u (some p) }

/-- The entries of some pages go. -/
def restrict (s : Space φ π) (keep : ℕ → Bool) : Space φ π := { s with entry := fun u => if keep u then s.entry u else none }

variable [DecidableEq φ]

/-- An area becomes two. -/
def split (s : Space φ π) (a : Area φ) (u : ℕ) : Space φ π :=
  if a ∈ s.areas ∧ a.Has u then { s with areas := { a with last := u } :: a.after u :: s.areas.erase a } else s

/-- Two areas that continue each other become one. -/
def join (s : Space φ π) (a b : Area φ) : Space φ π :=
  if a ∈ s.areas ∧ b ∈ s.areas ∧ a.first ≤ a.last ∧ b = { a.after a.last with last := b.last } ∧ a.last ≤ b.last then
    { s with areas := { a with last := b.last } :: (s.areas.erase a).erase b }
  else s

/-- An area is moved, with its entries, to where it does not overlap itself. -/
def move (s : Space φ π) (a : Area φ) (dest : ℕ) : Space φ π :=
  if a ∈ s.areas ∧ (dest + (a.last - a.first) ≤ a.first ∨ a.last ≤ dest) then
    let rest := (s.unmap a.first a.last).unmap dest (dest + (a.last - a.first))
    ⟨{ a with first := dest, last := dest + (a.last - a.first) } :: rest.areas,
      fun u => if dest ≤ u ∧ u < dest + (a.last - a.first) then s.entry (a.first + (u - dest)) else rest.entry u⟩
  else s

end Space

/-! ## Entries belong to their areas -/

namespace Space

variable {of : π → φ} {s s' s'' : Space φ π} {a b : Area φ} {u lo hi : ℕ} {p : π}

/-- **The invariant.** Areas that overlap show the same file, and an entry lies in an area of its file. -/
structure Fits (of : π → φ) (s : Space φ π) : Prop where
  agree : ∀ a ∈ s.areas, ∀ b ∈ s.areas, ∀ u, a.Has u → b.Has u → a.file = b.file
  inside : ∀ u p, s.entry u = some p → ∃ a ∈ s.areas, a.Has u ∧ a.file = of p

/-- No other files, and no other entries. -/
structure Within (s s' : Space φ π) : Prop where
  files : ∀ a ∈ s.areas, ∃ b ∈ s'.areas, b.file = a.file
  entries : ∀ u p, s.entry u = some p → ∃ w, s'.entry w = some p

theorem Within.refl (s : Space φ π) : s.Within s := ⟨fun a ha => ⟨a, ha, rfl⟩, fun u _ hp => ⟨u, hp⟩⟩

theorem Within.trans (h : s.Within s') (h' : s'.Within s'') : s.Within s'' := by
  constructor
  · intro a ha
    obtain ⟨b, hb, hab⟩ := h.files a ha
    obtain ⟨c, hc, hbc⟩ := h'.files b hb
    exact ⟨c, hc, hbc.trans hab⟩
  · intro u p hp
    obtain ⟨w, hw⟩ := h.entries u p hp
    exact h'.entries w p hw

theorem Fits.empty (of : π → φ) : (empty : Space φ π).Fits of := by
  constructor
  · intro a ha
    cases ha
  · intro u p hp
    cases hp

/-- The file of the area that an entry lies in. -/
theorem Fits.file (h : s.Fits of) (hp : s.entry u = some p) (ha : a ∈ s.areas) (hau : a.Has u) : a.file = of p := by
  obtain ⟨b, hb, hbu, hfile⟩ := h.inside u p hp
  exact (h.agree a ha b hb u hau hbu).trans hfile

theorem empty_within (s : Space φ π) : (empty : Space φ π).Within s := by
  constructor
  · intro a ha
    cases ha
  · intro u p hp
    cases hp

/-- An entry after a range has been unmapped. -/
theorem unmap_entry (h : (s.unmap lo hi).entry u = some p) : ¬ (lo ≤ u ∧ u < hi) ∧ s.entry u = some p := by
  unfold unmap at h
  simp only at h
  split_ifs at h with hu
  exact ⟨hu, h⟩

theorem Fits.unmap (h : s.Fits of) (lo hi : ℕ) : (s.unmap lo hi).Fits of := by
  constructor
  · intro a ha b hb u hau hbu
    obtain ⟨a', ha', haw⟩ := List.mem_flatMap.1 ha
    obtain ⟨b', hb', hbw⟩ := List.mem_flatMap.1 hb
    rw [Area.file_of_without haw, Area.file_of_without hbw]
    exact h.agree a' ha' b' hb' u (Area.has_of_without haw hau).1 (Area.has_of_without hbw hbu).1
  · intro u p hp
    obtain ⟨hu, hp⟩ := unmap_entry hp
    obtain ⟨a, ha, hau, hfile⟩ := h.inside u p hp
    obtain ⟨b, hb, hbu⟩ := Area.without_has hau hu
    exact ⟨b, List.mem_flatMap.2 ⟨a, ha, hb⟩, hbu, (Area.file_of_without hb).trans hfile⟩

theorem unmap_within (s : Space φ π) (lo hi : ℕ) : (s.unmap lo hi).Within s := by
  constructor
  · intro b hb
    obtain ⟨a, ha, hb⟩ := List.mem_flatMap.1 hb
    exact ⟨a, ha, (Area.file_of_without hb).symm⟩
  · intro u p hp
    exact ⟨u, (unmap_entry hp).2⟩

/-- No area is left in a range that has been unmapped. -/
theorem not_has_unmap (hb : b ∈ (s.unmap lo hi).areas) (hbu : b.Has u) : ¬ (lo ≤ u ∧ u < hi) := by
  obtain ⟨a, -, hb⟩ := List.mem_flatMap.1 hb
  exact (Area.has_of_without hb hbu).2

theorem Fits.map (h : s.Fits of) (a : Area φ) : (s.map a).Fits of := by
  have hrest := h.unmap a.first a.last
  constructor
  · intro b hb c hc u hbu hcu
    rcases List.mem_cons.1 hb with rfl | hb
    · rcases List.mem_cons.1 hc with rfl | hc
      · rfl
      · exact absurd hbu (not_has_unmap hc hcu)
    · rcases List.mem_cons.1 hc with rfl | hc
      · exact absurd hcu (not_has_unmap hb hbu)
      · exact hrest.agree b hb c hc u hbu hcu
  · intro u p hp
    obtain ⟨b, hb, hbu, hfile⟩ := hrest.inside u p hp
    exact ⟨b, List.mem_cons_of_mem _ hb, hbu, hfile⟩

/-- An entry of the file that is mapped there. -/
theorem Fits.install (h : s.Fits of) (ha : a ∈ s.areas) (hau : a.Has u) (hfile : a.file = of p) : (s.install u p).Fits of := by
  refine ⟨h.agree, fun w q hq => ?_⟩
  by_cases hwu : w = u
  · simp only [Space.install, hwu, Function.update_self, Option.some.injEq] at hq
    exact ⟨a, ha, hwu ▸ hau, hq ▸ hfile⟩
  · simp only [Space.install, Function.update_of_ne hwu] at hq
    exact h.inside w q hq

theorem restrict_entry {keep : ℕ → Bool} (h : (s.restrict keep).entry u = some p) : s.entry u = some p := by
  unfold restrict at h
  simp only at h
  split_ifs at h
  exact h

theorem Fits.restrict (h : s.Fits of) (keep : ℕ → Bool) : (s.restrict keep).Fits of :=
  ⟨h.agree, fun u p hp => h.inside u p (restrict_entry hp)⟩

theorem restrict_within (s : Space φ π) (keep : ℕ → Bool) : (s.restrict keep).Within s :=
  ⟨fun a ha => ⟨a, ha, rfl⟩, fun u _ hp => ⟨u, restrict_entry hp⟩⟩

/-- Areas that show the same pages of the same files. -/
theorem Fits.cover {areas : List (Area φ)} (h : s.Fits of)
    (hto : ∀ a ∈ s.areas, ∀ u, a.Has u → ∃ b ∈ areas, b.Has u ∧ b.file = a.file)
    (hfrom : ∀ b ∈ areas, ∀ u, b.Has u → ∃ a ∈ s.areas, a.Has u ∧ a.file = b.file) : ({ s with areas := areas } : Space φ π).Fits of := by
  constructor
  · intro b hb c hc u hbu hcu
    obtain ⟨b', hb', hbu', hbfile⟩ := hfrom b hb u hbu
    obtain ⟨c', hc', hcu', hcfile⟩ := hfrom c hc u hcu
    exact hbfile.symm.trans ((h.agree b' hb' c' hc' u hbu' hcu').trans hcfile)
  · intro u p hp
    obtain ⟨a, ha, hau, hfile⟩ := h.inside u p hp
    obtain ⟨b, hb, hbu, hba⟩ := hto a ha u hau
    exact ⟨b, hb, hbu, hba.trans hfile⟩

variable [DecidableEq φ]

theorem Fits.split (h : s.Fits of) (a : Area φ) (u : ℕ) : (s.split a u).Fits of := by
  unfold Space.split
  split_ifs with hcond
  swap
  · exact h
  obtain ⟨ha, hau⟩ := hcond
  refine h.cover (fun c hc w hcw => ?_) fun b hb w hbw => ?_
  · by_cases hca : c = a
    · subst hca
      unfold Area.Has at hcw hau
      by_cases hwu : w < u
      · exact ⟨{ c with last := u }, List.mem_cons_self, ⟨hcw.1, hwu⟩, rfl⟩
      · exact ⟨c.after u, List.mem_cons_of_mem _ List.mem_cons_self, ⟨Nat.not_lt.1 hwu, hcw.2⟩, rfl⟩
    · exact ⟨c, List.mem_cons_of_mem _ (List.mem_cons_of_mem _ ((List.mem_erase_of_ne hca).2 hc)), hcw, rfl⟩
  · unfold Area.Has at hau hbw
    rcases List.mem_cons.1 hb with rfl | hb
    · exact ⟨a, ha, ⟨hbw.1, Nat.lt_trans hbw.2 hau.2⟩, rfl⟩
    rcases List.mem_cons.1 hb with rfl | hb
    · exact ⟨a, ha, ⟨Nat.le_trans hau.1 hbw.1, hbw.2⟩, rfl⟩
    · exact ⟨b, List.mem_of_mem_erase hb, hbw, rfl⟩

theorem split_within (s : Space φ π) (a : Area φ) (u : ℕ) : (s.split a u).Within s := by
  unfold split
  split_ifs with hcond
  swap
  · exact Within.refl s
  refine ⟨fun b hb => ?_, fun u p hp => ⟨u, hp⟩⟩
  rcases List.mem_cons.1 hb with rfl | hb
  · exact ⟨a, hcond.1, rfl⟩
  rcases List.mem_cons.1 hb with rfl | hb
  · exact ⟨a, hcond.1, rfl⟩
  · exact ⟨b, List.mem_of_mem_erase hb, rfl⟩

theorem Fits.join (h : s.Fits of) (a b : Area φ) : (s.join a b).Fits of := by
  unfold Space.join
  split_ifs with hcond
  swap
  · exact h
  obtain ⟨ha, hb, hab, hcont, hle⟩ := hcond
  have hfirst : b.first = a.last := by rw [hcont]; rfl
  have hfile : b.file = a.file := by rw [hcont]; rfl
  refine h.cover (fun c hc w hcw => ?_) fun c hc w hcw => ?_
  · by_cases hca : c = a
    · subst hca
      exact ⟨{ c with last := b.last }, List.mem_cons_self, ⟨hcw.1, Nat.lt_of_lt_of_le hcw.2 hle⟩, rfl⟩
    by_cases hcb : c = b
    · subst hcb
      exact ⟨{ a with last := c.last }, List.mem_cons_self, ⟨Nat.le_trans hab (hfirst ▸ hcw.1), hcw.2⟩, hfile.symm⟩
    · exact ⟨c, List.mem_cons_of_mem _ ((List.mem_erase_of_ne hcb).2 ((List.mem_erase_of_ne hca).2 hc)), hcw, rfl⟩
  · rcases List.mem_cons.1 hc with rfl | hc
    · by_cases hw : w < a.last
      · exact ⟨a, ha, ⟨hcw.1, hw⟩, rfl⟩
      · exact ⟨b, hb, ⟨hfirst ▸ Nat.not_lt.1 hw, hcw.2⟩, hfile⟩
    · exact ⟨c, List.mem_of_mem_erase (List.mem_of_mem_erase hc), hcw, rfl⟩

theorem join_within (s : Space φ π) (a b : Area φ) : (s.join a b).Within s := by
  unfold join
  split_ifs with hcond
  swap
  · exact Within.refl s
  refine ⟨fun c hc => ?_, fun u p hp => ⟨u, hp⟩⟩
  rcases List.mem_cons.1 hc with rfl | hc
  · exact ⟨a, hcond.1, rfl⟩
  · exact ⟨c, List.mem_of_mem_erase (List.mem_of_mem_erase hc), rfl⟩

/-- **A move.** The entries that go with the area are those that it had. -/
theorem Fits.move (h : s.Fits of) (a : Area φ) (dest : ℕ) : (s.move a dest).Fits of := by
  unfold Space.move
  split_ifs with hcond
  swap
  · exact h
  obtain ⟨ha, hapart⟩ := hcond
  have hrest := (h.unmap a.first a.last).unmap dest (dest + (a.last - a.first))
  simp only
  constructor
  · -- only the area that has been moved is there
    intro b hb c hc u hbu hcu
    rcases List.mem_cons.1 hb with rfl | hb
    · rcases List.mem_cons.1 hc with rfl | hc
      · rfl
      · exact absurd hbu (not_has_unmap hc hcu)
    · rcases List.mem_cons.1 hc with rfl | hc
      · exact absurd hcu (not_has_unmap hb hbu)
      · exact hrest.agree b hb c hc u hbu hcu
  · intro u p hp
    simp only at hp
    split_ifs at hp with hu
    · have hold : a.Has (a.first + (u - dest)) := ⟨by omega, by omega⟩
      have hfile : a.file = of p := h.file hp ha hold
      exact ⟨_, List.mem_cons_self, hu, hfile⟩
    · obtain ⟨b, hb, hbu, hfile⟩ := hrest.inside u p hp
      exact ⟨b, List.mem_cons_of_mem _ hb, hbu, hfile⟩

theorem move_within (s : Space φ π) (a : Area φ) (dest : ℕ) : (s.move a dest).Within s := by
  unfold move
  split_ifs with hcond
  swap
  · exact Within.refl s
  have hrest := (unmap_within (s.unmap a.first a.last) dest (dest + (a.last - a.first))).trans (unmap_within s a.first a.last)
  constructor
  · intro b hb
    rcases List.mem_cons.1 hb with rfl | hb
    · exact ⟨a, hcond.1, rfl⟩
    · exact hrest.files b hb
  · intro u p hp
    simp only at hp
    split_ifs at hp with hu
    · exact ⟨_, hp⟩
    · exact hrest.entries u p hp

end Space

end Paging
