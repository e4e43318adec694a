import Yakvm.Spec.Entry
import Mathlib.Data.Finset.Basic

/-!
# Physical memory and the kernel's allocators

Physical memory is a word-addressed array of pages. The allocators are the
kernel's: which page or object they return, and whether they fail, is not decided by
the driver. Each request therefore comes with an answer chosen from outside. An
answer that names a page in use is not one the kernel gives; it counts as a failure,
so that ranging over all answers is ranging over all behaviours of an allocator that
never returns a page in use.

Objects from `kmalloc` carry a serial number that is never used again. A pointer to a
freed object is then never equal to a pointer to a live one, and following it is an
error of the model (`Crash.dangling`) instead of an accident.
-/

namespace Yakvm

/-- How a driver routine can fail to return. Only `panic` is an outcome of the real
code; the other two mark memory errors, which the proofs exclude. -/
inductive Crash
  | panic
  | badFree
  | dangling
  deriving DecidableEq, Repr

/-- The error numbers the driver returns or passes on. -/
inductive Errno
  | EINTR
  | ENOMEM
  | EFAULT
  | EEXIST
  | EINVAL
  | ENFILE
  | EMFILE
  deriving DecidableEq, Repr

/-- The `int` a C function returns for an error. -/
def Errno.code : Errno → ℤ
  | .EINTR => -4
  | .ENOMEM => -12
  | .EFAULT => -14
  | .EEXIST => -17
  | .EINVAL => -22
  | .ENFILE => -23
  | .EMFILE => -24

/-- A sequence of two routines returns when both return. -/
theorem bind_eq_ok {α β : Type} {x : Except Crash α} {g : α → Except Crash β} {r : β} :
    (x >>= g) = .ok r ↔ ∃ a, x = .ok a ∧ g a = .ok r := by
  cases x <;> simp [bind, Except.bind]

/-- Memory and the allocators' bookkeeping. -/
structure Phys where
  mem : Frame → Slot → Word
  /-- pages handed out by the page allocator and not yet freed -/
  pages : Finset Frame
  /-- objects handed out by `kmalloc` and not yet freed -/
  slab : Finset ℕ
  /-- the serial number of the next object -/
  next : ℕ

namespace Phys

/-- One 8-byte store. -/
def store (s : Phys) (f : Frame) (i : Slot) (w : Word) : Phys :=
  { s with mem := Function.update s.mem f (Function.update (s.mem f) i w) }

/-- `alloc_page(GFP_KERNEL_ACCOUNT | __GFP_ZERO)`. -/
def allocPage (s : Phys) : Option Frame → Option (Frame × Phys)
  | none => none
  | some f =>
    if f ∈ s.pages then none
    else some (f, { s with mem := Function.update s.mem f 0, pages := insert f s.pages })

/-- `free_page` and `__free_page`. -/
def freePage (s : Phys) (f : Frame) : Except Crash Phys :=
  if f ∈ s.pages then .ok { s with pages := s.pages.erase f } else .error .badFree

/-- A run of `free_page` calls. -/
def freePages (s : Phys) (fs : List Frame) : Except Crash Phys := fs.foldlM freePage s

/-- `kmalloc(..., GFP_KERNEL_ACCOUNT | __GFP_ZERO)`. -/
def kmalloc (s : Phys) (ok : Bool) : Option (ℕ × Phys) :=
  if ok then some (s.next, { s with slab := insert s.next s.slab, next := s.next + 1 }) else none

/-- `kfree`. -/
def kfree (s : Phys) (o : ℕ) : Except Crash Phys :=
  if o ∈ s.slab then .ok { s with slab := s.slab.erase o } else .error .badFree

@[simp] theorem store_pages (s : Phys) (f : Frame) (i : Slot) (w : Word) :
    (s.store f i w).pages = s.pages := rfl

@[simp] theorem store_slab (s : Phys) (f : Frame) (i : Slot) (w : Word) :
    (s.store f i w).slab = s.slab := rfl

@[simp] theorem store_next (s : Phys) (f : Frame) (i : Slot) (w : Word) :
    (s.store f i w).next = s.next := rfl

theorem store_same (s : Phys) (f : Frame) (i : Slot) (w : Word) : (s.store f i w).mem f i = w := by
  simp [store]

theorem store_ne (s : Phys) {f g : Frame} {i j : Slot} (w : Word) (h : g ≠ f ∨ j ≠ i) :
    (s.store f i w).mem g j = s.mem g j := by
  unfold store
  by_cases hg : g = f
  · subst hg
    have hj : j ≠ i := h.resolve_left (fun h => h rfl)
    simp [Function.update_of_ne hj]
  · simp [Function.update_of_ne hg]

theorem store_other (s : Phys) {f g : Frame} (i : Slot) (w : Word) (h : g ≠ f) :
    (s.store f i w).mem g = s.mem g := by
  funext j; exact store_ne s w (Or.inl h)

/-- What a successful page allocation does. -/
theorem allocPage_some {s s' : Phys} {ask : Option Frame} {f : Frame}
    (h : s.allocPage ask = some (f, s')) :
    ask = some f ∧ f ∉ s.pages ∧
      s' = { s with mem := Function.update s.mem f 0, pages := insert f s.pages } := by
  unfold allocPage at h
  cases ask with
  | none => simp at h
  | some g =>
    simp only at h
    split at h
    · simp at h
    · rename_i hg
      simp only [Option.some.injEq, Prod.mk.injEq] at h
      obtain ⟨rfl, rfl⟩ := h
      exact ⟨rfl, hg, rfl⟩

theorem freePage_ok {s : Phys} {f : Frame} (h : f ∈ s.pages) :
    s.freePage f = .ok { s with pages := s.pages.erase f } := by
  simp [freePage, h]

theorem kfree_ok {s : Phys} {o : ℕ} (h : o ∈ s.slab) :
    s.kfree o = .ok { s with slab := s.slab.erase o } := by
  simp [kfree, h]

theorem allocPage_fresh {s : Phys} {f : Frame} (h : f ∉ s.pages) :
    s.allocPage (some f) =
      some (f, { s with mem := Function.update s.mem f 0, pages := insert f s.pages }) := by
  simp [allocPage, h]

end Phys

end Yakvm
