import Yakvm.Spec.Vm

/-!
# Mappings of guest memory

What userspace does with a vm's file besides ioctls: `mmap`, `munmap` and page faults. The
driver's part is `yakvm_vm_mmap`, which accepts every mapping, and `yakvm_vm_vmm_fault`. The
kernel keeps the mappings as areas; unmapping part of an area, or splitting it, advances
`vm_start` and `vm_pgoff` of what remains together, and areas that continue each other may
be merged.

User addresses and file offsets are counted in pages, since the kernel only lets the
driver see page aligned ones.
-/

namespace Yakvm

/-- `struct vm_area_struct`: the area `[vm_start, vm_end)` and the file offset of its first
page. -/
structure Vma where
  vmStart : ℕ
  vmEnd : ℕ
  vmPgoff : ℕ
  deriving DecidableEq

/-- The area contains the page `u`. -/
def Vma.Has (v : Vma) (u : ℕ) : Prop := v.vmStart ≤ u ∧ u < v.vmEnd

instance (v : Vma) (u : ℕ) : Decidable (v.Has u) := inferInstanceAs (Decidable (_ ∧ _))

/-- What is left of an area when `[a, b)` is unmapped. -/
def Vma.cut (v : Vma) (a b : ℕ) : List Vma :=
  (if v.vmStart < min v.vmEnd a then [{ v with vmEnd := min v.vmEnd a }] else []) ++
  (if max v.vmStart b < v.vmEnd then
    [⟨max v.vmStart b, v.vmEnd, v.vmPgoff + (max v.vmStart b - v.vmStart)⟩] else [])

/-- The address of a page. -/
def pageAddr (u : ℕ) : Word := BitVec.ofNat 64 (u * 4096)

/-- The mappings of a vm's file in a process. -/
structure Mapping where
  phys : Phys
  vmm : Vmm
  vmas : List Vma
  /-- for each mapped page, the address and the file offset that the `mmap` call which
  mapped it was given; nothing reads it -/
  origin : ℕ → Option (ℕ × ℕ)

namespace Mapping

/-- `munmap` of `[a, b)`. -/
def munmap (m : Mapping) (a b : ℕ) : Mapping :=
  { m with
    vmas := m.vmas.flatMap fun v => v.cut a b
    origin := fun u => if a ≤ u ∧ u < b then none else m.origin u }

/-- `mmap` of `n` pages at `s` with the offset `o`. What was mapped there is unmapped first.
`yakvm_vm_mmap` refuses nothing; the kernel refuses an empty mapping. -/
def mmap (m : Mapping) (s n o : ℕ) : Mapping :=
  if n = 0 then m
  else
    let m := m.munmap s (s + n)
    { m with
      vmas := ⟨s, s + n, o⟩ :: m.vmas
      origin := fun u => if s ≤ u ∧ u < s + n then some (s, o) else m.origin u }

/-- The kernel merges two areas, if the second continues the first. -/
def merge (m : Mapping) (v w : Vma) : Mapping :=
  if v ∈ m.vmas ∧ w ∈ m.vmas ∧ v.vmStart ≤ v.vmEnd ∧ w.vmStart ≤ w.vmEnd ∧ v.vmEnd = w.vmStart ∧
      w.vmPgoff = v.vmPgoff + (v.vmEnd - v.vmStart) then
    { m with vmas := ⟨v.vmStart, w.vmEnd, v.vmPgoff⟩ :: m.vmas.filter fun x => x ≠ v ∧ x ≠ w }
  else m

/-- A page fault at the page `u`, and the page it installs. Outside the areas there is
nothing to install. -/
def fault (m : Mapping) (u : ℕ) (ask : ℕ → Option Frame) : Except Crash (Option Word × Mapping) :=
  match m.vmas.find? fun v => v.Has u with
  | none => .ok (none, m)
  | some v => do
    let ((_, page), s) ← vmVmmFault m.vmm (pageAddr u) (pageAddr v.vmStart) ask m.phys
    .ok (page, { m with phys := s })

/-- What can happen to the mappings, in any order. -/
inductive Act
  | mmap (s n o : ℕ)
  | munmap (a n : ℕ)
  | merge (v w : Vma)
  | fault (u : ℕ) (ask : ℕ → Option Frame)
  | mmapPage (gpa : Word) (ask : ℕ → Option Frame)

/-- One step. -/
def step : Act → Mapping → Except Crash Mapping
  | .mmap s n o, m => .ok (m.mmap s n o)
  | .munmap a n, m => .ok (m.munmap a (a + n))
  | .merge v w, m => .ok (m.merge v w)
  | .fault u ask, m => do
    let (_, m) ← m.fault u ask
    .ok m
  | .mmapPage gpa ask, m => do
    let (_, s) ← vmIoctlMmapPage m.vmm gpa ask m.phys
    .ok { m with phys := s }

/-- A run of steps. -/
def run (m : Mapping) (acts : List Act) : Except Crash Mapping := acts.foldlM (fun m act => step act m) m

/-- A vm that is not mapped. -/
def start (phys : Phys) (vmm : Vmm) : Mapping := ⟨phys, vmm, [], fun _ => none⟩

end Mapping

end Yakvm
