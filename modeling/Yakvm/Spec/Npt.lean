import Yakvm.Spec.Phys

/-!
# The nested page table

`driver/memory.c`: `yakvm_vmm_npt_create`, `yakvm_create_vmm`,
`yakvm_vmm_destroy_table`, `yakvm_destroy_vmm`; and the hardware's own walk of the
table, from the processor manual the source cites.
-/

namespace Yakvm

/-! ## Creating entries -/

/-- What the loop of `yakvm_vmm_npt_create` carries from level to level: the entry that
points to the next table, and the place of that entry. -/
structure Cursor where
  entry : Word
  table : Frame
  index : Slot
  deriving DecidableEq

/-- One round of the loop of `yakvm_vmm_npt_create`. `none` is the exit to `out` with
`-ENOMEM`. The branch that sets `r = -EEXIST` at the last level changes nothing: `r`
is only read after an exit to `out`. -/
def nptLevel (gpa : Word) (level : ℕ) (ask : Option Frame) (entry : Word) (s : Phys) :
    Except Crash (Option Cursor × Phys) :=
  let index := tableIndex gpa level
  let table := vmmPhysToVirt entry
  let entry := s.mem table index
  if entry = 0 then
    match s.allocPage ask with
    | none => .ok (none, s)
    | some (page, s) =>
      let entry := newEntry page
      let s := s.store table index entry
      if nptAssert entry then .ok (some ⟨entry, table, index⟩, s) else .error .panic
  else if nptAssert entry then .ok (some ⟨entry, table, index⟩, s) else .error .panic

/-- The loop of `yakvm_vmm_npt_create`, from `level` down to `PT`. `ask level` answers
the allocation made at that level, if one is made. -/
def nptLoop (gpa : Word) (ask : ℕ → Option Frame) : ℕ → Cursor → Phys →
    Except Crash (Option Cursor × Phys)
  | 0, c, s => .ok (some c, s)
  | level + 1, c, s =>
    match nptLevel gpa (level + 1) (ask (level + 1)) c.entry s with
    | .ok (some c, s) => nptLoop gpa ask level c s
    | .ok (none, s) => .ok (none, s)
    | .error e => .error e

/-- `yakvm_vmm_npt_create`. -/
def vmmNptCreate (ncr3 : Word) (gpa : Word) (isMmio : Bool) (ask : ℕ → Option Frame) (s : Phys) :
    Except Crash (Except Errno Word × Phys) :=
  match nptLoop gpa ask PML4T ⟨ncr3, 0, 0⟩ s with
  | .error e => .error e
  | .ok (none, s) => .ok (.error .ENOMEM, s)
  | .ok (some c, s) =>
    let s := if isMmio then s.store c.table c.index (s.mem c.table c.index &&& ~~~pagePresent) else s
    .ok (.ok (pfnToPage c.entry), s)

/-! ## Creating the table -/

/-- `struct vmm`, less its back pointer, which nothing reads. -/
structure Vmm where
  ncr3 : Word
  deriving DecidableEq

/-- The allocators' answers during `yakvm_create_vmm`. -/
structure VmmAsk where
  pml4t : Option Frame
  vmm : Bool
  mmio : ℕ → Option Frame

/-- `yakvm_create_vmm`. -/
def createVmm (a : VmmAsk) (s : Phys) : Except Crash (Except Errno (ℕ × Vmm) × Phys) :=
  match s.allocPage a.pml4t with
  | none => .ok (.error .ENOMEM, s)
  | some (pml4t, s) =>
    match s.kmalloc a.vmm with
    | none => do
      let s ← s.freePage pml4t
      .ok (.error .ENOMEM, s)
    | some (vmm, s) => do
      let (mmio, s) ← vmmNptCreate (pageToPhys pml4t) mmioHawk true a.mmio s
      match mmio with
      | .error r =>
        let s ← s.kfree vmm
        let s ← s.freePage pml4t
        .ok (.error r, s)
      | .ok _ => .ok (.ok (vmm, ⟨pageToPhys pml4t⟩), s)

/-! ## Destroying the table -/

/-- The indices `0, ..., PTRS_PER_PAGE - 1` in order. -/
def slots : List Slot := (List.range ptrsPerPage).map (BitVec.ofNat 9)

/-- `yakvm_vmm_destroy_table`, as the list of pages it frees, in order. It frees no page
that it reads later, so the reads all see the memory as it was at the start. At level
`PT` an entry's page is a leaf and is freed as it is: that is the case `0`. -/
def vmmDestroyTable (mem : Frame → Slot → Word) : ℕ → Frame → Except Crash (List Frame)
  | 0, page => .ok [page]
  | level + 1, table => do
    let freed ← slots.mapM fun idx =>
      let entry := mem table idx
      if entry = 0 then .ok []
      else if destroyAssert entry then vmmDestroyTable mem level (vmmPhysToVirt entry)
      else .error .panic
    .ok (freed.flatten ++ [table])

/-- `yakvm_destroy_vmm`. -/
def destroyVmm (o : ℕ) (vmm : Vmm) (s : Phys) : Except Crash Phys := do
  let freed ← vmmDestroyTable s.mem PML4T (vmmPhysToVirt vmm.ncr3)
  let s ← s.freePages freed
  s.kfree o

/-! ## The hardware -/

/-- The kinds of access a nested walk is made for. -/
inductive Access
  | read
  | write
  | fetch
  deriving DecidableEq, Repr

/-- The outcome of a nested walk. -/
inductive Translation
  | fault
  | page (f : Frame)
  | large (f : Frame)
  deriving DecidableEq, Repr

/-- Whether an entry lets an access through. Nested walks are user accesses, whatever the
guest's privilege level: bit 0 is Present, bit 1 Writable, bit 2 User, bit 63
No-Execute. -/
def hwPermits (acc : Access) (e : Word) : Bool :=
  e.getLsbD 0 && e.getLsbD 2 && (acc != .write || e.getLsbD 1) && (acc != .fetch || !e.getLsbD 63)

/-- The processor's four-level walk: the tables it reads, and its outcome. A table's
address is bits 12 to 51 of the entry above; each level takes nine bits of the guest
physical address. Bit 7 is reserved in the top level and makes a large page in the
middle two. -/
def hwWalk (mem : Frame → Slot → Word) (acc : Access) (gpa : Word) : ℕ → Word → List Frame × Translation
  | 0, entry => ([], .page (entry.extractLsb' 12 40))
  | level + 1, entry =>
    let table : Frame := entry.extractLsb' 12 40
    let e := mem table (gpa.extractLsb' (12 + 9 * level) 9)
    if !hwPermits acc e then ([table], .fault)
    else if e.getLsbD 7 && level != 0 then
      ([table], if level = 3 then .fault else .large (e.extractLsb' 12 40))
    else
      let w := hwWalk mem acc gpa level e
      (table :: w.1, w.2)

/-- The translation of `gpa` that a walk from `ncr3` finds. -/
def hwTranslate (mem : Frame → Slot → Word) (ncr3 : Word) (acc : Access) (gpa : Word) : Translation :=
  (hwWalk mem acc gpa 4 ncr3).2

/-- The hardware sets Accessed or Dirty bits in an entry. -/
def hwSetAd (s : Phys) (table : Frame) (index : Slot) (accessed dirty : Bool) : Phys :=
  s.store table index (s.mem table index ||| adBits accessed dirty)

end Yakvm
