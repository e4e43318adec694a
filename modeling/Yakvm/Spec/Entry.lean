import Mathlib.Data.BitVec

/-!
# Words, page frames and table entries

`include/memory.h` and the page flags of `asm/pgtable_types.h` that the driver uses.
A page is named by its frame number. The page allocator hands out page-aligned
pages below `2^52`, so a frame number has 40 bits: the type `Frame` is that
assumption. `struct page *` values are frame numbers too, but as the C code computes
them, in a full word: `pfn_to_page(entry >> PAGE_SHIFT)` does not mask the entry.
-/

namespace Yakvm

/-- `unsigned long`, and one entry of a table. -/
abbrev Word := BitVec 64

/-- The frame number of a page-aligned physical address below `2^52`. -/
abbrev Frame := BitVec 40

/-- An index into the `PTRS_PER_PAGE` entries of a table. -/
abbrev Slot := BitVec 9

def pageShift : ℕ := 12
def ptrsPerPage : ℕ := 512

/-! ## Entry flags, by bit number -/

def pagePresent : Word := BitVec.twoPow 64 0
def pageRw : Word := BitVec.twoPow 64 1
def pageUser : Word := BitVec.twoPow 64 2
def pageAccessed : Word := BitVec.twoPow 64 5
def pageDirty : Word := BitVec.twoPow 64 6

def physAddrMask : Word := (1#64 <<< 52) - 1
def pageMask : Word := ~~~ (4096#64 - 1)

/-- `page_to_phys`. -/
def pageToPhys (page : Frame) : Word := page.setWidth 64 <<< pageShift

/-- `yakvm_vmm_page`: the page of a physical address, flags and high bits masked. -/
def vmmPage (pa : Word) : Word := (pa &&& physAddrMask) &&& pageMask

/-- `yakvm_vmm_phys_to_virt`. The direct map of the kernel is a bijection between
physical and virtual pages, so a table pointer is represented by the table's frame. -/
def vmmPhysToVirt (pa : Word) : Frame := (vmmPage pa >>> pageShift).setWidth 40

/-- The frame number in `pfn_to_page(entry >> PAGE_SHIFT)`. -/
def pfnToPage (entry : Word) : Word := entry >>> pageShift

/-- The entry that `yakvm_vmm_npt_create` stores for a new page. -/
def newEntry (page : Frame) : Word := pageToPhys page ||| pagePresent ||| pageRw ||| pageUser

/-- The condition of the assertion in `yakvm_vmm_npt_create`. -/
def nptAssert (entry : Word) : Bool :=
  decide (entry &&& pagePresent ≠ 0) && decide (entry &&& pageRw ≠ 0) && decide (entry &&& pageUser ≠ 0)

/-- The condition of the assertion in `yakvm_vmm_destroy_table`. -/
def destroyAssert (entry : Word) : Bool :=
  decide (entry &&& pageUser ≠ 0) && decide (entry &&& pageRw ≠ 0)

/-- The Accessed and Dirty bits that the hardware sets in an entry it uses. -/
def adBits (accessed dirty : Bool) : Word :=
  (if accessed then pageAccessed else 0) ||| (if dirty then pageDirty else 0)

/-- The table that a nonzero entry points to. -/
def child (entry : Word) : Option Frame := if entry = 0 then none else some (vmmPhysToVirt entry)

/-! ## Indexing -/

def PT : ℕ := 1
def PDT : ℕ := 2
def PDPT : ℕ := 3
def PML4T : ℕ := 4

/-- `P_SHIFT`, `PD_SHIFT`, `PDP_SHIFT` and `PML4_SHIFT`. The `switch` of `table_index`
has no other case; the walks only use these four levels. -/
def levelShift : ℕ → ℕ
  | 1 => 12
  | 2 => 21
  | 3 => 30
  | _ => 39

/-- `table_index`. -/
def tableIndex (addr : Word) (level : ℕ) : Slot :=
  ((addr >>> levelShift level) &&& BitVec.ofNat 64 (ptrsPerPage - 1)).setWidth 9

/-- The slots a walk of `addr` uses, root first. -/
def path (addr : Word) : List Slot :=
  [tableIndex addr PML4T, tableIndex addr PDPT, tableIndex addr PDT, tableIndex addr PT]

/-- The guest page of an address as far as four levels tell pages apart:
`(gpa >> 12) mod 2^36`. -/
def key (gpa : Word) : BitVec 36 := (gpa >>> pageShift).setWidth 36

/-- `YAKVM_MMIO_HAWK`, as the Makefile defines it. -/
def mmioHawk : Word := 0

end Yakvm
