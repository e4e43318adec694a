import Yakvm.Spec.Npt

/-!
# Concurrent page requests

`yakvm_vmm_npt_create` takes no lock, so two requests on one vm run it side by side. Here
the call is cut at its accesses to what the requests share: each load of an entry, each
page allocation and each store of an entry is one step. `Pc` is where a call stands and
what it holds in its local variables.
-/

namespace Yakvm

/-- A call of `yakvm_vmm_npt_create` between two steps. -/
inductive Pc
  /-- about to load `table->entrys[index]`, where `entry` points to the table -/
  | load (level : ℕ) (entry : Word)
  /-- the entry was zero: about to call `alloc_page` -/
  | alloc (level : ℕ) (table : Frame)
  /-- about to store the entry of `page` -/
  | store (level : ℕ) (table page : Frame)
  | done (page : Word)
  | failed
  | panicked
  deriving DecidableEq

/-- The head of the loop: its condition is `level >= PT`. -/
def Pc.enter (level : ℕ) (entry : Word) : Pc :=
  if PT ≤ level then .load level entry else .done (pfnToPage entry)

/-- The end of the loop's body: the assertion, then `--level`. -/
def Pc.next (level : ℕ) (entry : Word) : Pc :=
  if nptAssert entry then .enter (level - 1) entry else .panicked

/-- One step of a call for `gpa`. `ans` answers the allocation, if the step is one. -/
def Pc.step (gpa : Word) (ans : Option Frame) : Pc → Phys → Pc × Phys
  | .load level entry, s =>
    let table := vmmPhysToVirt entry
    let entry := s.mem table (tableIndex gpa level)
    if entry = 0 then (.alloc level table, s) else (.next level entry, s)
  | .alloc level table, s =>
    match s.allocPage ans with
    | none => (.failed, s)
    | some (page, s) => (.store level table page, s)
  | .store level table page, s =>
    let entry := newEntry page
    (.next level entry, s.store table (tableIndex gpa level) entry)
  | pc, s => (pc, s)

/-- A call left to itself, with the answers to its steps. -/
def Pc.solo (gpa : Word) (answers : List (Option Frame)) (x : Pc × Phys) : Pc × Phys :=
  answers.foldl (fun x ans => x.1.step gpa ans x.2) x

/-- Two calls and the memory they share. -/
structure Calls where
  pc : Bool → Pc
  phys : Phys

/-- Call `b` takes a step. -/
def Calls.step (gpa : Bool → Word) (c : Calls) (x : Bool × Option Frame) : Calls :=
  let r := (c.pc x.1).step (gpa x.1) x.2 c.phys
  ⟨Function.update c.pc x.1 r.1, r.2⟩

/-- The steps of an interleaving: which call moves, and the allocator's answer. -/
def Calls.run (gpa : Bool → Word) (c : Calls) (sched : List (Bool × Option Frame)) : Calls :=
  sched.foldl (Calls.step gpa) c

/-- Both calls have just been made. -/
def Calls.start (ncr3 : Word) (s : Phys) : Calls := ⟨fun _ => .enter PML4T ncr3, s⟩

end Yakvm
