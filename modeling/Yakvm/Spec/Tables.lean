import Yakvm.Spec.Emulator
import Yakvm.Spec.Threads

/-!
# Page requests on many vms

Any number of calls of `yakvm_vmm_npt_create`, on any number of vms, cut as `Pc` cuts them and taken in
any order. Between their steps vms come and go, the hardware walks the tables, marks their
entries and keeps what it found, and the guests and userspace write to the pages that they
have been given.

Nothing else has a pointer to the table that `yakvm_create_vmm` fills, or to one that
`yakvm_destroy_vmm` takes apart: a vm goes when its last file has gone, and with it the last request. Each
of the two is one step.
-/

namespace Yakvm

/-- The call has returned. -/
def Pc.finished : Pc → Bool
  | .done _ | .failed | .panicked => true
  | _ => false

/-- The call has found an empty slot and has not stored to it yet. -/
def Pc.filling : Pc → Bool
  | .alloc .. | .store .. => true
  | _ => false

/-- A call on the table of a vm, which is named by its `struct vmm`. -/
structure PageCall where
  vm : ℕ
  gpa : Word
  pc : Pc
  deriving DecidableEq

/-- A translation that the hardware keeps. -/
structure Cached where
  vm : ℕ
  gpa : Word
  page : Frame

/-- The tables, the calls on them, and the translations that the hardware keeps. -/
structure Tables where
  phys : Phys
  vmms : ℕ → Option Vmm
  calls : List PageCall
  cached : List Cached

/-- What can happen next. -/
inductive TableAct
  /-- `yakvm_create_vmm` -/
  | create (a : VmmAsk)
  /-- `yakvm_destroy_vmm` -/
  | destroy (vm : ℕ)
  /-- `yakvm_vmm_npt_create` is called -/
  | call (vm : ℕ) (gpa : Word)
  /-- the call with this number takes a step -/
  | advance (i : ℕ) (ans : Option Frame)
  /-- the hardware walks a table, and keeps what it finds -/
  | fill (vm : ℕ) (acc : Access) (gpa : Word)
  /-- the hardware marks the entry it reads in the `n`-th table of its walk -/
  | mark (vm : ℕ) (gpa : Word) (n : ℕ) (accessed dirty : Bool)
  /-- a guest writes through the translation with this number -/
  | guestStore (j : ℕ) (slot : Slot) (w : Word)
  /-- userspace writes to the page that the call with this number returned -/
  | userStore (i : ℕ) (slot : Slot) (w : Word)

namespace Tables

/-- A walk of the table of a vm. -/
def translate (x : Tables) (vm : ℕ) (acc : Access) (gpa : Word) : Translation :=
  match x.vmms vm with
  | none => .fault
  | some m => hwTranslate x.phys.mem m.ncr3 acc gpa

/-- One step. What cannot happen changes nothing. -/
def step : TableAct → Tables → Except Crash Tables
  | .create a, x => do
    let (vmm, s) ← createVmm a x.phys
    match vmm with
    | .error _ => .ok { x with phys := s }
    | .ok (o, vmm) => .ok { x with phys := s, vmms := Function.update x.vmms o (some vmm) }
  | .destroy vm, x =>
    match x.vmms vm with
    | none => .ok x
    | some m =>
      if ∀ c ∈ x.calls, c.vm = vm → c.pc.finished then do
        let s ← destroyVmm vm m x.phys
        .ok { x with phys := s, vmms := Function.update x.vmms vm none }
      else .ok x
  | .call vm gpa, x =>
    match x.vmms vm with
    | none => .ok x
    | some m => .ok { x with calls := x.calls ++ [⟨vm, gpa, .enter PML4T m.ncr3⟩] }
  | .advance i ans, x =>
    match x.calls[i]? with
    | none => .ok x
    | some c =>
      let (pc, s) := c.pc.step c.gpa ans x.phys
      if pc = .panicked then .error .panic
      else .ok { x with phys := s, calls := x.calls.set i { c with pc := pc } }
  | .fill vm acc gpa, x =>
    match x.translate vm acc gpa with
    | .page f => .ok { x with cached := x.cached ++ [⟨vm, gpa, f⟩] }
    | _ => .ok x
  | .mark vm gpa n accessed dirty, x =>
    match x.vmms vm with
    | none => .ok x
    | some m => .ok { x with phys := Emulator.hwMark x.phys m.ncr3 gpa n accessed dirty }
  | .guestStore j slot w, x =>
    match x.cached[j]? with
    | none => .ok x
    | some t => if (x.vmms t.vm).isSome then .ok { x with phys := x.phys.store t.page slot w } else .ok x
  | .userStore i slot w, x =>
    match x.calls[i]? with
    | none => .ok x
    | some c =>
      match c.pc with
      | .done page =>
        if (x.vmms c.vm).isSome then .ok { x with phys := x.phys.store (page.setWidth 40) slot w } else .ok x
      | _ => .ok x

/-- A run. -/
def run (x : Tables) (acts : List TableAct) : Except Crash Tables := acts.foldlM (fun x act => step act x) x

/-- No table yet. `pages` are in use by the rest of the kernel. -/
def init (mem : Frame → Slot → Word) (pages : Finset Frame) : Tables := ⟨⟨mem, pages, ∅, 0⟩, fun _ => none, [], []⟩

end Tables

end Yakvm
