import Yakvm.Spec.Guests

/-!
# The memory of guests, as its users see it

To its guests and to userspace the memory of a vm is flat: a word for each guest page and slot, zero until it is written,
whatever the driver has mapped so far. It is written by the vm's own guests and through userspace's mapping of the vm, and
by nothing else.
-/

namespace Yakvm

/-- A word that is written to the memory of a vm. -/
structure FlatWrite where
  vm : ℕ
  page : BitVec 36
  slot : Slot
  word : Word
  deriving DecidableEq

/-- The memories of all vms, by vm and guest page. -/
abbrev Flat := ℕ × BitVec 36 → Slot → Word

/-- One word is written. -/
def Flat.write (m : Flat) (w : FlatWrite) : Flat :=
  Function.update m (w.vm, w.page) (Function.update (m (w.vm, w.page)) w.slot w.word)

/-- The word that was written last, `0` if none was. -/
def lastWord (ws : List FlatWrite) (vm : ℕ) (page : BitVec 36) (slot : Slot) : Word :=
  ((ws.filter fun w => w.vm = vm ∧ w.page = page ∧ w.slot = slot).getLast?.map FlatWrite.word).getD 0

namespace Guests

/-- The word that a guest or userspace writes in a step, by its guest address. -/
def written (x : Guests) : GuestAct → Option FlatWrite
  | .store c i slot w =>
    match x.running c, x.tlb[i]? with
    | some vc, some e =>
      if e.asid = x.sys.k.asidOf vc ∧ e.acc = .write then some ⟨vc.vm, e.key, slot, w⟩ else none
    | _, _ => none
  | .userStore vm gpa slot w =>
    if vm ∈ x.sys.vmFiles then
      match (x.sys.k.vms vm).bind fun v => x.sys.k.vmms v.vmm with
      | some vmm =>
        match hwTranslate x.sys.k.phys.mem vmm.ncr3 .write gpa with
        | .page _ => some ⟨vm, key gpa, slot, w⟩
        | _ => none
      | none => none
    else none
  | _ => none

/-- The words that are written in a run, in order. -/
def writes (nasid : BitVec 32) : Guests → List GuestAct → List FlatWrite
  | _, [] => []
  | x, act :: acts =>
    match step nasid act x with
    | .error _ => []
    | .ok x' => (x.written act).toList ++ writes nasid x' acts

end Guests

end Yakvm
