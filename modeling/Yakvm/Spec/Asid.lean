import Yakvm.Spec.World

/-!
# Address space identifiers

Every vcpu gets its ASID from the counter `asid` of `driver/cpu.c`, which starts at 1 when the
module is loaded. Nothing gives an ASID back.

* Of requests taken as a whole: which of them draw an ASID, and how many a run draws
  (`World.inits`).
* Of requests in flight: `yakvm_vcpu_init_vmcb` is cut between `atomic_inc_return` and its
  assertion, which reads the ASID back from the control block (`Asids`).
-/

namespace Yakvm

/-! ## Requests as a whole -/

/-- The request calls `yakvm_vcpu_init_vmcb`. -/
def World.initialises (w : World) : Op → Bool
  | .createVcpu vm a _ => decide (vm ∈ w.vmFiles) && a.granted w.k.phys
  | _ => false

/-- How often a run calls `yakvm_vcpu_init_vmcb`, up to the request that panics if one does. -/
def World.inits (nasid : BitVec 32) : List Op → World → ℕ
  | [], _ => 0
  | op :: ops, w => (w.initialises op).toNat +
    match w.step nasid op with
    | .ok w => World.inits nasid ops w
    | .error _ => 0

/-- `YAKVM_CREATE_VM`, `YAKVM_CREATE_VCPU`, and the closing of their files. -/
def Op.Lifecycle : Op → Prop
  | .createVm .. | .createVcpu .. | .closeVm _ | .closeVcpu _ => True
  | .mmapPage .. | .fault .. => False

/-- The number of live vcpus. -/
def World.live (w : World) : ℕ := (List.range w.k.phys.next).countP fun c => (w.k.vcpus c).isSome

/-! ## Requests in flight -/

/-- Where a call of `yakvm_create_vcpu` stands, and its vcpu after it. -/
inductive CreateStage
  | allocating
  /-- the ASID has been drawn and stored, the assertion is next -/
  | drawn
  /-- `yakvm_vcpu_init_vmcb` has returned -/
  | initialised
  /-- an allocation has failed, or the vcpu has been destroyed -/
  | gone
  deriving DecidableEq

/-- A call of `yakvm_create_vcpu`. No other call has a pointer to its control block. -/
structure Creation where
  vm : ℕ
  stage : CreateStage
  /-- the word of the control block with the ASID, its low half; the page comes zeroed -/
  control : Word
  deriving DecidableEq

/-- `vmcb->control.asid`. -/
def Creation.asid (c : Creation) : BitVec 32 := c.control.setWidth 32

/-- The counter and the calls that use it. -/
structure Asids where
  /-- `atomic_t` is an `int` that wraps; its conversion to `u32` keeps the bits -/
  counter : BitVec 32
  calls : List Creation
  /-- the ASIDs of the vcpus initialised so far, the last one first -/
  log : List (BitVec 32)
  deriving DecidableEq

/-- The next step of the call with the number `i`. `granted` tells whether its allocations
succeed. A vcpu is destroyed when its request fails later on, or when its files are closed. -/
def Creation.advance (nasid : BitVec 32) (i : ℕ) (granted : Bool) (c : Creation) (x : Asids) : Except Crash Asids :=
  match c.stage with
  | .allocating =>
    if granted then
      let asid := x.counter + 1
      let c := { c with stage := .drawn, control := c.control.extractLsb' 32 32 ++ asid }
      .ok { x with counter := asid, calls := x.calls.set i c }
    else .ok { x with calls := x.calls.set i { c with stage := .gone } }
  | .drawn =>
    if c.asid < nasid then
      .ok { x with calls := x.calls.set i { c with stage := .initialised }, log := c.asid :: x.log }
    else .error .panic
  | .initialised => .ok { x with calls := x.calls.set i { c with stage := .gone } }
  | .gone => .ok x

/-- What can happen next. -/
inductive AsidAct
  /-- `YAKVM_CREATE_VCPU` is called on a vm -/
  | create (vm : ℕ)
  | advance (i : ℕ) (granted : Bool)
  deriving DecidableEq

/-- One step. -/
def Asids.step (nasid : BitVec 32) : AsidAct → Asids → Except Crash Asids
  | .create vm, x => .ok { x with calls := x.calls ++ [⟨vm, .allocating, 0⟩] }
  | .advance i granted, x =>
    match x.calls[i]? with
    | none => .ok x
    | some c => c.advance nasid i granted x

/-- A run. -/
def Asids.run (nasid : BitVec 32) (x : Asids) (acts : List AsidAct) : Except Crash Asids :=
  acts.foldlM (fun x act => x.step nasid act) x

/-- The counter when the module has just been loaded. -/
def Asids.init : Asids := ⟨1, [], []⟩

/-- The step draws from the counter when it is about to wrap to zero. -/
def Asids.Wraps (x : Asids) (act : AsidAct) : Prop :=
  x.counter = 0xffffffff ∧ ∃ i c, act = .advance i true ∧ x.calls[i]? = some c ∧ c.stage = .allocating

end Yakvm
