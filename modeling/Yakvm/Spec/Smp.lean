import Yakvm.Spec.Lifecycle
import Yakvm.Spec.Module
import Mathlib.Order.Interval.Finset.Nat

/-!
# The world switch on many processors

`yakvm_vcpu_ioctl` and `yakvm_vcpu_run` of `driver/cpu.c`, cut at every step that other processors can see or
that decides what the scheduler may do. Threads take the lock of a vcpu, and are moved between processors
whenever preemption is enabled; `vmrun` saves the host in the page that `MSR_VM_HSAVE_PA` of its processor
names, and `vmsave` in the control block it is given. A `Platform` is these processors with the driver, whose
other requests create and destroy vcpus in between.

What `vmrun` saves of the host and what `vmsave` saves are opaque here: `H` and `S`. Nothing else on the
machine uses SVM. While the global interrupt flag is clear no interrupt is taken.
-/

namespace Yakvm

/-- Where a `YAKVM_RUN` stands: what it does next. -/
inductive RunStage
  /-- `mutex_lock_killable` -/
  | lock
  | preemptDisable
  /-- `wrmsrl(MSR_VM_HSAVE_PA, virt_to_phys(vcpu->hsave))` -/
  | wrmsr
  | clgi
  /-- `vmsave` to `vcpu->hctx.vmcb` -/
  | vmsaveHost
  /-- `vmload`, `vmrun` and `vmsave` of `_yakvm_vcpu_run`, on `vcpu->gctx.vmcb` -/
  | vmloadGuest
  | vmrun
  /-- the guest runs; its exit is next -/
  | guest
  | vmsaveGuest
  /-- `vmload` from `vcpu->hctx.vmcb` -/
  | vmloadHost
  | stgi
  | preemptEnable
  /-- `mutex_unlock` -/
  | unlock
  | finished
  deriving DecidableEq, Repr

@[simp] def RunStage.next : RunStage → RunStage
  | .lock => .preemptDisable
  | .preemptDisable => .wrmsr
  | .wrmsr => .clgi
  | .clgi => .vmsaveHost
  | .vmsaveHost => .vmloadGuest
  | .vmloadGuest => .vmrun
  | .vmrun => .guest
  | .guest => .vmsaveGuest
  | .vmsaveGuest => .vmloadHost
  | .vmloadHost => .stgi
  | .stgi => .preemptEnable
  | .preemptEnable => .unlock
  | .unlock => .finished
  | .finished => .finished

/-- The SVM instruction of a step. -/
def RunStage.svm : RunStage → Option SvmInstr
  | .clgi => some .clgi
  | .vmsaveHost | .vmsaveGuest => some .vmsave
  | .vmloadGuest | .vmloadHost => some .vmload
  | .vmrun => some .vmrun
  | .stgi => some .stgi
  | _ => none

/-- A processor. -/
structure Pcpu (H S : Type) where
  /-- what `vmrun` saves of the host -/
  host : H
  /-- what `vmsave` saves -/
  sys : S
  gif : Bool
  preempt : ℕ
  /-- `MSR_VM_HSAVE_PA` -/
  hsavePa : Word
  /-- in guest mode -/
  inGuest : Bool
  /-- the thread that it runs -/
  current : Option ℕ

/-- A page with the state of a processor in it. -/
inductive Saved (H S : Type)
  | sys (s : S)
  | host (h : H)

/-- A thread that has called `YAKVM_RUN` on a vcpu, and the processor that it is on. -/
structure RunThread where
  vcpu : ℕ
  stage : RunStage
  on : Option ℕ
  deriving DecidableEq

/-- The processors, the threads, the locks of the vcpus, and the pages. -/
structure Smp (H S : Type) where
  cpus : ℕ → Pcpu H S
  threads : ℕ → Option RunThread
  locks : ℕ → Option ℕ
  mem : Frame → Saved H S
  /-- what host code has last made of the state of each processor; nothing reads it -/
  home : ℕ → H × S
  /-- what the guest of each vcpu has last left behind; nothing reads it -/
  left : ℕ → S

/-- What can happen next. -/
inductive SmpAct (H S : Type)
  /-- a thread without a request calls `YAKVM_RUN` -/
  | call (t vcpu : ℕ)
  /-- an idle processor switches to a thread that is on none -/
  | schedule (cpu t : ℕ)
  /-- a processor leaves its thread -/
  | preempt (cpu : ℕ)
  /-- the thread on a processor takes its next step. `killed`: `mutex_lock_killable` fails. `h` and `s` are what the
  guest makes of the processor's state -/
  | exec (cpu : ℕ) (killed : Bool) (h : H) (s : S)
  /-- host code, of a thread or of an interrupt, changes the state of a processor -/
  | host (cpu : ℕ) (h : H) (s : S)

/-- What an instruction finds in a page that does not hold what it loads. -/
inductive Mixed
  | mixed
  deriving DecidableEq

namespace Smp

variable {H S : Type}

def setCpu (x : Smp H S) (p : ℕ) (c : Pcpu H S) : Smp H S := { x with cpus := Function.update x.cpus p c }

def setThread (x : Smp H S) (t : ℕ) (th : RunThread) : Smp H S := { x with threads := Function.update x.threads t (some th) }

def setPage (x : Smp H S) (f : Frame) (v : Saved H S) : Smp H S := { x with mem := Function.update x.mem f v }

/-- `vmload` from a page. -/
def vmload (x : Smp H S) (p : ℕ) (f : Frame) : Except Mixed (Smp H S) :=
  match x.mem f with
  | .sys s => .ok (x.setCpu p { x.cpus p with sys := s })
  | .host _ => .error .mixed

/-- `vmsave` to a page. -/
def vmsave (x : Smp H S) (p : ℕ) (f : Frame) : Smp H S := x.setPage f (.sys (x.cpus p).sys)

/-- The page that `MSR_VM_HSAVE_PA` names. -/
def hsavePage (c : Pcpu H S) : Frame := c.hsavePa.extractLsb' 12 40

/-- `vmrun`: the host goes to the page, and the guest starts, with interrupts. -/
def vmrun (x : Smp H S) (p : ℕ) (h : H) : Smp H S :=
  (x.setPage (hsavePage (x.cpus p)) (.host (x.cpus p).host)).setCpu p
    { x.cpus p with host := h, gif := true, inGuest := true }

/-- The exit of the guest of a vcpu. -/
def vmexit (x : Smp H S) (p vcpu : ℕ) (s : S) : Except Mixed (Smp H S) :=
  match x.mem (hsavePage (x.cpus p)) with
  | .host h => .ok { x.setCpu p { x.cpus p with host := h, sys := s, gif := false, inGuest := false } with
      left := Function.update x.left vcpu s }
  | .sys _ => .error .mixed

/-- What the thread `t` on the processor `p` does at a stage. -/
def doStage (vc : Vcpu) (p t vcpu : ℕ) (h : H) (s : S) (x : Smp H S) : RunStage → Except Mixed (Smp H S)
  | .lock => .ok { x with locks := Function.update x.locks vcpu (some t) }
  | .preemptDisable => .ok (x.setCpu p { x.cpus p with preempt := (x.cpus p).preempt + 1 })
  | .wrmsr => .ok (x.setCpu p { x.cpus p with hsavePa := pageToPhys vc.hsave })
  | .clgi => .ok (x.setCpu p { x.cpus p with gif := false })
  | .vmsaveHost => .ok (x.vmsave p vc.hvmcb)
  | .vmloadGuest => x.vmload p vc.gvmcb
  | .vmrun => .ok (x.vmrun p h)
  | .guest => x.vmexit p vcpu s
  | .vmsaveGuest => .ok (x.vmsave p vc.gvmcb)
  | .vmloadHost => x.vmload p vc.hvmcb
  | .stgi => .ok (x.setCpu p { x.cpus p with gif := true })
  | .preemptEnable => .ok (x.setCpu p { x.cpus p with preempt := (x.cpus p).preempt - 1 })
  | .unlock => .ok { x with locks := Function.update x.locks vcpu none }
  | .finished => .ok x

/-- The next step of the thread `t` on the processor `p`. A thread waits for a lock that is held; a killed one returns
`-EINTR`. -/
def advance (vc : Vcpu) (p t : ℕ) (th : RunThread) (killed : Bool) (h : H) (s : S) (x : Smp H S) : Except Mixed (Smp H S) :=
  if th.stage = .lock ∧ killed then .ok (x.setThread t { th with stage := .finished })
  else if th.stage = .lock ∧ (x.locks th.vcpu).isSome then .ok x
  else do
    let x ← doStage vc p t th.vcpu h s x th.stage
    .ok (x.setThread t { th with stage := th.stage.next })

/-- Host code can run on the processor. -/
def hostRuns (c : Pcpu H S) : Bool := c.gif && !c.inGuest

/-- One step. What cannot happen changes nothing. -/
def step (x : Smp H S) (vcpus : ℕ → Option Vcpu) : SmpAct H S → Except Mixed (Smp H S)
  | .call t vcpu =>
    match vcpus vcpu, x.threads t with
    | some _, none => .ok (x.setThread t ⟨vcpu, .lock, none⟩)
    | some _, some th => if th.stage = .finished then .ok (x.setThread t { th with vcpu := vcpu, stage := .lock }) else .ok x
    | none, _ => .ok x
  | .schedule p t =>
    match x.threads t with
    | none => .ok x
    | some th =>
      if (x.cpus p).current = none ∧ th.on = none then
        .ok ((x.setCpu p { x.cpus p with current := some t }).setThread t { th with on := some p })
      else .ok x
  | .preempt p =>
    match (x.cpus p).current with
    | none => .ok x
    | some t =>
      match x.threads t with
      | none => .ok x
      | some th =>
        if (x.cpus p).preempt = 0 ∧ hostRuns (x.cpus p) then
          .ok ((x.setCpu p { x.cpus p with current := none }).setThread t { th with on := none })
        else .ok x
  | .exec p killed h s =>
    match (x.cpus p).current with
    | none => .ok x
    | some t =>
      match x.threads t with
      | none => .ok x
      | some th =>
        match vcpus th.vcpu with
        | none => .ok x
        | some vc => x.advance vc p t th killed h s
  | .host p h s =>
    if hostRuns (x.cpus p) then
      .ok { x.setCpu p { x.cpus p with host := h, sys := s } with home := Function.update x.home p (h, s) }
    else .ok x

/-- `yakvm_vcpu_init_vmcb` for the vcpus among the objects `n` to `n'`: their guest control blocks hold the state `s`. -/
def initVmcb (x : Smp H S) (vcpus : ℕ → Option Vcpu) (n n' : ℕ) (s : S) : Smp H S :=
  { x with
    mem := fun f => if ∃ c ∈ Finset.Ico n n', (vcpus c).map Vcpu.gvmcb = some f then .sys s else x.mem f
    left := fun c => if c ∈ Finset.Ico n n' ∧ (vcpus c).isSome then s else x.left c }

end Smp

/-! ## With the rest of the driver -/

/-- The driver and the processors. Of the pages `smp` has those that the world switch uses. -/
structure Platform (H S : Type) where
  sys : Sys
  smp : Smp H S
  /-- the threads that have called `YAKVM_RUN` so far -/
  callers : Finset ℕ

inductive PlatformAct (H S : Type)
  /-- a step of the driver. `s` is what `yakvm_vcpu_init_vmcb` stores of what `vmload` loads -/
  | driver (act : Act) (s : S)
  | cpu (act : SmpAct H S)

/-- How a platform can stop. -/
inductive PlatformError
  | crash (c : Crash)
  | mixed
  deriving DecidableEq

namespace Platform

variable {H S : Type}

/-- A `YAKVM_RUN` on the vcpu is in flight. -/
def busy (x : Platform H S) (c : ℕ) : Bool :=
  decide (∃ t ∈ x.callers, (x.smp.threads t).any fun th => decide (th.vcpu = c) && decide (th.stage ≠ .finished))

/-- The kernel releases the file of a vcpu when no request on it is in flight. -/
def permits (x : Platform H S) : Act → Bool
  | .closeVcpu c => !x.busy c
  | _ => true

/-- One step. `YAKVM_RUN` is called on an open file. -/
def step (nasid : BitVec 32) : PlatformAct H S → Platform H S → Except PlatformError (Platform H S)
  | .driver act s, x =>
    if x.permits act then
      match x.sys.step nasid act with
      | .error e => .error (.crash e)
      | .ok sys => .ok { x with
          sys := sys
          smp := x.smp.initVmcb sys.k.vcpus x.sys.k.phys.next sys.k.phys.next s }
    else .ok x
  | .cpu (.call t c), x =>
    if c ∈ x.sys.vcpuFiles then
      match x.smp.step x.sys.k.vcpus (.call t c) with
      | .error _ => .error .mixed
      | .ok smp => .ok { x with smp := smp, callers := insert t x.callers }
    else .ok x
  | .cpu act, x =>
    match x.smp.step x.sys.k.vcpus act with
    | .error _ => .error .mixed
    | .ok smp => .ok { x with smp := smp }

/-- A run. -/
def run (nasid : BitVec 32) (x : Platform H S) (acts : List (PlatformAct H S)) : Except PlatformError (Platform H S) :=
  acts.foldlM (fun x act => step nasid act x) x

/-- The driver has just been loaded, and each processor is idle in some state. -/
def init (mem : Frame → Slot → Word) (pages : Finset Frame) (home : ℕ → H × S) (hsavePa : ℕ → Word)
    (page : Frame → Saved H S) (left : ℕ → S) : Platform H S :=
  ⟨Sys.init mem pages,
    ⟨fun p => ⟨(home p).1, (home p).2, true, 0, hsavePa p, false, none⟩, fun _ => none, fun _ => none, page, home, left⟩, ∅⟩

end Platform

end Yakvm
