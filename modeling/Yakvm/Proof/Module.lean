import Yakvm.Proof.Isolation
import Yakvm.Spec.Module

/-!
# Runs of the machine

What a step does to the module, its files and the processors (`step_cases`), and from it what
holds over runs.

* `run_world`: the requests of the first load are a run of the driver's requests.
* `module_outlives_iff`: when the module outlives its files.
* `svm_before_use_iff`: when SVM is on before it is used.
-/

namespace Yakvm

namespace Machine

variable {nasid : BitVec 32} {m m' : Machine} {ev : Event} {f : File} {cb : Callback}
variable {online : Finset ℕ} {svme : ℕ → Bool} {mem : Frame → Slot → Word} {pages : Finset Frame}

/-! ## Steps -/

theorem run_append (m : Machine) (p q : List Event) : m.run nasid (p ++ q) = m.run nasid p >>= fun m => m.run nasid q :=
  List.foldlM_append ..

theorem run_snoc (m : Machine) (p : List Event) (ev : Event) :
    m.run nasid (p ++ [ev]) = m.run nasid p >>= fun m => m.step nasid ev := by
  rw [run_append]
  congr 1
  funext m
  unfold run
  simp only [List.foldlM_cons, List.foldlM_nil]
  cases m.step nasid ev <;> rfl

/-- No `file_operations` of the driver names an owner. -/
theorem pins_eq_zero (m : Machine) : m.pins = 0 := by
  have howner : ∀ f : File, f.ops.owner = none := fun f => by cases f <;> rfl
  unfold pins
  rw [Finset.card_eq_zero, Finset.filter_eq_empty_iff]
  intro f _
  rw [howner]
  simp

/-- A step on the files that are there: nothing else has changed. -/
structure Serves (nasid : BitVec 32) (m m' : Machine) : Prop where
  online : m'.online = m.online
  load : m'.load = m.load
  inuse : m'.inuse = m.inuse
  waiting : m'.waiting = m.waiting
  svme : m'.svme = m.svme
  stale : m'.stale = m.stale
  world : m'.world = m.world ∨ ∃ op, m.world.step nasid op = .ok m'.world
  files : m.files = ∅ → m' = m

theorem Serves.refl (m : Machine) : Serves nasid m m := ⟨rfl, rfl, rfl, rfl, rfl, rfl, Or.inl rfl, fun _ => rfl⟩

/-- A file is open, and only its descriptors and mappings have changed. -/
theorem Serves.of_extra (hf : f ∈ m.files) (extra : File → ℕ) : Serves nasid m { m with extra := extra } :=
  ⟨rfl, rfl, rfl, rfl, rfl, rfl, Or.inl rfl, fun he => absurd (he ▸ hf) (Finset.notMem_empty f)⟩

/-- A file is open, and the driver has done a request. -/
theorem Serves.of_world {op : Op} {w : World} (hf : f ∈ m.files) (hw : m.world.step nasid op = .ok w) :
    Serves nasid m { m with world := w } :=
  ⟨rfl, rfl, rfl, rfl, rfl, rfl, Or.inr ⟨op, hw⟩, fun he => absurd (he ▸ hf) (Finset.notMem_empty f)⟩

theorem call_cases {body : Except Halt Machine} (h : m.call f cb body = .ok m') :
    m' = m ∨ f ∈ m.files ∧ f ∉ m.stale ∧ body = .ok m' := by
  unfold call at h
  split at h
  · exact Or.inl (Except.ok.inj h).symm
  · rename_i hf
    split at h
    · simp at h
    · rename_i hs
      exact Or.inr ⟨not_not.1 hf, hs, h⟩

theorem request_cases {op : Op} (h : m.request nasid op = .ok m') :
    ∃ w, m.world.step nasid op = .ok w ∧ m' = { m with world := w } := by
  unfold request at h
  split at h
  · exact ⟨_, ‹_›, (Except.ok.inj h).symm⟩
  · simp at h

theorem foldlM_execSvm_on {cpu : ℕ} (hs : m.svme cpu = true) (is : List SvmInstr) :
    is.foldlM (execSvm cpu) m = .ok m := by
  induction is with
  | nil => rfl
  | cons i is ih =>
    rw [List.foldlM_cons]
    unfold execSvm
    rw [if_pos hs]
    exact ih

/-- With SVM off, the first instruction is not accepted. -/
theorem vcpuRunSvm_off {cpu : ℕ} (hs : m.svme cpu = false) :
    vcpuRunSvm.foldlM (execSvm cpu) m = .error (.undefined cpu .clgi) := by
  have hcons : ∃ is, vcpuRunSvm = .clgi :: is := ⟨_, rfl⟩
  obtain ⟨is, his⟩ := hcons
  rw [his, List.foldlM_cons]
  unfold execSvm
  rw [hs]
  rfl

/-- The module is in use, as its status says. -/
def Claimed (m : Machine) : Prop := m.load ≠ .unloaded → m.load ≠ .init .start → m.inuse = true

/-- A step of `yakvm_init` before the device is registered. -/
structure Moves (m m' : Machine) : Prop where
  before : ¬ m.registered
  online : m'.online = m.online
  svme : m'.svme = m.svme
  stale : m'.stale = m.stale
  files : m'.files = m.files
  world : m'.world = m.world
  claimed : m.Claimed → m'.Claimed

theorem not_registered {stage : InitStage} (hl : m.load = .init stage) (hs : stage ≠ .registered) : ¬ m.registered := by
  rintro (h | h)
  · exact hs (Load.init.inj (hl.symm.trans h))
  · rw [hl] at h
    simp at h

/-- The driver serves a file. -/
theorem Serves.of_request {op : Op} (h : m.call f cb (m.request nasid op) = .ok m') : Serves nasid m m' := by
  rcases call_cases h with rfl | ⟨hf, -, h⟩
  · exact .refl m'
  · obtain ⟨w, hw, rfl⟩ := request_cases h
    exact .of_world hf hw

theorem Serves.of_drop (hf : f ∈ m.files) (h : m.drop nasid f = .ok m') : Serves nasid m m' := by
  cases f with
  | dev n =>
    obtain rfl := Except.ok.inj h
    exact ⟨rfl, rfl, rfl, rfl, rfl, rfl, Or.inl rfl, fun he => absurd (he ▸ hf) (Finset.notMem_empty _)⟩
  | vm o =>
    obtain ⟨w, hw, rfl⟩ := request_cases h
    exact .of_world hf hw
  | vcpu o =>
    obtain ⟨w, hw, rfl⟩ := request_cases h
    exact .of_world hf hw

/-- **What a step can do**: it serves a file, opens the device, or moves the module. -/
theorem step_cases (h : m.step nasid ev = .ok m') :
    Serves nasid m m' ∨
    (ev = .openDev ∧ m.registered ∧ m' = { m with devFiles := insert m.opens m.devFiles, opens := m.opens + 1 }) ∨
    (ev = .load ∧ m.load = .unloaded ∧ m' = m.loadModule) ∨
    Moves m m' ∨
    (∃ cpu, ev = .enable cpu ∧ m.load = .init .registered ∧ cpu ∈ m.waiting ∧
      m' = { m.cpuSvmEnable cpu with waiting := m.waiting.erase cpu }) ∨
    (ev = .initDone ∧ m.load = .init .registered ∧ m' = { m with load := .live }) ∨
    (ev = .unload ∧ m.load = .live ∧ m' = { m with load := .unloaded, inuse := false, stale := m.files }) := by
  cases ev with
  | load =>
    simp only [step] at h
    split at h <;> obtain rfl := Except.ok.inj h
    · exact Or.inr (Or.inr (Or.inl ⟨rfl, ‹_›, rfl⟩))
    · exact Or.inl (.refl m)
  | claim =>
    simp only [step] at h
    split at h
    · rename_i hl
      refine Or.inr (Or.inr (Or.inr (Or.inl ?_)))
      have hreg := not_registered hl (by decide)
      split at h <;> obtain rfl := Except.ok.inj h
      · exact ⟨hreg, rfl, rfl, rfl, rfl, rfl, fun _ hu => absurd rfl hu⟩
      · exact ⟨hreg, rfl, rfl, rfl, rfl, rfl, fun _ _ _ => rfl⟩
    · obtain rfl := Except.ok.inj h
      exact Or.inl (.refl m)
  | checkSvm supported =>
    simp only [step] at h
    split at h
    · rename_i hl
      refine Or.inr (Or.inr (Or.inr (Or.inl ?_)))
      have hreg := not_registered hl (by decide)
      split at h <;> obtain rfl := Except.ok.inj h
      · exact ⟨hreg, rfl, rfl, rfl, rfl, rfl, fun hc _ _ => hc (by simp [hl]) (by simp [hl])⟩
      · exact ⟨hreg, rfl, rfl, rfl, rfl, rfl, fun _ hu => absurd rfl hu⟩
    · obtain rfl := Except.ok.inj h
      exact Or.inl (.refl m)
  | register ok =>
    simp only [step] at h
    split at h
    · rename_i hl
      refine Or.inr (Or.inr (Or.inr (Or.inl ?_)))
      have hreg := not_registered hl (by decide)
      split at h <;> obtain rfl := Except.ok.inj h
      · exact ⟨hreg, rfl, rfl, rfl, rfl, rfl, fun hc _ _ => hc (by simp [hl]) (by simp [hl])⟩
      · exact ⟨hreg, rfl, rfl, rfl, rfl, rfl, fun _ hu => absurd rfl hu⟩
    · obtain rfl := Except.ok.inj h
      exact Or.inl (.refl m)
  | enable cpu =>
    simp only [step] at h
    split at h <;> obtain rfl := Except.ok.inj h
    · rename_i hl
      exact Or.inr (Or.inr (Or.inr (Or.inr (Or.inl ⟨cpu, rfl, hl.1, hl.2, rfl⟩))))
    · exact Or.inl (.refl m)
  | initDone =>
    simp only [step] at h
    split at h <;> obtain rfl := Except.ok.inj h
    · rename_i hl
      exact Or.inr (Or.inr (Or.inr (Or.inr (Or.inr (Or.inl ⟨rfl, hl.1, rfl⟩)))))
    · exact Or.inl (.refl m)
  | openDev =>
    simp only [step] at h
    split at h <;> obtain rfl := Except.ok.inj h
    · exact Or.inr (Or.inl ⟨rfl, ‹_›, rfl⟩)
    · exact Or.inl (.refl m)
  | createVm dev a fd => exact Or.inl (.of_request h)
  | createVcpu vm a fd => exact Or.inl (.of_request h)
  | mmapPage vm gpa ask => exact Or.inl (.of_request h)
  | run vcpu cpu =>
    simp only [step] at h
    split at h
    · rcases call_cases h with rfl | ⟨hf, -, h⟩
      · exact Or.inl (.refl m')
      · cases hs : m.svme cpu with
        | false => rw [vcpuRunSvm_off hs] at h; simp at h
        | true =>
          rw [foldlM_execSvm_on hs] at h
          obtain rfl := Except.ok.inj h
          exact Or.inl (.refl m)
    · obtain rfl := Except.ok.inj h
      exact Or.inl (.refl m)
  | ioctl f =>
    simp only [step] at h
    split at h
    · rcases call_cases h with rfl | ⟨hf, -, h⟩
      · exact Or.inl (.refl m')
      · obtain rfl := Except.ok.inj h
        exact Or.inl (.refl m)
    · obtain rfl := Except.ok.inj h
      exact Or.inl (.refl m)
  | dup f =>
    simp only [step] at h
    split at h <;> obtain rfl := Except.ok.inj h
    · exact Or.inl (.of_extra ‹_› _)
    · exact Or.inl (.refl m)
  | mmap f made =>
    simp only [step] at h
    split at h
    · rcases call_cases h with rfl | ⟨hf, -, h⟩
      · exact Or.inl (.refl m')
      · obtain rfl := Except.ok.inj h
        cases made with
        | false => exact Or.inl (.refl m)
        | true => exact Or.inl (.of_extra hf _)
    · obtain rfl := Except.ok.inj h
      exact Or.inl (.refl m)
  | fault vm address vmStart ask => exact Or.inl (.of_request h)
  | close f =>
    simp only [step] at h
    split at h
    · rename_i hf
      split at h
      · obtain rfl := Except.ok.inj h
        exact Or.inl (.of_extra hf _)
      · split at h
        · rcases call_cases h with rfl | ⟨-, -, h⟩
          · exact Or.inl (.refl m')
          · exact Or.inl (.of_drop hf h)
        · exact Or.inl (.of_drop hf h)
    · obtain rfl := Except.ok.inj h
      exact Or.inl (.refl m)
  | unload =>
    simp only [step] at h
    split at h
    · rename_i hl
      unfold yakvmExit at h
      split at h
      · obtain rfl := Except.ok.inj h
        exact Or.inr (Or.inr (Or.inr (Or.inr (Or.inr (Or.inr ⟨rfl, hl.1, rfl⟩)))))
      · simp at h
    · obtain rfl := Except.ok.inj h
      exact Or.inl (.refl m)

/-! ## How a step stops the machine -/

theorem call_error {body : Except Halt Machine} {e : Halt} (h : m.call f cb body = .error e) :
    (e = .stale f cb ∧ f ∈ m.files ∧ f ∈ m.stale) ∨ (f ∈ m.files ∧ f ∉ m.stale ∧ body = .error e) := by
  unfold call at h
  split at h
  · simp at h
  · rename_i hf
    split at h
    · rename_i hs
      exact Or.inl ⟨(Except.error.inj h).symm, not_not.1 hf, hs⟩
    · rename_i hs
      exact Or.inr ⟨not_not.1 hf, hs, h⟩

theorem request_error {op : Op} {e : Halt} (h : m.request nasid op = .error e) : ∃ c, e = .crash c := by
  unfold request at h
  split at h
  · simp at h
  · exact ⟨_, (Except.error.inj h).symm⟩

theorem drop_error {e : Halt} (h : m.drop nasid f = .error e) : ∃ c, e = .crash c := by
  cases f with
  | dev n => simp [drop] at h
  | vm o => exact request_error h
  | vcpu o => exact request_error h

/-- Why a step stops the machine. -/
inductive Stopped (m : Machine) (ev : Event) : Halt → Prop
  | crash (c : Crash) : Stopped m ev (.crash c)
  | stale (f : File) (cb : Callback) (hf : f ∈ m.files) (hs : f ∈ m.stale) : Stopped m ev (.stale f cb)
  | undefined (vcpu cpu : ℕ) (hev : ev = .run vcpu cpu) (hcpu : cpu ∈ m.online) (hf : .vcpu vcpu ∈ m.files)
    (hs : .vcpu vcpu ∉ m.stale) (hoff : m.svme cpu = false) : Stopped m ev (.undefined cpu .clgi)

/-- The driver was called for a file. -/
theorem Stopped.of_call {body : Except Halt Machine} {e : Halt} (h : m.call f cb body = .error e)
    (hbody : body = .error e → Stopped m ev e) : Stopped m ev e := by
  rcases call_error h with ⟨rfl, hf, hs⟩ | ⟨-, -, h⟩
  · exact .stale f cb hf hs
  · exact hbody h

theorem Stopped.of_request {op : Op} {e : Halt} (h : m.request nasid op = .error e) : Stopped m ev e := by
  obtain ⟨c, rfl⟩ := request_error h
  exact .crash c

theorem Stopped.of_drop {e : Halt} (h : m.drop nasid f = .error e) : Stopped m ev e := by
  obtain ⟨c, rfl⟩ := drop_error h
  exact .crash c

theorem step_error {e : Halt} (h : m.step nasid ev = .error e) : Stopped m ev e := by
  cases ev with
  | createVm dev a fd => exact .of_call h .of_request
  | createVcpu vm a fd => exact .of_call h .of_request
  | mmapPage vm gpa ask => exact .of_call h .of_request
  | fault vm address vmStart ask => exact .of_call h .of_request
  | run vcpu cpu =>
    simp only [step] at h
    split at h
    · rename_i hcpu
      rcases call_error h with ⟨rfl, hf, hs⟩ | ⟨hf, hs, h⟩
      · exact .stale _ _ hf hs
      · cases hon : m.svme cpu with
        | false =>
          rw [vcpuRunSvm_off hon] at h
          obtain rfl := Except.error.inj h
          exact .undefined vcpu cpu rfl hcpu hf hs hon
        | true => rw [foldlM_execSvm_on hon] at h; simp at h
    · simp at h
  | ioctl g =>
    simp only [step] at h
    split at h
    · exact .of_call h (by simp)
    · simp at h
  | mmap g made =>
    simp only [step] at h
    split at h
    · exact .of_call h (by simp)
    · simp at h
  | close g =>
    simp only [step] at h
    split at h
    · split at h
      · simp at h
      · split at h
        · exact .of_call h .of_drop
        · exact .of_drop h
    · simp at h
  | unload =>
    simp only [step, yakvmExit] at h
    split at h
    · split at h
      · simp at h
      · obtain rfl := Except.error.inj h
        exact .crash _
    · simp at h
  | _ => simp only [step] at h; (repeat' split at h) <;> simp at h

/-! ## Invariants -/

theorem step_claimed (hc : m.Claimed) (h : m.step nasid ev = .ok m') : m'.Claimed := by
  rcases step_cases h with hs | ⟨-, -, rfl⟩ | ⟨-, -, rfl⟩ | hm | ⟨cpu, -, -, -, rfl⟩ | ⟨-, hl, rfl⟩ | ⟨-, -, rfl⟩
  · unfold Claimed
    rw [hs.load, hs.inuse]
    exact hc
  · exact hc
  · exact fun _ hst => absurd rfl hst
  · exact hm.claimed hc
  · exact hc
  · exact fun _ _ => hc (by simp [hl]) (by simp [hl])
  · exact fun hu => absurd rfl hu

/-- A property that holds at boot and is kept by every step. -/
theorem run_induction {P : Machine → Prop} (hstep : ∀ m ev m', P m → m.step nasid ev = .ok m' → P m') :
    ∀ (evs : List Event) (m m' : Machine), P m → m.run nasid evs = .ok m' → P m' := by
  intro evs
  induction evs with
  | nil =>
    intro m m' hp h
    obtain rfl := Except.ok.inj h
    exact hp
  | cons ev evs ih =>
    intro m m' hp h
    have h : (m.step nasid ev >>= fun m => m.run nasid evs) = .ok m' := h
    cases hst : m.step nasid ev with
    | error e => rw [hst] at h; simp [bind, Except.bind] at h
    | ok m₁ =>
      rw [hst] at h
      exact ih m₁ m' (hstep m ev m₁ hp hst) h

/-- While the module stays loaded, its objects change by requests. -/
theorem step_world (hev : ev ≠ .load) (h : m.step nasid ev = .ok m') :
    m'.world = m.world ∨ ∃ op, m.world.step nasid op = .ok m'.world := by
  rcases step_cases h with hs | ⟨-, -, rfl⟩ | ⟨rfl, -, -⟩ | hm | ⟨cpu, -, -, -, rfl⟩ | ⟨-, -, rfl⟩ | ⟨-, -, rfl⟩
  · exact hs.world
  · exact Or.inl rfl
  · exact absurd rfl hev
  · exact Or.inl hm.world
  · exact Or.inl rfl
  · exact Or.inl rfl
  · exact Or.inl rfl

/-- **The machine runs the driver**: what is behind the files after the first load, whatever else
happens, is a state that a run of requests reaches. -/
theorem run_world {evs : List Event} (hevs : ∀ ev ∈ evs, ev ≠ .load)
    (h : (boot online svme mem pages).run nasid (.load :: evs) = .ok m) :
    ∃ ops, (World.init mem pages).run nasid ops = .ok m.world := by
  have hrun : ∀ (evs : List Event) (m₀ : Machine), (∀ ev ∈ evs, ev ≠ .load) → m₀.run nasid evs = .ok m →
      ∃ ops, m₀.world.run nasid ops = .ok m.world := by
    intro evs
    induction evs with
    | nil =>
      intro m₀ _ h
      obtain rfl := Except.ok.inj h
      exact ⟨[], rfl⟩
    | cons ev evs ih =>
      intro m₀ hevs h
      have h : (m₀.step nasid ev >>= fun m => m.run nasid evs) = .ok m := h
      cases hst : m₀.step nasid ev with
      | error e => rw [hst] at h; simp [bind, Except.bind] at h
      | ok m₁ =>
        rw [hst] at h
        obtain ⟨ops, hops⟩ := ih m₁ (fun ev hev => hevs ev (List.mem_cons_of_mem _ hev)) h
        rcases step_world (hevs ev List.mem_cons_self) hst with hw | ⟨op, hw⟩
        · exact ⟨ops, by rw [← hw]; exact hops⟩
        · refine ⟨op :: ops, ?_⟩
          rw [World.run_step hw]
          exact hops
  exact hrun evs (boot online svme mem pages).loadModule hevs h

/-! ## Files and unloading -/

/-- No file is open without a module behind it. -/
structure Clean (m : Machine) : Prop where
  stale : m.stale = ∅
  files : ¬ m.registered → m.files = ∅

theorem step_clean (hm : m.Clean) (h : m.step nasid ev = .ok m') (hcare : ev = .unload → m.load = .live → m.files = ∅) :
    m'.Clean := by
  have hreg : ∀ {m₁ : Machine}, m₁.load = m.load → (m₁.registered ↔ m.registered) := by
    intro m₁ hl
    unfold registered
    rw [hl]
  rcases step_cases h with hs | ⟨-, hr, rfl⟩ | ⟨-, hl, rfl⟩ | hmv | ⟨cpu, -, -, -, rfl⟩ | ⟨-, -, rfl⟩ | ⟨rfl, hl, rfl⟩
  · refine ⟨hs.stale.trans hm.stale, fun hr => ?_⟩
    have hempty := hm.files ((hreg hs.load).not.1 hr)
    rw [hs.files hempty]
    exact hempty
  · exact ⟨hm.stale, fun hno => absurd hr hno⟩
  · refine ⟨hm.stale, fun _ => hm.files ?_⟩
    rintro (h' | h') <;> rw [hl] at h' <;> simp at h'
  · exact ⟨hmv.stale.trans hm.stale, fun _ => hmv.files.trans (hm.files hmv.before)⟩
  · exact ⟨hm.stale, hm.files⟩
  · exact ⟨hm.stale, fun hno => absurd (Or.inr rfl) hno⟩
  · have hempty := hcare rfl hl
    exact ⟨hempty, fun _ => hempty⟩

/-- What the module owes its files: when it is gone no file is open, and its code is not called. -/
def Outlives : Except Halt Machine → Prop
  | .ok m => m.load = .unloaded → m.files = ∅
  | .error (.stale _ _) => False
  | .error _ => True

theorem Clean.outlives (hm : m.Clean) : Outlives (.ok m) := by
  intro hl
  apply hm.files
  rintro (h | h) <;> rw [hl] at h <;> simp at h

theorem boot_clean : (boot online svme mem pages).Clean := ⟨rfl, fun _ => rfl⟩

theorem boot_claimed : (boot online svme mem pages).Claimed := fun h => absurd rfl h

/-- A run that unloads the module only while no file is open. -/
theorem run_clean {m₀ : Machine} (h₀ : m₀.Clean) : ∀ p : List Event,
    (∀ q r m, p = q ++ .unload :: r → m₀.run nasid q = .ok m → m.load = .live → m.files = ∅) →
    (∀ m, m₀.run nasid p = .ok m → m.Clean) ∧ ∀ f cb, m₀.run nasid p ≠ .error (.stale f cb) := by
  intro p
  induction p using List.reverseRecOn with
  | nil =>
    intro _
    refine ⟨fun m h => ?_, fun f cb h => ?_⟩
    · obtain rfl := Except.ok.inj h
      exact h₀
    · simp [run, pure, Except.pure] at h
  | append_singleton p ev ih =>
    intro hcare
    obtain ⟨hclean, hstale⟩ := ih fun q r m hp => hcare q (r ++ [ev]) m (by rw [hp]; simp)
    rw [run_snoc]
    cases hrun : m₀.run nasid p with
    | error e =>
      refine ⟨fun m h => by simp [bind, Except.bind] at h, fun f cb h => ?_⟩
      exact hstale f cb (by rw [hrun]; exact h)
    | ok m =>
      refine ⟨fun m' h => step_clean (hclean m hrun) h fun hev hl => hcare p [] m (by rw [hev]) hrun hl, ?_⟩
      intro f cb h
      cases step_error h with
      | stale _ _ hf hs =>
        rw [(hclean m hrun).stale] at hs
        simp at hs

/-- **When the module outlives its files**: over a whole run, exactly if every attempt to unload it
comes while no file of the driver is open. -/
theorem module_outlives_iff (nasid : BitVec 32) (online : Finset ℕ) (svme : ℕ → Bool) (mem : Frame → Slot → Word)
    (pages : Finset Frame) (evs : List Event) :
    (∀ p q, evs = p ++ q → Outlives ((boot online svme mem pages).run nasid p)) ↔
      ∀ p q m, evs = p ++ .unload :: q → (boot online svme mem pages).run nasid p = .ok m → m.load = .live →
        m.files = ∅ := by
  constructor
  · intro hall p q m hevs hrun hl
    have hclaimed : m.Claimed := run_induction (fun _ _ _ => step_claimed) p _ m boot_claimed hrun
    have hinuse : m.inuse = true := hclaimed (by simp [hl]) (by simp [hl])
    have hnext := hall (p ++ [.unload]) q (by rw [hevs]; simp)
    rw [run_snoc, hrun] at hnext
    have hstep : m.step nasid .unload = .ok { m with load := .unloaded, inuse := false, stale := m.files } := by
      simp only [step, if_pos (And.intro hl m.pins_eq_zero), yakvmExit, if_pos hinuse]
    simp only [bind, Except.bind, hstep] at hnext
    exact hnext rfl
  · intro hcare p q hevs
    obtain ⟨hclean, hstale⟩ := run_clean boot_clean p fun p₁ p₂ m hp hrun hl =>
      hcare p₁ (p₂ ++ q) m (by rw [hevs, hp]; simp) hrun hl
    cases hrun : (boot online svme mem pages).run nasid p with
    | ok m => exact (hclean m hrun).outlives
    | error e =>
      cases e with
      | stale f cb => exact absurd hrun (hstale f cb)
      | _ => trivial

/-- A machine with one cpu, without SVM. -/
def freshBoot : Machine := boot {0} (fun _ => false) (fun _ _ => 0) ∅

/-- The device is opened, and the module unloaded: the next request calls code that is gone. -/
theorem module_unloaded_early :
    let evs : List Event :=
      [.load, .claim, .checkSvm true, .register true, .enable 0, .initDone, .openDev, .unload]
    (∃ m, freshBoot.run 16 evs = .ok m ∧ m.load = .unloaded ∧ m.files = {.dev 0}) ∧
      freshBoot.run 16 (evs ++ [.ioctl (.dev 0)]) = .error (.stale (.dev 0) .ioctl) := by
  refine ⟨⟨_, rfl, rfl, rfl⟩, rfl⟩

/-! ## SVM -/

/-- `yakvm_cpu_svm_enable` has run on the cpu. -/
def Enabled (nasid : BitVec 32) (m₀ : Machine) (p : List Event) (cpu : ℕ) : Prop :=
  ∃ p₁ p₂ m, p = p₁ ++ .enable cpu :: p₂ ∧ m₀.run nasid p₁ = .ok m ∧ m.load = .init .registered ∧ cpu ∈ m.waiting

theorem enabled_snoc {m₀ : Machine} {p : List Event} {cpu : ℕ} (hrun : m₀.run nasid p = .ok m) :
    Enabled nasid m₀ (p ++ [ev]) cpu ↔
      Enabled nasid m₀ p cpu ∨ (ev = .enable cpu ∧ m.load = .init .registered ∧ cpu ∈ m.waiting) := by
  constructor
  · rintro ⟨p₁, p₂, m₁, hp, h₁, hl, hw⟩
    rcases List.eq_nil_or_concat p₂ with rfl | ⟨p₃, ev', rfl⟩
    · obtain ⟨rfl, hev⟩ := List.append_inj' hp rfl
      rw [hrun] at h₁
      obtain rfl := Except.ok.inj h₁
      exact Or.inr ⟨by simpa using hev, hl, hw⟩
    · refine Or.inl ⟨p₁, p₃, m₁, ?_, h₁, hl, hw⟩
      have hp' : p ++ [ev] = (p₁ ++ .enable cpu :: p₃) ++ [ev'] := by rw [hp]; simp
      exact (List.append_inj' hp' rfl).1
  · rintro (⟨p₁, p₂, m₁, rfl, h₁, hl, hw⟩ | ⟨rfl, hl, hw⟩)
    · exact ⟨p₁, p₂ ++ [ev], m₁, by simp, h₁, hl, hw⟩
    · exact ⟨p, [], m, rfl, hrun, hl, hw⟩

theorem step_svme (h : m.step nasid ev = .ok m') (cpu : ℕ) :
    m'.svme cpu = true ↔
      m.svme cpu = true ∨ (ev = .enable cpu ∧ m.load = .init .registered ∧ cpu ∈ m.waiting) := by
  by_cases hen : ev = .enable cpu ∧ m.load = .init .registered ∧ cpu ∈ m.waiting
  · obtain ⟨rfl, hl, hw⟩ := hen
    simp only [step, if_pos (And.intro hl hw)] at h
    obtain rfl := Except.ok.inj h
    simp [cpuSvmEnable, hl, hw]
  · have hsame : m'.svme cpu = m.svme cpu := by
      rcases step_cases h with hs | ⟨-, -, rfl⟩ | ⟨-, -, rfl⟩ | hmv | ⟨c, rfl, hl, hw, rfl⟩ | ⟨-, -, rfl⟩ | ⟨-, -, rfl⟩
      · rw [hs.svme]
      · rfl
      · rfl
      · rw [hmv.svme]
      · have hne : cpu ≠ c := by
          rintro rfl
          exact hen ⟨rfl, hl, hw⟩
        exact Function.update_of_ne hne ..
      · rfl
      · rfl
    simp [hsame, hen]

/-- SVM is on where it was on at the start or has been enabled since. -/
theorem svme_iff {m₀ : Machine} {cpu : ℕ} : ∀ (p : List Event) (m : Machine), m₀.run nasid p = .ok m →
    (m.svme cpu = true ↔ m₀.svme cpu = true ∨ Enabled nasid m₀ p cpu) := by
  intro p
  induction p using List.reverseRecOn with
  | nil =>
    intro m h
    obtain rfl := Except.ok.inj h
    simp [Enabled]
  | append_singleton p ev ih =>
    intro m' h
    rw [run_snoc] at h
    cases hrun : m₀.run nasid p with
    | error e => rw [hrun] at h; simp [bind, Except.bind] at h
    | ok m =>
      rw [hrun] at h
      rw [step_svme h cpu, ih m hrun, enabled_snoc hrun, or_assoc]

theorem run_off (nasid : BitVec 32) {vcpu cpu : ℕ} (hcpu : cpu ∈ m.online) (hf : .vcpu vcpu ∈ m.files) (hs : .vcpu vcpu ∉ m.stale)
    (hoff : m.svme cpu = false) : m.step nasid (.run vcpu cpu) = .error (.undefined cpu .clgi) := by
  simp only [step, if_pos hcpu, call, not_not.2 hf, if_false, if_neg hs, vcpuRunSvm_off hoff]

/-- **When SVM is on before it is used**: over a whole run, exactly if every `YAKVM_RUN` on a cpu
comes after `yakvm_cpu_svm_enable` on that cpu, or SVM was on there when the module was loaded. -/
theorem svm_before_use_iff (nasid : BitVec 32) (online : Finset ℕ) (svme : ℕ → Bool) (mem : Frame → Slot → Word)
    (pages : Finset Frame) (evs : List Event) :
    (∀ p q cpu i, evs = p ++ q → (boot online svme mem pages).run nasid p ≠ .error (.undefined cpu i)) ↔
      ∀ p q vcpu cpu m, evs = p ++ .run vcpu cpu :: q → (boot online svme mem pages).run nasid p = .ok m →
        cpu ∈ m.online → .vcpu vcpu ∈ m.files → .vcpu vcpu ∉ m.stale →
        svme cpu = true ∨ Enabled nasid (boot online svme mem pages) p cpu := by
  constructor
  · intro hall p q vcpu cpu m hevs hrun hcpu hf hs
    by_contra hoff
    have hsvme : m.svme cpu = false := by
      rw [Bool.eq_false_iff]
      intro hon
      exact hoff ((svme_iff p m hrun).1 hon)
    apply hall (p ++ [.run vcpu cpu]) q cpu .clgi (by rw [hevs]; simp)
    rw [run_snoc, hrun]
    exact run_off nasid hcpu hf hs hsvme
  · intro hcond p
    induction p using List.reverseRecOn with
    | nil =>
      intro q cpu i _ h
      simp [run, pure, Except.pure] at h
    | append_singleton p ev ih =>
      intro q cpu i hevs h
      rw [run_snoc] at h
      cases hrun : (boot online svme mem pages).run nasid p with
      | error e =>
        rw [hrun] at h
        exact ih ([ev] ++ q) cpu i (by rw [hevs]; simp) (by rw [hrun]; exact h)
      | ok m =>
        rw [hrun] at h
        cases step_error h with
        | undefined vcpu _ hev hcpu hf hs hoff =>
          have hon := hcond p q vcpu cpu m (by rw [hevs, hev]; simp) hrun hcpu hf hs
          rw [(svme_iff p m hrun).2 hon] at hoff
          simp at hoff

theorem call_request {op : Op} {w : World} (hf : f ∈ m.files) (hs : m.stale = ∅) (hw : m.world.step nasid op = .ok w) :
    m.call f cb (m.request nasid op) = .ok { m with world := w } := by
  simp only [call, not_not.2 hf, hs, Finset.notMem_empty, request, hw, if_false]

/-- The device is used before `yakvm_init` has enabled SVM. -/
theorem svm_before_enable : ∃ c, freshBoot.run 16
    [.load, .claim, .checkSvm true, .register true, .openDev, .createVm 0 ⟨some 0x1000, countingAsk⟩ (.ok 3),
      .createVcpu 0 vcpuAsk (.ok 4), .run c 0] = .error (.undefined 0 .clgi) := by
  obtain ⟨w₀, w, v, c, hw₀, hfiles, hw, -, -, hvcpus⟩ := firstVcpu 16 (by decide)
  refine ⟨c, ?_⟩
  obtain ⟨m, hm, hworld, hdev, hs, hcpu, hoff⟩ : ∃ m, freshBoot.run 16
      [.load, .claim, .checkSvm true, .register true, .openDev] = .ok m ∧ m.world = World.init (fun _ _ => 0) ∅ ∧
        .dev 0 ∈ m.files ∧ m.stale = ∅ ∧ 0 ∈ m.online ∧ m.svme 0 = false := ⟨_, rfl, rfl, by decide, rfl, by decide, rfl⟩
  have hvm : m.step 16 (.createVm 0 ⟨some 0x1000, countingAsk⟩ (.ok 3)) = .ok { m with world := w₀ } :=
    call_request hdev hs (by rw [hworld]; exact hw₀)
  have hvcpu : ({ m with world := w₀ } : Machine).step 16 (.createVcpu 0 vcpuAsk (.ok 4)) = .ok { m with world := w } :=
    call_request (by simp [files, hfiles]) hs hw
  have hrun : ({ m with world := w } : Machine).step 16 (.run c 0) = .error (.undefined 0 .clgi) := by
    have hf : File.vcpu c ∈ ({ m with world := w } : Machine).files := by simp [files, hvcpus]
    exact run_off 16 hcpu hf (by rw [hs]; simp) hoff
  have hall : freshBoot.run 16 ([.load, .claim, .checkSvm true, .register true, .openDev] ++
      [.createVm 0 ⟨some 0x1000, countingAsk⟩ (.ok 3), .createVcpu 0 vcpuAsk (.ok 4), .run c 0]) =
        .error (.undefined 0 .clgi) := by
    rw [run_append, hm]
    change m.run 16 _ = _
    unfold run
    simp only [List.foldlM_cons, hvm, hvcpu, hrun, bind, Except.bind]
  exact hall

end Machine

end Yakvm
