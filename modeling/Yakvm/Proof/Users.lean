import Yakvm.Proof.Flat
import Yakvm.Spec.Users

/-!
# Mappings lead where they should

* `Pte.Backed`: what an entry stands for; `GuestsOK.keeps`: no step of the driver, of a guest or of a processor takes the page
  from an entry whose file is open.
* `UsersOK`: the invariant; `UsersOK.step`: every step keeps it, and what it writes to a vm's memory is what the flat memory says.
* `mappings_confined`: an entry leads to a page of a vm whose file is open, or to the state page of such a vcpu.
* `mapping_memory`: through an entry a process finds what was written there last.
-/

namespace Yakvm

variable {nasid : BitVec 32} {k k' : Kernel} {o c i u : ℕ} {f : Frame} {y y' : Guests} {x x' : Users} {s : AddressSpace}
  {base : Finset Frame} {mem₀ : Frame → Slot → Word} {m : Flat} {p : Pte}

/-! ## Entries -/

/-- The file is open. -/
def Guests.IsOpen (y : Guests) : Backing → Prop
  | .vm o => o ∈ y.sys.vmFiles
  | .vcpu c => c ∈ y.sys.vcpuFiles

/-- The step that releases a file. -/
def Backing.release : Backing → Act
  | .vm o => .closeVm o
  | .vcpu c => .closeVcpu c

/-- The page of an entry is the vm's page for its guest address, or the state page of its vcpu. -/
def Pte.Backed (k : Kernel) (p : Pte) : Prop :=
  match p.file with
  | .vm o => k.Maps o (key p.gpa) p.page
  | .vcpu c => ∃ vc, k.vcpus c = some vc ∧ p.page = vc.state

theorem Pte.Backed.tame (h : p.Backed k) (ht : Tame k k') : p.Backed k' := by
  unfold Pte.Backed at h ⊢
  cases hfile : p.file with
  | vm o =>
    rw [hfile] at h
    exact ht.maps.2 h
  | vcpu c =>
    rw [hfile] at h
    simp only [ht.objects.2.2]
    exact h

theorem GuestsOK.of_step {act : GuestAct} (h : GuestsOK nasid y) (hs : y.step nasid act = .ok y') : GuestsOK nasid y' := by
  rcases h.step act with he | ⟨y₁, hs₁, h₁⟩
  · rw [he] at hs
    cases hs
  · rw [hs₁] at hs
    exact Except.ok.inj hs ▸ h₁

/-- **No step takes the page from an entry whose file is open**, and a file is open until it is released. -/
theorem GuestsOK.keeps {act : GuestAct} (h : GuestsOK nasid y) (hs : y.step nasid act = .ok y') :
    (∀ b, y.IsOpen b → act ≠ .driver b.release → y'.IsOpen b) ∧
      ∀ p : Pte, p.Backed y.sys.k → y'.IsOpen p.file → p.Backed y'.sys.k := by
  by_cases hact : ∃ a, act = .driver a
  · obtain ⟨a, rfl⟩ := hact
    have hx' := h.of_step hs
    obtain ⟨x', hstep, hy'⟩ := bind_eq_ok.1 hs
    obtain rfl := Except.ok.inj hy'
    have hfiles := Sys.step_keeps hstep
    have hev := Sys.step_evolves h.sys hstep
    refine ⟨fun b hb hne => ?_, fun p hp hopen => ?_⟩
    · cases b with
      | vm o => exact hfiles.vm o hb fun heq => hne (by rw [heq]; rfl)
      | vcpu c => exact hfiles.vcpu c hb fun heq => hne (by rw [heq]; rfl)
    · unfold Pte.Backed at hp ⊢
      cases hfile : p.file with
      | vm o =>
        rw [hfile] at hp hopen
        obtain ⟨v', hv'⟩ := hx'.sys.files o (Or.inl hopen)
        exact hev.maps h.sys.kernel hp hv'
      | vcpu c =>
        rw [hfile] at hp hopen
        obtain ⟨vc, hc, hpage⟩ := hp
        obtain ⟨vc', -, hc', -⟩ := hx'.sys.vcpuFile c hopen
        -- its record is the one that was there
        rcases hev.vcpu hc' with hold | hnew
        · obtain rfl := Option.some.inj (hc.symm.trans hold)
          exact ⟨vc, hc', hpage⟩
        · exact absurd (h.sys.kernel.vcpu_lt hc) (not_lt.2 hnew)
  · obtain ⟨y₁, hs₁, -, ht, hsys⟩ := h.quiet act fun a ha => hact ⟨a, ha⟩
    rw [hs₁] at hs
    obtain rfl := Except.ok.inj hs
    refine ⟨fun b hb _ => ?_, fun p hp _ => hp.tame ht⟩
    cases b with
    | vm o =>
      change o ∈ y₁.sys.vmFiles
      rw [hsys]
      exact hb
    | vcpu c =>
      change c ∈ y₁.sys.vcpuFiles
      rw [hsys]
      exact hb

/-! ## The invariant -/

/-- An address space: entries belong to their areas, the files of its areas are open, and its entries lead where they should. -/
structure SpaceOK (y : Guests) (s : AddressSpace) : Prop where
  fits : s.Fits Pte.file
  opened : ∀ a ∈ s.areas, y.IsOpen a.file
  backed : ∀ u p, s.entry u = some p → p.Backed y.sys.k

/-- **The invariant.** -/
structure UsersOK (nasid : BitVec 32) (x : Users) : Prop where
  guests : GuestsOK nasid x.guests
  spaces : ∀ s ∈ x.spaces, SpaceOK x.guests s

theorem SpaceOK.empty (y : Guests) : SpaceOK y .empty := by
  refine ⟨Paging.Space.Fits.empty _, fun a ha => ?_, fun u p hp => ?_⟩
  · cases ha
  · cases hp

/-- The file of an entry is open. -/
theorem SpaceOK.open_entry (h : SpaceOK y s) (hp : s.entry u = some p) : y.IsOpen p.file := by
  obtain ⟨a, ha, -, hfile⟩ := h.fits.inside u p hp
  exact hfile ▸ h.opened a ha

/-- The driver, the guests or the processors change. -/
theorem SpaceOK.change (h : SpaceOK y s) (hopen : ∀ a ∈ s.areas, y'.IsOpen a.file)
    (hback : ∀ p : Pte, p.Backed y.sys.k → y'.IsOpen p.file → p.Backed y'.sys.k) : SpaceOK y' s := by
  refine ⟨h.fits, hopen, fun u p hp => hback p (h.backed u p hp) ?_⟩
  obtain ⟨a, ha, -, hfile⟩ := h.fits.inside u p hp
  exact hfile ▸ hopen a ha

/-- An address space that shows no more than one that is there. -/
theorem SpaceOK.within (h : SpaceOK y s) {t : AddressSpace} (hfits : t.Fits Pte.file) (hin : t.Within s) : SpaceOK y t := by
  refine ⟨hfits, fun a ha => ?_, fun u p hp => ?_⟩
  · obtain ⟨b, hb, hfile⟩ := hin.files a ha
    exact hfile ▸ h.opened b hb
  · obtain ⟨w, hw⟩ := hin.entries u p hp
    exact h.backed w p hw

/-- A new area of an open file. -/
theorem SpaceOK.map (h : SpaceOK y s) {a : Paging.Area Backing} (ha : y.IsOpen a.file) : SpaceOK y (s.map a) := by
  have hrest : SpaceOK y (s.unmap a.first a.last) := h.within (h.fits.unmap ..) (Paging.Space.unmap_within ..)
  refine ⟨h.fits.map a, fun b hb => ?_, fun u p hp => hrest.backed u p hp⟩
  rcases List.mem_cons.1 hb with rfl | hb
  · exact ha
  · exact hrest.opened b hb

/-- A new entry. -/
theorem SpaceOK.install (h : SpaceOK y s) (hfits : (s.install u p).Fits Pte.file) (hp : p.Backed y.sys.k) :
    SpaceOK y (s.install u p) := by
  refine ⟨hfits, h.opened, fun w q hq => ?_⟩
  by_cases hwu : w = u
  · simp only [Paging.Space.install, hwu, Function.update_self, Option.some.injEq] at hq
    exact hq ▸ hp
  · simp only [Paging.Space.install, Function.update_of_ne hwu] at hq
    exact h.backed w q hq

theorem UsersOK.init (nasid : BitVec 32) (mem : Frame → Slot → Word) (pages : Finset Frame) :
    UsersOK nasid (Users.init mem pages) := by
  refine ⟨GuestsOK.init nasid mem pages, fun s hs => ?_⟩
  cases hs

/-- An address space takes the place of another one. -/
theorem UsersOK.setSpace (h : UsersOK nasid x) (hs : SpaceOK x.guests s) : UsersOK nasid (x.setSpace i s) := by
  refine ⟨h.guests, fun t ht => ?_⟩
  rcases List.mem_or_eq_of_mem_set ht with ht | rfl
  · exact h.spaces t ht
  · exact hs

/-- A new address space. -/
theorem UsersOK.add (h : UsersOK nasid x) (hs : SpaceOK x.guests s) : UsersOK nasid { x with spaces := x.spaces ++ [s] } := by
  refine ⟨h.guests, fun t ht => ?_⟩
  rcases List.mem_append.1 ht with ht | ht
  · exact h.spaces t ht
  · exact List.mem_singleton.1 ht ▸ hs

/-! ## Steps -/

/-- A file that is mapped is not released. -/
theorem Users.permits_release {act : GuestAct} (h : x.permits act = true) :
    ∀ s ∈ x.spaces, ∀ a ∈ s.areas, act ≠ .driver a.file.release := by
  rintro s hs a ha rfl
  have hunmapped : x.unmapped a.file = true := by
    cases hfile : a.file with
    | vm o =>
      rw [hfile] at h
      exact h
    | vcpu c =>
      rw [hfile] at h
      exact h
  have hne := List.all_eq_true.1 (List.all_eq_true.1 hunmapped s hs) a ha
  simp at hne

/-- **A step of the driver, of a guest or of a processor** that releases no mapped file. -/
theorem UsersOK.guest {act : GuestAct} (h : UsersOK nasid x) (hstep : x.guests.step nasid act = .ok y) (hy : GuestsOK nasid y)
    (hne : ∀ s ∈ x.spaces, ∀ a ∈ s.areas, act ≠ .driver a.file.release) : UsersOK nasid { x with guests := y } := by
  obtain ⟨hopen, hback⟩ := h.guests.keeps hstep
  exact ⟨hy, fun s hs => (h.spaces s hs).change (fun a ha => hopen _ ((h.spaces s hs).opened a ha) (hne s hs a ha)) hback⟩

/-- A store through an entry. -/
theorem UsersOK.store {slot : Slot} {w : Word} (h : UsersOK nasid x) (hs : s ∈ x.spaces) (hp : s.entry u = some p) :
    UsersOK nasid { x with guests := x.guests.setKernel (x.guests.sys.k.poke p.page slot w) } := by
  have hback := (h.spaces s hs).backed u p hp
  have ht : Tame x.guests.sys.k (x.guests.sys.k.poke p.page slot w) := by
    unfold Pte.Backed at hback
    cases hfile : p.file with
    | vm o =>
      rw [hfile] at hback
      exact h.guests.sys.kernel.poke_leaf hback
    | vcpu c =>
      rw [hfile] at hback
      obtain ⟨vc, hc, hpage⟩ := hback
      exact (h.guests.sys.kernel.poke_vcpu hc (Or.inl (Or.inr (Or.inr hpage)))).1
  exact ⟨h.guests.tame ht, fun s hs => (h.spaces s hs).change (h.spaces s hs).opened fun p hp _ => hp.tame ht⟩

/-- What it writes to the memory of a vm. -/
theorem UsersOK.store_flat {slot : Slot} {w : Word} (h : UsersOK nasid x) (hf : FlatOK base mem₀ x.guests m)
    (hi : x.spaces[i]? = some s) (hp : s.entry u = some p) :
    FlatOK base mem₀ (x.guests.setKernel (x.guests.sys.k.poke p.page slot w))
      ((x.written (.proc i (.store u slot w))).toList.foldl Flat.write m) := by
  have hs := List.mem_of_getElem? hi
  have hback := (h.spaces s hs).backed u p hp
  have hopen := (h.spaces s hs).open_entry hp
  obtain ⟨page, file, gpa⟩ := p
  simp only [Users.written, hi, Option.bind_some, hp]
  cases file with
  | vm o => exact FlatOK.poke h.guests hf hback
  | vcpu c =>
    obtain ⟨vc, hc, hpage⟩ := hback
    -- the state page is one of those that the world switch may write
    have hstep : x.guests.step nasid (.switch c page slot w) = .ok (x.guests.setKernel (x.guests.sys.k.poke page slot w)) := by
      simp only [Guests.step, Guests.running_iff.2 ⟨hopen, hc⟩, if_pos (Or.inl (Or.inr (Or.inr hpage)))]
    exact hf.step h.guests hstep

/-- **The fault handler**: the driver's step, and the page that it finds. -/
theorem GuestsOK.fault {v : Vm} {vmm : Vmm} (h : GuestsOK nasid y) (ho : o ∈ y.sys.vmFiles) (hv : y.sys.k.vms o = some v)
    (hm : y.sys.k.vmms v.vmm = some vmm) (address vmStart : Word) (ask : ℕ → Option Frame) :
    vmVmmFault vmm address vmStart ask y.sys.k.phys = .error .panic ∨
    ∃ r page phys, vmVmmFault vmm address vmStart ask y.sys.k.phys = .ok ((r, page), phys) ∧
      y.step nasid (.driver (.fault o address vmStart ask)) = .ok (y.setKernel { y.sys.k with phys := phys }) ∧
      ∀ p, page = some p → Kernel.Maps { y.sys.k with phys := phys } o (key (address - vmStart)) (p.setWidth 40) := by
  obtain ⟨vmm', hm', hok, -⟩ := h.sys.kernel.vmm hv
  obtain rfl := Option.some.inj (hm'.symm.trans hm)
  have hstep {r phys} (he : vmVmmFault vmm' address vmStart ask y.sys.k.phys = .ok (r, phys)) :
      y.step nasid (.driver (.fault o address vmStart ask)) = .ok (y.setKernel { y.sys.k with phys := phys }) := by
    simp only [Guests.step, Sys.step, if_pos ho, deref_some hv, deref_some hm, he, bind, Except.bind]
    rfl
  unfold vmVmmFault at hstep ⊢
  rcases vmmNptCreate_spec hok (address - vmStart) ask with ⟨f, phys, hc, -, hn, hnp⟩ | ⟨phys, hc, -⟩ | ⟨hc, -⟩
  · refine Or.inr ⟨0, some (f.setWidth 64), phys, by simp only [hc, bind, Except.bind], ?_, fun p hp => ?_⟩
    · exact hstep (r := (0, some (f.setWidth 64))) (by simp only [hc, bind, Except.bind])
    · obtain rfl := Option.some.inj hp
      have hne : key (address - vmStart) ≠ key mmioHawk := fun hk => hnp (by rw [(path_eq_iff _ _).2 hk])
      rw [show (f.setWidth 64).setWidth 40 = f by simp]
      exact (Kernel.maps_node (k := { y.sys.k with phys := phys }) hv hm hne).2 hn
  · refine Or.inr ⟨_, none, phys, by simp only [hc, bind, Except.bind]; rfl, ?_, fun p hp => (by cases hp)⟩
    exact hstep (by simp only [hc, bind, Except.bind]; rfl)
  · exact Or.inl (by simp only [hc, bind, Except.bind])

/-- A page fault of a process. -/
theorem UsersOK.fault (h : UsersOK nasid x) (hf : FlatOK base mem₀ x.guests m) (hs : s ∈ x.spaces) (i u : ℕ) (ask : ℕ → Option Frame) :
    x.fault i s u ask = .error .panic ∨
      ∃ x', x.fault i s u ask = .ok x' ∧ UsersOK nasid x' ∧ FlatOK base mem₀ x'.guests m := by
  have hspace := h.spaces s hs
  unfold Users.fault
  split
  swap
  · exact Or.inr ⟨x, rfl, h, hf⟩
  rename_i first last offset o harea
  have hmem := List.mem_of_find?_eq_some harea
  have hhas : Paging.Area.Has ⟨first, last, offset, Backing.vm o⟩ u := by simpa using List.find?_some harea
  have ho : o ∈ x.guests.sys.vmFiles := hspace.opened _ hmem
  obtain ⟨v, hv⟩ := h.guests.sys.files o (Or.inl ho)
  obtain ⟨vmm, hm, -, -⟩ := h.guests.sys.kernel.vmm hv
  simp only [deref_some hv, deref_some hm, bind, Except.bind]
  rcases h.guests.fault ho hv hm (pageAddr u) (pageAddr first) ask with he | ⟨r, page, phys, he, hstep, hpage⟩
  · rw [he]
    exact Or.inl rfl
  rw [he]
  right
  have hy := h.guests.of_step hstep
  have hflat := hf.step h.guests hstep
  have hx : UsersOK nasid { x with guests := x.guests.setKernel { x.guests.sys.k with phys := phys } } := by
    refine h.guest hstep hy fun t _ a _ heq => ?_
    cases hfile : a.file <;> (rw [hfile] at heq; cases heq)
  cases page with
  | none => exact ⟨_, rfl, hx, hflat⟩
  | some page =>
    -- the entry is one of the vm that is mapped there
    have hspace' := hx.spaces s hs
    exact ⟨_, rfl, hx.setSpace (hspace'.install (hspace'.fits.install hmem hhas rfl) (hpage page rfl)), hflat⟩

/-- `yakvm_vcpu_state_mmap` accepts the first page of the file. -/
theorem vcpuStateMmap_zero_iff (vmPgoff vmStart vmEnd : ℕ) (remapped : ℤ) :
    vcpuStateMmap vmPgoff vmStart vmEnd remapped = 0 ↔ vmPgoff = 0 ∧ vmEnd - vmStart = 1 ∧ 0 ≤ remapped := by
  have heinval : Errno.EINVAL.code ≠ 0 := by decide
  unfold vcpuStateMmap
  split_ifs with h1 h2 h3
  · exact ⟨fun h => absurd h heinval, fun h => absurd h.1 h1⟩
  · exact ⟨fun h => absurd h heinval, fun h => absurd h.2.1 h2⟩
  · exact ⟨fun h => by omega, fun h => by omega⟩
  · exact ⟨fun _ => ⟨by omega, by omega, by omega⟩, fun _ => rfl⟩

/-- `mmap` of a file of the driver. -/
theorem UsersOK.mmap (h : UsersOK nasid x) (hs : s ∈ x.spaces) (i : ℕ) (file : Backing) (start n vmPgoff : ℕ) (remapped : ℤ) :
    ∃ x', x.mmap i s file start n vmPgoff remapped = .ok x' ∧ UsersOK nasid x' ∧ x'.guests = x.guests := by
  have hspace := h.spaces s hs
  unfold Users.mmap
  cases file with
  | vm o =>
    simp only
    split_ifs with ho
    · exact ⟨_, rfl, h.setSpace (hspace.map ho), rfl⟩
    · exact ⟨x, rfl, h, rfl⟩
  | vcpu c =>
    simp only
    split_ifs with hc hzero
    · obtain ⟨vc, -, hvc, -⟩ := h.guests.sys.vcpuFile c hc
      simp only [deref_some hvc, bind, Except.bind]
      obtain ⟨-, hone, -⟩ := (vcpuStateMmap_zero_iff ..).1 hzero
      have hmap := hspace.map (a := ⟨start, start + n, vmPgoff, .vcpu c⟩) hc
      have hfirst : Paging.Area.Has ⟨start, start + n, vmPgoff, Backing.vcpu c⟩ start := ⟨le_rfl, by simp only; omega⟩
      exact ⟨_, rfl, h.setSpace (hmap.install (hmap.fits.install List.mem_cons_self hfirst rfl) ⟨vc, hvc, rfl⟩), rfl⟩
    · exact ⟨_, rfl, h.setSpace (hspace.within (hspace.fits.unmap ..) (Paging.Space.unmap_within ..)), rfl⟩
    · exact ⟨x, rfl, h, rfl⟩

/-- What a process does. -/
theorem UsersOK.act (h : UsersOK nasid x) (hf : FlatOK base mem₀ x.guests m) (hi : x.spaces[i]? = some s) (a : ProcAct) :
    x.act i s a = .error .panic ∨ ∃ x', x.act i s a = .ok x' ∧ UsersOK nasid x' ∧
      FlatOK base mem₀ x'.guests ((x.written (.proc i a)).toList.foldl Flat.write m) := by
  have hs := List.mem_of_getElem? hi
  have hspace := h.spaces s hs
  cases a with
  | fork keep =>
    exact Or.inr ⟨_, rfl, h.add (hspace.within (hspace.fits.restrict keep) (Paging.Space.restrict_within ..)), hf⟩
  | exit => exact Or.inr ⟨_, rfl, h.setSpace (.empty _), hf⟩
  | mmap file start n vmPgoff remapped =>
    simp only [Users.act]
    split_ifs
    · exact Or.inr ⟨x, rfl, h, hf⟩
    · obtain ⟨x', he, hx', hsame⟩ := h.mmap hs i file start n vmPgoff remapped
      exact Or.inr ⟨x', he, hx', hsame ▸ hf⟩
  | munmap start n => exact Or.inr ⟨_, rfl, h.setSpace (hspace.within (hspace.fits.unmap ..) (Paging.Space.unmap_within ..)), hf⟩
  | split a u => exact Or.inr ⟨_, rfl, h.setSpace (hspace.within (hspace.fits.split a u) (Paging.Space.split_within ..)), hf⟩
  | merge a b => exact Or.inr ⟨_, rfl, h.setSpace (hspace.within (hspace.fits.join a b) (Paging.Space.join_within ..)), hf⟩
  | mremap a dest => exact Or.inr ⟨_, rfl, h.setSpace (hspace.within (hspace.fits.move a dest) (Paging.Space.move_within ..)), hf⟩
  | zap keep => exact Or.inr ⟨_, rfl, h.setSpace (hspace.within (hspace.fits.restrict keep) (Paging.Space.restrict_within ..)), hf⟩
  | fault u ask =>
    simp only [Users.act]
    split_ifs
    · exact Or.inr ⟨x, rfl, h, hf⟩
    · exact h.fault hf hs i u ask
  | store u slot w =>
    right
    simp only [Users.act]
    cases hp : s.entry u with
    | none =>
      simp only [Users.written, hi, Option.bind_some, hp]
      exact ⟨x, rfl, h, hf⟩
    | some p => exact ⟨_, rfl, h.store hs hp, h.store_flat hf hi hp⟩

/-- **Every step keeps the invariant**, and writes to the memory of vms what the flat memory says. -/
theorem UsersOK.step (h : UsersOK nasid x) (hf : FlatOK base mem₀ x.guests m) (act : UserAct) :
    x.step nasid act = .error .panic ∨ ∃ x', x.step nasid act = .ok x' ∧ UsersOK nasid x' ∧
      FlatOK base mem₀ x'.guests ((x.written act).toList.foldl Flat.write m) := by
  cases act with
  | guest act =>
    simp only [Users.step, Users.written]
    split_ifs with hpermits
    · rcases h.guests.step act with he | ⟨y, hs, hy⟩
      · rw [he]
        exact Or.inl rfl
      · rw [hs]
        exact Or.inr ⟨_, rfl, h.guest hs hy (Users.permits_release hpermits), hf.step h.guests hs⟩
    · exact Or.inr ⟨x, rfl, h, hf⟩
  | exec => exact Or.inr ⟨_, rfl, h.add (.empty _), hf⟩
  | proc i a =>
    simp only [Users.step]
    cases hi : x.spaces[i]? with
    | none =>
      refine Or.inr ⟨x, rfl, h, ?_⟩
      cases a with
      | store u slot w =>
        simp only [Users.written, hi, Option.bind_none]
        exact hf
      | _ => exact hf
    | some s => exact h.act hf hi a

/-- **Every run.** -/
theorem UsersOK.run (acts : List UserAct) : ∀ x m, UsersOK nasid x → FlatOK base mem₀ x.guests m →
    x.run nasid acts = .error .panic ∨ ∃ x', x.run nasid acts = .ok x' ∧ UsersOK nasid x' ∧
      FlatOK base mem₀ x'.guests ((x.writes nasid acts).foldl Flat.write m) := by
  induction acts with
  | nil => exact fun x m h hf => Or.inr ⟨x, rfl, h, hf⟩
  | cons act acts ih =>
    intro x m h hf
    unfold Users.run
    rcases h.step hf act with he | ⟨x₁, hs, h₁, hf₁⟩
    · exact Or.inl (Runs.foldlM_cons_error he)
    · have hwrites : x.writes nasid (act :: acts) = (x.written act).toList ++ x₁.writes nasid acts := by
        simp only [Users.writes, hs]
      rw [Runs.foldlM_cons_ok hs, hwrites, List.foldl_append]
      exact ih x₁ _ h₁ hf₁

/-! ## The theorems -/

/-- What the page of an entry is used for. -/
def Backing.role : Backing → Role
  | .vm o => .leaf o
  | .vcpu c => .vcpu c .state

theorem Pte.Backed.role (h : p.Backed k) : k.HasRole p.file.role p.page := by
  unfold Pte.Backed at h
  unfold Backing.role
  cases hfile : p.file with
  | vm o =>
    rw [hfile] at h
    exact h.role p.gpa rfl
  | vcpu c =>
    rw [hfile] at h
    obtain ⟨vc, hc, hpage⟩ := h
    exact ⟨vc, hc, by simp [Vcpu.part, hpage]⟩

/-- Entries share a page exactly when they are of one guest page of one vm, or of one vcpu. -/
theorem Pte.Backed.page_eq_iff {q : Pte} (hk : KernelOK k) (hp : p.Backed k) (hq : q.Backed k) :
    p.page = q.page ↔ p.file = q.file ∧ ∀ o, p.file = .vm o → key p.gpa = key q.gpa := by
  constructor
  · intro heq
    have hrole := hk.role_unique hp.role (heq ▸ hq.role)
    have hfile : p.file = q.file := by
      unfold Backing.role at hrole
      cases hpf : p.file <;> cases hqf : q.file <;> (rw [hpf, hqf] at hrole; cases hrole) <;> rfl
    refine ⟨hfile, fun o ho => ?_⟩
    unfold Pte.Backed at hp hq
    rw [← hfile, ho] at hq
    rw [ho, heq] at hp
    exact (hk.maps_inj hp hq).2
  · rintro ⟨hfile, hkey⟩
    unfold Pte.Backed at hp hq
    rw [← hfile] at hq
    cases hpf : p.file with
    | vm o =>
      rw [hpf] at hp hq
      exact hp.unique (hkey o hpf ▸ hq)
    | vcpu c =>
      rw [hpf] at hp hq
      obtain ⟨vc, hc, hpage⟩ := hp
      obtain ⟨vc', hc', hpage'⟩ := hq
      obtain rfl := Option.some.inj (hc.symm.trans hc')
      exact hpage.trans hpage'.symm

/-- **Processes reach nothing but the pages that they map.** In every interleaving of the driver's requests with any number of
guests and of processes that map its files, fork, and unmap, split, join and move what they have mapped: an entry of a process for
a vm leads to a page that every walk of the vm's table finds for the guest address of the entry, an entry for a vcpu leads to the
vcpu's state page, and the file of either is open. The page is in use, it is none of the rest of the kernel, and it has no other
use: it is no table, no control block, no permission map and no page of another vm or vcpu. Entries of any processes share a page
exactly if they are of one guest page of one vm, or of one vcpu. -/
theorem mappings_confined (nasid : BitVec 32) (mem : Frame → Slot → Word) (pages : Finset Frame) (acts : List UserAct) :
    (Users.init mem pages).run nasid acts = .error .panic ∨ ∃ x, (Users.init mem pages).run nasid acts = .ok x ∧
      (∀ s ∈ x.spaces, ∀ u p, s.entry u = some p →
        x.guests.IsOpen p.file ∧ p.page ∈ x.guests.sys.k.phys.pages ∧ p.page ∉ pages ∧
        (∀ r, x.guests.sys.k.HasRole r p.page ↔ r = p.file.role) ∧
        (∀ o, p.file = .vm o → ∃ v m, x.guests.sys.k.vms o = some v ∧ x.guests.sys.k.vmms v.vmm = some m ∧
          ∀ acc gpa, key gpa = key p.gpa → hwTranslate x.guests.sys.k.phys.mem m.ncr3 acc gpa = .page p.page) ∧
        ∀ c, p.file = .vcpu c → ∃ vc, x.guests.sys.k.vcpus c = some vc ∧ p.page = vc.state) ∧
      ∀ s ∈ x.spaces, ∀ t ∈ x.spaces, ∀ u w p q, s.entry u = some p → t.entry w = some q →
        (p.page = q.page ↔ p.file = q.file ∧ ∀ o, p.file = .vm o → key p.gpa = key q.gpa) := by
  rcases UsersOK.run acts _ _ (UsersOK.init nasid mem pages) (FlatOK.init mem pages) with he | ⟨x, hx, h, hf⟩
  · exact Or.inl he
  have hk := h.guests.sys.kernel
  refine Or.inr ⟨x, hx, fun s hs u p hp => ?_, fun s hs t ht u w p q hp hq => ?_⟩
  · have hback := (h.spaces s hs).backed u p hp
    have hrole := hback.role
    refine ⟨(h.spaces s hs).open_entry hp, hk.live hrole.holds, fun hin => (hf.free hin).2 _ hrole.holds,
      fun r => ⟨fun hr => hk.role_unique hr hrole, fun hr => hr ▸ hrole⟩, fun o ho => ?_, fun c hc => ?_⟩
    · unfold Pte.Backed at hback
      rw [ho] at hback
      obtain ⟨v, m, hv, hm, -⟩ := id hback
      exact ⟨v, m, hv, hm, fun acc gpa hg => (hk.maps_iff hv hm acc gpa).2 (hg ▸ hback)⟩
    · unfold Pte.Backed at hback
      rw [hc] at hback
      exact hback
  · exact ((h.spaces s hs).backed u p hp).page_eq_iff hk ((h.spaces t ht).backed w q hq)

/-- **Mapped memory is the guest's memory.** In every such run, a process that reads through an entry for a vm finds the word that
was written last to that guest page, by a guest of this vm or by any process through any of its mappings, and zero where there
was none; it is the word that the vm's guests find there; and the pages of the rest of the kernel are as they were. -/
theorem mapping_memory (nasid : BitVec 32) (mem : Frame → Slot → Word) (pages : Finset Frame) (acts : List UserAct) :
    (Users.init mem pages).run nasid acts = .error .panic ∨ ∃ x, (Users.init mem pages).run nasid acts = .ok x ∧
      (∀ s ∈ x.spaces, ∀ u p o, s.entry u = some p → p.file = .vm o → ∀ i,
        x.guests.sys.k.phys.mem p.page i = lastWord ((Users.init mem pages).writes nasid acts) o (key p.gpa) i) ∧
      (∀ c vc, c ∈ x.guests.sys.vcpuFiles → x.guests.sys.k.vcpus c = some vc →
        (∀ e ∈ x.guests.tlb, e.asid = x.guests.sys.k.asidOf vc → ∀ i,
          x.guests.sys.k.phys.mem e.page i = lastWord ((Users.init mem pages).writes nasid acts) vc.vm e.key i) ∧
        ∀ acc gpa f, x.guests.sys.k.walk vc acc gpa = .page f → ∀ i,
          x.guests.sys.k.phys.mem f i = lastWord ((Users.init mem pages).writes nasid acts) vc.vm (key gpa) i) ∧
      ∀ f ∈ pages, x.guests.sys.k.phys.mem f = mem f := by
  rcases UsersOK.run acts _ _ (UsersOK.init nasid mem pages) (FlatOK.init mem pages) with he | ⟨x, hx, h, hf⟩
  · exact Or.inl he
  have hword : ∀ {vm g f i}, x.guests.sys.k.Maps vm g f →
      x.guests.sys.k.phys.mem f i = lastWord ((Users.init mem pages).writes nasid acts) vm g i := fun hmaps => by
    obtain ⟨v, -, hv, -⟩ := id hmaps
    rw [← flat_lastWord, hf.guest.mapped (_, _) _ (Or.inl ⟨v, hv⟩) hmaps]
  refine Or.inr ⟨x, hx, fun s hs u p o hp ho i => ?_, fun c vc hfile hc => ⟨fun e he htag i => ?_, fun acc gpa f hw i => ?_⟩, hf.kernel⟩
  · have hback := (h.spaces s hs).backed u p hp
    unfold Pte.Backed at hback
    rw [ho] at hback
    exact hword hback
  · exact hword (h.guests.coherent e he c hfile vc hc htag.symm)
  · obtain ⟨v, m, hv, hm, hcr3⟩ := h.guests.table (Guests.running_iff.2 ⟨hfile, hc⟩)
    unfold Kernel.walk at hw
    rw [hcr3] at hw
    exact hword ((h.guests.sys.kernel.maps_iff hv hm acc gpa).1 hw)

end Yakvm
