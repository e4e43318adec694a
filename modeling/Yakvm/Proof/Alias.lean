import Yakvm.Proof.Populate

/-!
# Which guest pages share a host page

`yakvm_vmm_npt_create` takes nine bits of the address for each level and ignores what is above
bit 47. In every run of requests on a vm, two requests get the same host page exactly when
their addresses agree in bits 12 to 47 (`TableRun.page_eq_iff`), so different guest pages
share a host page exactly when they differ only above bit 47 (`pages_differ_iff`).
-/

namespace Yakvm

/-- What happens to the table of a vm: requests for pages, updates of Accessed and Dirty bits, and
whatever leaves its tables as they are and its pages allocated. `given` lists the addresses of the
requests that were served so far, with the page each was given. -/
inductive TableRun (vmm : Vmm) (s₀ : Phys) : List (Word × Word) → Phys → Prop
  | start : TableRun vmm s₀ [] s₀
  | page {given : List (Word × Word)} {s s' : Phys} {page : Word} (r : Request) : TableRun vmm s₀ given s →
      vmmNptCreate vmm.ncr3 r.gpa false r.ask s = .ok (.ok page, s') → TableRun vmm s₀ ((r.gpa, page) :: given) s'
  | fail {given : List (Word × Word)} {s s' : Phys} {e : Errno} (r : Request) : TableRun vmm s₀ given s →
      vmmNptCreate vmm.ncr3 r.gpa false r.ask s = .ok (.error e, s') → TableRun vmm s₀ given s'
  | setAd {given : List (Word × Word)} {s : Phys} {t : Frame} {i : Slot} (a d : Bool) : TableRun vmm s₀ given s →
      s.mem t i ≠ 0 → TableRun vmm s₀ given (hwSetAd s t i a d)
  | other {given : List (Word × Word)} {s s' : Phys} : TableRun vmm s₀ given s →
      (∀ p n, p.length < 4 → nodeAt s (vmmPhysToVirt vmm.ncr3) p = some n → s'.mem n = s.mem n) →
      (∀ p n, p.length ≤ 4 → nodeAt s (vmmPhysToVirt vmm.ncr3) p = some n → n ∈ s'.pages) →
      TableRun vmm s₀ given s'

variable {vmm : Vmm} {s s₀ s₁ : Phys} {given : List (Word × Word)}

/-- The pages that were given are the leaves of their paths. -/
def Given (vmm : Vmm) (s : Phys) (given : List (Word × Word)) : Prop :=
  ∀ x ∈ given, ∃ f, x.2 = f.setWidth 64 ∧ nodeAt s (vmmPhysToVirt vmm.ncr3) (path x.1) = some f

theorem Given.mono {s' : Phys} (h : Given vmm s given)
    (hnode : ∀ q f, q.length ≤ 4 → nodeAt s (vmmPhysToVirt vmm.ncr3) q = some f →
      nodeAt s' (vmmPhysToVirt vmm.ncr3) q = some f) : Given vmm s' given := by
  intro x hx
  obtain ⟨f, hf, hn⟩ := h x hx
  exact ⟨f, hf, hnode _ f (path_length x.1).le hn⟩

/-- **In every run** the table stays well formed and keeps every page it gave. -/
theorem TableRun.keeps (h0 : NptOK s₀ (vmmPhysToVirt vmm.ncr3) (some (path mmioHawk)))
    (hr : TableRun vmm s₀ given s) :
    NptOK s (vmmPhysToVirt vmm.ncr3) (some (path mmioHawk)) ∧ Given vmm s given := by
  induction hr with
  | start => exact ⟨h0, by simp [Given]⟩
  | page r _ hc ih =>
    obtain ⟨hs, hgiven⟩ := ih
    obtain ⟨hg, -, f, hf, hn⟩ := vmmNptCreate_page hs hc
    refine ⟨hg.ok hs, ?_⟩
    intro x hx
    rcases List.mem_cons.1 hx with rfl | hx
    · exact ⟨f, hf, hn⟩
    · exact hgiven.mono (fun _ _ hq hn => hg.mono hs hq hn) x hx
  | fail r _ hc ih =>
    obtain ⟨hs, hgiven⟩ := ih
    have hg := vmmNptCreate_grow hs hc
    exact ⟨hg.ok hs, hgiven.mono fun _ _ hq hn => hg.mono hs hq hn⟩
  | setAd a d _ hne ih =>
    obtain ⟨hs, hgiven⟩ := ih
    obtain ⟨hs', heq⟩ := hwSetAd_ok hs hne a d
    exact ⟨hs', hgiven.mono fun q _ _ hn => (heq q).trans hn⟩
  | other _ hmem hpages ih =>
    obtain ⟨hs, hgiven⟩ := ih
    obtain ⟨hs', heq⟩ := hs.frame hmem hpages
    exact ⟨hs', hgiven.mono fun q _ hq hn => (heq q hq).trans hn⟩

/-- **Two requests of a run get the same page exactly when their keys agree.** -/
theorem TableRun.page_eq_iff (h0 : NptOK s₀ (vmmPhysToVirt vmm.ncr3) (some (path mmioHawk)))
    (hr : TableRun vmm s₀ given s) {x y : Word × Word} (hx : x ∈ given) (hy : y ∈ given) :
    x.2 = y.2 ↔ key x.1 = key y.1 := by
  obtain ⟨hs, hgiven⟩ := hr.keeps h0
  obtain ⟨f, hf, hn⟩ := hgiven x hx
  obtain ⟨g, hg, hm⟩ := hgiven y hy
  rw [← path_eq_iff, hf, hg]
  constructor
  · intro he
    obtain rfl := setWidth_frame_inj he
    exact hs.tree _ _ f (path_length x.1).le (path_length y.1).le hn hm
  · intro he
    rw [he, hm] at hn
    rw [Option.some.inj hn]

/-- **When different guest pages get different host pages.** On a new vm and any run of requests,
two requests for different guest pages that were both served were given different host
pages, if and only if their addresses do not agree in bits 12 to 47. -/
theorem pages_differ_iff {a : VmmAsk} {o : ℕ} (h : createVmm a s₀ = .ok (.ok (o, vmm), s₁))
    (hr : TableRun vmm s₁ given s) : ∀ x ∈ given, ∀ y ∈ given,
    ((x.1 >>> pageShift ≠ y.1 >>> pageShift → x.2 ≠ y.2) ↔
      (x.1 >>> pageShift ≠ y.1 >>> pageShift → key x.1 ≠ key y.1)) := by
  intro x hx y hy
  have heq := hr.page_eq_iff (createVmm_fresh h).ok hx hy
  simp only [ne_eq, heq]

/-- A new vm in which `0x1000` has been given page 6. -/
theorem page_six : ∃ s s', createVmm countingAsk emptyPhys = .ok (.ok (0, ⟨pageToPhys 1⟩), s) ∧
    vmmNptCreate (pageToPhys 1) 0x1000 false (fun _ => some 6) s = .ok (.ok 6, s') ∧
    ∃ s'', vmmNptCreate (pageToPhys 1) 0x2000 false (fun _ => some 7) s' = .ok (.ok 7, s'') := ⟨_, _, rfl, rfl, _, rfl⟩

/-- Two pages of a new vm. -/
theorem pages_differ_two : ∃ s page page' s', createVmm countingAsk emptyPhys = .ok (.ok (0, ⟨pageToPhys 1⟩), s) ∧
    TableRun ⟨pageToPhys 1⟩ s [(0x2000, page'), (0x1000, page)] s' ∧ page' ≠ page := by
  obtain ⟨s, s₁, hs, h₁, s₂, h₂⟩ := page_six
  have hr : TableRun ⟨pageToPhys 1⟩ s [(0x2000, 7), (0x1000, 6)] s₂ :=
    .page (.mmapPage 0x2000 fun _ => some 7) (.page (.mmapPage 0x1000 fun _ => some 6) .start h₁) h₂
  have hpage : (0x2000 : Word) >>> pageShift ≠ (0x1000 : Word) >>> pageShift := by decide
  have hkey : key 0x2000 ≠ key 0x1000 := by decide
  exact ⟨s, 6, 7, s₂, hs, hr, (pages_differ_iff hs hr (0x2000, 7) (by simp) (0x1000, 6) (by simp)).2 (fun _ => hkey) hpage⟩

/-- **Two guest pages can share a host page.** `YAKVM_MMAP_PAGE` of `0x1000000001000` succeeds and is
given the page that `0x1000` was given. -/
theorem pages_shared : ∃ s page s', createVmm countingAsk emptyPhys = .ok (.ok (0, ⟨pageToPhys 1⟩), s) ∧
    TableRun ⟨pageToPhys 1⟩ s [(0x1000000001000, page), (0x1000, page)] s' ∧
    (0x1000000001000 : Word) >>> pageShift ≠ (0x1000 : Word) >>> pageShift := by
  obtain ⟨s, s₁, hs, h₁, -⟩ := page_six
  have hok := (createVmm_fresh hs).ok
  obtain ⟨hg, -, f, hf, hn⟩ := vmmNptCreate_page hok h₁
  -- the second address takes the path of the first
  have hpath : path 0x1000000001000 = path 0x1000 := by decide
  have h₂ : vmmNptCreate (pageToPhys 1) 0x1000000001000 false (fun _ => none) s₁ = .ok (.ok 6, s₁) := by
    rw [vmmNptCreate_mapped (hg.ok hok) (by decide) (by rw [hpath]; exact hn), ← hf]
  have hr : TableRun ⟨pageToPhys 1⟩ s [(0x1000000001000, 6), (0x1000, 6)] s₁ :=
    .page (.mmapPage 0x1000000001000 fun _ => none) (.page (.mmapPage 0x1000 fun _ => some 6) .start h₁) h₂
  exact ⟨s, 6, s₁, hs, hr, by decide⟩

end Yakvm
