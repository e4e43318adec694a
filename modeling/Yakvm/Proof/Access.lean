import Yakvm.Proof.Emulator
import Yakvm.Spec.Access

/-!
# The emulator's indices into guest memory

A real-mode guest has addresses up to `0x10ffef`, and guest memory ends at `0x100000`. The driver
maps what is above on request, so that the guest can run there.

* `tracedExit_result`: the traces are those of the handlers.
* `mem_tracedMmio`, `tracedMmio_inside_iff`: the indices of the decoder.
* `exit_indices_iff`: the indices of an exit are all inside guest memory exactly when the
  instruction that is traced or decoded is.
-/

namespace Yakvm

variable {e e₁ : Emulator} {ask : ℕ → ℕ → Option Frame} {i j : ℕ} {b : BitVec 8}

/-! ## Traces -/

namespace Traced

variable {α β : Type}

theorem lift_result (x : Except Stop α) : (lift x).result = x := rfl

theorem pure_result (a : α) : (pure a : Traced α).result = .ok a := rfl

theorem bind_result (x : Traced α) (f : α → Traced β) :
    (x >>= f).result = x.result >>= fun a => (f a).result := by
  obtain ⟨is, st | a⟩ := x <;> rfl

theorem mem_lift (x : Except Stop α) : i ∈ (lift x).indices ↔ False := by simp [lift]

theorem mem_pure (a : α) : i ∈ (pure a : Traced α).indices ↔ False := mem_lift _

theorem mem_bind (x : Traced α) (f : α → Traced β) :
    i ∈ (x >>= f).indices ↔ i ∈ x.indices ∨ ∃ a, x.result = .ok a ∧ i ∈ (f a).indices := by
  obtain ⟨is, st | a⟩ := x
  · show i ∈ is ↔ _
    simp
  · show i ∈ is ++ _ ↔ _
    simp

end Traced

namespace Emulator

theorem mem_readAt (e : Emulator) (ask : ℕ → Option Frame) : i ∈ (e.readAt j ask).indices ↔ i = j := List.mem_singleton

theorem readAt_result (e : Emulator) (i : ℕ) (ask : ℕ → Option Frame) : (e.readAt i ask).result = e.read i ask := rfl

/-- **The traces are those of the handlers.** -/
theorem tracedMmio_result (e : Emulator) (ask : ℕ → ℕ → Option Frame) :
    (e.tracedMmio ask).result = e.vcpuHandleMmio ask := by
  unfold tracedMmio vcpuHandleMmio
  simp only [Traced.bind_result, Traced.lift_result, Traced.pure_result, apply_ite Traced.result, readAt_result]

theorem tracedExit_result (e : Emulator) (ask : ℕ → ℕ → Option Frame) :
    (e.tracedExit ask).result = e.cpuHandleExit ask := by
  unfold tracedExit
  by_cases hnpf : e.state.exitCode = svmExitNpf
  · have hexit : e.cpuHandleExit ask = e.cpuHandleNpf ask := if_pos hnpf
    rw [if_pos hnpf, hexit]
    cases hreq : npfRequest e.state.exitInfo2 with
    | none =>
      unfold cpuHandleNpf
      rw [hreq]
      exact tracedMmio_result e ask
    | some gpa => rfl
  · rw [if_neg hnpf]
    by_cases hdb : e.state.exitCode = svmExitExcpBase + BitVec.ofNat 32 dbVector
    · unfold cpuHandleExit
      rw [if_pos hdb, if_neg hnpf, if_pos hdb]
      simp only [Traced.bind_result, Traced.pure_result, readAt_result]
    · rw [if_neg hdb]
      rfl

/-- The indices of the decoder: the byte at `ip`; the next one, if that is the prefix; and the one
after, if the next is one of the two opcodes. -/
theorem mem_tracedMmio (e : Emulator) (ask : ℕ → ℕ → Option Frame) (i : ℕ) :
    let ip : BitVec 32 := (e.state.cs + e.state.rip).setWidth 32
    i ∈ (e.tracedMmio ask).indices ↔ i = ip.toNat ∨ ∃ e₁, e.read ip.toNat (ask 0) = .ok (0x67, e₁) ∧
      (i = (ip + 1).toNat ∨ ∃ c e₂, e₁.read (ip + 1).toNat (ask 1) = .ok (c, e₂) ∧ (c = 0x88 ∨ c = 0x8a) ∧
        i = (ip + 2).toNat) := by
  intro ip
  unfold tracedMmio
  rw [Traced.mem_bind, mem_readAt, readAt_result]
  refine or_congr_right ?_
  constructor
  · rintro ⟨⟨b, e₁⟩, hb, hi⟩
    rw [Traced.mem_bind, Traced.mem_lift, Traced.lift_result, false_or] at hi
    obtain ⟨_, hcheck, hi⟩ := hi
    have hprefix : b = 0x67 := by
      by_contra hne
      rw [check_neg hne] at hcheck
      cases hcheck
    subst hprefix
    rw [Traced.mem_bind, mem_readAt, readAt_result] at hi
    refine ⟨e₁, hb, hi.imp_right ?_⟩
    rintro ⟨⟨c, e₂⟩, hc, hi⟩
    refine ⟨c, e₂, hc, ?_⟩
    simp only at hi
    split_ifs at hi with h1 h2
    · simp only [Traced.mem_bind, mem_readAt, Traced.mem_lift, Traced.mem_pure, and_false, exists_false, or_false] at hi
      exact ⟨Or.inl h1, hi⟩
    · simp only [Traced.mem_bind, mem_readAt, Traced.mem_lift, Traced.mem_pure, and_false, exists_false, or_false] at hi
      exact ⟨Or.inr h2, hi⟩
    · exact ((Traced.mem_lift _).1 hi).elim
  · rintro ⟨e₁, hb, hi⟩
    refine ⟨(0x67, e₁), hb, ?_⟩
    rw [Traced.mem_bind, Traced.lift_result, check_pos rfl]
    refine Or.inr ⟨(), rfl, ?_⟩
    rw [Traced.mem_bind, mem_readAt, readAt_result]
    refine hi.imp_right ?_
    rintro ⟨c, e₂, hc, hop, hi⟩
    refine ⟨(c, e₂), hc, ?_⟩
    simp only
    rcases hop with rfl | rfl
    · rw [if_pos rfl, Traced.mem_bind, mem_readAt]
      exact Or.inl hi
    · rw [if_neg (by decide), if_pos rfl, Traced.mem_bind, mem_readAt]
      exact Or.inl hi

theorem AtDebug.not_npf (h : e.AtDebug) : e.state.exitCode ≠ svmExitNpf := by
  rw [h]
  decide

theorem tracedExit_device (h : e.AtDevice) : e.tracedExit ask = e.tracedMmio ask := by
  unfold tracedExit npfRequest
  rw [if_pos h.1, if_pos h.2]

theorem tracedExit_debug (h : e.AtDebug) : i ∈ (e.tracedExit ask).indices ↔ i = e.linear := by
  have hcode : e.state.exitCode = svmExitExcpBase + BitVec.ofNat 32 dbVector := h
  unfold tracedExit
  rw [if_neg h.not_npf, if_pos hcode, Traced.mem_bind, mem_readAt]
  simp only [Traced.mem_pure, and_false, exists_false, or_false]
  rfl

theorem tracedExit_other (hdev : ¬e.AtDevice) (hdb : ¬e.AtDebug) : i ∉ (e.tracedExit ask).indices := by
  have hcode : e.state.exitCode ≠ svmExitExcpBase + BitVec.ofNat 32 dbVector := hdb
  unfold tracedExit npfRequest
  by_cases hnpf : e.state.exitCode = svmExitNpf
  · rw [if_pos hnpf, if_neg fun h => hdev ⟨hnpf, h⟩]
    exact List.not_mem_nil
  · rw [if_neg hnpf, if_neg hcode]
    exact List.not_mem_nil

/-! ## Two bytes of one page -/

/-- An access installs its page, and any other access to the page finds it. -/
theorem page_next {f : Frame} {ask ask' : ℕ → Option Frame} (hij : i / 4096 = j / 4096) (hj : j < yakvmMemory)
    (he : e.page i ask = .ok (f, e₁)) : e.page j ask = .ok (f, e₁) ∧ e₁.page j ask' = .ok (f, e₁) := by
  have hnum : yakvmMemory = 1048576 := rfl
  have hi : i < yakvmMemory := by omega
  have hsame : e.page j ask = e.page i ask := by
    unfold page
    rw [if_pos hi, if_pos hj, hij]
  refine ⟨hsame.trans he, ?_⟩
  unfold page at he ⊢
  rw [if_pos hi] at he
  rw [if_pos hj, ← hij]
  cases hv : e.view (i / 4096) with
  | some g =>
    rw [hv] at he
    obtain ⟨rfl, rfl⟩ := Prod.mk.inj (Except.ok.inj he)
    rw [hv]
  | none =>
    rw [hv] at he
    simp only at he
    split at he
    · cases he
    · cases he
    · obtain ⟨rfl, rfl⟩ := Prod.mk.inj (Except.ok.inj he)
      simp only [Function.update_self]

theorem read_next {ask ask' : ℕ → Option Frame} (hij : i / 4096 = j / 4096) (hj : j < yakvmMemory)
    (he : e.read i ask = .ok (b, e₁)) : e₁.read j ask' = e.read j ask := by
  unfold read at he ⊢
  cases hp : e.page i ask with
  | error st =>
    rw [hp] at he
    cases he
  | ok r =>
    obtain ⟨f, e'⟩ := r
    rw [hp] at he
    obtain ⟨-, rfl⟩ := Prod.mk.inj (Except.ok.inj he)
    obtain ⟨h1, h2⟩ : e.page j ask = .ok (f, e') ∧ e'.page j ask' = .ok (f, e') := page_next hij hj hp
    rw [h1, h2]

theorem byte_eq_some {ask : ℕ → Option Frame} : e.byte i ask = some b ↔ ∃ e', e.read i ask = .ok (b, e') := by
  unfold byte
  rcases e.read i ask with st | ⟨c, e'⟩
  · simp [Except.toOption]
  · simp [Except.toOption]

/-! ## Guest memory -/

/-- At a real-mode address, the 32 bits of the decoder's index are enough. -/
theorem mem_tracedMmio_linear (hle : e.linear ≤ 0x10ffef) (ask : ℕ → ℕ → Option Frame) (i : ℕ) :
    i ∈ (e.tracedMmio ask).indices ↔ i = e.linear ∨ ∃ e₁, e.read e.linear (ask 0) = .ok (0x67, e₁) ∧
      (i = e.linear + 1 ∨ ∃ c e₂, e₁.read (e.linear + 1) (ask 1) = .ok (c, e₂) ∧ (c = 0x88 ∨ c = 0x8a) ∧
        i = e.linear + 2) := by
  have h0 : ((e.state.cs + e.state.rip).setWidth 32 : BitVec 32).toNat = e.linear := by
    rw [BitVec.toNat_setWidth]
    exact Nat.mod_eq_of_lt (by show e.linear < _; omega)
  have hsucc : ∀ k : BitVec 32, k.toNat ≤ 2 →
      ((e.state.cs + e.state.rip).setWidth 32 + k : BitVec 32).toNat = e.linear + k.toNat := by
    intro k hk
    rw [BitVec.toNat_add, h0, Nat.mod_eq_of_lt (by omega)]
  have h1 : ((e.state.cs + e.state.rip).setWidth 32 + 1 : BitVec 32).toNat = e.linear + 1 := hsucc 1 (by decide)
  have h2 : ((e.state.cs + e.state.rip).setWidth 32 + 2 : BitVec 32).toNat = e.linear + 2 := hsucc 2 (by decide)
  have hmem := mem_tracedMmio e ask i
  simp only [h0, h1, h2] at hmem
  exact hmem

/-- The decoder's indices are inside guest memory when the instruction starts there, and there is
no reason to go on behind the end. -/
theorem tracedMmio_inside_iff (hle : e.linear ≤ 0x10ffef) (ask : ℕ → ℕ → Option Frame) :
    (∀ i ∈ (e.tracedMmio ask).indices, i < yakvmMemory) ↔ e.linear < yakvmMemory ∧
      (e.linear + 1 = yakvmMemory → e.byte e.linear (ask 0) ≠ some 0x67) ∧
      (e.linear + 2 = yakvmMemory → e.byte e.linear (ask 0) = some 0x67 →
        e.byte (e.linear + 1) (ask 0) ≠ some 0x88 ∧ e.byte (e.linear + 1) (ask 0) ≠ some 0x8a) := by
  have hnum : yakvmMemory = 1048576 := rfl
  simp only [mem_tracedMmio_linear hle]
  -- where a third byte is behind the end, the second is in the page of the first
  have hnext : ∀ {b c e₁ e₂}, e.linear + 2 = yakvmMemory → e.read e.linear (ask 0) = .ok (b, e₁) →
      (e₁.read (e.linear + 1) (ask 1) = .ok (c, e₂) ↔ e.read (e.linear + 1) (ask 0) = .ok (c, e₂)) := by
    intro b c e₁ e₂ hend hread
    rw [read_next (by omega) (by omega) hread]
  constructor
  · intro h
    refine ⟨h _ (Or.inl rfl), ?_, ?_⟩
    · intro hend hbyte
      obtain ⟨e₁, he₁⟩ := byte_eq_some.1 hbyte
      have hlt := h _ (Or.inr ⟨e₁, he₁, Or.inl rfl⟩)
      omega
    · intro hend hbyte
      obtain ⟨e₁, he₁⟩ := byte_eq_some.1 hbyte
      have hno : ∀ c, (c = 0x88 ∨ c = 0x8a) → e.byte (e.linear + 1) (ask 0) ≠ some c := by
        intro c hc hop
        obtain ⟨e₂, he₂⟩ := byte_eq_some.1 hop
        have hlt := h _ (Or.inr ⟨e₁, he₁, Or.inr ⟨c, e₂, (hnext hend he₁).2 he₂, hc, rfl⟩⟩)
        omega
      exact ⟨hno _ (Or.inl rfl), hno _ (Or.inr rfl)⟩
  · rintro ⟨hlt, hover, hop⟩ i hi
    rcases hi with rfl | ⟨e₁, he₁, hi⟩
    · exact hlt
    · have hlt' : e.linear + 1 ≠ yakvmMemory := fun hend => hover hend (byte_eq_some.2 ⟨e₁, he₁⟩)
      rcases hi with rfl | ⟨c, e₂, he₂, hc, rfl⟩
      · omega
      · have hlt'' : e.linear + 2 ≠ yakvmMemory := by
          intro hend
          obtain ⟨h88, h8a⟩ := hop hend (byte_eq_some.2 ⟨e₁, he₁⟩)
          have hbyte : e.byte (e.linear + 1) (ask 0) = some c := byte_eq_some.2 ⟨e₂, (hnext hend he₁).1 he₂⟩
          rcases hc with rfl | rfl
          · exact h88 hbyte
          · exact h8a hbyte
        omega

/-- What the emulator reads of the guest's code is inside guest memory: the instruction starts
there, and the decoder has no reason to go on behind the end. -/
structure CodeInside (e : Emulator) (ask : ℕ → ℕ → Option Frame) : Prop where
  start : e.AtDevice ∨ e.AtDebug → e.linear < yakvmMemory
  override : e.AtDevice → e.linear + 1 = yakvmMemory → e.byte e.linear (ask 0) ≠ some 0x67
  opcode : e.AtDevice → e.linear + 2 = yakvmMemory → e.byte e.linear (ask 0) = some 0x67 →
    e.byte (e.linear + 1) (ask 0) ≠ some 0x88 ∧ e.byte (e.linear + 1) (ask 0) ≠ some 0x8a

end Emulator

/-- The addresses of a real-mode guest. -/
theorem Guest.RealMode.linear_le {g : Guest} (h : g.RealMode) : (g.csBase + g.rip).toNat ≤ 0x10ffef := by
  obtain ⟨selector, offset, hcs, hrip⟩ := h
  have hs := selector.isLt
  have ho := offset.isLt
  have hten : (16 : Word).toNat = 16 := rfl
  rw [hcs, hrip, BitVec.toNat_add, BitVec.toNat_mul, BitVec.toNat_setWidth, BitVec.toNat_setWidth, hten]
  omega

open Emulator in
/-- **The exits that stay inside guest memory.** For every exit of a guest in real mode, whatever
has been mapped: the indices into `vm->memory` are all below `YAKVM_MEMORY` exactly when the
instruction that is traced or decoded starts below it, and is not decoded past it. -/
theorem exit_indices_iff (e : Emulator) (x : Emulator.Exit) (ask : ℕ → ℕ → Option Frame) (hx : x.guest.RealMode) :
    (∀ i ∈ ((e.vcpuRun x).tracedExit ask).indices, i < yakvmMemory) ↔ (e.vcpuRun x).CodeInside ask := by
  have hle : (e.vcpuRun x).linear ≤ 0x10ffef := hx.linear_le
  generalize e.vcpuRun x = e at hle ⊢
  have hmmio := tracedMmio_inside_iff hle ask
  by_cases hdev : e.AtDevice
  · rw [tracedExit_device hdev, hmmio]
    constructor
    · rintro ⟨hstart, hover, hop⟩
      exact ⟨fun _ => hstart, fun _ => hover, fun _ => hop⟩
    · intro h
      exact ⟨h.start (Or.inl hdev), h.override hdev, h.opcode hdev⟩
  by_cases hdb : e.AtDebug
  · simp only [tracedExit_debug hdb, forall_eq]
    constructor
    · intro hstart
      exact ⟨fun _ => hstart, fun h => absurd h hdev, fun h => absurd h hdev⟩
    · intro h
      exact h.start (Or.inr hdb)
  · refine iff_of_true (fun i hi => absurd hi (tracedExit_other hdev hdb)) ?_
    exact ⟨fun h => absurd h (not_or.2 ⟨hdev, hdb⟩), fun h => absurd h hdev, fun h => absurd h hdev⟩

/-- The decoder at `0x1000`, on a new vm. -/
theorem exit_indices_code : ∃ s, createVmm countingAsk emptyPhys = .ok (.ok (0, ⟨pageToPhys 1⟩), s) ∧
    ∀ i ∈ (((Emulator.start s ⟨pageToPhys 1⟩ 0x7f0000000000 codeGuest).vcpuRun ⟨svmExitNpf, 0, 0, codeGuest⟩).tracedExit
      (fun _ _ => some 6)).indices, i < yakvmMemory := by
  obtain ⟨s, hs⟩ : ∃ s, createVmm countingAsk emptyPhys = .ok (.ok (0, ⟨pageToPhys 1⟩), s) := ⟨_, rfl⟩
  have hnum : yakvmMemory = 1048576 := rfl
  have hlin : ((Emulator.start s ⟨pageToPhys 1⟩ 0x7f0000000000 codeGuest).vcpuRun ⟨svmExitNpf, 0, 0, codeGuest⟩).linear =
      0x1000 := rfl
  have hreal : codeGuest.RealMode := ⟨0x100, 0, rfl, rfl⟩
  refine ⟨s, hs, (exit_indices_iff _ ⟨svmExitNpf, 0, 0, codeGuest⟩ _ hreal).2 ⟨fun _ => ?_, fun _ hend => ?_, fun _ hend => ?_⟩⟩
  · rw [hlin]
    omega
  · rw [hlin] at hend
    omega
  · rw [hlin] at hend
    omega

/-- A guest at `ffff:0010`, which is the first byte behind guest memory. -/
def highGuest : Guest := ⟨fun _ => 0, 0x10, 0xffff0, 0x2000⟩

/-- **An index behind the end.** A guest jumps to `ffff:0010`. The driver maps the page there, and
the trace of the instruction reads `vm->memory[0x100000]`. -/
theorem exit_indices_beyond : ∃ s e, createVmm countingAsk emptyPhys = .ok (.ok (0, ⟨pageToPhys 1⟩), s) ∧
    (Emulator.start s ⟨pageToPhys 1⟩ 0x7f0000000000 codeGuest).run
      [.exit .fetch ⟨svmExitNpf, 0, 0x100000, highGuest⟩ (fun _ _ => some 6)] = .ok e ∧
    e.mode = .RUNNING ∧ highGuest.RealMode ∧
    ¬∀ i ∈ ((e.vcpuRun ⟨svmExitExcpBase + BitVec.ofNat 32 dbVector, 0, 0, highGuest⟩).tracedExit
      (fun _ _ => some 7)).indices, i < yakvmMemory := by
  obtain ⟨s, e, hs, hr, hmode⟩ : ∃ s e, createVmm countingAsk emptyPhys = .ok (.ok (0, ⟨pageToPhys 1⟩), s) ∧
      (Emulator.start s ⟨pageToPhys 1⟩ 0x7f0000000000 codeGuest).run
        [.exit .fetch ⟨svmExitNpf, 0, 0x100000, highGuest⟩ (fun _ _ => some 6)] = .ok e ∧
      e.mode = .RUNNING := ⟨_, _, rfl, rfl, rfl⟩
  refine ⟨s, e, hs, hr, hmode, ⟨0xffff, 0x10, rfl, rfl⟩, ?_⟩
  intro h
  have hdb : (e.vcpuRun ⟨svmExitExcpBase + BitVec.ofNat 32 dbVector, 0, 0, highGuest⟩).AtDebug := rfl
  have hlin : (e.vcpuRun ⟨svmExitExcpBase + BitVec.ofNat 32 dbVector, 0, 0, highGuest⟩).linear = yakvmMemory := rfl
  exact absurd (h _ ((Emulator.tracedExit_debug hdb).2 hlin.symm)) (lt_irrefl _)

end Yakvm
