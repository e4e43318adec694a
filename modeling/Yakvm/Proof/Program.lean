import Yakvm.Proof.Access
import Yakvm.Proof.Devices
import Yakvm.Runs.Fold
import Yakvm.Spec.Program

/-!
# The guest program runs to its end

* `EmuOK.load`: loading an image leaves it in the page at `YAKVM_ENTRY`, installed in the emulator's view.
* `Emulator.Holds`: the page of the image, to the emulator and to the guest; no store to the stack, no page request and no mark
  of the hardware changes it.
* `SessionOK`: the invariant; how far `entry` has come says what the devices hold.
* `handshake`: `entry` makes its five exits once each, in order, and nothing but a page request without memory stops the
  emulator on the way.
-/

namespace Yakvm

variable {e e' : Emulator} {f : Frame} {i j : ℕ} {b : BitVec 8} {img : Image} {t t' : Session}

/-! ## Bytes of a page -/

/-- The byte of a page at an index, or at an address in the page. -/
def byteAt (page : Slot → Word) (i : ℕ) : BitVec 8 := (page (BitVec.ofNat 9 (i / 8))).extractLsb' (8 * (i % 8)) 8

theorem getLsbD_setByte (w : Word) (n : ℕ) (b : BitVec 8) {k : ℕ} (hk : k < 64) :
    (Emulator.setByte w n b).getLsbD k = if 8 * n ≤ k ∧ k < 8 * n + 8 then b.getLsbD (k - 8 * n) else w.getLsbD k := by
  have hff : ∀ l, (0xff : Word).getLsbD l = decide (l < 8) := by
    intro l
    rw [show (0xff : Word) = BitVec.ofNat 64 (2 ^ 8 - 1) from rfl, BitVec.getLsbD_ofNat, Nat.testBit_two_pow_sub_one]
    by_cases hl : l < 8
    · simp [hl]
      omega
    · simp [hl]
  unfold Emulator.setByte
  simp only [BitVec.getLsbD_or, BitVec.getLsbD_and, BitVec.getLsbD_not, BitVec.getLsbD_shiftLeft, BitVec.getLsbD_setWidth, hff, hk,
    decide_true, Bool.true_and]
  by_cases hlow : k < 8 * n
  · simp [hlow]
  by_cases hhigh : k < 8 * n + 8
  · have h1 : k - 8 * n < 8 := by omega
    have h2 : k - 8 * n < 64 := by omega
    have h3 : 8 * n ≤ k := by omega
    simp [hlow, hhigh, h1, h2, h3]
  · have h1 : ¬ k - 8 * n < 8 := by omega
    simp [hlow, hhigh, h1, BitVec.getLsbD_of_ge b (k - 8 * n) (by omega)]

/-- A byte of a word after a byte has been written. -/
theorem setByte_extract (w : Word) {n k : ℕ} (hk : k < 8) (b : BitVec 8) :
    (Emulator.setByte w n b).extractLsb' (8 * k) 8 = if k = n then b else w.extractLsb' (8 * k) 8 := by
  apply BitVec.eq_of_getLsbD_eq
  intro l hl
  rw [BitVec.getLsbD_extractLsb', getLsbD_setByte w n b (by omega)]
  by_cases hkn : k = n
  · subst hkn
    rw [if_pos rfl, if_pos (by omega), Nat.add_sub_cancel_left]
    simp [hl]
  · rw [if_neg hkn, if_neg (by omega), BitVec.getLsbD_extractLsb']

/-- A page after a byte has been written. -/
theorem byteAt_update (page : Slot → Word) (b : BitVec 8) (hij : i / 4096 = j / 4096) :
    byteAt (Function.update page (BitVec.ofNat 9 (i / 8)) (Emulator.setByte (page (BitVec.ofNat 9 (i / 8))) (i % 8) b)) j =
      if j = i then b else byteAt page j := by
  unfold byteAt
  by_cases hword : BitVec.ofNat 9 (j / 8) = BitVec.ofNat 9 (i / 8)
  · rw [hword, Function.update_self, setByte_extract _ (Nat.mod_lt j (by omega))]
    have hnat := congrArg BitVec.toNat hword
    rw [BitVec.toNat_ofNat, BitVec.toNat_ofNat] at hnat
    have hiff : j % 8 = i % 8 ↔ j = i := by omega
    simp only [hiff]
  · rw [Function.update_of_ne hword, if_neg]
    rintro rfl
    exact hword rfl

/-! ## Accesses to an installed page -/

theorem page_installed {ask : ℕ → Option Frame} (hv : e.view (i / 4096) = some f) (hi : i < yakvmMemory) :
    e.page i ask = .ok (f, e) := by
  unfold Emulator.page
  rw [if_pos hi, hv]

theorem read_installed {ask : ℕ → Option Frame} (hv : e.view (i / 4096) = some f) (hi : i < yakvmMemory) :
    e.read i ask = .ok (byteAt (e.phys.mem f) i, e) := by
  unfold Emulator.read
  rw [page_installed hv hi]
  rfl

/-! ## The page of the image -/

namespace Emulator

/-- The bytes are in memory from `YAKVM_ENTRY` on, in the page that the emulator has installed there. -/
structure Holds (e : Emulator) (bytes : List (BitVec 8)) (f : Frame) : Prop where
  view : e.view 1 = some f
  bytes : ∀ j, (hj : j < bytes.length) → byteAt (e.phys.mem f) (yakvmEntry + j) = bytes[j]

end Emulator

/-- A page of the image's bytes. -/
theorem entry_page (hj : j < 4096) : (yakvmEntry + j) / 4096 = 1 ∧ yakvmEntry + j < yakvmMemory := by
  unfold yakvmEntry yakvmMemory
  omega

theorem page_view {ask : ℕ → Option Frame} (he : e.page i ask = .ok (f, e')) : e'.view (i / 4096) = some f := by
  unfold Emulator.page at he
  split at he
  swap
  · cases he
  cases hv : e.view (i / 4096) with
  | some g =>
    rw [hv] at he
    obtain ⟨rfl, rfl⟩ := Prod.mk.inj (Except.ok.inj he)
    exact hv
  | none =>
    rw [hv] at he
    simp only at he
    split at he
    · cases he
    · cases he
    · obtain ⟨rfl, rfl⟩ := Prod.mk.inj (Except.ok.inj he)
      exact Function.update_self ..

/-! ## Loading -/

/-- One more byte of the image is stored. -/
theorem EmuOK.storeByte {ask : ℕ → Option Frame} {done : List (BitVec 8)} (h : EmuOK e) (hlen : done.length < 4096)
    (hdone : done = [] ∨ ∃ f, e.Holds done f) (he : e.storeByte (yakvmEntry + done.length) b ask = .ok e') :
    EmuOK e' ∧ e.SameCpu e' ∧ Ahead e e' ∧ ∃ f, e'.Holds (done ++ [b]) f := by
  obtain ⟨hpage, hmem⟩ := entry_page hlen
  unfold Emulator.storeByte at he
  rcases h.page_cases (yakvmEntry + done.length) ask with ⟨-, hp⟩ | ⟨-, hp⟩ | ⟨f, e₁, hp, h₁, ha₁, hf, -⟩
  · rw [hp] at he
    cases he
  · rw [hp] at he
    cases he
  rw [hp] at he
  obtain rfl := Except.ok.inj he
  have hview : e₁.view 1 = some f := hpage ▸ page_view hp
  obtain ⟨h₂, ha₂⟩ := h₁.store hf (BitVec.ofNat 9 ((yakvmEntry + done.length) / 8))
    (Emulator.setByte (e₁.phys.mem f (BitVec.ofNat 9 ((yakvmEntry + done.length) / 8))) ((yakvmEntry + done.length) % 8) b)
  refine ⟨h₂, (Emulator.page_same hp).trans (.of_eq rfl rfl rfl rfl), ha₁.trans ha₂, f, hview, fun j hj => ?_⟩
  rw [List.length_append, List.length_singleton] at hj
  simp only [Phys.store, Function.update_self]
  rw [byteAt_update _ _ (by rw [hpage, (entry_page (by omega)).1])]
  by_cases hjd : j = done.length
  · subst hjd
    simp
  · have hjlt : j < done.length := by omega
    rw [if_neg (by omega), List.getElem_append_left hjlt]
    -- the bytes before it are in the page already
    rcases hdone with rfl | ⟨g, hg⟩
    · simp at hjlt
    · rw [page_installed (hpage ▸ hg.view) hmem] at hp
      obtain ⟨rfl, rfl⟩ := Prod.mk.inj (Except.ok.inj hp)
      exact hg.bytes j hjlt

/-- **Loading an image.** -/
theorem EmuOK.load {ask : ℕ → ℕ → Option Frame} (bytes : List (BitVec 8)) : ∀ (done : List (BitVec 8)) (e : Emulator), EmuOK e →
    done.length + bytes.length ≤ 4096 → (done = [] ∨ ∃ f, e.Holds done f) →
    Emulator.load ask (yakvmEntry + done.length) bytes e = .ok e' →
    EmuOK e' ∧ e.SameCpu e' ∧ Ahead e e' ∧ (done ++ bytes = [] ∨ ∃ f, e'.Holds (done ++ bytes) f) := by
  induction bytes with
  | nil =>
    intro done e h _ hdone he
    obtain rfl := Except.ok.inj he
    rw [List.append_nil]
    exact ⟨h, .of_eq rfl rfl rfl rfl, Ahead.refl e, hdone⟩
  | cons b bytes ih =>
    intro done e h hlen hdone he
    rw [List.length_cons] at hlen
    unfold Emulator.load at he
    obtain ⟨e₁, hb, hrest⟩ := Emulator.bind_ok he
    obtain ⟨h₁, hsame₁, ha₁, hholds⟩ := h.storeByte (by omega) hdone hb
    have hnext : yakvmEntry + done.length + 1 = yakvmEntry + (done ++ [b]).length := by
      rw [List.length_append, List.length_singleton, Nat.add_assoc]
    rw [hnext] at hrest
    obtain ⟨h₂, hsame₂, ha₂, hend⟩ := ih (done ++ [b]) e₁ h₁ (by simp; omega) (Or.inr hholds) hrest
    rw [List.append_assoc, List.singleton_append] at hend
    exact ⟨h₂, hsame₁.trans hsame₂, ha₁.trans ha₂, hend⟩

/-! ## The page of the image stays as it is -/

namespace Emulator

/-- The page is in the table, and it is no table. -/
theorem Holds.leaf {bytes : List (BitVec 8)} (hh : e.Holds bytes f) (h : EmuOK e) :
    e.At (pageOff 1) f ∧ f ∈ e.phys.pages ∧ ∀ p, p.length < 4 → nodeAt e.phys e.root p ≠ some f := by
  have hat := (h.view 1 f hh.view).2
  refine ⟨hat, h.table.live _ _ (by rw [path_length]) hat, fun p hp hn => ?_⟩
  have heq := h.table.tree p (path (pageOff 1)) f hp.le (by rw [path_length]) hn hat
  rw [heq, path_length] at hp
  omega

/-- A change that keeps the page. -/
theorem Holds.congr {bytes : List (BitVec 8)} (hh : e.Holds bytes f) (hview : e'.view = e.view)
    (hmem : e'.phys.mem f = e.phys.mem f) : e'.Holds bytes f :=
  ⟨by rw [hview]; exact hh.view, fun j hj => by rw [hmem]; exact hh.bytes j hj⟩

/-- The hardware fetches the image. -/
theorem Holds.fetch {bytes : List (BitVec 8)} (hh : e.Holds bytes f) (h : EmuOK e) (hlen : bytes.length ≤ 4096) (hj : j < bytes.length) :
    hwTranslate e.phys.mem e.vmm.ncr3 .fetch (BitVec.ofNat 64 (yakvmEntry + j)) = .page f ∧
      byteAt (e.phys.mem f) (yakvmEntry + j) = bytes[j] := by
  have hkey : key (BitVec.ofNat 64 (yakvmEntry + j)) = key (pageOff 1) := by
    unfold key pageOff pageShift yakvmEntry
    apply BitVec.eq_of_toNat_eq
    rw [BitVec.toNat_setWidth, BitVec.toNat_setWidth, BitVec.toNat_ushiftRight, BitVec.toNat_ushiftRight, BitVec.toNat_ofNat,
      BitVec.toNat_ofNat, Nat.shiftRight_eq_div_pow, Nat.shiftRight_eq_div_pow]
    omega
  obtain ⟨hne, hat⟩ := h.view 1 f hh.view
  exact ⟨h.translate .fetch (by rw [hkey]; exact hne) (hat.congr hkey.symm), hh.bytes j hj⟩

end Emulator

/-! ## The exits of the program -/

/-- The bytes of an instruction are in the image. -/
theorem Image.byte (img : Image) (p : Point) {k : ℕ} (hk : k < p.code.length) :
    ∃ h : img.offset p + k < img.bytes.length, img.bytes[img.offset p + k] = p.code[k] := by
  have hp := img.placed p
  have hlen := hp.length_le
  rw [List.length_drop] at hlen
  refine ⟨by omega, ?_⟩
  rw [hp.getElem hk, List.getElem_drop]

theorem Image.length_le (img : Image) : img.bytes.length ≤ 4096 := by
  have h := img.fits
  unfold yakvmEntry yakvmStack at h
  omega

namespace Emulator

/-- The linear address of a byte of the image, in 64 bits and cut to 32. -/
theorem linear_ip {n : ℕ} (hcs : e.state.cs = BitVec.ofNat 64 yakvmEntry) (hrip : e.state.rip = BitVec.ofNat 64 n) {k : ℕ}
    (hk : n + k < 4096) :
    ((e.state.cs + e.state.rip).setWidth 32 + BitVec.ofNat 32 k).toNat = yakvmEntry + (n + k) ∧
      (e.state.cs + e.state.rip).toNat = yakvmEntry + n := by
  rw [hcs, hrip]
  unfold yakvmEntry
  rw [BitVec.toNat_add, BitVec.toNat_setWidth, BitVec.toNat_add, BitVec.toNat_ofNat, BitVec.toNat_ofNat, BitVec.toNat_ofNat]
  omega

/-- The emulator finds the instruction that the guest executes. -/
theorem Holds.decode {p : Point} (hh : e.Holds img.bytes f) (hcs : e.state.cs = BitVec.ofNat 64 yakvmEntry)
    (hrip : e.state.rip = BitVec.ofNat 64 (img.offset p)) {k : ℕ} (hk : k < p.code.length) (ask : ℕ → Option Frame) :
    e.read ((e.state.cs + e.state.rip).setWidth 32 + BitVec.ofNat 32 k).toNat ask = .ok (p.code[k], e) := by
  obtain ⟨hlt, hbyte⟩ := img.byte p hk
  have hin : img.offset p + k < 4096 := by
    have := img.length_le
    omega
  obtain ⟨hpage, hmem⟩ := entry_page hin
  rw [(linear_ip hcs hrip hin).1, read_installed (hpage ▸ hh.view) hmem, hh.bytes _ hlt, hbyte]

theorem handleExit_npf (hc : e.state.exitCode = svmExitNpf) (ask : ℕ → ℕ → Option Frame) :
    e.cpuHandleExit ask = e.cpuHandleNpf ask := if_pos hc

theorem handleExit_hlt (hc : e.state.exitCode = svmExitHlt) (ask : ℕ → ℕ → Option Frame) :
    e.cpuHandleExit ask = .ok { e with mode := .HLT } := by
  unfold cpuHandleExit
  rw [if_neg (by rw [hc]; decide), if_neg (by rw [hc]; decide), if_pos hc]

theorem handleExit_ioio (hc : e.state.exitCode = svmExitIoio) (ask : ℕ → ℕ → Option Frame) :
    e.cpuHandleExit ask = e.cpuHandleIoio := by
  unfold cpuHandleExit
  rw [if_neg (by rw [hc]; decide), if_neg (by rw [hc]; decide), if_neg (by rw [hc]; decide), if_pos hc]

theorem ioioType_iff (info : BitVec 32) : ioioType info = 1 ↔ info.getLsbD 0 = true := by
  unfold ioioType
  constructor
  · intro h
    have := congrArg (·.getLsbD 0) h
    simpa using this
  · intro h
    apply BitVec.eq_of_getLsbD_eq
    intro i hi
    by_cases h0 : i = 0
    · subst h0
      simpa using h
    · simp [h0]

theorem cpuHandleIoio_byte {input : Bool} (h : ByteAccess input Yakvm.pioHawk (e.state.exitInfo1.setWidth 32)) :
    e.cpuHandleIoio = .ok (if input = true then
      e.setRegs { e.guest.show with rax := e.devicePioGet.setWidth 64, rip := e.state.exitInfo2 }
      else (e.devicePioSet e.guest.al).setRegs { e.guest.show with rip := e.state.exitInfo2 }) := by
  obtain ⟨htype, -, -, hsize, hport⟩ := h
  have h8 : ioioIsSize8 (e.state.exitInfo1.setWidth 32) = true := (ioioIsSize8_iff _).2 ((ioioSize_iff _).1 hsize).1
  have hp : ioioPort (e.state.exitInfo1.setWidth 32) = Yakvm.pioHawk := (ioioPort_eq _).trans hport
  unfold cpuHandleIoio
  simp only [check_pos h8, check_pos hp, bind, Except.bind, ioioType_iff, htype]
  split_ifs <;> rfl

/-- `yakvm_vcpu_handle_mmio` at one of the two instructions. -/
theorem Holds.handleMmio {p : Point} (hh : e.Holds img.bytes f) (hp : p = .mmioOut ∨ p = .mmioIn)
    (hcs : e.state.cs = BitVec.ofNat 64 yakvmEntry) (hrip : e.state.rip = BitVec.ofNat 64 (img.offset p))
    (hrdx : e.guest.gpr .rdx = Yakvm.mmioHawk) (ask : ℕ → ℕ → Option Frame) :
    e.vcpuHandleMmio ask = .ok (if p = .mmioOut then (e.deviceMmioSet e.guest.al).setRegs { e.guest.show with rip := e.guest.rip + 3 }
      else e.setRegs { e.guest.show with rax := e.deviceMmioGet.setWidth 64, rip := e.guest.rip + 3 }) := by
  have hregs : e.guest.show.rdx = Yakvm.mmioHawk := hrdx
  have hread {k : ℕ} (hk : k < p.code.length) := hh.decode hcs hrip hk (ask k)
  have hfirst : e.read ((e.state.cs + e.state.rip).setWidth 32 : BitVec 32).toNat (ask 0) = .ok (0x67, e) := by
    have h := hread (k := 0) (by rcases hp with rfl | rfl <;> decide)
    rw [BitVec.add_zero] at h
    rcases hp with rfl | rfl <;> exact h
  unfold vcpuHandleMmio
  simp only [hfirst, bind, Except.bind]
  rcases hp with rfl | rfl
  · have hopcode : e.read ((e.state.cs + e.state.rip).setWidth 32 + 1 : BitVec 32).toNat (ask 1) = .ok (0x88, e) := hread (by decide)
    have hmodrm : e.read ((e.state.cs + e.state.rip).setWidth 32 + 2 : BitVec 32).toNat (ask 2) = .ok (0x02, e) := hread (by decide)
    simp only [hopcode, hmodrm, check_pos hregs, if_pos]
    rfl
  · have hopcode : e.read ((e.state.cs + e.state.rip).setWidth 32 + 1 : BitVec 32).toNat (ask 1) = .ok (0x8a, e) := hread (by decide)
    have hmodrm : e.read ((e.state.cs + e.state.rip).setWidth 32 + 2 : BitVec 32).toNat (ask 2) = .ok (0x02, e) := hread (by decide)
    simp only [hopcode, hmodrm, check_pos hregs, if_pos]
    rfl

/-- What handling the exit at an instruction of `entry` does: memory stays as it is, `hlt` ends the loop, a store reaches its
device, and a load gets what the device computes. -/
structure Passed (p : Point) (e e' : Emulator) : Prop where
  phys : e'.phys = e.phys
  view : e'.view = e.view
  mode : e'.mode = if p = .hlt then .HLT else e.mode
  pio : e'.pioHawk = if p = .pioOut then 1 else e.pioHawk
  mmio : e'.mmioHawk = if p = .mmioOut then 3 else e.mmioHawk
  pioIn : p = .pioIn → e'.guest.al = e.pioHawk + 1
  mmioIn : p = .mmioIn → e'.guest.al = e.mmioHawk - 1

theorem al_ofRegisters (regs : Registers) : (Guest.ofRegisters regs).al = regs.rax.setWidth 8 := rfl

/-- **An instruction of `entry`.** The emulator completes it. -/
theorem Holds.point {p : Point} {x : Exit} (hh : e.Holds img.bytes f) (hcs : x.guest.csBase = BitVec.ofNat 64 yakvmEntry)
    (hx : img.AtPoint p x) (ask : ℕ → ℕ → Option Frame) :
    ∃ e', (e.vcpuRun x).cpuHandleExit ask = .ok e' ∧ e.Passed p e' := by
  have hh₁ : (e.vcpuRun x).Holds img.bytes f := hh.congr rfl rfl
  obtain ⟨hrip, hx⟩ := hx
  cases p with
  | pioOut =>
    obtain ⟨hcode, hinfo, -, hal⟩ := hx
    refine ⟨_, (handleExit_ioio hcode ask).trans (cpuHandleIoio_byte (e := e.vcpuRun x) hinfo), ?_⟩
    exact ⟨rfl, rfl, rfl, hal, rfl, by simp, by simp⟩
  | pioIn =>
    obtain ⟨hcode, hinfo, -⟩ := hx
    refine ⟨_, (handleExit_ioio hcode ask).trans (cpuHandleIoio_byte (e := e.vcpuRun x) hinfo), ?_⟩
    exact ⟨rfl, rfl, rfl, rfl, rfl, fun _ => by simp [setRegs, al_ofRegisters, devicePioGet, vcpuRun], by simp⟩
  | mmioOut =>
    obtain ⟨hcode, haddr, hrdx, hal⟩ := hx
    have hnpf : (e.vcpuRun x).cpuHandleNpf ask = (e.vcpuRun x).vcpuHandleMmio ask := by
      rw [cpuHandleNpf, show npfRequest (e.vcpuRun x).state.exitInfo2 = none from if_pos haddr]
    refine ⟨_, (handleExit_npf hcode ask).trans (hnpf.trans (hh₁.handleMmio (Or.inl rfl) hcs hrip hrdx ask)), ?_⟩
    exact ⟨rfl, rfl, rfl, rfl, hal, by simp, by simp⟩
  | mmioIn =>
    obtain ⟨hcode, haddr, hrdx⟩ := hx
    have hnpf : (e.vcpuRun x).cpuHandleNpf ask = (e.vcpuRun x).vcpuHandleMmio ask := by
      rw [cpuHandleNpf, show npfRequest (e.vcpuRun x).state.exitInfo2 = none from if_pos haddr]
    refine ⟨_, (handleExit_npf hcode ask).trans (hnpf.trans (hh₁.handleMmio (Or.inr rfl) hcs hrip hrdx ask)), ?_⟩
    exact ⟨rfl, rfl, rfl, rfl, rfl, by simp, fun _ => by simp [setRegs, al_ofRegisters, deviceMmioGet, vcpuRun]⟩
  | hlt => exact ⟨_, handleExit_hlt hx ask, rfl, rfl, rfl, rfl, rfl, by simp, by simp⟩

/-- **The trap after an instruction.** The emulator reads the next one. -/
theorem Holds.trap {x : Exit} (hh : e.Holds img.bytes f) (hcs : x.guest.csBase = BitVec.ofNat 64 yakvmEntry) (hx : img.Trap x)
    (ask : ℕ → ℕ → Option Frame) : (e.vcpuRun x).cpuHandleExit ask = .ok (e.vcpuRun x) := by
  obtain ⟨hcode, hlt⟩ := hx
  have hin : x.guest.rip.toNat < 4096 := by
    have := img.length_le
    omega
  have haddr := (linear_ip (e := e.vcpuRun x) (n := x.guest.rip.toNat) hcs (by simp [vcpuRun]) (k := 0) hin).2
  obtain ⟨hpage, hmem⟩ := entry_page hin
  have hview : (e.vcpuRun x).view ((yakvmEntry + x.guest.rip.toNat) / 4096) = some f := hpage ▸ hh.view
  have hc : (e.vcpuRun x).state.exitCode = svmExitExcpBase + BitVec.ofNat 32 dbVector := hcode
  unfold cpuHandleExit
  rw [if_neg (by rw [hc]; decide), if_pos hc, haddr, read_installed hview hmem]
  rfl

end Emulator

/-- **A nested page fault on the code or on the stack.** The emulator serves it, or has no memory. -/
theorem EmuOK.pageFault {acc : Access} {x : Emulator.Exit} {bytes : List (BitVec 8)} (h : EmuOK e) (hb : Backed e)
    (hh : e.Holds bytes f) (hx : e.possible acc x) (hpf : Image.PageFault x) (ask : ℕ → ℕ → Option Frame) :
    (¬ Supplied e.phys e.root x.info2 (ask 0) ∧ (e.vcpuRun x).cpuHandleExit ask = .error .abort) ∨
    Supplied e.phys e.root x.info2 (ask 0) ∧ ∃ e', (e.vcpuRun x).cpuHandleExit ask = .ok e' ∧ e'.Holds bytes f ∧
      e'.mode = e.mode ∧ e'.pioHawk = e.pioHawk ∧ e'.mmioHawk = e.mmioHawk := by
  obtain ⟨hcode, hpage⟩ := hpf
  have hk : key x.info2 ≠ key mmioHawk := by
    rcases hpage with hp | hp
    · rw [hp]; decide
    · rw [hp]; decide
  have h₁ := h.vcpuRun hb hx
  have hreq : Emulator.npfRequest (e.vcpuRun x).state.exitInfo2 = some (yakvmPage x.info2) := if_neg fun ha => hk (congrArg key ha)
  rw [Emulator.handleExit_npf hcode ask, Emulator.cpuHandleNpf, hreq]
  rcases mmapPage_cases h₁ (yakvmPage x.info2) (ask 0) with ⟨hk', -⟩ | ⟨-, hno, s, hc⟩ | ⟨-, hsup, g, s, hc, hg, -⟩
  · rw [key_yakvmPage] at hk'
    exact absurd hk' hk
  · refine Or.inl ⟨fun hs => hno ((supplied_yakvmPage _ _ _ _).2 hs), ?_⟩
    simp only [hc, bind, Except.bind, check_neg (show Errno.ENOMEM.code ≠ 0 by decide)]
  · refine Or.inr ⟨(supplied_yakvmPage _ _ _ _).1 hsup,
      { e.vcpuRun x with phys := s, log := .served (yakvmPage x.info2) :: (e.vcpuRun x).log }, ?_, ?_, rfl, rfl, rfl⟩
    · simp only [hc, bind, Except.bind]
      rfl
    have hh₁ : (e.vcpuRun x).Holds bytes f := hh.congr rfl rfl
    obtain ⟨-, hlive, hno⟩ := hh₁.leaf h₁
    exact hh₁.congr rfl (hg.mem_other h₁.table hlive hno)

/-- Only the pages of the table are translated to. -/
theorem EmuOK.at_of_translate {acc : Access} {gpa : Word} (h : EmuOK e) (ht : hwTranslate e.phys.mem e.vmm.ncr3 acc gpa = .page f) :
    e.At gpa f := by
  rw [hwTranslate_spec h.table acc gpa] at ht
  split_ifs at ht
  unfold Emulator.At Emulator.root
  cases hn : nodeAt e.phys (vmmPhysToVirt e.vmm.ncr3) (path gpa) with
  | none => rw [hn] at ht; cases ht
  | some g =>
    rw [hn] at ht
    cases ht
    rfl

/-- An instruction that exits is no fault on the code or on the stack. -/
theorem Image.AtPoint.not_pageFault {p : Point} {x : Emulator.Exit} (hx : img.AtPoint p x) : ¬ Image.PageFault x := by
  rintro ⟨hcode, hpage⟩
  obtain ⟨-, hx⟩ := hx
  have hdevice : ¬ (key mmioHawk = key (BitVec.ofNat 64 yakvmEntry) ∨ key mmioHawk = key (BitVec.ofNat 64 yakvmStack)) := by decide
  cases p with
  | pioOut | pioIn => exact absurd (hx.1.symm.trans hcode) (by decide)
  | mmioOut | mmioIn => exact hdevice (hx.2.1 ▸ hpage)
  | hlt => exact absurd (hx.symm.trans hcode) (by decide)

/-- A store of the guest to its stack. -/
theorem EmuOK.stackStore {gpa : Word} {slot : Slot} {w : Word} {bytes : List (BitVec 8)} (h : EmuOK e) (hh : e.Holds bytes f)
    (hk : key gpa = key (BitVec.ofNat 64 yakvmStack)) (he : Emulator.step (.guestStore gpa slot w) e = .ok e') :
    e'.Holds bytes f ∧ e'.mode = e.mode ∧ e'.pioHawk = e.pioHawk ∧ e'.mmioHawk = e.mmioHawk := by
  simp only [Emulator.step] at he
  split at he
  swap
  · obtain rfl := Except.ok.inj he
    exact ⟨hh, rfl, rfl, rfl⟩
  rename_i g hg
  obtain rfl := Except.ok.inj he
  have hne : key gpa ≠ key mmioHawk := by rw [hk]; decide
  refine ⟨hh.congr rfl (Phys.store_other _ _ _ fun hfg => ?_), rfl, rfl, rfl⟩
  subst hfg
  have hleaf : e.At gpa f := h.at_of_translate hg
  -- a page of the table is behind one guest page only
  have hpath := h.table.tree _ _ f (path_length _).le (path_length _).le hleaf (hh.leaf h).1
  have hkeys : key gpa = key (pageOff 1) := (path_eq_iff _ _).1 hpath
  rw [hk] at hkeys
  exact absurd hkeys (by decide)

/-! ## Runs -/

/-- What has made the guest exit before it gets to an instruction. -/
def Point.before : Point → List Point
  | .pioOut => []
  | .pioIn => [.pioOut]
  | .mmioOut => [.pioOut, .pioIn]
  | .mmioIn => [.pioOut, .pioIn, .mmioOut]
  | .hlt => [.pioOut, .pioIn, .mmioOut, .mmioIn]

/-- The instruction that follows in the source. -/
def Point.after : Point → Point
  | .pioOut => .pioIn
  | .pioIn => .mmioOut
  | .mmioOut => .mmioIn
  | .mmioIn => .hlt
  | .hlt => .hlt

/-- **The invariant.** -/
structure SessionOK (img : Image) (t : Session) : Prop where
  ok : EmuOK t.emu
  backed : Backed t.emu
  image : ∃ f, t.emu.Holds img.bytes f
  trace : t.trace = if t.emu.mode = .HLT then Point.all else t.point.before
  halted : t.emu.mode = .HLT → t.point = .hlt
  pio : t.emu.pioHawk = if t.point = .pioOut then 0 else 1
  mmio : t.emu.mmioHawk = if t.point = .mmioIn ∨ t.point = .hlt then 3 else 0

/-- A page request of the program that the driver has no memory for. -/
def Session.Starved (img : Image) (t : Session) : Emulator.Event → Prop
  | .exit acc x ask => t.emu.mode = .RUNNING ∧ t.emu.possible acc x ∧ img.Makes t.point x ∧ Image.PageFault x ∧
      ¬ Supplied t.emu.phys t.emu.root x.info2 (ask 0)
  | _ => False

/-- A change of memory and of the registers. -/
theorem SessionOK.change (h : SessionOK img t) (hok : EmuOK e) (hb : Backed e) (hh : ∃ f, e.Holds img.bytes f)
    (hmode : e.mode = t.emu.mode) (hpio : e.pioHawk = t.emu.pioHawk) (hmmio : e.mmioHawk = t.emu.mmioHawk) :
    SessionOK img { t with emu := e } where
  ok := hok
  backed := hb
  image := hh
  trace := by rw [hmode]; exact h.trace
  halted := by rw [hmode]; exact h.halted
  pio := hpio.trans h.pio
  mmio := hmmio.trans h.mmio

/-- The devices answer 2, so neither load is repeated. -/
theorem SessionOK.next_eq (h : SessionOK img t) (hp : t.emu.Passed t.point e) : t.point.next e.guest.al = t.point.after := by
  have hpio := h.pio
  have hmmio := h.mmio
  have hin := hp.pioIn
  have hlast := hp.mmioIn
  cases hpoint : t.point with
  | pioIn =>
    rw [hpoint, if_neg (by simp)] at hpio
    exact if_pos ((hin hpoint).trans (by rw [hpio]; rfl))
  | mmioIn =>
    rw [hpoint, if_pos (Or.inl rfl)] at hmmio
    exact if_pos ((hlast hpoint).trans (by rw [hmmio]; rfl))
  | pioOut | mmioOut | hlt => rfl

/-- **An instruction of `entry` is passed.** -/
theorem SessionOK.passed (h : SessionOK img t) (hmode : t.emu.mode = .RUNNING) (hok : EmuOK e) (hb : Backed e)
    (hp : t.emu.Passed t.point e) : SessionOK img ⟨t.point.next e.guest.al, e, t.trace ++ [t.point]⟩ := by
  obtain ⟨f, hf⟩ := h.image
  have hend : e.mode = if t.point = .hlt then .HLT else .RUNNING := hmode ▸ hp.mode
  rw [h.next_eq hp]
  refine ⟨hok, hb, ⟨f, hf.congr hp.view (by rw [hp.phys])⟩, ?_, ?_, ?_, ?_⟩
  · have hbefore : t.trace = t.point.before := by rw [h.trace, hmode]; rfl
    simp only [hbefore, hend]
    cases t.point <;> rfl
  · simp only [hend]
    cases t.point <;> simp [Point.after]
  · have hpio := h.pio
    simp only [hp.pio]
    rw [hpio]
    cases t.point <;> rfl
  · have hmmio := h.mmio
    simp only [hp.mmio]
    rw [hmmio]
    cases t.point <;> rfl

/-- **An exit of the program.** It completes, unless it is a page request without memory. -/
theorem SessionOK.exit {acc : Access} {x : Emulator.Exit} (h : SessionOK img t) (hmode : t.emu.mode = .RUNNING)
    (hx : t.emu.possible acc x) (hm : img.Makes t.point x) (ask : ℕ → ℕ → Option Frame) :
    ((Image.PageFault x ∧ ¬ Supplied t.emu.phys t.emu.root x.info2 (ask 0)) ∧
      Session.step img (.exit acc x ask) t = .error .abort) ∨
    ¬ (Image.PageFault x ∧ ¬ Supplied t.emu.phys t.emu.root x.info2 (ask 0)) ∧
      ∃ t', Session.step img (.exit acc x ask) t = .ok t' ∧ SessionOK img t' ∧
        (img.AtPoint t.point x → t'.trace = t.trace ++ [t.point]) := by
  obtain ⟨f, hf⟩ := h.image
  have hstep : Emulator.step (.exit acc x ask) t.emu = (t.emu.vcpuRun x).cpuHandleExit ask := if_pos ⟨hmode, hx⟩
  have hkeep {e'} (he : (t.emu.vcpuRun x).cpuHandleExit ask = .ok e') : EmuOK e' ∧ Backed e' := by
    obtain ⟨hok, hb, -⟩ := h.ok.step h.backed (.exit acc x ask) (hstep.trans he)
    exact ⟨hok, hb⟩
  simp only [Session.step, if_pos (And.intro hmode (And.intro hx hm)), hstep]
  obtain ⟨hcs, hm⟩ := hm
  by_cases hat : img.AtPoint t.point x
  · obtain ⟨e', he, hp⟩ := hf.point hcs hat ask
    refine Or.inr ⟨fun hpf => hat.not_pageFault hpf.1, ⟨t.point.next e'.guest.al, e', t.trace ++ [t.point]⟩, ?_, ?_, fun _ => rfl⟩
    · simp only [he, bind, Except.bind, if_pos hat]
    exact h.passed hmode (hkeep he).1 (hkeep he).2 hp
  rcases hm with hat' | htrap | hpf
  · exact absurd hat' hat
  · have he := hf.trap hcs htrap ask
    have hnpf : ¬ Image.PageFault x := fun hpf => absurd (htrap.1.symm.trans hpf.1) (by decide)
    refine Or.inr ⟨fun hpf => hnpf hpf.1, { t with emu := t.emu.vcpuRun x }, ?_, ?_, fun hat' => absurd hat' hat⟩
    · simp only [he, bind, Except.bind, if_neg hat]
    exact h.change (hkeep he).1 (hkeep he).2 ⟨f, hf.congr rfl rfl⟩ rfl rfl rfl
  · rcases h.ok.pageFault h.backed hf hx hpf ask with ⟨hno, he⟩ | ⟨hsup, e', he, hf', hmode', hpio, hmmio⟩
    · exact Or.inl ⟨⟨hpf, hno⟩, by simp only [he, bind, Except.bind]⟩
    · refine Or.inr ⟨fun hpf => hpf.2 hsup, { t with emu := e' }, ?_, ?_, fun hat' => absurd hat' hat⟩
      · simp only [he, bind, Except.bind, if_neg hat]
      exact h.change (hkeep he).1 (hkeep he).2 ⟨f, hf'⟩ hmode' hpio hmmio

/-- **A step that goes through.** -/
theorem SessionOK.step {ev : Emulator.Event} (h : SessionOK img t) (hs : Session.step img ev t = .ok t') : SessionOK img t' := by
  obtain ⟨f, hf⟩ := h.image
  cases ev with
  | exit acc x ask =>
    by_cases hrun : t.emu.mode = .RUNNING ∧ t.emu.possible acc x ∧ img.Makes t.point x
    · obtain ⟨hmode, hx, hm⟩ := hrun
      rcases h.exit hmode hx hm ask with ⟨-, he⟩ | ⟨-, t₁, he, h₁, -⟩
      · rw [he] at hs
        cases hs
      · rw [he] at hs
        obtain rfl := Except.ok.inj hs
        exact h₁
    · simp only [Session.step, if_neg hrun] at hs
      obtain rfl := Except.ok.inj hs
      exact h
  | guestStore gpa slot w =>
    simp only [Session.step] at hs
    split_ifs at hs with hk
    · obtain ⟨e', he, ht⟩ := Emulator.bind_ok hs
      obtain rfl := Except.ok.inj ht
      obtain ⟨hok, hb, -⟩ := h.ok.step h.backed _ he
      obtain ⟨hf', hmode, hpio, hmmio⟩ := h.ok.stackStore hf hk he
      exact h.change hok hb ⟨f, hf'⟩ hmode hpio hmmio
    · obtain rfl := Except.ok.inj hs
      exact h
  | mark gpa n accessed dirty =>
    simp only [Session.step] at hs
    obtain ⟨e', he, ht⟩ := Emulator.bind_ok hs
    obtain rfl := Except.ok.inj ht
    obtain ⟨hok, hb, -⟩ := h.ok.step h.backed _ he
    obtain rfl := Except.ok.inj he
    obtain ⟨-, -, hno⟩ := hf.leaf h.ok
    exact h.change hok hb ⟨f, hf.congr rfl (hwMark_mem h.ok.table gpa n accessed dirty hno)⟩ rfl rfl rfl
  | touch | store =>
    obtain rfl := Except.ok.inj hs
    exact h

/-- **A step that does not.** -/
theorem SessionOK.step_error_iff {ev : Emulator.Event} {st : Stop} (h : SessionOK img t) :
    Session.step img ev t = .error st ↔ st = .abort ∧ t.Starved img ev := by
  obtain ⟨f, hf⟩ := h.image
  cases ev with
  | exit acc x ask =>
    simp only [Session.Starved]
    by_cases hrun : t.emu.mode = .RUNNING ∧ t.emu.possible acc x ∧ img.Makes t.point x
    · obtain ⟨hmode, hx, hm⟩ := hrun
      rcases h.exit hmode hx hm ask with ⟨hstarved, he⟩ | ⟨hfed, t₁, he, -⟩
      · rw [he, Except.error.injEq]
        exact ⟨fun hst => ⟨hst.symm, hmode, hx, hm, hstarved⟩, fun hst => hst.1.symm⟩
      · rw [he]
        exact ⟨fun hst => (by cases hst), fun hst => absurd hst.2.2.2.2 hfed⟩
    · simp only [Session.step, if_neg hrun]
      exact ⟨fun h => (by cases h), fun ⟨_, hmode, hx, hm, _⟩ => absurd ⟨hmode, hx, hm⟩ hrun⟩
  | guestStore gpa slot w =>
    simp only [Session.step, Session.Starved, Emulator.step]
    split_ifs
    · cases hwTranslate t.emu.phys.mem t.emu.vmm.ncr3 .write gpa <;> simp [bind, Except.bind]
    · simp
  | mark gpa n accessed dirty =>
    simp [Session.step, Session.Starved, Emulator.step, bind, Except.bind]
  | touch | store => simp [Session.step, Session.Starved]

/-! ## The program -/

/-- The hardware raises the exits of `entry`. -/
theorem EmuOK.possible_point {p : Point} {x : Emulator.Exit} (h : EmuOK e) (hx : img.AtPoint p x) (acc : Access) :
    e.possible acc x := by
  intro hcode
  obtain ⟨-, hx⟩ := hx
  have haddr : x.info2 = mmioHawk := by
    cases p with
    | pioOut | pioIn => exact absurd (hx.1.symm.trans hcode) (by decide)
    | mmioOut | mmioIn => exact hx.2.1
    | hlt => exact absurd (hx.symm.trans hcode) (by decide)
  rw [haddr]
  refine ⟨by decide, ?_⟩
  -- the page of the device is never present
  rw [hwTranslate_spec h.table acc mmioHawk, if_pos rfl]

/-- **The program starts.** The image is loaded into a vm that has just been created. -/
theorem SessionOK.start {a : VmmAsk} {o : ℕ} {vmm : Vmm} {s₀ s : Phys} {memory : Word} {guest : Guest} {ask : ℕ → ℕ → Option Frame}
    (hc : createVmm a s₀ = .ok (.ok (o, vmm), s))
    (hl : Emulator.load ask yakvmEntry img.bytes (Emulator.start s vmm memory guest) = .ok e) :
    SessionOK img (Session.start e.boot) := by
  obtain ⟨hstart, hback⟩ := EmuOK.start hc memory guest
  have hlen : ([] : List (BitVec 8)).length + img.bytes.length ≤ 4096 := by
    rw [List.length_nil, Nat.zero_add]
    exact img.length_le
  obtain ⟨hok, ⟨-, -, hheld⟩, hahead, hholds⟩ := EmuOK.load img.bytes [] _ hstart hlen (Or.inl rfl) hl
  have hne : img.bytes ≠ [] := fun hnil => by
    obtain ⟨hlt, -⟩ := img.byte .hlt (k := 0) (by decide)
    rw [hnil] at hlt
    cases hlt
  obtain ⟨f, hf⟩ := hholds.resolve_left hne
  have hboot : EmuOK e.boot ∧ Ahead e e.boot := hok.same rfl rfl rfl rfl
  refine ⟨hboot.1, (hback.ahead hahead).ahead hboot.2, ⟨f, hf.congr rfl rfl⟩, rfl, fun hmode => ?_, ?_, ?_⟩
  · cases hmode
  · exact hheld .pio
  · exact hheld .mmio

theorem SessionOK.trace_eq (h : SessionOK img t) : t.trace <+: Point.all ∧ (t.emu.mode = .HLT ↔ t.trace = Point.all) ∧
    t.emu.pioHawk = (if 1 ≤ t.trace.length then 1 else 0) ∧ t.emu.mmioHawk = if 3 ≤ t.trace.length then 3 else 0 := by
  have htrace := h.trace
  have hpio := h.pio
  have hmmio := h.mmio
  have hhalted := h.halted
  cases hmode : t.emu.mode with
  | HLT =>
    rw [hmode, if_pos rfl] at htrace
    rw [hhalted hmode] at hpio hmmio
    rw [htrace, hpio, hmmio]
    decide
  | RUNNING =>
    rw [hmode, if_neg (by decide)] at htrace
    rw [htrace, hpio, hmmio]
    cases t.point <;> decide

/-- **`entry` runs to its end.** When a compiled `entry` has been loaded into a vm that has just been created, whatever exits it
makes, whatever it stores to its stack and whatever the hardware marks: its five instructions make the guest exit in the
order of the source and none of them twice, the emulator leaves its loop exactly after the last, the devices hold what has been
stored to them, and the guest goes on finding its code. The next of the instructions can always exit, and is completed. The
emulator stops on the way if and only if a page of the code or of the stack is asked for and there is no memory for it, and then
on its own assertion. -/
theorem handshake {a : VmmAsk} {o : ℕ} {vmm : Vmm} {s₀ s : Phys} {memory : Word} {guest : Guest} {ask : ℕ → ℕ → Option Frame}
    {e₀ : Emulator} (hc : createVmm a s₀ = .ok (.ok (o, vmm), s))
    (hl : Emulator.load ask yakvmEntry img.bytes (Emulator.start s vmm memory guest) = .ok e₀) (evs : List Emulator.Event) :
    (∀ t, Session.run img (Session.start e₀.boot) evs = .ok t →
      t.trace <+: Point.all ∧ (t.emu.mode = .HLT ↔ t.trace = Point.all) ∧
      t.emu.pioHawk = (if 1 ≤ t.trace.length then 1 else 0) ∧ t.emu.mmioHawk = (if 3 ≤ t.trace.length then 3 else 0) ∧
      (∀ j, (hj : j < img.bytes.length) → ∃ f, hwTranslate t.emu.phys.mem t.emu.vmm.ncr3 .fetch (BitVec.ofNat 64 (yakvmEntry + j)) =
        .page f ∧ byteAt (t.emu.phys.mem f) (yakvmEntry + j) = img.bytes[j]) ∧
      ∀ acc x ask, t.emu.mode = .RUNNING → x.guest.csBase = BitVec.ofNat 64 yakvmEntry → img.AtPoint t.point x →
        ∃ t', Session.step img (.exit acc x ask) t = .ok t' ∧ t'.trace = t.trace ++ [t.point]) ∧
    ∀ st, Session.run img (Session.start e₀.boot) evs = .error st ↔ st = .abort ∧ ∃ before ev after t,
      evs = before ++ ev :: after ∧ Session.run img (Session.start e₀.boot) before = .ok t ∧ t.Starved img ev := by
  have hstart : SessionOK img (Session.start e₀.boot) := SessionOK.start hc hl
  have hrun {evs : List Emulator.Event} {t : Session} (hr : Session.run img (Session.start e₀.boot) evs = .ok t) : SessionOK img t :=
    Runs.foldlM_keeps (fun _ _ _ h hs => h.step hs) evs _ hstart hr
  refine ⟨fun t hr => ?_, fun st => ?_⟩
  · have h := hrun hr
    obtain ⟨htrace, hmode, hpio, hmmio⟩ := h.trace_eq
    refine ⟨htrace, hmode, hpio, hmmio, fun j hj => ?_, fun acc x ask hrunning hcs hat => ?_⟩
    · obtain ⟨f, hf⟩ := h.image
      exact ⟨f, hf.fetch h.ok img.length_le hj⟩
    · rcases h.exit hrunning (h.ok.possible_point hat acc) ⟨hcs, Or.inl hat⟩ ask with ⟨hstarved, -⟩ | ⟨-, t', he, -, hnext⟩
      · exact absurd hstarved.1 hat.not_pageFault
      · exact ⟨t', he, hnext hat⟩
  · unfold Session.run
    rw [Runs.foldlM_error_iff]
    constructor
    · rintro ⟨before, ev, after, t, hevs, hr, hfail⟩
      obtain ⟨hst, hstarved⟩ := (hrun hr).step_error_iff.1 hfail
      exact ⟨hst, before, ev, after, t, hevs, hr, hstarved⟩
    · rintro ⟨hst, before, ev, after, t, hevs, hr, hstarved⟩
      exact ⟨before, ev, after, t, hevs, hr, (hrun hr).step_error_iff.2 ⟨hst, hstarved⟩⟩

/-- An `entry` with nothing between its instructions. -/
def plainEntry : Image where
  bytes := [0xee, 0xec, 0x67, 0x88, 0x02, 0x67, 0x8a, 0x02, 0xf4]
  offset
    | .pioOut => 0
    | .pioIn => 1
    | .mmioOut => 2
    | .mmioIn => 5
    | .hlt => 8
  fits := by decide
  placed := fun p => by cases p <;> decide

/-- The registers at one of its instructions. -/
def plainGuest (p : Point) (al : Word) : Guest where
  gpr := fun r => if r = .rax then al else 0
  rip := BitVec.ofNat 64 (plainEntry.offset p)
  csBase := 0x1000
  ssBase := 0x2000

/-- A run of it, with a fault on the stack on the way. -/
def plainRun : List Emulator.Event :=
  [.exit .read ⟨svmExitIoio, 0x10, 1, plainGuest .pioOut 1⟩ fun _ _ => none,
   .exit .write ⟨svmExitNpf, 0, 0x2ff8, plainGuest .pioIn 1⟩ fun _ _ => some 7,
   .exit .read ⟨svmExitIoio, 0x11, 2, plainGuest .pioIn 1⟩ fun _ _ => none,
   .exit .write ⟨svmExitNpf, 0, 0, plainGuest .mmioOut 3⟩ fun _ _ => none,
   .exit .read ⟨svmExitNpf, 0, 0, plainGuest .mmioIn 3⟩ fun _ _ => none,
   .exit .read ⟨svmExitHlt, 0, 0, plainGuest .hlt 2⟩ fun _ _ => none]

/-- It ends, and leaves 1 and 3 in the devices. -/
theorem handshake_plain : ∃ s e₀ t, createVmm countingAsk emptyPhys = .ok (.ok (0, ⟨pageToPhys 1⟩), s) ∧
    Emulator.load (fun _ _ => some 6) yakvmEntry plainEntry.bytes (Emulator.start s ⟨pageToPhys 1⟩ 0x7f0000000000 codeGuest) =
      .ok e₀ ∧
    Session.run plainEntry (Session.start e₀.boot) plainRun = .ok t ∧ t.emu.mode = .HLT ∧ t.emu.pioHawk = 1 ∧ t.emu.mmioHawk = 3 := by
  obtain ⟨s, e₀, t, hc, hl, hr, hlen⟩ : ∃ s e₀ t, createVmm countingAsk emptyPhys = .ok (.ok (0, ⟨pageToPhys 1⟩), s) ∧
      Emulator.load (fun _ _ => some 6) yakvmEntry plainEntry.bytes (Emulator.start s ⟨pageToPhys 1⟩ 0x7f0000000000 codeGuest) =
        .ok e₀ ∧
      Session.run plainEntry (Session.start e₀.boot) plainRun = .ok t ∧ t.trace.length = 5 := ⟨_, _, _, rfl, rfl, rfl, rfl⟩
  obtain ⟨htrace, hmode, hpio, hmmio, -⟩ := (handshake hc hl plainRun).1 t hr
  rw [hlen] at hpio hmmio
  exact ⟨s, e₀, t, hc, hl, hr, hmode.2 (htrace.eq_of_length hlen), hpio, hmmio⟩

end Yakvm
