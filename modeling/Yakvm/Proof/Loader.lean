import Yakvm.Spec.Loader

/-!
# Loading a guest stays inside its memory

`yakvm_load_bin` admits files of up to `YAKVM_MEMORY` bytes, and puts them at `YAKVM_ENTRY`, which
is 4096 bytes from the start of a mapping of `YAKVM_MEMORY` bytes.

* `loadBin_good`: a load is good when what `read` stores ends inside the mapping.
* `loadBin_good_iff`: every load of a file is good exactly when the file leaves the 4096 bytes
  free, or is refused; and when an assertion ends it.
* `createMemory_image`: what there is after `yakvm_create_memory` of such a file.
-/

namespace Yakvm

open Bytes

variable {memory : Word} {file : List (BitVec 8)} {s : FileCalls file.length} {m : Mem 64}

/-- What a load should do: it writes inside the mapping only; and if it returns 0, then the file
is at its entry, and every other byte is as it was. -/
structure Loaded.Good (o : Loaded) (memory : Word) (file : List (BitVec 8)) (m : Mem 64) : Prop where
  inside : ∀ r ∈ o.written, Inside r.1 r.2 memory yakvmMemory
  only : Only o.written m o.mem
  image : o.ending = .returned 0 →
    bytesAt o.mem (at64 memory yakvmEntry) file.length = file ∧ Only [(at64 memory yakvmEntry, file.length)] m o.mem

/-- The file is opened, and the check on its size admits it. -/
def FileCalls.Admitted (s : FileCalls file.length) : Prop :=
  s.opened = .ok () ∧ s.stated = .ok () ∧ file.length ≤ yakvmMemory

/-- An assertion fails: `close` does not succeed, or `read` stores less than the file. -/
def FileCalls.Asserts (s : FileCalls file.length) : Prop :=
  s.opened = .ok () ∧ s.closed = false ∨ s.Admitted ∧ ∃ n, s.read = .ok n ∧ n.val ≠ file.length

theorem ErrnoVal.ne_zero (e : ErrnoVal) : (e : ℤ) ≠ 0 := e.2.ne'

/-- The path to `close_fd` before anything is written. -/
theorem closeFd_good {ret : ℤ} (hret : ret ≠ 0) (closed : Bool) : (closeFd closed ret m []).Good memory file m := by
  refine ⟨by simp [closeFd], fun _ _ => rfl, ?_⟩
  unfold closeFd
  cases closed with
  | true => intro h; exact absurd (Ending.returned.inj h) hret
  | false => intro h; cases h

theorem closeFd_aborted_iff {ret : ℤ} {closed : Bool} {ws : List (Word × ℕ)} :
    (closeFd closed ret m ws).ending = .aborted ↔ closed = false := by
  unfold closeFd
  cases closed <;> simp

/-- What a load that reads `n` bytes leaves. -/
theorem loadBin_read (memory : Word) (m : Mem 64) (hs : s.Admitted) {n : Fin (file.length + 1)} (hn : s.read = .ok n) :
    loadBin memory file s m =
      ⟨if n.val = file.length ∧ s.closed = true then .returned 0 else .aborted,
        writeBytes m (at64 memory yakvmEntry) (file.take n), [(at64 memory yakvmEntry, n)]⟩ := by
  obtain ⟨hopen, hstat, hsize⟩ := hs
  unfold loadBin
  rw [hopen, hstat, hn]
  simp only [if_neg (not_lt.2 hsize)]
  by_cases hfull : n.val = file.length
  · rw [if_pos hfull]
    unfold closeFd
    simp only [hfull, true_and]
  · rw [if_neg hfull, if_neg fun h => hfull h.1]

/-- A load that does not get as far as that. -/
theorem loadBin_unread (memory : Word) (m : Mem 64) (h : ¬(s.Admitted ∧ ∃ n, s.read = .ok n)) :
    (loadBin memory file s m).Good memory file m ∧ (loadBin memory file s m).written = [] ∧
    ((loadBin memory file s m).ending = .aborted ↔ s.opened = .ok () ∧ s.closed = false) := by
  unfold loadBin
  cases hopen : s.opened with
  | error e => exact ⟨⟨by simp, fun _ _ => rfl, fun h => absurd (Ending.returned.inj h) e.ne_zero⟩, rfl, by simp⟩
  | ok u =>
    cases hstat : s.stated with
    | error e => exact ⟨closeFd_good e.ne_zero _, rfl, closeFd_aborted_iff.trans (by simp)⟩
    | ok u' =>
      by_cases hsize : file.length > yakvmMemory
      · simp only [if_pos hsize]
        exact ⟨closeFd_good (by decide) _, rfl, closeFd_aborted_iff.trans (by simp)⟩
      · simp only [if_neg hsize]
        cases hread : s.read with
        | error e => exact ⟨closeFd_good e.ne_zero _, rfl, closeFd_aborted_iff.trans (by simp)⟩
        | ok n => exact absurd ⟨⟨hopen, hstat, not_lt.1 hsize⟩, n, hread⟩ h

/-- **One load** is good exactly when what `read` stores ends inside the mapping. -/
theorem loadBin_good : (loadBin memory file s m).Good memory file m ↔
    (s.Admitted → ∀ n, s.read = .ok n → yakvmEntry + n ≤ yakvmMemory) := by
  have hnum : yakvmEntry = 4096 ∧ yakvmMemory = 1048576 := ⟨rfl, rfl⟩
  have hentry : yakvmEntry < 2 ^ 64 := by omega
  by_cases h : s.Admitted ∧ ∃ n, s.read = .ok n
  · obtain ⟨hs, n, hn⟩ := h
    have hle : n.val ≤ file.length := Nat.lt_succ_iff.1 n.2
    have hlen : (file.take n).length = n := List.length_take_of_le hle
    rw [loadBin_read memory m hs hn]
    constructor
    · intro hgood _ k hk
      rw [← (Except.ok.inj (hn.symm.trans hk))]
      have hin := hgood.inside (at64 memory yakvmEntry, n.val) List.mem_cons_self
      exact (inside_offset_iff hentry).1 hin
    · intro hin
      refine ⟨?_, ?_, ?_⟩
      · intro r hr
        rw [List.mem_singleton.1 hr]
        exact (inside_offset_iff hentry).2 (hin hs n hn)
      · have hw := writeBytes_only m (at64 memory yakvmEntry) (file.take n)
        rwa [hlen] at hw
      · intro hend
        have hfull : n.val = file.length := by
          by_contra hne
          simp [hne] at hend
        have hfits : file.length ≤ 2 ^ 64 := hs.2.2.trans (by omega)
        rw [hfull, List.take_length]
        exact ⟨bytesAt_writeBytes m _ hfits, writeBytes_only m _ file⟩
  · refine iff_of_true (loadBin_unread memory m h).1 ?_
    intro hs n hn
    exact absurd ⟨hs, n, hn⟩ h

/-- When an assertion ends a load. -/
theorem loadBin_aborted_iff : (loadBin memory file s m).ending = .aborted ↔ s.Asserts := by
  unfold FileCalls.Asserts
  by_cases h : s.Admitted ∧ ∃ n, s.read = .ok n
  · obtain ⟨hs, n, hn⟩ := h
    rw [loadBin_read memory m hs hn]
    have hread : (∃ k, s.read = .ok k ∧ k.val ≠ file.length) ↔ n.val ≠ file.length := by
      rw [hn]
      constructor
      · rintro ⟨k, hk, hne⟩
        rwa [Except.ok.inj hk]
      · intro hne
        exact ⟨n, rfl, hne⟩
    rw [hread]
    have hopen := hs.1
    by_cases hfull : n.val = file.length
    · cases hc : s.closed <;> simp [hfull, hopen]
    · simp [hfull, hs]
  · rw [(loadBin_unread memory m h).2.2]
    constructor
    · exact Or.inl
    · rintro (hc | ⟨hs, n, hn, -⟩)
      · exact hc
      · exact absurd ⟨hs, n, hn⟩ h

/-- A load of a file that leaves room for the entry, or is refused. -/
theorem loadBin_good_fits (h : file.length ≤ yakvmMemory - yakvmEntry ∨ yakvmMemory < file.length) :
    (loadBin memory file s m).Good memory file m := by
  have hnum : yakvmEntry = 4096 ∧ yakvmMemory = 1048576 := ⟨rfl, rfl⟩
  rw [loadBin_good]
  intro hs n _
  have hadm : file.length ≤ yakvmMemory := hs.2.2
  have hle : n.val ≤ file.length := Nat.lt_succ_iff.1 n.2
  omega

/-- A load that returns an error has written nothing. -/
theorem loadBin_error {r : ℤ} (hr : r ≠ 0) (hend : (loadBin memory file s m).ending = .returned r) :
    (loadBin memory file s m).mem = m := by
  by_cases h : s.Admitted ∧ ∃ n, s.read = .ok n
  · obtain ⟨hs, n, hn⟩ := h
    rw [loadBin_read memory m hs hn] at hend
    split at hend
    · exact absurd (Ending.returned.inj hend).symm hr
    · cases hend
  · obtain ⟨hgood, hnone, -⟩ := loadBin_unread memory m h
    have honly := hgood.only
    rw [hnone] at honly
    funext x
    exact honly x (by simp)

/-- **The files whose loads stay inside guest memory.** Whatever the system answers and whatever
memory holds, a load of the file writes inside the mapping only, and leaves the file there and
every other byte unchanged if it returns 0, exactly when the file leaves room for the entry or
the check refuses it. It does not return exactly when one of its assertions fails. -/
theorem loadBin_good_iff (memory : Word) (file : List (BitVec 8)) :
    ((∀ (s : FileCalls file.length) (m : Mem 64), (loadBin memory file s m).Good memory file m) ↔
      file.length ≤ yakvmMemory - yakvmEntry ∨ yakvmMemory < file.length) ∧
    ∀ (s : FileCalls file.length) (m : Mem 64), (loadBin memory file s m).ending = .aborted ↔ s.Asserts := by
  have hnum : yakvmEntry = 4096 ∧ yakvmMemory = 1048576 := ⟨rfl, rfl⟩
  refine ⟨?_, fun s m => loadBin_aborted_iff⟩
  constructor
  · intro h
    by_contra hcon
    -- the file is read whole
    have hgood := loadBin_good.1 (h ⟨.ok (), .ok (), .ok (Fin.last _), true⟩ fun _ => 0)
    have hin := hgood ⟨rfl, rfl, by omega⟩ (Fin.last _) rfl
    rw [Fin.val_last] at hin
    omega
  · exact fun h s m => loadBin_good_fits h

/-- Every call succeeds, and `read` reads the whole file. -/
def FileCalls.allGood (file : List (BitVec 8)) : FileCalls file.length := ⟨.ok (), .ok (), .ok (Fin.last _), true⟩

/-- A file that the check admits and that does not fit, read whole: its byte for the index
`YAKVM_MEMORY` is in memory. -/
theorem loadBin_past_end (memory : Word) (m : Mem 64) (hadm : file.length ≤ yakvmMemory) (hlong : yakvmMemory - yakvmEntry < file.length) :
    (loadBin memory file (.allGood file) m).ending = .returned 0 ∧
    (loadBin memory file (.allGood file) m).mem (at64 memory yakvmMemory) = file[yakvmMemory - yakvmEntry] ∧
    ¬(loadBin memory file (.allGood file) m).Good memory file m := by
  have hnum : yakvmEntry = 4096 ∧ yakvmMemory = 1048576 := ⟨rfl, rfl⟩
  have hs : (FileCalls.allGood file).Admitted := ⟨rfl, rfl, hadm⟩
  have hread := loadBin_read memory m hs (n := Fin.last _) rfl
  refine ⟨?_, ?_, ?_⟩
  · rw [hread]
    exact if_pos ⟨Fin.val_last _, rfl⟩
  · have hoff : (at64 memory yakvmMemory - at64 memory yakvmEntry).toNat = yakvmMemory - yakvmEntry := by
      unfold at64
      rw [add_sub_add memory (by omega), BitVec.toNat_ofNat, Nat.mod_eq_of_lt (by omega)]
    rw [hread]
    simp only [writeBytes]
    rw [hoff, Fin.val_last, List.take_length, List.getD_eq_getElem?_getD, List.getElem?_eq_getElem hlong,
      Option.getD_some]
  · intro hgood
    have hin := loadBin_good.1 hgood hs (Fin.last _) rfl
    rw [Fin.val_last] at hin
    omega

/-- The smallest file that does not fit: a byte more than the room after the entry. -/
def longFile : List (BitVec 8) := List.replicate 1044481 0x90

/-- **A load past the end**: the check admits the file, the load returns 0, and it has written to
the byte behind the mapping. -/
theorem loadBin_overruns : longFile.length ≤ yakvmMemory ∧
    (loadBin 0x7f0000000000 longFile (.allGood longFile) fun _ => 0).ending = .returned 0 ∧
    (loadBin 0x7f0000000000 longFile (.allGood longFile) fun _ => 0).mem (at64 0x7f0000000000 yakvmMemory) = 0x90 ∧
    ¬(loadBin 0x7f0000000000 longFile (.allGood longFile) fun _ => 0).Good 0x7f0000000000 longFile fun _ => 0 := by
  have hnum : yakvmEntry = 4096 ∧ yakvmMemory = 1048576 := ⟨rfl, rfl⟩
  have hlen : longFile.length = 1044481 := List.length_replicate
  have hlong : yakvmMemory - yakvmEntry < longFile.length := by omega
  obtain ⟨hret, hbyte, hbad⟩ := loadBin_past_end 0x7f0000000000 (fun _ => 0) (by omega) hlong
  exact ⟨by omega, hret, hbyte.trans (List.getElem_replicate hlong), hbad⟩

/-- **After `yakvm_create_memory`** of a file that fits, or is refused: if it returns 0, guest
memory is mapped and holds the image; if it returns an error, nothing is mapped or written. -/
theorem createMemory_image (h : file.length ≤ yakvmMemory - yakvmEntry ∨ yakvmMemory < file.length)
    (mapped : Except ErrnoVal Word) (unmapped : Bool) (s : FileCalls file.length) (m : Mem 64) :
    ((createMemory mapped unmapped file s m).1.ending = .returned 0 →
      ∃ memory, (createMemory mapped unmapped file s m).2 = some (memory, yakvmMemory) ∧
        (createMemory mapped unmapped file s m).1.Good memory file m) ∧
    ∀ r, r ≠ 0 → (createMemory mapped unmapped file s m).1.ending = .returned r →
      (createMemory mapped unmapped file s m).2 = none ∧ (createMemory mapped unmapped file s m).1.mem = m := by
  cases mapped with
  | error e =>
    refine ⟨fun hret => absurd (Ending.returned.inj hret) e.ne_zero, fun r _ _ => ⟨rfl, rfl⟩⟩
  | ok memory =>
    unfold createMemory
    simp only
    by_cases hload : (loadBin memory file s m).ending = .aborted ∨ (loadBin memory file s m).ending = .returned 0
    · rw [if_pos hload]
      refine ⟨fun _ => ⟨memory, rfl, loadBin_good_fits h⟩, ?_⟩
      intro r hr hend
      rcases hload with hload | hload
      · exact absurd (hload.symm.trans hend) (by simp)
      · exact absurd (Ending.returned.inj (hload.symm.trans hend)).symm hr
    · rw [if_neg hload]
      rw [not_or] at hload
      cases unmapped with
      | true => exact ⟨fun hret => absurd hret hload.2, fun r hr hend => ⟨rfl, loadBin_error hr hend⟩⟩
      | false => exact ⟨fun hret => absurd hret (by simp), fun r _ hend => absurd hend (by simp)⟩

end Yakvm
