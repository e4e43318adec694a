import Yakvm.Spec.Emulator
import Yakvm.Spec.Switch

/-!
# Loading a guest

`tool/memory.c`: `yakvm_create_memory` maps the guest's memory and `yakvm_load_bin` reads the
guest's image into it. Memory is that of the emulator's process, by virtual address and byte.
-/

namespace Yakvm

open Bytes

/-- `YAKVM_ENTRY`, as the Makefile defines it. -/
def yakvmEntry : ℕ := 4096

def E2BIG : ℤ := 7

/-- What `errno` is after a call that failed. -/
abbrev ErrnoVal := { e : ℤ // 0 < e }

/-- What the system answers to the calls of `yakvm_load_bin` on a file of `size` bytes. `read`
stores any number of bytes up to the request, and says how many. -/
structure FileCalls (size : ℕ) where
  opened : Except ErrnoVal Unit
  stated : Except ErrnoVal Unit
  read : Except ErrnoVal (Fin (size + 1))
  closed : Bool

/-- How a function of the emulator ends: it returns, or an assertion fails. -/
inductive Ending
  | returned (r : ℤ)
  | aborted
  deriving DecidableEq

/-- The end of a load, the memory it leaves, and the ranges that were written. -/
structure Loaded where
  ending : Ending
  mem : Mem 64
  written : List (Word × ℕ)

/-- The label `close_fd`. -/
def closeFd (closed : Bool) (ret : ℤ) (m : Mem 64) (written : List (Word × ℕ)) : Loaded :=
  ⟨if closed then .returned ret else .aborted, m, written⟩

/-- `yakvm_load_bin`. -/
def loadBin (memory : Word) (file : List (BitVec 8)) (s : FileCalls file.length) (m : Mem 64) : Loaded :=
  match s.opened with
  | .error e => ⟨.returned e, m, []⟩
  | .ok () =>
    match s.stated with
    | .error e => closeFd s.closed e m []
    | .ok () =>
      if file.length > yakvmMemory then closeFd s.closed (-E2BIG) m []
      else
        match s.read with
        | .error e => closeFd s.closed e m []
        | .ok n =>
          let buf := at64 memory yakvmEntry
          let m := writeBytes m buf (file.take n)
          if n = file.length then closeFd s.closed 0 m [(buf, n)] else ⟨.aborted, m, [(buf, n)]⟩

/-- `yakvm_create_memory`, and the mapping of guest memory that there is afterwards. `mapped` is
what `mmap` answers, `unmapped` whether `munmap` succeeds. -/
def createMemory (mapped : Except ErrnoVal Word) (unmapped : Bool) (file : List (BitVec 8))
    (s : FileCalls file.length) (m : Mem 64) : Loaded × Option (Word × ℕ) :=
  match mapped with
  | .error e => (⟨.returned e, m, []⟩, none)
  | .ok memory =>
    let o := loadBin memory file s m
    if o.ending = .aborted ∨ o.ending = .returned 0 then (o, some (memory, yakvmMemory))
    else if unmapped then (o, none)
    else ({ o with ending := .aborted }, some (memory, yakvmMemory))

end Yakvm
