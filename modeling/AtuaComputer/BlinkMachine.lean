/-
**The state of a Blink process that a fork carries over.**

Blink keeps a guest CPU in a `struct Machine` and what the threads of a process share in a
`struct System`.  This module has the fields of the two that forking reads or writes, with the widths
they have on wasm32, and the two intrusive lists of the system as Lean lists with the element a walk
meets first at the head: the file descriptors (`fds.c`) and the file-backed mappings
(`memorymalloc.c`).

Main definitions:

* `Blink.DescriptorCache`, `Blink.Fd`, `Blink.FileMap`, `Blink.System`, `Blink.Machine` — the records;
* `Blink.addFd`, `Blink.getFd`, `Blink.addStdFd` — the descriptor list;
* `Blink.addFileMap`, `Blink.getFileMap` — the list of file-backed mappings;
* `Blink.newMachine` — the machine the restore path starts from.

Main results:

* `Blink.getFd_addFd` — a descriptor that was just added is the one a lookup finds;
* `Blink.fildes_addStdFds` — the restore path starts with descriptors 0, 1 and 2 in its list.
-/

import AtuaComputer.ByteCodec
import Mathlib.Data.List.TakeWhile

set_option relaxedAutoImplicit false
set_option autoImplicit false

namespace Blink

/-! ### Records -/

/-- A segment register: the visible selector, the padding the compiler puts after it, and the base
address. -/
structure DescriptorCache where
  sel : UInt16
  pad : Block 6
  base : UInt64
deriving DecidableEq, Inhabited

/-- A file descriptor: its number, its host flags, and where the browser build routes it. -/
structure Fd where
  fildes : Int32
  oflags : Int32
  atuaType : Int32
  atuaHostHandle : Int32
deriving DecidableEq, Inhabited

/-- The routes of a descriptor that are looked at (`ATUA_FD_*`). -/
def atuaFdPipe : Int32 := 1
def atuaFdStdin : Int32 := 3
def atuaFdStdout : Int32 := 4
def atuaFdStderr : Int32 := 5

/-- A C string: bytes without a NUL. -/
structure CString where
  bytes : List UInt8
  no_nul : (0 : UInt8) ∉ bytes
deriving DecidableEq

/-- The string a buffer holds: its bytes up to the first NUL. -/
def CString.ofBytes (bs : List UInt8) : CString :=
  ⟨bs.takeWhile (· ≠ 0), fun h => by simpa using List.mem_takeWhile_imp h⟩

@[simp] theorem CString.ofBytes_bytes (s : CString) : CString.ofBytes s.bytes = s := by
  have h : s.bytes.takeWhile (· ≠ 0) = s.bytes := by
    rw [List.takeWhile_eq_self_iff]
    intro b hb
    simpa using fun h0 : b = 0 => s.no_nul (h0 ▸ hb)
  cases s
  simp only [CString.ofBytes, CString.mk.injEq]
  exact h

/-- A file-backed mapping: where it lies, the file it shows, and which of its pages are present. -/
structure FileMap where
  virt : Int64
  size : Int64
  offset : Int64
  path : CString
  present : List Bool
deriving DecidableEq

/-- What the threads of a process share, as far as a fork copies it. -/
structure System where
  /-- The signal handlers: 64 entries of 32 bytes. -/
  hands : Block 2048
  brk : Int64
  automap : Int64
  cr3 : UInt64
  pid : Int32
  /-- The resource limits: 16 pairs of 64-bit words. -/
  rlim : Block 256
  blinksigs : UInt64
  fds : List Fd
  filemaps : List FileMap
deriving Inhabited

/-- A guest CPU.  The general registers are the 128 bytes of the register file, `rax` first; the
segment registers are an array of eight, of which `fs` and `gs` are the entries 4 and 5. -/
structure Machine where
  ip : UInt64
  flags : UInt32
  beg : Block 128
  xmm : Block 256
  seg : Fin 8 → DescriptorCache
  sigmask : UInt64
  sigaltstack : Block 24
  ctid : Int64
  tid : Int32
  /-- The child side of a fork runs in this machine until it calls `execve`. -/
  vforkExecPending : Bool
  vforkChildPid : Int32
  vforkSavedIp : UInt64
  vforkSavedRegs : Block 128
  system : System
deriving Inhabited

scoped instance neZero_eight : NeZero 8 := ⟨by decide⟩

/-- `m->fs` -/
abbrev Machine.fs (m : Machine) : DescriptorCache := m.seg 4
/-- `m->gs` -/
abbrev Machine.gs (m : Machine) : DescriptorCache := m.seg 5

/-! ### The descriptor list -/

/-- `AddFd`: a descriptor with a negative number is refused, any other goes to the front of the
list.  The routing fields are filled in by the caller. -/
def addFd (fds : List Fd) (fd : Fd) : List Fd :=
  if 0 ≤ fd.fildes then fd :: fds else fds

/-- `GetFd`: the first descriptor with the number.  (A hit is also moved to the front, which no
lookup can tell.) -/
def getFd (fds : List Fd) (fildes : Int32) : Option Fd :=
  fds.find? fun fd => fd.fildes = fildes

/-- `O_RDONLY` and `O_WRONLY` of the host C library. -/
def oRdonly : Int32 := 0
def oWronly : Int32 := 1

/-- `AddStdFd`: 0, 1 and 2 are the terminal; a higher number is added when the host knows it, that
is when `fcntl(fildes, F_GETFL)` answers with flags. -/
def addStdFd (hostFlags : Int32 → Option Int32) (fds : List Fd) (fildes : Int32) : List Fd :=
  if fildes ≤ 2 then
    addFd fds
      { fildes
        oflags := if fildes = 0 then oRdonly else oWronly
        atuaType := if fildes = 0 then atuaFdStdin
          else if fildes = 1 then atuaFdStdout else atuaFdStderr
        atuaHostHandle := 0 }
  else
    match hostFlags fildes with
    | some flags => addFd fds { fildes, oflags := flags, atuaType := 0, atuaHostHandle := 0 }
    | none => fds

/-- `for (fi = 0; fi < 10; ++fi) AddStdFd(fds, fi)` -/
def addStdFds (hostFlags : Int32 → Option Int32) : List Fd :=
  [0, 1, 2, 3, 4, 5, 6, 7, 8, 9].foldl (addStdFd hostFlags) []

@[simp] theorem addFd_of_nonneg {fds : List Fd} {fd : Fd} (h : 0 ≤ fd.fildes) :
    addFd fds fd = fd :: fds := if_pos h

@[simp] theorem getFd_nil (fildes : Int32) : getFd [] fildes = none := rfl

theorem getFd_cons (fd : Fd) (fds : List Fd) (fildes : Int32) :
    getFd (fd :: fds) fildes = if fd.fildes = fildes then some fd else getFd fds fildes := by
  by_cases h : fd.fildes = fildes <;> simp [getFd, h]

/-- A descriptor that was just added is the one a lookup finds. -/
theorem getFd_addFd {fds : List Fd} {fd : Fd} (h : 0 ≤ fd.fildes) :
    getFd (addFd fds fd) fd.fildes = some fd := by
  rw [addFd_of_nonneg h, getFd_cons, if_pos rfl]

theorem getFd_eq_none {fds : List Fd} {fildes : Int32} :
    getFd fds fildes = none ↔ fildes ∉ fds.map Fd.fildes := by
  simp [getFd]

theorem getFd_isSome {fds : List Fd} {fildes : Int32} :
    (getFd fds fildes).isSome ↔ fildes ∈ fds.map Fd.fildes := by
  rw [← not_iff_not, Option.not_isSome_iff_eq_none, getFd_eq_none]

/-- Adding a standard descriptor keeps those already in the list. -/
theorem fildes_subset_addStdFd (hostFlags : Int32 → Option Int32) (fds : List Fd) (i : Int32) :
    fds.map Fd.fildes ⊆ (addStdFd hostFlags fds i).map Fd.fildes := by
  have hadd : ∀ fd : Fd, fds.map Fd.fildes ⊆ (addFd fds fd).map Fd.fildes := by
    intro fd
    unfold addFd
    split
    · exact List.subset_cons_of_subset _ (List.Subset.refl _)
    · exact List.Subset.refl _
  unfold addStdFd
  split
  · exact hadd _
  · split
    · exact hadd _
    · exact List.Subset.refl _

theorem fildes_subset_foldl_addStdFd (hostFlags : Int32 → Option Int32) (is : List Int32)
    (fds : List Fd) :
    fds.map Fd.fildes ⊆ (is.foldl (addStdFd hostFlags) fds).map Fd.fildes := by
  induction is generalizing fds with
  | nil => exact List.Subset.refl _
  | cons i is ih => exact List.Subset.trans (fildes_subset_addStdFd hostFlags fds i) (ih _)

/-- **The restore path starts with the terminal descriptors in its list.** -/
theorem fildes_addStdFds (hostFlags : Int32 → Option Int32) :
    ([2, 1, 0] : List Int32) ⊆ (addStdFds hostFlags).map Fd.fildes := by
  have h := fildes_subset_foldl_addStdFd hostFlags [3, 4, 5, 6, 7, 8, 9]
    ([0, 1, 2].foldl (addStdFd hostFlags) [])
  exact h

/-! ### The list of file-backed mappings -/

/-- `AddFileMap`: a new mapping goes to the front of the list with every page present. -/
def addFileMap (filemaps : List FileMap) (virt size : Int64) (path : CString) (offset : Int64) :
    List FileMap :=
  { virt, size, offset, path
    present := List.replicate ((size.toInt + 4095) / 4096).toNat true } :: filemaps

/-- Whether a mapping covers an address with a page that is present. -/
def FileMap.covers (fm : FileMap) (virt : Int64) : Bool :=
  fm.virt ≤ virt && decide (virt.toInt < fm.virt.toInt + fm.size.toInt) &&
    fm.present.getD ((virt.toInt - fm.virt.toInt) / 4096).toNat false

/-- `GetFileMap`: the first mapping in the list that covers the address. -/
def getFileMap (filemaps : List FileMap) (virt : Int64) : Option FileMap :=
  filemaps.find? fun fm => fm.covers virt

/-! ### The machine a fork child starts from -/

/-- `NewMachine(NewSystem(XED_MACHINE_MODE_LONG), 0)` followed by the loop over `AddStdFd`: nothing
but the standard descriptors.  The initial values of the other fields are the parameter `base`. -/
def newMachine (base : Machine) (hostFlags : Int32 → Option Int32) : Machine :=
  { base with system := { base.system with fds := addStdFds hostFlags, filemaps := [] } }

end Blink
