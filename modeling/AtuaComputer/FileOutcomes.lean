/-
**What the parts of a file call return.**

The calls on files read and write through a few helpers.  This module says what each of them returns, and
what a whole call makes of it.

Main results:

* `FileOutcomes.returns_vfsRead` — reading a file that is no source of random bytes;
* `FileOutcomes.returns_storeGuest`, `FileOutcomes.returns_sliceGuest` — the guest's memory;
* `FileOutcomes.attempt_of_returns`, `FileOutcomes.handleFileCall_of_returns` — what the guest gets.
-/

import Mathlib.Data.Int.ModEq
import AtuaComputer.FileContents
import AtuaComputer.Outcomes
import AtuaComputer.Syscalls

set_option relaxedAutoImplicit false
set_option autoImplicit false

namespace FileOutcomes

open VirtualFs Kernel FileIo Syscalls Outcomes

variable {s : FileIo.State} {pid : ℤ} {p : Proc}

theorem attempt_of_returns {s : Syscalls.State} {x : Io ℤ} {n : ℤ} {io : FileIo.State}
    (h : Returns x s.io n io) : Syscalls.attempt s x = ({ s with io }, n) := by
  unfold Returns at h
  unfold Syscalls.attempt
  rw [h]

theorem attempt_of_throws {s : Syscalls.State} {x : Io ℤ} {io : FileIo.State}
    (h : Throws x s.io () io) : Syscalls.attempt s x = ({ s with io }, -1) := by
  unfold Throws at h
  unfold Syscalls.attempt
  rw [h]

theorem handleFileCall_of_returns {a : Int32} {call : FileCall} {n : ℤ} {s' : FileIo.State}
    (hp : s.kernel.processTable.get? pid = some p) (h : Returns (fileHandler pid p a call) s n s') :
    handleFileCall s pid a call = (s', n) := by
  unfold Returns at h
  simp only [handleFileCall, hp, h]

theorem handleFileCall_of_throws {a : Int32} {call : FileCall} {s' : FileIo.State}
    (hp : s.kernel.processTable.get? pid = some p) (h : Throws (fileHandler pid p a call) s () s') :
    handleFileCall s pid a call = (s', -1) := by
  unfold Throws at h
  simp only [handleFileCall, hp, h]

/-- A computation returns a number, or throws. -/
def Ends (x : Io ℤ) (s : FileIo.State) (n : ℤ) (s' : FileIo.State) : Bool → Prop
  | true => Returns x s n s'
  | false => Throws x s () s'

theorem Ends.after {α : Type} {x : Io α} {a : α} {g : α → Io ℤ} {s₁ s₂ : FileIo.State} {n : ℤ} {ok : Bool}
    (hx : Returns x s a s₁) (hg : Ends (g a) s₁ n s₂ ok) : Ends (x >>= g) s n s₂ ok := by
  cases ok with
  | true => exact hx.bind hg
  | false => exact hx.throws hg

/-- The state and the result that a computation of the handler ends with. -/
theorem handleFileCall_of_ends {a : Int32} {call : FileCall} {n : ℤ} {s' : FileIo.State} {ok : Bool}
    (hp : s.kernel.processTable.get? pid = some p) (hends : Ends (fileHandler pid p a call) s n s' ok) :
    handleFileCall s pid a call = (s', if ok then n else -1) := by
  cases ok with
  | true => exact handleFileCall_of_returns hp hends
  | false => exact handleFileCall_of_throws hp hends

theorem attempt_of_ends {s : Syscalls.State} {x : Io ℤ} {n : ℤ} {io : FileIo.State} {ok : Bool}
    (h : Ends x s.io n io ok) : Syscalls.attempt s x = ({ s with io }, if ok then n else -1) := by
  cases ok with
  | true => exact attempt_of_returns h
  | false => exact attempt_of_throws h

/-! ### Buffers and memory -/

theorem throws_alloc {n : ℕ} (h : s.limit < n) : Throws (alloc n) s () s := by
  refine (returns_get s).throws ?_
  rw [if_pos h]
  exact throws_throw () s

theorem returns_alloc {n : ℕ} (h : n ≤ s.limit) : Returns (alloc n) s () s := by
  refine returns_read ?_
  rw [if_neg (by omega)]
  exact returns_pure () s

theorem returns_guestMemory (hp : p.wasmMemory = true) : Returns (guestMemory pid p) s (s.memory pid) s := by
  unfold guestMemory
  rw [if_pos hp]
  exact returns_read (returns_pure _ s)

/-- The state with other bytes in the memory of a process. -/
def withMemory (s : FileIo.State) (pid : ℤ) (wasm : List UInt8) : FileIo.State :=
  { s with memory := Function.update s.memory pid wasm }

theorem returns_storeGuest {addr : ℕ} {bytes wasm : List UInt8} (hp : p.wasmMemory = true)
    (h : setBytes (s.memory pid) bytes addr = some wasm) :
    Returns (storeGuest pid p addr bytes) s () (withMemory s pid wasm) := by
  refine (returns_guestMemory hp).bind ?_
  rw [h]
  exact returns_modify _ s

theorem returns_sliceGuest {addr count : ℕ} (hp : p.wasmMemory = true) (hin : addr + count ≤ (s.memory pid).length)
    (hroom : count ≤ s.limit) :
    Returns (sliceGuest pid p addr count) s (((s.memory pid).drop addr).take count) s := by
  have hbytes : subarray (s.memory pid) addr (addr + count : ℕ) = ((s.memory pid).drop addr).take count := by
    rw [FileContents.subarray_nat _ hin, Nat.add_sub_cancel_left]
  have hview : Returns (viewGuest pid p addr count) s (((s.memory pid).drop addr).take count) s := by
    rw [← hbytes]
    exact (returns_guestMemory hp).bind (returns_pure _ s)
  have hlen : (((s.memory pid).drop addr).take count).length ≤ s.limit := by
    rw [List.length_take]
    omega
  exact hview.bind ((returns_alloc hlen).bind (returns_pure _ s))

theorem throws_sliceGuest {addr count : ℕ} (hp : p.wasmMemory = true) (hin : addr + count ≤ (s.memory pid).length)
    (hroom : s.limit < count) : Throws (sliceGuest pid p addr count) s () s := by
  have hbytes : subarray (s.memory pid) addr (addr + count : ℕ) = ((s.memory pid).drop addr).take count := by
    rw [FileContents.subarray_nat _ hin, Nat.add_sub_cancel_left]
  have hview : Returns (viewGuest pid p addr count) s (((s.memory pid).drop addr).take count) s := by
    rw [← hbytes]
    exact (returns_guestMemory hp).bind (returns_pure _ s)
  have hlen : s.limit < (((s.memory pid).drop addr).take count).length := by
    rw [List.length_take, List.length_drop]
    omega
  exact hview.throws (throws_alloc hlen).bind

/-! #### Words -/

@[simp] theorem length_wordBytes (w : ℕ) (n : ℤ) : (wordBytes w n).length = w := length_leBytes w _

theorem wordBytes_eq_iff {w : ℕ} {m n : ℤ} : wordBytes w m = wordBytes w n ↔ m ≡ n [ZMOD 256 ^ w] := by
  have hpos : (0 : ℤ) < 256 ^ w := Int.pow_pos (by decide)
  have hlt (k : ℤ) : (k % 256 ^ w).toNat < 256 ^ w := by
    have hmod := Int.emod_lt_of_pos k hpos
    have hcast : ((256 ^ w : ℕ) : ℤ) = 256 ^ w := by push_cast; rfl
    omega
  constructor
  · intro h
    have hnat := leBytes_injective (hlt m) (hlt n) h
    have hm := Int.emod_nonneg m hpos.ne'
    have hn := Int.emod_nonneg n hpos.ne'
    show m % 256 ^ w = n % 256 ^ w
    omega
  · intro h
    unfold wordBytes
    rw [h]

/-- The number that eight bytes are. -/
def signed64 (bytes : List UInt8) : ℤ :=
  if leNat bytes < 2 ^ 63 then (leNat bytes : ℤ) else (leNat bytes : ℤ) - 2 ^ 64

theorem wordBytes_signed64 {bytes : List UInt8} (h : bytes.length = 8) : wordBytes 8 (signed64 bytes) = bytes := by
  have hlt := leNat_lt bytes
  rw [h] at hlt
  have hmod : (signed64 bytes % 256 ^ 8).toNat = leNat bytes := by
    unfold signed64
    split_ifs <;> omega
  rw [wordBytes, hmod, ← h, leBytes_leNat]

theorem throws_loadBig {addr : ℕ} (h : ¬ (p.wasmMemory = true ∧ addr + 8 ≤ (s.memory pid).length)) :
    Throws (loadBig pid p addr) s () s := by
  by_cases hp : p.wasmMemory = true
  · refine (returns_guestMemory hp).throws ?_
    rw [not_and] at h
    have hout := h hp
    rw [if_pos (by omega)]
    exact throws_throw () s
  · have hnone : Throws (guestMemory pid p) s () s := by
      unfold guestMemory
      rw [if_neg hp]
      exact throws_throw () s
    exact hnone.bind

theorem returns_loadBig {addr : ℕ} (hp : p.wasmMemory = true) (hin : addr + 8 ≤ (s.memory pid).length) :
    Returns (loadBig pid p addr) s (signed64 (((s.memory pid).drop addr).take 8)) s := by
  refine (returns_guestMemory hp).bind ?_
  rw [if_neg (by omega)]
  exact returns_pure _ s

/-! ### Files -/

/-- The state with another filesystem. -/
def withVfs (s : FileIo.State) (v : Vfs) : FileIo.State := { s with kernel := { s.kernel with vfs := v } }

theorem returns_onVfs {f : ℕ → Vfs → Vfs × Option ℤ} {v : Vfs} {n : ℤ}
    (h : f s.limit s.kernel.vfs = (v, some n)) : Returns (onVfs f) s n (withVfs s v) := by
  refine returns_read ?_
  rw [h]
  exact (returns_modify _ s).bind (returns_pure n _)

theorem throws_onVfs {f : ℕ → Vfs → Vfs × Option ℤ} {v : Vfs} (h : f s.limit s.kernel.vfs = (v, none)) :
    Throws (onVfs f) s () (withVfs s v) := by
  refine (returns_get s).throws ?_
  rw [h]
  exact (returns_modify _ s).throws (throws_throw () _)

theorem returns_setPosition (vfsFd position : ℤ) :
    Returns (setPosition vfsFd position) s () (withVfs s (seek s.kernel.vfs vfsFd position)) :=
  returns_read (returns_modify _ s)

theorem returns_getFile {vfsFd : ℤ} {file : OpenFile} (hfile : s.kernel.vfs.openFiles.get? vfsFd = some file) :
    Returns (getFile vfsFd) s (some file) s := by
  show (Except.ok (s.kernel.vfs.openFiles.get? vfsFd), s) = _
  rw [hfile]

theorem returns_withFile {vfsFd : ℤ} {file : OpenFile} {body : OpenFile → Io ℤ} {n : ℤ} {s' : FileIo.State}
    (hfile : s.kernel.vfs.openFiles.get? vfsFd = some file) (h : Returns (body file) s n s') :
    Returns (withFile vfsFd body) s n s' := by
  exact (returns_getFile hfile).bind h

theorem throws_withFile {vfsFd : ℤ} {file : OpenFile} {body : OpenFile → Io ℤ} {s' : FileIo.State}
    (hfile : s.kernel.vfs.openFiles.get? vfsFd = some file) (h : Throws (body file) s () s') :
    Throws (withFile vfsFd body) s () s' := by
  exact (returns_getFile hfile).throws h

theorem throws_vfsRead {vfsFd : ℤ} {count : ℕ} {offset : ℤ} (hroom : s.limit < count) :
    Throws (vfsRead vfsFd count offset) s () s := (throws_alloc hroom).bind

theorem returns_vfsRead {vfsFd : ℤ} {count : ℕ} {offset : ℤ} (hroom : count ≤ s.limit)
    (hrandom : ∀ file, s.kernel.vfs.openFiles.get? vfsFd = some file → file.special ≠ some .urandom) :
    Returns (vfsRead vfsFd count offset) s (readFile s.kernel.vfs s.entropy vfsFd count offset) s := by
  refine (returns_alloc hroom).bind (returns_read ?_)
  have hnone : ¬ (s.kernel.vfs.openFiles.get? vfsFd).any fun file => file.special = some .urandom := by
    cases hfile : s.kernel.vfs.openFiles.get? vfsFd with
    | none => simp
    | some file => simpa using hrandom file hfile
  rw [if_neg hnone]
  exact returns_pure _ s

end FileOutcomes
