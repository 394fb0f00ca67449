/-
**A number in two words.**

`fs_fstat` returns the size and the mode of an open file in one number of up to 53 bits.  The kernel computes it
as a floating point number, cuts it into two words of 32 bits, and hands them over in two cells of the control
array; the worker joins them again, as big integers.  The second cell has other uses, and where no file is open
the kernel does not touch it.

Main definitions:

* `FstatWords.sysFsFstat` — the two cells after the kernel's part;
* `FstatWords.fsFstat` — the number that the worker makes of them;
* `FstatWords.Packs` — what the number is to be.

Main results:

* `FstatWords.join_split` — a number below 2⁵³ is joined as it was cut;
* `FstatWords.sysFsFstat_fst` — the first cell is the result of `Syscalls.sysFsFstat`;
* `FstatWords.packs_iff` — **when the number is what it is to be**.
-/

import AtuaComputer.Syscalls
import Mathlib.Data.Int.Bitwise

set_option relaxedAutoImplicit false
set_option autoImplicit false

namespace FstatWords

open VirtualFs
open FileIo (contentLength)

/-! ### The kernel and the worker -/

/-- The `mode` of an open file. -/
def modeOf (file : OpenFile) : ℕ :=
  if file.special.isSome then 0o20666 else if file.isDir then 0o40755 else 0o100755

/-- `packed & 0xFFFFFFFF`, a signed word. -/
def low (packed : ℕ) : Int32 := Int32.ofNat packed

/-- `Math.floor(packed / 0x100000000) & 0xFFFFFFFF` -/
def high (packed : ℕ) : Int32 := Int32.ofNat (packed / 2 ^ 32)

/-- `SYS_FS_FSTAT`: `control[8]` and `control[9]` after it, with what was in `control[9]`.  The number is a handle.
Sums below 2⁵³ are exact. -/
def sysFsFstat (v : Vfs) (a cell9 : Int32) : Int32 × Int32 :=
  match v.openFiles.get? a.toInt with
  | none => (if 2 < a.toInt then -1 else 0, cell9)
  | some file =>
    let packed := contentLength v file * 65536 + modeOf file
    (low packed, high packed)

/-- `(BigInt(hi) << 32n) | BigInt(lo >>> 0)` -/
def join (lo hi : Int32) : ℤ := Int.lor (hi.toInt * 2 ^ 32) lo.toUInt32.toNat

/-- `fs_fstat`, and the number that `fd_filestat_get` computes. -/
def fsFstat (v : Vfs) (handle cell9 : Int32) : ℤ :=
  let (lo, hi) := sysFsFstat v handle cell9
  join lo hi

/-- `(size << 16) | mode` of the file that is open under the handle, if its size is below 2³⁷; a negative number
where no file is open. -/
def Packs (v : Vfs) (handle cell9 : Int32) : Prop :=
  match v.openFiles.get? handle.toInt with
  | some file => contentLength v file < 2 ^ 37 →
      fsFstat v handle cell9 = ((contentLength v file <<< 16) ||| modeOf file : ℕ)
  | none => fsFstat v handle cell9 < 0

/-! ### Words -/

/-- The ones below 2³² in a number, without those of another. -/
theorem ldiff_ones (a : ℕ) {l : ℕ} (hl : l < 2 ^ 32) :
    Nat.ldiff (2 ^ 32 * a + (2 ^ 32 - 1)) l = 2 ^ 32 * a + (2 ^ 32 - (l + 1)) := by
  refine Nat.eq_of_testBit_eq fun i => ?_
  rw [Nat.testBit_ldiff, Nat.testBit_two_pow_mul_add a (by omega), Nat.testBit_two_pow_mul_add a (by omega),
    Nat.testBit_two_pow_sub_succ hl, Nat.testBit_two_pow_sub_one]
  split_ifs with hi
  · rfl
  · have hzero : Nat.testBit l i = false :=
      Nat.testBit_lt_two_pow (Nat.lt_of_lt_of_le hl (Nat.pow_le_pow_right (by decide) (by omega)))
    rw [hzero, Bool.not_false, Bool.and_true]

/-- The bits of a number below 2³² beside those of a multiple of 2³². -/
theorem lor_mul (h : ℤ) {l : ℕ} (hl : l < 2 ^ 32) : Int.lor (h * 2 ^ 32) l = h * 2 ^ 32 + l := by
  rcases Int.lt_or_le h 0 with hneg | hpos
  · -- a negative number is the complement of one that ends in ones
    obtain ⟨a, ha⟩ : ∃ a : ℕ, h * 2 ^ 32 = Int.negSucc (2 ^ 32 * a + (2 ^ 32 - 1)) := by
      refine ⟨(-h - 1).toNat, ?_⟩
      omega
    have hlor : Int.lor (Int.negSucc (2 ^ 32 * a + (2 ^ 32 - 1))) l =
        Int.negSucc (Nat.ldiff (2 ^ 32 * a + (2 ^ 32 - 1)) l) := rfl
    rw [ha, hlor, ldiff_ones a hl]
    omega
  · obtain ⟨a, rfl⟩ := Int.eq_ofNat_of_zero_le hpos
    have hmul : (a : ℤ) * 2 ^ 32 = ((2 ^ 32 * a : ℕ) : ℤ) := by omega
    have hlor : Int.lor ((2 ^ 32 * a : ℕ) : ℤ) l = ((2 ^ 32 * a ||| l : ℕ) : ℤ) := rfl
    rw [hmul, hlor, ← Nat.two_pow_add_eq_or_of_lt hl, Int.natCast_add]

theorem join_eq (lo hi : Int32) : join lo hi = hi.toInt * 2 ^ 32 + lo.toUInt32.toNat :=
  lor_mul hi.toInt lo.toUInt32.toNat_lt

/-- A word of a number. -/
theorem toNat_ofNat (n : ℕ) : (Int32.ofNat n).toUInt32.toNat = n % 2 ^ 32 := UInt32.toNat_ofNat'

/-- **A number below 2⁵³ is joined as it was cut.** -/
theorem join_split {packed : ℕ} (h : packed < 2 ^ 53) : join (low packed) (high packed) = packed := by
  have hhigh : (high packed).toInt = (packed / 2 ^ 32 : ℕ) := Int32.toInt_ofNat_of_lt (by omega)
  rw [join_eq, hhigh, low, toNat_ofNat]
  omega

/-! ### The number -/

theorem modeOf_lt (file : OpenFile) : modeOf file < 2 ^ 16 := by
  unfold modeOf
  split_ifs <;> decide

/-- The first cell is the result of the syscall. -/
theorem sysFsFstat_fst (s : FileIo.State) (a cell9 : Int32) :
    ((Syscalls.sysFsFstat a).run.run s).1 = .ok ((sysFsFstat s.kernel.vfs a cell9).1.toInt) := by
  have hget : (FileIo.getFile a.toInt).run.run s = (Except.ok (s.kernel.vfs.openFiles.get? a.toInt), s) := rfl
  unfold Syscalls.sysFsFstat sysFsFstat
  rw [ExceptT.run_bind, StateT.run_bind, hget]
  cases s.kernel.vfs.openFiles.get? a.toInt with
  | none =>
      show Except.ok (if 2 < a.toInt then -1 else 0) = _
      split_ifs <;> rfl
  | some file => rfl

/-- **When the number is what it is to be.** -/
theorem packs_iff (v : Vfs) (handle cell9 : Int32) :
    Packs v handle cell9 ↔ (v.openFiles.get? handle.toInt).isSome = true ∨ cell9 < 0 := by
  unfold Packs fsFstat sysFsFstat
  cases v.openFiles.get? handle.toInt with
  | none =>
      have hneg : ∀ lo : Int32, join lo cell9 < 0 ↔ cell9 < 0 := by
        intro lo
        have hlo := lo.toUInt32.toNat_lt
        have hzero : (0 : Int32).toInt = 0 := rfl
        rw [join_eq, Int32.lt_iff_toInt_lt, hzero]
        omega
      simp only [hneg, Option.isSome_none, Bool.false_eq_true, false_or]
  | some file =>
      refine iff_of_true (fun hsize => ?_) (Or.inl rfl)
      have hmode := modeOf_lt file
      have hor := Nat.shiftLeft_add_eq_or_of_lt hmode (contentLength v file)
      rw [Nat.shiftLeft_eq] at hor
      dsimp only
      rw [join_split (by omega), Nat.shiftLeft_eq, ← hor]

/-- **A handle under which no file is open, after a pipe was made.** -/
theorem not_packs : ¬ ∀ (v : Vfs) (handle cell9 : Int32), Packs v handle cell9 := by
  intro h
  have hclosed : fsFstat newVfs 7 1116176 < 0 := h newVfs 7 1116176
  exact absurd hclosed (by decide +kernel)

end FstatWords
