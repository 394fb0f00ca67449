/-
**Fixed-size binary codecs.**

A program that copies its fields one after the other into a buffer, and reads them back in the same
order, is correct field by field: reading a field from a buffer that begins with its bytes yields the
field and leaves the rest of the buffer.  A `Codec` is a pair of an encoder and a reader with exactly
that law, together with the number of bytes every value takes, so that the offset of a field is the
sum of the sizes before it.

Main definitions:

* `leBytes`, `leNat` — the little-endian bytes of a number, and back;
* `Block` — a byte string of a fixed length;
* `Codec` — an encoder, a reader, the size and the round-trip law;
* `Codec.block`, `Codec.u16`, `Codec.u32`, `Codec.u64`, `Codec.i32`, `Codec.i64` — the basic codecs;
* `Codec.vec` — arrays of a fixed length;
* `Codec.readList` — reading a list whose length was read before.

Main results:

* `leNat_leBytes`, `leBytes_leNat` — bytes and numbers below `256 ^ w` correspond;
* `leBytes_injective` — two numbers below `256 ^ w` with the same bytes are equal;
* `Codec.readList_enc` — a list is read back element by element.
-/

import Mathlib.Data.Fin.Tuple.Basic
import Mathlib.Data.List.Basic
import Mathlib.Algebra.Order.Ring.Int
import Mathlib.Tactic.Ring

set_option relaxedAutoImplicit false
set_option autoImplicit false

/-! ### Little-endian numbers -/

/-- The `w` little-endian bytes of `n`; what does not fit is dropped. -/
def leBytes : ℕ → ℕ → List UInt8
  | 0, _ => []
  | w + 1, n => UInt8.ofNat n :: leBytes w (n / 256)

/-- The number with the given little-endian bytes. -/
def leNat : List UInt8 → ℕ
  | [] => 0
  | b :: bs => b.toNat + 256 * leNat bs

@[simp] theorem length_leBytes (w n : ℕ) : (leBytes w n).length = w := by
  induction w generalizing n with
  | zero => rfl
  | succ w ih => rw [leBytes, List.length_cons, ih]

theorem leNat_lt (l : List UInt8) : leNat l < 256 ^ l.length := by
  induction l with
  | nil => simp [leNat]
  | cons b bs ih =>
      have hb : b.toNat < 256 := b.toNat_lt
      rw [leNat, List.length_cons, pow_succ]
      omega

/-- **A number that fits is read back.** -/
theorem leNat_leBytes {w n : ℕ} (h : n < 256 ^ w) : leNat (leBytes w n) = n := by
  induction w generalizing n with
  | zero => simp [leNat, leBytes] at h ⊢; omega
  | succ w ih =>
      have hdiv : n / 256 < 256 ^ w := by
        rw [pow_succ] at h
        omega
      have hlow : (UInt8.ofNat n).toNat = n % 256 := by simp
      rw [leBytes, leNat, ih hdiv, hlow]
      omega

/-- Bytes are determined by the number they spell. -/
theorem leBytes_leNat (l : List UInt8) : leBytes l.length (leNat l) = l := by
  induction l with
  | nil => rfl
  | cons b bs ih =>
      have hb : b.toNat < 256 := b.toNat_lt
      have hdiv : (b.toNat + 256 * leNat bs) / 256 = leNat bs := by omega
      have hlow : UInt8.ofNat (b.toNat + 256 * leNat bs) = b := by
        apply UInt8.toNat_inj.1
        simp
      rw [leNat, List.length_cons, leBytes, hdiv, ih, hlow]

theorem leBytes_injective {w n m : ℕ} (hn : n < 256 ^ w) (hm : m < 256 ^ w)
    (h : leBytes w n = leBytes w m) : n = m := by
  rw [← leNat_leBytes hn, ← leNat_leBytes hm, h]

/-! ### Blocks -/

/-- A byte string of length `n`. -/
structure Block (n : ℕ) where
  /-- The bytes. -/
  bytes : List UInt8
  /-- There are `n` of them. -/
  length_eq : bytes.length = n
deriving DecidableEq

@[ext] theorem Block.ext {n : ℕ} {a b : Block n} (h : a.bytes = b.bytes) : a = b := by
  cases a
  cases b
  simp only at h
  subst h
  rfl

/-- The block of zeros. -/
def Block.zero (n : ℕ) : Block n := ⟨List.replicate n 0, List.length_replicate⟩

instance (n : ℕ) : Inhabited (Block n) := ⟨Block.zero n⟩

/-! ### Codecs -/

/-- An encoder and a reader that undoes it, for values that all take `size` bytes. -/
structure Codec (α : Type) where
  /-- The bytes of a value. -/
  enc : α → List UInt8
  /-- Reading a value off the front of a buffer: the value and the rest of the buffer. -/
  read : List UInt8 → α × List UInt8
  /-- The number of bytes of every value. -/
  size : ℕ
  length_enc : ∀ a, (enc a).length = size
  read_enc : ∀ a rest, read (enc a ++ rest) = (a, rest)

namespace Codec

attribute [simp] length_enc read_enc

variable {α β : Type}

/-- A codec along a bijection. -/
def map (c : Codec α) (fwd : α → β) (back : β → α) (h : ∀ b, fwd (back b) = b) : Codec β where
  enc b := c.enc (back b)
  read r := (fwd (c.read r).1, (c.read r).2)
  size := c.size
  length_enc b := c.length_enc _
  read_enc b rest := by rw [c.read_enc, h]

/-- Copying `n` bytes.  A buffer that is too short is padded with zeros. -/
def block (n : ℕ) : Codec (Block n) where
  enc b := b.bytes
  read r := (⟨(r.take n).rightpad n 0, by simp [List.rightpad]⟩, r.drop n)
  size := n
  length_enc b := b.length_eq
  read_enc b rest := by
    have hb : b.bytes.length = n := b.length_eq
    refine Prod.ext (Block.ext ?_) ?_
    · simp [List.rightpad, ← hb]
    · simp [← hb]

/-- A number below `256 ^ w`, least significant byte first. -/
def nat (w : ℕ) : Codec {n : ℕ // n < 256 ^ w} where
  enc n := leBytes w n.1
  read r := (⟨leNat ((r.take w).rightpad w 0), by
      have h := leNat_lt ((r.take w).rightpad w 0)
      have hlen : ((r.take w).rightpad w 0).length = w := by simp [List.rightpad]
      rwa [hlen] at h⟩, r.drop w)
  size := w
  length_enc n := length_leBytes w n.1
  read_enc n rest := by
    have hlen : (leBytes w n.1).length = w := length_leBytes w n.1
    refine Prod.ext (Subtype.ext ?_) ?_
    · simp [List.rightpad, hlen, leNat_leBytes n.2]
    · simp [hlen]

/-- A 16-bit word. -/
def u16 : Codec UInt16 :=
  (nat 2).map (fun n => UInt16.ofNat n.1) (fun x => ⟨x.toNat, x.toNat_lt⟩) fun x => by simp

/-- A 32-bit word. -/
def u32 : Codec UInt32 :=
  (nat 4).map (fun n => UInt32.ofNat n.1) (fun x => ⟨x.toNat, x.toNat_lt⟩) fun x => by simp

/-- A 64-bit word. -/
def u64 : Codec UInt64 :=
  (nat 8).map (fun n => UInt64.ofNat n.1) (fun x => ⟨x.toNat, x.toNat_lt⟩) fun x => by simp

/-- A signed 32-bit word. -/
def i32 : Codec Int32 := u32.map UInt32.toInt32 Int32.toUInt32 fun _ => rfl

/-- A signed 64-bit word. -/
def i64 : Codec Int64 := u64.map UInt64.toInt64 Int64.toUInt64 fun _ => rfl

@[simp] theorem size_block (n : ℕ) : (block n).size = n := rfl
@[simp] theorem size_u16 : u16.size = 2 := rfl
@[simp] theorem size_u32 : u32.size = 4 := rfl
@[simp] theorem size_u64 : u64.size = 8 := rfl
@[simp] theorem size_i32 : i32.size = 4 := rfl
@[simp] theorem size_i64 : i64.size = 8 := rfl

/-- A block is read back from the bytes it stands for. -/
@[simp] theorem read_block {n : ℕ} (b : Block n) (rest : List UInt8) :
    (block n).read (b.bytes ++ rest) = (b, rest) :=
  (block n).read_enc b rest

/-- Two values one after the other. -/
def prod (c : Codec α) (d : Codec β) : Codec (α × β) where
  enc p := c.enc p.1 ++ d.enc p.2
  read r := (((c.read r).1, (d.read (c.read r).2).1), (d.read (c.read r).2).2)
  size := c.size + d.size
  length_enc p := by rw [List.length_append, length_enc, length_enc]
  read_enc p rest := by rw [List.append_assoc, read_enc, read_enc]

/-- An array of `n` values. -/
def vec (c : Codec α) : (n : ℕ) → Codec (Fin n → α)
  | 0 =>
    { enc := fun _ => []
      read := fun r => (Fin.elim0, r)
      size := 0
      length_enc := fun _ => rfl
      read_enc := fun f rest => by simp [Subsingleton.elim f Fin.elim0] }
  | n + 1 => (c.prod (vec c n)).map (fun p => Fin.cons p.1 p.2) (fun f => (f 0, Fin.tail f))
      fun f => Fin.cons_self_tail f

@[simp] theorem size_vec (c : Codec α) (n : ℕ) : (c.vec n).size = n * c.size := by
  induction n with
  | zero => simp [vec]
  | succ n ih =>
      have h : (c.vec (n + 1)).size = c.size + (c.vec n).size := rfl
      rw [h, ih]
      ring

/-- Reading `n` values one after the other. -/
def readList (c : Codec α) : ℕ → List UInt8 → List α × List UInt8
  | 0, r => ([], r)
  | n + 1, r =>
    let (a, r) := c.read r
    let (as, r) := c.readList n r
    (a :: as, r)

/-- **A list is read back.** -/
@[simp] theorem readList_enc (c : Codec α) (as : List α) (rest : List UInt8) :
    c.readList as.length (as.flatMap c.enc ++ rest) = (as, rest) := by
  induction as with
  | nil => rfl
  | cons a as ih =>
      rw [List.flatMap_cons, List.append_assoc, List.length_cons, readList]
      simp only [read_enc, ih]

theorem length_flatMap_enc (c : Codec α) (as : List α) :
    (as.flatMap c.enc).length = as.length * c.size := by
  induction as with
  | nil => simp
  | cons a as ih =>
      rw [List.flatMap_cons, List.length_append, c.length_enc, ih, List.length_cons]
      ring

end Codec
