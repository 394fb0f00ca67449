/-
**UTF-8, decoded with replacement.**

A decoder that never fails reads every character that is well formed and puts U+FFFD in the place of what
is not.  It goes byte by byte: the first byte of a character says how many more are owed and what the next
one may be, and a byte that is not what is owed ends the character before it and is read again as a first
byte.  What such a decoder returns need not be what was encoded, so a byte string that is decoded and
encoded again may come back as another one; this module says which byte strings come back.

Main definitions:

* `Utf8.encode` — the bytes of a text;
* `Utf8.run` — the decoder from a state between two bytes;
* `Utf8.decode` — the text of a byte string, without the byte order mark in front;
* `Utf8.reencode` — decoding and encoding again.

Main results:

* `Utf8.run_encode` — the decoder reads back what was encoded;
* `Utf8.reencode_eq_iff` — **a byte string comes back if and only if it is the encoding of a text that does
  not begin with a byte order mark**.
-/

import Mathlib.Data.List.Basic
import Mathlib.Data.List.Flatten

set_option relaxedAutoImplicit false
set_option autoImplicit false

namespace Utf8

/-! ### Encoding and decoding -/

/-- What stands for bytes that are not well formed. -/
def replacement : Char := '\uFFFD'

/-- The byte order mark. -/
def bom : Char := '\uFEFF'

/-- `TextEncoder.encode` -/
def encode (s : List Char) : List UInt8 := s.flatMap String.utf8EncodeChar

/-- The decoder between two bytes: the bits of the code point so far, how many bytes are owed, and the
bounds on the next of them. -/
structure Decoder where
  codePoint : ℕ
  owed : ℕ
  lower : ℕ
  upper : ℕ

/-- The decoder between two characters. -/
def Decoder.start : Decoder := ⟨0, 0, 0x80, 0xBF⟩

/-- The first byte of a character. -/
def lead (b : ℕ) : Decoder × List Char :=
  if b ≤ 0x7F then (Decoder.start, [Char.ofNat b])
  else if 0xC2 ≤ b ∧ b ≤ 0xDF then (⟨b % 0x20, 1, 0x80, 0xBF⟩, [])
  else if 0xE0 ≤ b ∧ b ≤ 0xEF then
    (⟨b % 0x10, 2, if b = 0xE0 then 0xA0 else 0x80, if b = 0xED then 0x9F else 0xBF⟩, [])
  else if 0xF0 ≤ b ∧ b ≤ 0xF4 then
    (⟨b % 0x08, 3, if b = 0xF0 then 0x90 else 0x80, if b = 0xF4 then 0x8F else 0xBF⟩, [])
  else (Decoder.start, [replacement])

/-- The next byte.  One that is not what is owed is read again, as a first byte. -/
def next (d : Decoder) (b : ℕ) : Decoder × List Char :=
  if d.owed = 0 then lead b
  else if b < d.lower ∨ d.upper < b then ((lead b).1, replacement :: (lead b).2)
  else if d.owed = 1 then (Decoder.start, [Char.ofNat (d.codePoint * 64 + b % 64)])
  else (⟨d.codePoint * 64 + b % 64, d.owed - 1, 0x80, 0xBF⟩, [])

/-- All bytes; a character that the end cuts off is replaced. -/
def run : Decoder → List UInt8 → List Char
  | d, [] => if d.owed = 0 then [] else [replacement]
  | d, b :: bs => (next d b.toNat).2 ++ run (next d b.toNat).1 bs

/-- A text without the byte order mark in front. -/
def stripBom (s : List Char) : List Char := if s.head? = some bom then s.tail else s

/-- `new TextDecoder().decode` -/
def decode (bs : List UInt8) : List Char := stripBom (run Decoder.start bs)

/-- Decoding and encoding again. -/
def reencode (bs : List UInt8) : List UInt8 := encode (decode bs)

@[simp] theorem encode_nil : encode [] = [] := rfl

theorem encode_cons (c : Char) (s : List Char) : encode (c :: s) = String.utf8EncodeChar c ++ encode s := rfl

theorem encode_append (s s' : List Char) : encode (s ++ s') = encode s ++ encode s' :=
  List.flatMap_append

@[simp] theorem run_start_nil : run Decoder.start [] = [] := rfl

/-! ### The decoder reads back what was encoded -/

/-- A byte of an encoding, as a number. -/
theorem toNat_ofNat_of_lt {n : ℕ} (h : n < 256) : (UInt8.ofNat n).toNat = n := by
  rw [UInt8.toNat_ofNat']
  exact Nat.mod_eq_of_lt h

/-- A character is no surrogate and not too large. -/
theorem toNat_bounds (c : Char) : c.toNat < 0xD800 ∨ 0xDFFF < c.toNat ∧ c.toNat < 0x110000 := c.valid

/-- A byte that starts a character of two bytes. -/
theorem lead_two {b : ℕ} (hlo : 0xC2 ≤ b) (hhi : b ≤ 0xDF) : lead b = (⟨b % 0x20, 1, 0x80, 0xBF⟩, []) := by
  rw [lead, if_neg (by omega), if_pos ⟨hlo, hhi⟩]

/-- A byte that starts a character of three bytes. -/
theorem lead_three {b : ℕ} (hlo : 0xE0 ≤ b) (hhi : b ≤ 0xEF) : lead b =
    (⟨b % 0x10, 2, if b = 0xE0 then 0xA0 else 0x80, if b = 0xED then 0x9F else 0xBF⟩, []) := by
  rw [lead, if_neg (by omega), if_neg (by omega), if_pos ⟨hlo, hhi⟩]

/-- A byte that starts a character of four bytes. -/
theorem lead_four {b : ℕ} (hlo : 0xF0 ≤ b) (hhi : b ≤ 0xF4) : lead b =
    (⟨b % 0x08, 3, if b = 0xF0 then 0x90 else 0x80, if b = 0xF4 then 0x8F else 0xBF⟩, []) := by
  rw [lead, if_neg (by omega), if_neg (by omega), if_neg (by omega), if_pos ⟨hlo, hhi⟩]

/-- The last byte that is owed ends the character. -/
theorem next_last {cp lo hi b : ℕ} (hlo : lo ≤ b) (hhi : b ≤ hi) :
    next ⟨cp, 1, lo, hi⟩ b = (Decoder.start, [Char.ofNat (cp * 64 + b % 64)]) := by
  rw [next, if_neg (by simp), if_neg (by simp only; omega), if_pos rfl]

/-- A byte that is owed and not the last. -/
theorem next_more {cp n lo hi b : ℕ} (hlo : lo ≤ b) (hhi : b ≤ hi) :
    next ⟨cp, n + 2, lo, hi⟩ b = (⟨cp * 64 + b % 64, n + 1, 0x80, 0xBF⟩, []) := by
  rw [next, if_neg (by simp), if_neg (by simp only; omega), if_neg (by simp)]
  rfl

@[simp] theorem next_start (b : ℕ) : next Decoder.start b = lead b := if_pos rfl

/-- **A character is read back.** -/
theorem run_encodeChar (c : Char) (bs : List UInt8) :
    run Decoder.start (String.utf8EncodeChar c ++ bs) = c :: run Decoder.start bs := by
  have hc := toNat_bounds c
  have hval : c.val.toNat = c.toNat := rfl
  unfold String.utf8EncodeChar
  simp only [hval]
  -- the cases are those of the encoder; in each the bits of the bytes add up to the code point
  split
  · rename_i h
    have hb : (UInt8.ofNat c.toNat).toNat = c.toNat := toNat_ofNat_of_lt (by omega)
    simp [run, hb, lead, h]
  split
  · rename_i h₁ h₂
    have hcp : (c.toNat / 64 % 32 + 0xc0) % 32 * 64 + (c.toNat % 64 + 0x80) % 64 = c.toNat := by omega
    simp only [List.cons_append, List.nil_append, run, next_start]
    rw [toNat_ofNat_of_lt (by omega), toNat_ofNat_of_lt (by omega), lead_two (by omega) (by omega),
      next_last (by omega) (by omega), hcp, Char.ofNat_toNat]
    rfl
  split
  · rename_i h₁ h₂ h₃
    have hcp : ((c.toNat / 4096 % 16 + 0xe0) % 16 * 64 + (c.toNat / 64 % 64 + 0x80) % 64) * 64 +
        (c.toNat % 64 + 0x80) % 64 = c.toNat := by omega
    simp only [List.cons_append, List.nil_append, run, next_start]
    rw [toNat_ofNat_of_lt (by omega), toNat_ofNat_of_lt (by omega), toNat_ofNat_of_lt (by omega),
      lead_three (by omega) (by omega), next_more (by split <;> omega) (by split <;> omega),
      next_last (by omega) (by omega), hcp, Char.ofNat_toNat]
    rfl
  · rename_i h₁ h₂ h₃
    have hcp : (((c.toNat / 262144 % 8 + 0xf0) % 8 * 64 + (c.toNat / 4096 % 64 + 0x80) % 64) * 64 +
        (c.toNat / 64 % 64 + 0x80) % 64) * 64 + (c.toNat % 64 + 0x80) % 64 = c.toNat := by omega
    simp only [List.cons_append, List.nil_append, run, next_start]
    rw [toNat_ofNat_of_lt (by omega), toNat_ofNat_of_lt (by omega), toNat_ofNat_of_lt (by omega),
      toNat_ofNat_of_lt (by omega), lead_four (by omega) (by omega),
      next_more (by split <;> omega) (by split <;> omega), next_more (by omega) (by omega),
      next_last (by omega) (by omega), hcp, Char.ofNat_toNat]
    rfl

/-- **The decoder reads back what was encoded.** -/
theorem run_encode (s : List Char) : run Decoder.start (encode s) = s := by
  induction s with
  | nil => rfl
  | cons c s ih => rw [encode_cons, run_encodeChar, ih]

/-- Different texts have different encodings. -/
theorem encode_injective : Function.Injective encode := Function.LeftInverse.injective run_encode

theorem decode_encode (s : List Char) : decode (encode s) = stripBom s := by
  rw [decode, run_encode]

/-! ### What comes back -/

theorem stripBom_of_ne {s : List Char} (h : s.head? ≠ some bom) : stripBom s = s := if_neg h

/-- Only the byte order mark can be missing. -/
theorem stripBom_sublist (s : List Char) : (stripBom s).Sublist s := by
  unfold stripBom
  split
  · exact List.tail_sublist s
  · exact List.Sublist.refl s

/-- What is stripped of nothing has no byte order mark in front. -/
theorem stripBom_eq_self_iff {s : List Char} : stripBom s = s ↔ s.head? ≠ some bom := by
  refine ⟨fun h hbom => ?_, stripBom_of_ne⟩
  cases s with
  | nil => simp at hbom
  | cons c s =>
      rw [stripBom, if_pos hbom] at h
      exact List.cons_ne_self c s h.symm

/-- **A byte string comes back if and only if it is the encoding of a text that does not begin with a byte
order mark.** -/
theorem reencode_eq_iff {bs : List UInt8} :
    reencode bs = bs ↔ ∃ s : List Char, bs = encode s ∧ s.head? ≠ some bom := by
  constructor
  · intro h
    have hstrip : stripBom (decode bs) = decode bs := by
      rw [← decode_encode]
      exact congrArg decode h
    exact ⟨decode bs, h.symm, stripBom_eq_self_iff.1 hstrip⟩
  · rintro ⟨s, rfl, hbom⟩
    rw [reencode, decode_encode, stripBom_of_ne hbom]

/-- An encoding comes back, perhaps without its byte order mark. -/
theorem reencode_encode_sublist (s : List Char) : (reencode (encode s)).Sublist (encode s) := by
  rw [reencode, decode_encode]
  exact (stripBom_sublist s).flatMap _

end Utf8
