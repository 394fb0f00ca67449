/-
**UTF-16 with unpaired surrogates.**

A string of a program that counts in UTF-16 is a list of code units, and not every list spells a text: a half of
a surrogate pair may stand alone.  Where such a string is handed on as a text, U+FFFD takes the place of what
stands alone.

Main definitions:

* `Utf16.ofText` — the code units of a text;
* `Utf16.toText` — the text of a list of code units;
* `Utf16.Paired` — no half of a pair stands alone.

Main results:

* `Utf16.toText_ofText` — a text is read back;
* `Utf16.ofText_toText_iff` — the strings that are read back as they were;
* `Utf16.nul_notMem_toText` — a string without the zero character has a text without it.
-/

import AtuaComputer.Utf8

set_option relaxedAutoImplicit false
set_option autoImplicit false

namespace Utf16

/-- The first half of a pair. -/
def IsHigh (u : UInt16) : Prop := 0xD800 ≤ u.toNat ∧ u.toNat < 0xDC00

/-- The second half of a pair. -/
def IsLow (u : UInt16) : Prop := 0xDC00 ≤ u.toNat ∧ u.toNat < 0xE000

instance (u : UInt16) : Decidable (IsHigh u) := inferInstanceAs (Decidable (_ ∧ _))

instance (u : UInt16) : Decidable (IsLow u) := inferInstanceAs (Decidable (_ ∧ _))

/-- The code units of a character. -/
def encodeChar (c : Char) : List UInt16 :=
  if c.toNat < 0x10000 then [UInt16.ofNat c.toNat]
  else [UInt16.ofNat (0xD800 + (c.toNat - 0x10000) / 0x400), UInt16.ofNat (0xDC00 + (c.toNat - 0x10000) % 0x400)]

/-- The code units of a text. -/
def ofText (s : List Char) : List UInt16 := s.flatMap encodeChar

/-- The character of a pair. -/
def pair (u v : UInt16) : Char := Char.ofNat (0x10000 + (u.toNat - 0xD800) * 0x400 + (v.toNat - 0xDC00))

/-- The text of a list of code units. -/
def toText : List UInt16 → List Char
  | [] => []
  | [u] => if IsHigh u ∨ IsLow u then [Utf8.replacement] else [Char.ofNat u.toNat]
  | u :: v :: us =>
    if IsHigh u ∧ IsLow v then pair u v :: toText us
    else if IsHigh u ∨ IsLow u then Utf8.replacement :: toText (v :: us)
    else Char.ofNat u.toNat :: toText (v :: us)

/-- No half of a pair stands alone. -/
def Paired : List UInt16 → Prop
  | [] => True
  | [u] => ¬ (IsHigh u ∨ IsLow u)
  | u :: v :: us =>
    if IsHigh u ∧ IsLow v then Paired us
    else ¬ (IsHigh u ∨ IsLow u) ∧ Paired (v :: us)

theorem toText_cons {u : UInt16} (h : ¬ IsHigh u) (hlow : ¬ IsLow u) (us : List UInt16) :
    toText (u :: us) = Char.ofNat u.toNat :: toText us := by
  cases us with
  | nil => exact if_neg (not_or.2 ⟨h, hlow⟩)
  | cons v us => rw [toText, if_neg fun hpair => h hpair.1, if_neg (not_or.2 ⟨h, hlow⟩)]

theorem toText_pair {u v : UInt16} (h : IsHigh u) (hlow : IsLow v) (us : List UInt16) :
    toText (u :: v :: us) = pair u v :: toText us := by
  rw [toText, if_pos ⟨h, hlow⟩]

theorem toNat_ofNat_of_lt {n : ℕ} (h : n < 0x10000) : (UInt16.ofNat n).toNat = n := by
  rw [UInt16.toNat_ofNat']
  exact Nat.mod_eq_of_lt h

/-- A character is read back. -/
theorem toText_encodeChar (c : Char) (us : List UInt16) : toText (encodeChar c ++ us) = c :: toText us := by
  have hc := Utf8.toNat_bounds c
  unfold encodeChar
  split_ifs with h
  · have hu := toNat_ofNat_of_lt h
    rw [List.singleton_append, toText_cons, hu, Char.ofNat_toNat]
    · rintro ⟨hlo, hhi⟩
      omega
    · rintro ⟨hlo, hhi⟩
      omega
  · have hu : (UInt16.ofNat (0xD800 + (c.toNat - 0x10000) / 0x400)).toNat = 0xD800 + (c.toNat - 0x10000) / 0x400 :=
      toNat_ofNat_of_lt (by omega)
    have hv : (UInt16.ofNat (0xDC00 + (c.toNat - 0x10000) % 0x400)).toNat = 0xDC00 + (c.toNat - 0x10000) % 0x400 :=
      toNat_ofNat_of_lt (by omega)
    have hcode : 0x10000 + (0xD800 + (c.toNat - 0x10000) / 0x400 - 0xD800) * 0x400 +
        (0xDC00 + (c.toNat - 0x10000) % 0x400 - 0xDC00) = c.toNat := by omega
    rw [List.cons_append, List.singleton_append, toText_pair, pair, hu, hv, hcode, Char.ofNat_toNat]
    · unfold IsHigh
      omega
    · unfold IsLow
      omega

theorem ofText_cons (c : Char) (s : List Char) : ofText (c :: s) = encodeChar c ++ ofText s := rfl

/-- **A text is read back.** -/
theorem toText_ofText (s : List Char) : toText (ofText s) = s := by
  induction s with
  | nil => rfl
  | cons c s ih => rw [ofText_cons, toText_encodeChar, ih]

/-- The number of the character with a given number. -/
theorem toNat_ofNat {n : ℕ} (h : n.isValidChar) : (Char.ofNat n).toNat = n := by
  rw [Char.ofNat, dif_pos h]
  exact UInt32.toNat_ofNatLT

/-- A character that stands for more than one unit, or for one that stands alone, is not the zero character. -/
theorem ofNat_eq_nul {n : ℕ} (h : n.isValidChar) : Char.ofNat n = Char.ofNat 0 ↔ n = 0 := by
  refine ⟨fun heq => ?_, fun hn => by rw [hn]⟩
  have hval := congrArg Char.toNat heq
  rwa [toNat_ofNat h, toNat_ofNat (by decide)] at hval

theorem isValidChar_unit {u : UInt16} (h : ¬ IsHigh u) (hlow : ¬ IsLow u) : u.toNat.isValidChar := by
  have hlt := u.toNat_lt
  unfold IsHigh at h
  unfold IsLow at hlow
  unfold Nat.isValidChar
  omega

theorem isValidChar_pair {u v : UInt16} (h : IsHigh u) (hlow : IsLow v) :
    (0x10000 + (u.toNat - 0xD800) * 0x400 + (v.toNat - 0xDC00)).isValidChar := by
  unfold IsHigh at h
  unfold IsLow at hlow
  unfold Nat.isValidChar
  omega

/-! ### Strings that are read back -/

theorem encodeChar_unit {u : UInt16} (h : ¬ (IsHigh u ∨ IsLow u)) : encodeChar (Char.ofNat u.toNat) = [u] := by
  obtain ⟨hhigh, hlow⟩ := not_or.1 h
  rw [encodeChar, toNat_ofNat (isValidChar_unit hhigh hlow), if_pos u.toNat_lt, UInt16.ofNat_toNat]

theorem encodeChar_pair {u v : UInt16} (h : IsHigh u) (hlow : IsLow v) : encodeChar (pair u v) = [u, v] := by
  have hcode := toNat_ofNat (isValidChar_pair h hlow)
  unfold IsHigh at h
  unfold IsLow at hlow
  have hu : 0xD800 + (0x10000 + (u.toNat - 0xD800) * 0x400 + (v.toNat - 0xDC00) - 0x10000) / 0x400 = u.toNat := by omega
  have hv : 0xDC00 + (0x10000 + (u.toNat - 0xD800) * 0x400 + (v.toNat - 0xDC00) - 0x10000) % 0x400 = v.toNat := by omega
  rw [encodeChar, pair, hcode, if_neg (by omega), hu, hv, UInt16.ofNat_toNat, UInt16.ofNat_toNat]

/-- What stands for half of a pair is no half of a pair. -/
theorem encodeChar_replacement_append_ne {u : UInt16} (h : IsHigh u ∨ IsLow u) (us vs : List UInt16) :
    encodeChar Utf8.replacement ++ us ≠ u :: vs := by
  have hone : encodeChar Utf8.replacement = [0xFFFD] := by decide
  rw [hone, List.singleton_append, ne_eq, List.cons.injEq, not_and]
  rintro rfl
  exact absurd h (by decide)

/-- **Exactly the strings without half pairs are read back as they were.** -/
theorem ofText_toText_iff (us : List UInt16) : ofText (toText us) = us ↔ Paired us := by
  induction us using toText.induct with
  | case1 => exact iff_of_true rfl trivial
  | case2 u hsurrogate =>
      rw [toText, if_pos hsurrogate, ofText_cons]
      exact iff_of_false (encodeChar_replacement_append_ne hsurrogate _ _) fun hpaired => hpaired hsurrogate
  | case3 u hsurrogate =>
      rw [toText, if_neg hsurrogate, ofText_cons, encodeChar_unit hsurrogate]
      exact iff_of_true rfl hsurrogate
  | case4 u v us hpair ih =>
      rw [toText, if_pos hpair, Paired, if_pos hpair, ofText_cons, encodeChar_pair hpair.1 hpair.2, ← ih]
      simp
  | case5 u v us hpair hsurrogate ih =>
      rw [toText, if_neg hpair, if_pos hsurrogate, Paired, if_neg hpair, ofText_cons]
      exact iff_of_false (encodeChar_replacement_append_ne hsurrogate _ _) fun hpaired => hpaired.1 hsurrogate
  | case6 u v us hpair hsurrogate ih =>
      rw [toText, if_neg hpair, if_neg hsurrogate, Paired, if_neg hpair, ofText_cons, encodeChar_unit hsurrogate,
        and_iff_right hsurrogate, ← ih]
      simp

/-- **A string without the zero character has a text without it.** -/
theorem nul_notMem_toText {us : List UInt16} (h : 0 ∉ us) : Char.ofNat 0 ∉ toText us := by
  have hreplacement : Char.ofNat 0 ≠ Utf8.replacement := by decide
  have hunit : ∀ u : UInt16, u ≠ 0 → ¬ IsHigh u → ¬ IsLow u → Char.ofNat 0 ≠ Char.ofNat u.toNat := by
    intro u hu hhigh hlow heq
    exact hu (UInt16.toNat_inj.1 ((ofNat_eq_nul (isValidChar_unit hhigh hlow)).1 heq.symm))
  induction us using toText.induct with
  | case1 => exact List.not_mem_nil
  | case2 u hsurrogate =>
      rw [toText, if_pos hsurrogate]
      exact List.mem_singleton.not.2 hreplacement
  | case3 u hsurrogate =>
      obtain ⟨hhigh, hlow⟩ := not_or.1 hsurrogate
      rw [toText, if_neg hsurrogate]
      exact List.mem_singleton.not.2 (hunit u (fun hu => h (hu ▸ List.mem_cons_self)) hhigh hlow)
  | case4 u v us hpair ih =>
      rw [toText, if_pos hpair, List.mem_cons, not_or]
      refine ⟨fun heq => ?_, ih fun hmem => h (List.mem_cons_of_mem _ (List.mem_cons_of_mem _ hmem))⟩
      have hzero := (ofNat_eq_nul (isValidChar_pair hpair.1 hpair.2)).1 heq.symm
      omega
  | case5 u v us hpair hsurrogate ih =>
      rw [toText, if_neg hpair, if_pos hsurrogate, List.mem_cons, not_or]
      exact ⟨hreplacement, ih fun hmem => h (List.mem_cons_of_mem _ hmem)⟩
  | case6 u v us hpair hsurrogate ih =>
      obtain ⟨hhigh, hlow⟩ := not_or.1 hsurrogate
      rw [toText, if_neg hpair, if_neg hsurrogate, List.mem_cons, not_or]
      exact ⟨hunit u (fun hu => h (hu ▸ List.mem_cons_self)) hhigh hlow,
        ih fun hmem => h (List.mem_cons_of_mem _ hmem)⟩

end Utf16
