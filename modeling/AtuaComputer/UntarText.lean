/-
**Text and records of an archive.**

The text of an extended header is UTF-8, which the reader decodes without checking it.  What was encoded is
read back, character by character.  A record has its own length in front, which counts the digits it is
written with as well, so the writer has to find a number that agrees with itself.  The reader takes a record
apart by a pattern whose value part does not match a line end, so a record is read back if and only if its
value has none, and a value of digits only comes back as a number.

Main definitions:

* `Untar.recordLength` — the length of a record, its digits included;
* `Untar.Record`, `Untar.Record.encode` — a record and its bytes;
* `Untar.Record.OneLine` — the value has no line end.

Main results:

* `Untar.decodeUTF8_encode` — **the decoder reads back what was encoded**;
* `Untar.recordLength_eq` — the length agrees with itself;
* `Untar.parsePax_encode` — **records are read back**, in order, if and only if all values are on one line.
-/

import AtuaComputer.Untar
import Mathlib.Data.Nat.Digits.Lemmas

set_option relaxedAutoImplicit false
set_option autoImplicit false

namespace Untar

open JsNumber

/-! ### The decoder -/

@[simp] theorem map_ok {α β : Type} (f : α → β) (a : α) : f <$> (Except.ok a : Except Thrown α) = .ok (f a) := rfl

/-- The code units of a character are put in front of the rest. -/
theorem withCodePoint_toNat (c : Char) (rest : Except Thrown Text) :
    withCodePoint c.toNat rest = (Utf16.encodeChar c ++ ·) <$> rest := by
  have hc := Utf8.toNat_bounds c
  unfold withCodePoint Utf16.encodeChar
  by_cases h : c.toNat < 0x10000
  · rw [if_pos (by omega), if_pos h]
    rfl
  · rw [if_neg (by omega), if_pos (by omega), if_neg h]

/-- A character is read back. -/
theorem decodeFrom_encodeChar (i : ℕ) (c : Char) (bs : List UInt8) : ∃ j,
    decodeFrom i (String.utf8EncodeChar c ++ bs) = (Utf16.encodeChar c ++ ·) <$> decodeFrom j bs := by
  have hc := Utf8.toNat_bounds c
  have hval : c.val.toNat = c.toNat := rfl
  simp only [← withCodePoint_toNat]
  unfold String.utf8EncodeChar
  simp only [hval]
  -- the cases are those of the encoder; in each the bits of the bytes add up to the code point
  split
  · rename_i h
    refine ⟨i + 1, ?_⟩
    rw [List.singleton_append, decodeFrom.eq_def]
    dsimp only
    rw [Utf8.toNat_ofNat_of_lt (by omega), if_pos (by omega)]
  split
  · rename_i h₁ h₂
    refine ⟨i + 2, ?_⟩
    have hcp : (c.toNat / 64 % 32 + 0xc0) % 32 * 64 + (c.toNat % 64 + 0x80) % 64 = c.toNat := by omega
    simp only [List.cons_append, List.nil_append, decodeFrom]
    rw [Utf8.toNat_ofNat_of_lt (by omega), Utf8.toNat_ofNat_of_lt (by omega), if_neg (by omega), if_pos (by omega), hcp]
  split
  · rename_i h₁ h₂ h₃
    refine ⟨i + 3, ?_⟩
    have hcp : (c.toNat / 4096 % 16 + 0xe0) % 16 * 4096 + (c.toNat / 64 % 64 + 0x80) % 64 * 64 +
        (c.toNat % 64 + 0x80) % 64 = c.toNat := by omega
    simp only [List.cons_append, List.nil_append, decodeFrom]
    rw [Utf8.toNat_ofNat_of_lt (by omega), Utf8.toNat_ofNat_of_lt (by omega), Utf8.toNat_ofNat_of_lt (by omega),
      if_neg (by omega), if_neg (by omega), if_pos (by omega), hcp]
  · rename_i h₁ h₂ h₃
    refine ⟨i + 4, ?_⟩
    have hcp : (c.toNat / 262144 % 8 + 0xf0) % 8 * 262144 + (c.toNat / 4096 % 64 + 0x80) % 64 * 4096 +
        (c.toNat / 64 % 64 + 0x80) % 64 * 64 + (c.toNat % 64 + 0x80) % 64 = c.toNat := by omega
    simp only [List.cons_append, List.nil_append, decodeFrom]
    rw [Utf8.toNat_ofNat_of_lt (by omega), Utf8.toNat_ofNat_of_lt (by omega), Utf8.toNat_ofNat_of_lt (by omega),
      Utf8.toNat_ofNat_of_lt (by omega), if_neg (by omega), if_neg (by omega), if_neg (by omega), if_pos (by omega),
      hcp]

/-- What was encoded is read back from any index on. -/
theorem decodeFrom_encode (s : List Char) : ∀ i, decodeFrom i (Utf8.encode s) = .ok (Utf16.ofText s) := by
  induction s with
  | nil =>
      intro i
      rfl
  | cons c s ih =>
      intro i
      obtain ⟨j, hj⟩ := decodeFrom_encodeChar i c (Utf8.encode s)
      rw [Utf8.encode_cons, hj, ih j]
      rfl

/-- **The decoder reads back what was encoded.** -/
theorem decodeUTF8_encode (s : List Char) : decodeUTF8 (Utf8.encode s) = .ok (Utf16.ofText s) :=
  decodeFrom_encode s 0

/-! ### Code units of a text -/

theorem ofText_append (s s' : List Char) : Utf16.ofText (s ++ s') = Utf16.ofText s ++ Utf16.ofText s' :=
  List.flatMap_append

theorem ofText_injective : Function.Injective Utf16.ofText := Function.LeftInverse.injective Utf16.toText_ofText

/-- The literals have different code units. -/
@[simp] theorem units_inj {s t : String} : units s = units t ↔ s = t := by
  rw [units, units, ofText_injective.eq_iff, String.toList_inj]

/-- A unit that is no half of a pair stands for its own character. -/
theorem mem_of_mem_ofText {s : List Char} {u : UInt16} (h : u ∈ Utf16.ofText s) (hhigh : ¬ Utf16.IsHigh u)
    (hlow : ¬ Utf16.IsLow u) : Char.ofNat u.toNat ∈ s := by
  obtain ⟨c, hc, hu⟩ := List.mem_flatMap.1 h
  have hbounds := Utf8.toNat_bounds c
  unfold Utf16.IsHigh at hhigh
  unfold Utf16.IsLow at hlow
  unfold Utf16.encodeChar at hu
  split_ifs at hu with hsmall
  · rw [List.mem_singleton.1 hu, Utf16.toNat_ofNat_of_lt hsmall, Char.ofNat_toNat]
    exact hc
  · rcases List.mem_cons.1 hu with rfl | hu
    · rw [Utf16.toNat_ofNat_of_lt (by omega)] at hhigh
      omega
    · rw [List.mem_singleton.1 hu, Utf16.toNat_ofNat_of_lt (by omega)] at hlow
      omega

/-- A character outside the pairs is a unit of the text. -/
theorem mem_ofText_of_mem {s : List Char} {c : Char} (h : c ∈ s) (hc : c.toNat < 0x10000) :
    UInt16.ofNat c.toNat ∈ Utf16.ofText s := by
  refine List.mem_flatMap.2 ⟨c, h, ?_⟩
  rw [Utf16.encodeChar, if_pos hc]
  exact List.mem_singleton_self _

/-- The text has the unit if and only if it has the character. -/
theorem mem_ofText_iff {s : List Char} {c : Char} (hc : c.toNat < 0x10000) :
    UInt16.ofNat c.toNat ∈ Utf16.ofText s ↔ c ∈ s := by
  refine ⟨fun h => ?_, fun h => mem_ofText_of_mem h hc⟩
  have hbounds := Utf8.toNat_bounds c
  have hunit := Utf16.toNat_ofNat_of_lt hc
  have hchar := mem_of_mem_ofText h (by unfold Utf16.IsHigh; omega) (by unfold Utf16.IsLow; omega)
  rwa [hunit, Char.ofNat_toNat] at hchar

/-- Characters of one byte each. -/
def Ascii (s : List Char) : Prop := ∀ c ∈ s, c.toNat < 0x80

theorem Ascii.append {s s' : List Char} (h : Ascii s) (h' : Ascii s') : Ascii (s ++ s') := by
  intro c hc
  rcases List.mem_append.1 hc with hc | hc
  · exact h c hc
  · exact h' c hc

theorem encode_ascii {s : List Char} (h : Ascii s) : Utf8.encode s = s.map fun c => UInt8.ofNat c.toNat := by
  induction s with
  | nil => rfl
  | cons c s ih =>
      have hc : c.toNat ≤ 127 := Nat.le_of_lt_succ (h c List.mem_cons_self)
      rw [Utf8.encode_cons, ih fun d hd => h d (List.mem_cons_of_mem c hd)]
      simp [String.utf8EncodeChar, hc]

theorem ofText_ascii {s : List Char} (h : Ascii s) : Utf16.ofText s = s.map fun c => UInt16.ofNat c.toNat := by
  induction s with
  | nil => rfl
  | cons c s ih =>
      have hc : c.toNat < 0x80 := h c List.mem_cons_self
      rw [Utf16.ofText_cons, ih fun d hd => h d (List.mem_cons_of_mem c hd), Utf16.encodeChar, if_pos (by omega)]
      rfl

/-! ### Numerals in a text -/

/-- The character of a digit. -/
def digitChar (d : ℕ) : Char := Char.ofNat (48 + d)

theorem toNat_digitChar {d : ℕ} (h : d < 10) : (digitChar d).toNat = 48 + d :=
  Utf16.toNat_ofNat (Or.inl (by omega))

theorem ascii_digits {ds : List ℕ} (h : ∀ d ∈ ds, d < 10) : Ascii (ds.map digitChar) := by
  intro c hc
  obtain ⟨d, hd, rfl⟩ := List.mem_map.1 hc
  have hlt := h d hd
  rw [toNat_digitChar hlt]
  omega

theorem ofText_digits {ds : List ℕ} (h : ∀ d ∈ ds, d < 10) : Utf16.ofText (ds.map digitChar) = ds.map digitUnit := by
  rw [ofText_ascii (ascii_digits h), List.map_map]
  refine List.map_congr_left fun d hd => ?_
  rw [Function.comp_apply, toNat_digitChar (h d hd), digitUnit]

/-! ### The length of a record -/

/-- The length of a record that has `n` bytes without its digits: the digits of a first guess are counted. -/
def recordLength (n : ℕ) : ℕ := n + (numeral 10 (n + (numeral 10 n).length)).length

theorem length_numeral_le_iff {n k : ℕ} : (numeral 10 n).length ≤ k ↔ n < 10 ^ k := by
  rw [numeral, List.length_reverse]
  exact Nat.digits_length_le_iff (by omega) n

/-- **The length agrees with itself**: with the digits that it has it is the length of the record. -/
theorem recordLength_eq (n : ℕ) : n + (numeral 10 (recordLength n)).length = recordLength n := by
  have hd : ∀ k, (numeral 10 n).length ≤ k ↔ n < 10 ^ k := fun k => length_numeral_le_iff
  rw [recordLength]
  generalize (numeral 10 n).length = d at hd
  have he : ∀ k, (numeral 10 (n + d)).length ≤ k ↔ n + d < 10 ^ k := fun k => length_numeral_le_iff
  generalize (numeral 10 (n + d)).length = e at he
  have hn : n < 10 ^ d := (hd d).1 le_rfl
  have hguess : n + d < 10 ^ e := (he e).1 le_rfl
  have hdigit : d < 10 ^ d := Nat.lt_pow_self (by omega)
  have hpow : 10 ^ (d + 1) = 10 * 10 ^ d := pow_succ' 10 d
  -- the guess has as many digits as the number or one more
  have hle : e ≤ d + 1 := (he (d + 1)).2 (by omega)
  have hge : d ≤ e := (hd e).2 (by omega)
  refine congrArg (n + ·) (Nat.le_antisymm (length_numeral_le_iff.2 ?_) ?_)
  · rcases Nat.lt_or_ge e (d + 1) with hlt | hmore
    · omega
    · rw [Nat.le_antisymm hle hmore]
      omega
  · have hlast : n + e < 10 ^ (numeral 10 (n + e)).length := length_numeral_le_iff.1 le_rfl
    exact (he _).2 (by omega)

/-! ### Records -/

/-- A record of an extended header: a keyword without an equals sign, and a value. -/
structure Record where
  keyword : List Char
  value : List Char
  keyword_ne : keyword ≠ []
  no_equals : '=' ∉ keyword

/-- A record without its length. -/
def Record.body (r : Record) : List Char := ' ' :: r.keyword ++ '=' :: r.value ++ ['\n']

/-- The length of a record in bytes. -/
def Record.size (r : Record) : ℕ := recordLength (Utf8.encode r.body).length

/-- The text of a record. -/
def Record.text (r : Record) : List Char := (numeral 10 r.size).map digitChar ++ r.body

/-- The bytes of a record. -/
def Record.encode (r : Record) : List UInt8 := Utf8.encode r.text

/-- What the reader makes of a record. -/
def Record.field (r : Record) : PaxField := ⟨Utf16.ofText r.keyword, paxValue (Utf16.ofText r.value)⟩

/-- The characters that end a line. -/
def lineEnds : List Char := ['\n', '\r', '\u2028', '\u2029']

/-- The value has no line end. -/
def Record.OneLine (r : Record) : Prop := ∀ c ∈ r.value, c ∉ lineEnds

instance (r : Record) : Decidable r.OneLine := List.decidableBAll (fun c => c ∉ lineEnds) r.value

/-- What is thrown for a record that the pattern does not match. -/
def invalidPax : Thrown := .error "Invalid PAX header data format.".toList

theorem lt_of_mem_size {r : Record} {d : ℕ} (h : d ∈ numeral 10 r.size) : d < 10 := lt_of_mem_numeral (by omega) h

theorem body_ne_nil (r : Record) : Utf8.encode r.body ≠ [] := by
  simp [Record.body, Utf8.encode_cons, String.utf8EncodeChar_ne_nil]

theorem size_pos (r : Record) : 0 < r.size := by
  have hpos := List.length_pos_of_ne_nil (body_ne_nil r)
  rw [Record.size, recordLength]
  omega

theorem encode_digits {ds : List ℕ} (h : ∀ d ∈ ds, d < 10) :
    Utf8.encode (ds.map digitChar) = ds.map fun d => UInt8.ofNat (48 + d) := by
  rw [encode_ascii (ascii_digits h), List.map_map]
  refine List.map_congr_left fun d hd => ?_
  rw [Function.comp_apply, toNat_digitChar (h d hd)]

theorem encode_eq (r : Record) : r.encode =
    ((numeral 10 r.size).map fun d => UInt8.ofNat (48 + d)) ++ Utf8.encode r.body := by
  rw [Record.encode, Record.text, Utf8.encode_append, encode_digits fun d hd => lt_of_mem_size hd]

theorem length_encode (r : Record) : r.encode.length = r.size := by
  rw [encode_eq, List.length_append, List.length_map, Nat.add_comm, Record.size]
  exact recordLength_eq _

/-! ### Taking a record apart -/

/-- A front of the bytes. -/
theorem subarray_front (bytes : List UInt8) (k : ℕ) : subarray bytes (some 0) (some k) = bytes.take k := by
  have hstop : VirtualFs.clampIndex bytes.length k = min k bytes.length := by
    rw [VirtualFs.clampIndex, if_neg (by omega), Int.toNat_natCast]
  have hstart : VirtualFs.clampIndex bytes.length 0 = 0 := by simp [VirtualFs.clampIndex]
  simp [subarray, VirtualFs.subarray, hstop, hstart, List.take_eq_take_iff]

/-- What is behind a front of the bytes. -/
theorem subarray_rest (bytes : List UInt8) (k : ℕ) :
    subarray bytes (some k) (some bytes.length) = bytes.drop k := by
  have hclamp (i : ℕ) : VirtualFs.clampIndex bytes.length i = min i bytes.length := by
    rw [VirtualFs.clampIndex, if_neg (by omega), Int.toNat_natCast]
  simp [subarray, VirtualFs.subarray, hclamp, List.drop_eq_drop_iff]

/-- The first space is behind the digits. -/
theorem spaceIndex_digits {ds : List ℕ} (h : ∀ d ∈ ds, d < 10) (bs : List UInt8) :
    spaceIndex ((ds.map fun d => UInt8.ofNat (48 + d)) ++ 0x20 :: bs) = ds.length := by
  have hfind : ((ds.map fun d => UInt8.ofNat (48 + d)) ++ 0x20 :: bs).findIdx? (· = 0x20) = some ds.length := by
    induction ds with
    | nil => rw [List.map_nil, List.nil_append, List.findIdx?_cons, if_pos (decide_eq_true rfl)]; rfl
    | cons d ds ih =>
        have hd : d < 10 := h d List.mem_cons_self
        have hne : UInt8.ofNat (48 + d) ≠ 0x20 := by
          intro heq
          have hval := congrArg UInt8.toNat heq
          rw [Utf8.toNat_ofNat_of_lt (by omega)] at hval
          have htwenty : (0x20 : UInt8).toNat = 32 := rfl
          omega
        rw [List.map_cons, List.cons_append, List.findIdx?_cons, decide_eq_false hne, if_neg Bool.false_ne_true,
          ih fun e he => h e (List.mem_cons_of_mem d he)]
        rfl
  rw [spaceIndex, hfind]

/-- A unit that ends a line is that of a character that does. -/
theorem isLineEnd_iff (u : UInt16) : isLineEnd u = true ↔
    u.toNat = 0x0A ∨ u.toNat = 0x0D ∨ u.toNat = 0x2028 ∨ u.toNat = 0x2029 := decide_eq_true_iff

theorem mem_lineEnds_iff (c : Char) : c ∈ lineEnds ↔
    c = Char.ofNat 0x0A ∨ c = Char.ofNat 0x0D ∨ c = Char.ofNat 0x2028 ∨ c = Char.ofNat 0x2029 := by
  simp [lineEnds]

/-- A text is on one line if its units are. -/
theorem oneLine_iff (s : List Char) :
    (Utf16.ofText s).all (fun u => !isLineEnd u) = true ↔ ∀ c ∈ s, c ∉ lineEnds := by
  rw [List.all_eq_true]
  constructor
  · intro h c hc hend
    have hsmall : c.toNat < 0x10000 ∧ isLineEnd (UInt16.ofNat c.toNat) = true := by
      rcases (mem_lineEnds_iff c).1 hend with rfl | rfl | rfl | rfl <;> decide
    have hunit := h _ (mem_ofText_of_mem hc hsmall.1)
    rw [hsmall.2] at hunit
    exact Bool.false_ne_true hunit
  · intro h u hu
    rw [Bool.not_eq_true', ← Bool.not_eq_true]
    intro hend
    have hcode := (isLineEnd_iff u).1 hend
    refine h _ (mem_of_mem_ofText hu ?_ ?_) ((mem_lineEnds_iff _).2 ?_)
    · unfold Utf16.IsHigh
      omega
    · unfold Utf16.IsLow
      omega
    · rcases hcode with hcode | hcode | hcode | hcode <;> rw [hcode] <;> simp

/-- The value of a record, behind the equals sign. -/
theorem matchValue_eq (r : Record) : matchValue (Utf16.ofText (r.value ++ ['\n'])) =
    if r.OneLine then some (Utf16.ofText r.value) else none := by
  have hnewline : Utf16.ofText ['\n'] = [0x0A] := by decide
  have hlast : (Utf16.ofText r.value ++ [0x0A]).getLast? = some 0x0A := List.getLast?_concat
  rw [ofText_append, hnewline, matchValue, List.dropLast_concat]
  by_cases h : r.OneLine
  · rw [if_pos ⟨hlast, (oneLine_iff r.value).2 h⟩, if_pos h]
  · rw [if_neg fun hline => h ((oneLine_iff r.value).1 hline.2), if_neg h]

theorem isDigit_digitUnit {d : ℕ} (h : d < 10) : isDigit (digitUnit d) = true := by
  simp only [isDigit, toNat_digitUnit h, decide_eq_true_eq]
  omega

theorem takeWhile_digits {ds : List ℕ} (h : ∀ d ∈ ds, d < 10) (us : Text)
    (hus : ∀ u ∈ us.head?, isDigit u = false) :
    (ds.map digitUnit ++ us).takeWhile isDigit = ds.map digitUnit ∧
      (ds.map digitUnit ++ us).dropWhile isDigit = us := by
  have hall : ∀ u ∈ ds.map digitUnit, isDigit u = true := by
    intro u hu
    obtain ⟨d, hd, rfl⟩ := List.mem_map.1 hu
    exact isDigit_digitUnit (h d hd)
  rw [List.takeWhile_append_of_pos hall, List.dropWhile_append_of_pos hall]
  cases us with
  | nil => simp
  | cons u us =>
      have hu : isDigit u = false := hus u rfl
      simp [hu]

/-- The keyword of a record is what is before the first equals sign. -/
theorem takeWhile_keyword {s : List Char} (h : '=' ∉ s) (us : Text) :
    (Utf16.ofText s ++ equalsSign :: us).takeWhile (· ≠ equalsSign) = Utf16.ofText s ∧
      (Utf16.ofText s ++ equalsSign :: us).dropWhile (· ≠ equalsSign) = equalsSign :: us := by
  have hall : ∀ u ∈ Utf16.ofText s, decide (u ≠ equalsSign) = true := by
    intro u hu
    refine decide_eq_true fun heq => h ?_
    subst heq
    exact (mem_ofText_iff (c := '=') (by decide)).1 hu
  rw [List.takeWhile_append_of_pos hall, List.dropWhile_append_of_pos hall]
  simp

/-- **A record is taken apart**, if its value has no line end. -/
theorem matchField_text (r : Record) : matchField (Utf16.ofText r.text) =
    if r.OneLine then some (Utf16.ofText r.keyword, Utf16.ofText r.value) else none := by
  have hdigits : ∀ d ∈ numeral 10 r.size, d < 10 := fun d hd => lt_of_mem_size hd
  have hne : numeral 10 r.size ≠ [] := numeral_ne_nil (size_pos r).ne'
  have hbody : Utf16.ofText r.body =
      0x20 :: (Utf16.ofText r.keyword ++ equalsSign :: Utf16.ofText (r.value ++ ['\n'])) := by
    rw [Record.body, List.append_assoc, ofText_append, Utf16.ofText_cons, List.cons_append, Utf16.ofText_cons]
    rfl
  have hspace : ∀ u ∈ (Utf16.ofText r.body).head?, isDigit u = false := by
    rw [hbody]
    intro u hu
    rw [← Option.some_inj.1 hu]
    rfl
  have hscan := takeWhile_digits hdigits (Utf16.ofText r.body) hspace
  have hkeyword := takeWhile_keyword r.no_equals (Utf16.ofText (r.value ++ ['\n']))
  rw [matchField, Record.text, ofText_append, ofText_digits hdigits, hscan.1, hscan.2, hbody]
  obtain ⟨d, ds, hds⟩ := List.exists_cons_of_ne_nil hne
  obtain ⟨c, cs, hcs⟩ := List.exists_cons_of_ne_nil (fun hnil => r.keyword_ne (ofText_injective hnil))
  rw [hds, List.map_cons]
  dsimp only
  rw [if_pos rfl, hkeyword.1, hkeyword.2, hcs]
  dsimp only
  rw [matchValue_eq]
  by_cases h : r.OneLine
  · rw [if_pos h, if_pos h]
    rfl
  · rw [if_neg h, if_neg h]
    rfl

/-! ### Reading the records -/

theorem encode_ne_nil (r : Record) : r.encode ≠ [] :=
  List.ne_nil_of_length_pos (length_encode r ▸ size_pos r)

/-- A round of the loop, on bytes that are not empty. -/
theorem parseFields_succ (rounds : ℕ) {bytes : List UInt8} (h : bytes ≠ []) : parseFields (rounds + 1) bytes =
    (decodeUTF8 (subarray bytes (some 0) (some (spaceIndex bytes)))).bind fun lengthText =>
      (decodeUTF8 (subarray bytes (some 0) (parseInt lengthText none))).bind fun fieldText =>
        match matchField fieldText with
        | none => .error invalidPax
        | some (fieldName, fieldValue) =>
          (parseFields rounds (subarray bytes (parseInt lengthText none) (some bytes.length))).bind fun fields =>
            .ok (⟨fieldName, paxValue fieldValue⟩ :: fields) := by
  obtain ⟨b, rest, rfl⟩ := List.exists_cons_of_ne_nil h
  rfl

/-- **A record is read**, and the rest after it; one that is not on one line makes the reader throw. -/
theorem parseFields_record (rounds : ℕ) (r : Record) (rest : List UInt8) :
    parseFields (rounds + 1) (r.encode ++ rest) =
      if r.OneLine then (r.field :: ·) <$> parseFields rounds rest else .error invalidPax := by
  have hdigits : ∀ d ∈ numeral 10 r.size, d < 10 := fun d hd => lt_of_mem_size hd
  have hspace : r.encode ++ rest = ((numeral 10 r.size).map fun d => UInt8.ofNat (48 + d)) ++
      0x20 :: ((Utf8.encode r.body).tail ++ rest) := by
    have hbody : Utf8.encode r.body = 0x20 :: (Utf8.encode r.body).tail := rfl
    rw [encode_eq, List.append_assoc, ← List.cons_append, ← hbody]
  have hindex : spaceIndex (r.encode ++ rest) = (numeral 10 r.size).length := by
    rw [hspace, spaceIndex_digits hdigits]
  have hfront : subarray (r.encode ++ rest) (some 0) (some (numeral 10 r.size).length) =
      Utf8.encode ((numeral 10 r.size).map digitChar) := by
    rw [subarray_front, hspace, List.take_left' (List.length_map _), encode_digits hdigits]
  have htext : subarray (r.encode ++ rest) (some 0) (some r.size) = Utf8.encode r.text := by
    rw [subarray_front, List.take_left' (length_encode r), Record.encode]
  have hrest : subarray (r.encode ++ rest) (some r.size) (some (r.encode ++ rest).length) = rest := by
    rw [subarray_rest, List.drop_left' (length_encode r)]
  rw [parseFields_succ rounds fun hnil => encode_ne_nil r (List.append_eq_nil_iff.1 hnil).1, hindex, hfront,
    decodeUTF8_encode, ofText_digits hdigits]
  dsimp only [Except.bind]
  rw [parseInt_numeral (size_pos r).ne', htext, decodeUTF8_encode]
  dsimp only
  rw [matchField_text, hrest]
  by_cases h : r.OneLine
  · rw [if_pos h, if_pos h]
    cases parseFields rounds rest <;> rfl
  · rw [if_neg h, if_neg h]

/-- The bytes of records. -/
def encodeRecords (rs : List Record) : List UInt8 := rs.flatMap Record.encode

theorem parseFields_encode (rs : List Record) : ∀ rounds, rs.length ≤ rounds →
    parseFields rounds (encodeRecords rs) =
      if ∀ r ∈ rs, r.OneLine then .ok (rs.map Record.field) else .error invalidPax := by
  induction rs with
  | nil =>
      intro rounds _
      cases rounds <;> rfl
  | cons r rs ih =>
      intro rounds hrounds
      obtain ⟨rounds, rfl⟩ : ∃ n, rounds = n + 1 := ⟨rounds - 1, by simp at hrounds; omega⟩
      have hcons : encodeRecords (r :: rs) = r.encode ++ encodeRecords rs := rfl
      rw [hcons, parseFields_record, ih rounds (by simpa using hrounds)]
      by_cases h : r.OneLine
      · by_cases hall : ∀ r ∈ rs, r.OneLine
        · rw [if_pos h, if_pos hall, if_pos (List.forall_mem_cons.2 ⟨h, hall⟩)]
          rfl
        · rw [if_pos h, if_neg hall, if_neg fun hboth => hall (List.forall_mem_cons.1 hboth).2]
          rfl
      · rw [if_neg h, if_neg fun hboth => h (List.forall_mem_cons.1 hboth).1]

/-- **Records are read back**, in order, if all of their values are on one line, and else nothing is read. -/
theorem parsePax_encode (rs : List Record) : parsePax (encodeRecords rs) =
    if ∀ r ∈ rs, r.OneLine then .ok (rs.map Record.field) else .error invalidPax := by
  refine parseFields_encode rs _ ?_
  induction rs with
  | nil => exact le_rfl
  | cons r rs ih =>
      have hcons : encodeRecords (r :: rs) = r.encode ++ encodeRecords rs := rfl
      have hpos := size_pos r
      rw [hcons, List.length_append, length_encode, List.length_cons]
      omega

end Untar
