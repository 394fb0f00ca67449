/-
**Numbers in strings.**

`parseInt` reads the number that a string begins with: behind white space, a sign and perhaps the mark of
a hexadecimal number it takes all the digits there are, and what comes after them does not matter.  Where
there is no digit the result is `NaN`, which is carried through every sum.

Main definitions:

* `JsNumber.Number` — an integer or `NaN`;
* `JsNumber.parseInt` — the number a string begins with;
* `JsNumber.numeral`, `JsNumber.padded` — a number written down.

Main results:

* `JsNumber.parseInt_numeral` — a decimal numeral is read back;
* `JsNumber.parseInt_padded` — a numeral with zeros in front is read back.
-/

import Mathlib.Algebra.Order.Ring.Int
import Mathlib.Data.Nat.Digits.Defs
import Mathlib.Data.Nat.Digits.Lemmas

set_option relaxedAutoImplicit false
set_option autoImplicit false

namespace JsNumber

/-- An integer, or `NaN`. -/
abbrev Number := Option ℤ

/-- The sum is `NaN` if one of the numbers is. -/
def plus (m n : Number) : Number := m.bind fun i => n.map fun j => i + j

@[simp] theorem plus_some (i j : ℤ) : plus (some i) (some j) = some (i + j) := rfl

@[simp] theorem plus_none (m : Number) : plus m none = none := by cases m <;> rfl

@[simp] theorem none_plus (n : Number) : plus none n = none := rfl

/-! ### Reading -/

/-- White space and line ends. -/
def isSpace (u : UInt16) : Bool :=
  let n := u.toNat
  (9 ≤ n ∧ n ≤ 13) ∨ n = 0x20 ∨ n = 0xA0 ∨ n = 0x1680 ∨ (0x2000 ≤ n ∧ n ≤ 0x200A) ∨ n = 0x2028 ∨ n = 0x2029 ∨
    n = 0x202F ∨ n = 0x205F ∨ n = 0x3000 ∨ n = 0xFEFF

/-- The value of a digit, which may be a letter. -/
def digitValue (u : UInt16) : Option ℕ :=
  let n := u.toNat
  if 48 ≤ n ∧ n ≤ 57 then some (n - 48)
  else if 65 ≤ n ∧ n ≤ 90 then some (n - 55)
  else if 97 ≤ n ∧ n ≤ 122 then some (n - 87)
  else none

/-- The digits that a string begins with. -/
def leadingDigits (radix : ℕ) : List UInt16 → List ℕ
  | [] => []
  | u :: us =>
    match digitValue u with
    | some d => if d < radix then d :: leadingDigits radix us else []
    | none => []

/-- The number of a list of digits, the first one the most significant. -/
def ofDigits (radix : ℕ) (ds : List ℕ) : ℕ := ds.foldl (fun n d => n * radix + d) 0

/-- Whether there is a minus in front, and what comes after the sign. -/
def splitSign : List UInt16 → Bool × List UInt16
  | [] => (false, [])
  | u :: us => if u.toNat = 45 then (true, us) else if u.toNat = 43 then (false, us) else (false, u :: us)

/-- What comes after `0x`. -/
def stripHex : List UInt16 → Option (List UInt16)
  | u :: v :: us => if u.toNat = 48 ∧ (v.toNat = 120 ∨ v.toNat = 88) then some us else none
  | _ => none

/-- The digits of a number with its sign. -/
def signed (minus : Bool) (radix : ℕ) (ds : List ℕ) : Number :=
  if ds = [] then none else some (if minus then -(ofDigits radix ds : ℤ) else ofDigits radix ds)

/-- `parseInt(s)`, and `parseInt(s, radix)` for a radix below 16. -/
def parseInt (s : List UInt16) (radix : Option ℕ) : Number :=
  let (minus, s) := splitSign (s.dropWhile isSpace)
  match radix, stripHex s with
  | some r, _ => signed minus r (leadingDigits r s)
  | none, some s => signed minus 16 (leadingDigits 16 s)
  | none, none => signed minus 10 (leadingDigits 10 s)

/-! ### Writing -/

/-- The code unit of a digit. -/
def digitUnit (d : ℕ) : UInt16 := UInt16.ofNat (48 + d)

/-- The digits of a number, the first one the most significant. -/
def numeral (radix n : ℕ) : List ℕ := (Nat.digits radix n).reverse

/-- The digits of a number with zeros in front. -/
def padded (width radix n : ℕ) : List ℕ := List.replicate (width - (numeral radix n).length) 0 ++ numeral radix n

theorem toNat_digitUnit {d : ℕ} (h : d < 10) : (digitUnit d).toNat = 48 + d := by
  rw [digitUnit, UInt16.toNat_ofNat']
  exact Nat.mod_eq_of_lt (by omega)

theorem digitValue_digitUnit {d : ℕ} (h : d < 10) : digitValue (digitUnit d) = some d := by
  simp only [digitValue, toNat_digitUnit h]
  rw [if_pos (by omega)]
  exact congrArg some (by omega)

theorem isSpace_digitUnit {d : ℕ} (h : d < 10) : isSpace (digitUnit d) = false := by
  simp only [isSpace, toNat_digitUnit h, decide_eq_false_iff_not]
  omega

theorem leadingDigits_digitUnits {radix : ℕ} (hradix : radix ≤ 10) {ds : List ℕ} (h : ∀ d ∈ ds, d < radix) :
    leadingDigits radix (ds.map digitUnit) = ds := by
  induction ds with
  | nil => rfl
  | cons d ds ih =>
      have hd : d < radix := h d List.mem_cons_self
      rw [List.map_cons, leadingDigits, digitValue_digitUnit (by omega)]
      simp [hd, ih fun e he => h e (List.mem_cons_of_mem d he)]

theorem splitSign_digitUnits {ds : List ℕ} (h : ∀ d ∈ ds, d < 10) :
    splitSign ((ds.map digitUnit).dropWhile isSpace) = (false, ds.map digitUnit) := by
  cases ds with
  | nil => rfl
  | cons d ds =>
      have hd : d < 10 := h d List.mem_cons_self
      have hunit := toNat_digitUnit hd
      rw [List.map_cons, List.dropWhile_cons, isSpace_digitUnit hd, if_neg Bool.false_ne_true, splitSign,
        if_neg (by omega), if_neg (by omega)]

theorem stripHex_digitUnits {ds : List ℕ} (h : ∀ d ∈ ds, d < 10) : stripHex (ds.map digitUnit) = none := by
  rcases ds with _ | ⟨d, _ | ⟨e, ds⟩⟩
  · rfl
  · rfl
  · have he := toNat_digitUnit (h e (List.mem_cons_of_mem d List.mem_cons_self))
    have hlt : e < 10 := h e (List.mem_cons_of_mem d List.mem_cons_self)
    rw [List.map_cons, List.map_cons, stripHex, if_neg (by omega)]

/-- Digits of a radix up to ten are read in that radix. -/
theorem parseInt_digitUnits {radix : ℕ} (hradix : radix ≤ 10) {ds : List ℕ} (hds : ds ≠ [])
    (h : ∀ d ∈ ds, d < radix) : parseInt (ds.map digitUnit) (some radix) = some (ofDigits radix ds : ℤ) := by
  have hten : ∀ d ∈ ds, d < 10 := fun d hd => (h d hd).trans_le hradix
  simp [parseInt, splitSign_digitUnits hten, leadingDigits_digitUnits hradix h, signed, hds]

/-- Decimal digits are read without a radix. -/
theorem parseInt_decimal {ds : List ℕ} (hds : ds ≠ []) (h : ∀ d ∈ ds, d < 10) :
    parseInt (ds.map digitUnit) none = some (ofDigits 10 ds : ℤ) := by
  simp [parseInt, splitSign_digitUnits h, stripHex_digitUnits h, leadingDigits_digitUnits le_rfl h, signed, hds]

/-! ### What was written is read back -/

theorem ofDigits_reverse (radix : ℕ) (ds : List ℕ) : ofDigits radix ds.reverse = Nat.ofDigits radix ds := by
  rw [ofDigits, List.foldl_reverse, Nat.ofDigits_eq_foldr]
  refine congrArg (fun f => List.foldr f 0 ds) ?_
  funext d n
  simp [Nat.mul_comm, Nat.add_comm]

theorem ofDigits_numeral (radix n : ℕ) : ofDigits radix (numeral radix n) = n := by
  rw [numeral, ofDigits_reverse, Nat.ofDigits_digits]

theorem ofDigits_zeros (radix k : ℕ) (ds : List ℕ) :
    ofDigits radix (List.replicate k 0 ++ ds) = ofDigits radix ds := by
  induction k with
  | zero => rfl
  | succ k ih =>
      rw [← ih]
      simp [ofDigits, List.replicate_succ]

theorem ofDigits_padded (width radix n : ℕ) : ofDigits radix (padded width radix n) = n := by
  rw [padded, ofDigits_zeros, ofDigits_numeral]

theorem numeral_ne_nil {radix n : ℕ} (h : n ≠ 0) : numeral radix n ≠ [] := by
  simpa [numeral, Nat.digits_ne_nil_iff_ne_zero] using h

theorem lt_of_mem_numeral {radix n d : ℕ} (hradix : 1 < radix) (h : d ∈ numeral radix n) : d < radix :=
  Nat.digits_lt_base hradix (List.mem_reverse.1 h)

theorem lt_of_mem_padded {width radix n d : ℕ} (hradix : 1 < radix) (h : d ∈ padded width radix n) : d < radix := by
  rcases List.mem_append.1 h with hzero | hdigit
  · rw [List.eq_of_mem_replicate hzero]
    omega
  · exact lt_of_mem_numeral hradix hdigit

theorem length_padded {width radix n : ℕ} (h : (numeral radix n).length ≤ width) :
    (padded width radix n).length = width := by
  simp [padded]
  omega

/-- A number below a power of the radix has no more digits than the exponent. -/
theorem length_numeral_le {radix n width : ℕ} (hradix : 1 < radix) (h : n < radix ^ width) :
    (numeral radix n).length ≤ width := by
  rw [numeral, List.length_reverse]
  exact (Nat.digits_length_le_iff hradix n).2 h

/-- **A decimal numeral is read back.** -/
theorem parseInt_numeral {n : ℕ} (h : n ≠ 0) : parseInt ((numeral 10 n).map digitUnit) none = some (n : ℤ) := by
  rw [parseInt_decimal (numeral_ne_nil h) fun d hd => lt_of_mem_numeral (by omega) hd, ofDigits_numeral]

/-- **A numeral with zeros in front is read back**, if it has any digit at all. -/
theorem parseInt_padded {width radix n : ℕ} (hradix : 1 < radix) (hten : radix ≤ 10) (hwidth : 0 < width)
    (h : n < radix ^ width) : parseInt ((padded width radix n).map digitUnit) (some radix) = some (n : ℤ) := by
  have hne : padded width radix n ≠ [] := by
    refine List.ne_nil_of_length_pos ?_
    rwa [length_padded (length_numeral_le hradix h)]
  rw [parseInt_digitUnits hten hne fun d hd => lt_of_mem_padded hradix hd, ofDigits_padded]

end JsNumber
