/-
**Tables of tables.**

A radix table of `n` levels has an entry for each digit, and a present entry is a table of one level less; a table
of no levels is what is looked up.  The digits of a key are those of an integer to the base `B`, with as many of
them as there are levels.  A walk from the first table goes down the digits of a key and stops at the level where
an entry is missing; every key that has the same digits from that level up is missing then.

A walk along the keys that goes on behind a missing entry by its whole span is told apart from one that looks at
every key: if it doesn't stand at the beginning of the span, the first keys of the next span are passed over.

Main definitions:

* `RadixTables.Table`, `RadixTables.walk`, `RadixTables.lookup`, `RadixTables.stop` — tables and what a walk finds;
* `RadixTables.store`, `RadixTables.graft`, `RadixTables.dropLeaf`, `RadixTables.prune` — storing an entry, adding
  the tables on the way to it, and taking away tables that have become empty;
* `RadixTables.total` — a sum over all labels and entries;
* `RadixTables.Covers` — where a range of keys may begin and end for long strides to be harmless.

Main results:

* `RadixTables.walk_congr` — **a walk depends on the digits from its level up**;
* `RadixTables.lookup_store_self`, `RadixTables.lookup_store_of_not_agree`, `RadixTables.lookup_graft`,
  `RadixTables.lookup_dropLeaf`, `RadixTables.lookup_prune` — the operations, seen by lookups;
* `RadixTables.total_store`, `RadixTables.total_graft`, `RadixTables.total_dropLeaf`, `RadixTables.total_prune` —
  the operations, seen by sums;
* `RadixTables.Harmless.next` — **long strides stay harmless**.
-/

import Mathlib.Algebra.BigOperators.Fin
import Mathlib.Algebra.BigOperators.Group.Finset.Basic
import Mathlib.Algebra.BigOperators.Option
import Mathlib.Algebra.Order.Ring.Int
import Mathlib.Data.Int.ModEq
import Mathlib.Tactic.Abel
import Mathlib.Tactic.Linarith
import Mathlib.Tactic.LinearCombination
import Mathlib.Tactic.Ring

set_option relaxedAutoImplicit false
set_option autoImplicit false

namespace RadixTables

variable {B : ℕ} {ν α : Type}

/-! ### Digits -/

/-- The digit of a key at a level. -/
def digit (B : ℕ) [NeZero B] (k : ℕ) (p : ℤ) : Fin B := Fin.ofNat B (p / (B : ℤ) ^ k % B).toNat

/-- Two keys have the same digits at the levels from `k` up to `n`. -/
def Agree (B : ℕ) [NeZero B] (k n : ℕ) (p q : ℤ) : Prop := ∀ j, k ≤ j → j < n → digit B j p = digit B j q

section Digits

variable [NeZero B]

theorem base_pos : (0 : ℤ) < B := Int.natCast_pos.2 (NeZero.pos B)

theorem pow_base_pos (k : ℕ) : (0 : ℤ) < (B : ℤ) ^ k := pow_pos base_pos k

theorem digit_eq_iff (k : ℕ) (p q : ℤ) :
    digit B k p = digit B k q ↔ p / (B : ℤ) ^ k % B = q / (B : ℤ) ^ k % B := by
  have hval (r : ℤ) : ((digit B k r : ℕ) : ℤ) = r / (B : ℤ) ^ k % B := by
    have h0 : 0 ≤ r / (B : ℤ) ^ k % B := Int.emod_nonneg _ base_pos.ne'
    have hlt : r / (B : ℤ) ^ k % B < B := Int.emod_lt_of_pos _ base_pos
    rw [digit, Fin.val_ofNat, Nat.mod_eq_of_lt (by omega), Int.toNat_of_nonneg h0]
  rw [← hval, ← hval, Int.natCast_inj, Fin.val_inj]

@[simp] theorem Agree.refl (k n : ℕ) (p : ℤ) : Agree B k n p p := fun _ _ _ => rfl

theorem Agree.symm {k n : ℕ} {p q : ℤ} (h : Agree B k n p q) : Agree B k n q p := fun j hk hn => (h j hk hn).symm

theorem Agree.trans {k n : ℕ} {p q r : ℤ} (h : Agree B k n p q) (h' : Agree B k n q r) : Agree B k n p r :=
  fun j hk hn => (h j hk hn).trans (h' j hk hn)

theorem Agree.mono {k l n : ℕ} {p q : ℤ} (h : Agree B k n p q) (hkl : k ≤ l) : Agree B l n p q :=
  fun j hk hn => h j (hkl.trans hk) hn

theorem agree_succ {k n : ℕ} {p q : ℤ} (hk : k ≤ n) :
    Agree B k (n + 1) p q ↔ Agree B k n p q ∧ digit B n p = digit B n q := by
  constructor
  · intro h
    exact ⟨fun j hkj hj => h j hkj (by omega), h n hk (Nat.lt_succ_self n)⟩
  · rintro ⟨h, hn⟩ j hkj hj
    rcases Nat.lt_or_eq_of_le (Nat.lt_succ_iff.1 hj) with hlt | rfl
    · exact h j hkj hlt
    · exact hn

/-- Keys in the same block of a level agree from there up. -/
theorem agree_of_div_eq {k : ℕ} {p q : ℤ} (h : p / (B : ℤ) ^ k = q / (B : ℤ) ^ k) (n : ℕ) : Agree B k n p q := by
  intro j hkj _
  obtain ⟨d, rfl⟩ := Nat.exists_eq_add_of_le hkj
  rw [digit_eq_iff, pow_add, ← Int.ediv_ediv_of_nonneg (pow_base_pos k).le, h,
    Int.ediv_ediv_of_nonneg (pow_base_pos k).le]

theorem emod_pow_succ (p : ℤ) (n : ℕ) :
    p % (B : ℤ) ^ (n + 1) = p % (B : ℤ) ^ n + (B : ℤ) ^ n * (p / (B : ℤ) ^ n % B) := by
  have hp := Int.emod_add_mul_ediv p ((B : ℤ) ^ n)
  have hd := Int.emod_add_mul_ediv (p / (B : ℤ) ^ n) B
  have hq := Int.emod_add_mul_ediv p ((B : ℤ) ^ (n + 1))
  rw [pow_succ, ← Int.ediv_ediv_of_nonneg (pow_base_pos n).le] at hq
  rw [pow_succ]
  linear_combination hq - hp - (B : ℤ) ^ n * hd

/-- Keys with the same digits are the same key to a table. -/
theorem agree_zero_iff (n : ℕ) (p q : ℤ) : Agree B 0 n p q ↔ p % (B : ℤ) ^ n = q % (B : ℤ) ^ n := by
  induction n with
  | zero => simp [Agree]
  | succ n ih =>
      rw [agree_succ (Nat.zero_le n), ih, digit_eq_iff, emod_pow_succ p, emod_pow_succ q]
      constructor
      · rintro ⟨h, hd⟩
        rw [h, hd]
      · intro h
        have hpow := pow_base_pos (B := B) n
        have hp := Int.emod_lt_of_pos p hpow
        have hq := Int.emod_lt_of_pos q hpow
        have hp0 := Int.emod_nonneg p hpow.ne'
        have hq0 := Int.emod_nonneg q hpow.ne'
        have hd : p / (B : ℤ) ^ n % B = q / (B : ℤ) ^ n % B := by
          have hdiv := congrArg (· / (B : ℤ) ^ n) h
          simpa only [Int.add_mul_ediv_left _ _ hpow.ne', Int.ediv_eq_zero_of_lt hp0 hp,
            Int.ediv_eq_zero_of_lt hq0 hq, zero_add] using hdiv
        rw [hd] at h
        exact ⟨by linarith, hd⟩

end Digits

/-! ### Tables -/

/-- A table of some levels: a label, and for each digit nothing or a table of one level less.  A table of no levels
is an entry. -/
@[reducible] def Table (B : ℕ) (ν α : Type) : ℕ → Type
  | 0 => α
  | n + 1 => ν × (Fin B → Option (Table B ν α n))

/-- The table with another entry for a digit. -/
def setChild {n : ℕ} (t : Table B ν α (n + 1)) (d : Fin B) (x : Option (Table B ν α n)) : Table B ν α (n + 1) :=
  (t.1, Function.update t.2 d x)

@[simp] theorem setChild_snd_self {n : ℕ} (t : Table B ν α (n + 1)) (d : Fin B) (x : Option (Table B ν α n)) :
    (setChild t d x).2 d = x := by
  simp only [setChild, Function.update_self]

theorem setChild_snd_of_ne {n : ℕ} (t : Table B ν α (n + 1)) {d i : Fin B} (x : Option (Table B ν α n))
    (h : i ≠ d) : (setChild t d x).2 i = t.2 i := by
  simp only [setChild, Function.update_of_ne h]

theorem setChild_eq_self {n : ℕ} (t : Table B ν α (n + 1)) {d : Fin B} {x : Option (Table B ν α n)}
    (h : t.2 d = x) : setChild t d x = t := by
  rw [setChild, ← h, Function.update_eq_self]

/-- The table without entries. -/
def bare (n : ℕ) (l : ν) : Table B ν α (n + 1) := (l, fun _ => none)

variable [NeZero B]

/-- The walk to the entry of a key: the level where it stops, and the entry if there is one. -/
def walk : (n : ℕ) → Table B ν α n → ℤ → ℕ × Option α
  | 0, a, _ => (0, some a)
  | n + 1, t, p =>
    match t.2 (digit B n p) with
    | none => (n, none)
    | some c => walk n c p

/-- The level where the walk to a key stops. -/
def stop (n : ℕ) (t : Table B ν α n) (p : ℤ) : ℕ := (walk n t p).1

/-- The entry of a key. -/
def lookup (n : ℕ) (t : Table B ν α n) (p : ℤ) : Option α := (walk n t p).2

theorem walk_succ (n : ℕ) (t : Table B ν α (n + 1)) (p : ℤ) :
    walk (n + 1) t p = ((t.2 (digit B n p)).map fun c => walk n c p).getD (n, none) := by
  rw [walk]
  cases t.2 (digit B n p) <;> rfl

theorem walk_succ_none {n : ℕ} {t : Table B ν α (n + 1)} {p : ℤ} (h : t.2 (digit B n p) = none) :
    walk (n + 1) t p = (n, none) := by
  rw [walk_succ, h]
  rfl

theorem walk_succ_some {n : ℕ} {t : Table B ν α (n + 1)} {p : ℤ} {c : Table B ν α n}
    (h : t.2 (digit B n p) = some c) : walk (n + 1) t p = walk n c p := by
  rw [walk_succ, h]
  rfl

theorem stop_le (n : ℕ) (t : Table B ν α (n + 1)) (p : ℤ) : stop (n + 1) t p ≤ n := by
  induction n with
  | zero =>
      rw [stop, walk_succ]
      cases t.2 (digit B 0 p) <;> exact Nat.le_refl 0
  | succ n ih =>
      cases h : t.2 (digit B (n + 1) p) with
      | none =>
          rw [stop, walk_succ_none h]
      | some c =>
          rw [stop, walk_succ_some h]
          exact (ih c).trans (Nat.le_succ n)

/-- **A walk depends on the digits from its level up.** -/
theorem walk_congr {n : ℕ} {t : Table B ν α n} {p q : ℤ} (h : Agree B (stop n t p) n p q) :
    walk n t q = walk n t p := by
  induction n with
  | zero => rfl
  | succ n ih =>
      have hdigit : digit B n p = digit B n q := h n (stop_le n t p) (Nat.lt_succ_self n)
      cases hc : t.2 (digit B n p) with
      | none =>
          rw [walk_succ_none hc, walk_succ_none (hdigit ▸ hc)]
      | some c =>
          have hstop : stop (n + 1) t p = stop n c p := by
            rw [stop, walk_succ_some hc, stop]
          rw [walk_succ_some hc, walk_succ_some (hdigit ▸ hc)]
          exact ih fun j hj hlt => h j (hstop ▸ hj) (by omega)

theorem lookup_of_stop_pos {n : ℕ} {t : Table B ν α n} {p : ℤ} (h : stop n t p ≠ 0) : lookup n t p = none := by
  induction n with
  | zero => exact absurd rfl h
  | succ n ih =>
      cases hc : t.2 (digit B n p) with
      | none =>
          rw [lookup, walk_succ_none hc]
      | some c =>
          rw [stop, walk_succ_some hc] at h
          rw [lookup, walk_succ_some hc]
          exact ih h

theorem stop_of_lookup {n : ℕ} {t : Table B ν α n} {p : ℤ} {a : α} (h : lookup n t p = some a) : stop n t p = 0 := by
  by_contra hne
  rw [lookup_of_stop_pos hne] at h
  cases h

theorem lookup_congr {n : ℕ} {t : Table B ν α n} {p q : ℤ} (h : Agree B 0 n p q) : lookup n t q = lookup n t p := by
  rw [lookup, walk_congr (h.mono (Nat.zero_le _)), lookup]

/-- Whether the last table on the way to a key is there depends on all digits but the last. -/
theorem stop_eq_zero_congr {n : ℕ} {t : Table B ν α (n + 1)} {p q : ℤ} (h : Agree B 1 (n + 1) p q) :
    stop (n + 1) t q = 0 ↔ stop (n + 1) t p = 0 := by
  induction n with
  | zero => exact iff_of_true (Nat.le_zero.1 (stop_le 0 t q)) (Nat.le_zero.1 (stop_le 0 t p))
  | succ n ih =>
      have hdigit : digit B (n + 1) p = digit B (n + 1) q := h (n + 1) (by omega) (by omega)
      cases hc : t.2 (digit B (n + 1) p) with
      | none => rw [stop, stop, walk_succ_none hc, walk_succ_none (hdigit ▸ hc)]
      | some c =>
          rw [stop, stop, walk_succ_some hc, walk_succ_some (hdigit ▸ hc)]
          exact ih fun j hj hlt => h j hj (by omega)

@[simp] theorem walk_bare (n : ℕ) (l : ν) (p : ℤ) : walk (n + 1) (bare n l : Table B ν α (n + 1)) p = (n, none) :=
  walk_succ_none rfl

/-! ### Storing an entry -/

/-- Changes the table of one level less behind an entry. -/
def descend {n : ℕ} (t : Table B ν α (n + 1)) (p : ℤ) (f : Table B ν α n → Table B ν α n) : Table B ν α (n + 1) :=
  setChild t (digit B n p) ((t.2 (digit B n p)).map f)

/-- Stores an entry in the last table on the way to a key, if it is there. -/
def store (a : Option α) : (n : ℕ) → Table B ν α (n + 1) → ℤ → Table B ν α (n + 1)
  | 0, t, p => setChild t (digit B 0 p) a
  | n + 1, t, p => descend t p fun c => store a n c p

theorem descend_none {n : ℕ} {t : Table B ν α (n + 1)} {p : ℤ} {f : Table B ν α n → Table B ν α n}
    (h : t.2 (digit B n p) = none) : descend t p f = t := by
  rw [descend, h, Option.map_none, setChild_eq_self t h]

theorem walk_descend_self {n : ℕ} {t : Table B ν α (n + 1)} {p q : ℤ} {f : Table B ν α n → Table B ν α n}
    {c : Table B ν α n} (h : t.2 (digit B n p) = some c) (hq : digit B n q = digit B n p) :
    walk (n + 1) (descend t p f) q = walk n (f c) q := by
  refine walk_succ_some ?_
  rw [descend, hq, setChild_snd_self, h, Option.map_some]

theorem walk_descend_of_ne {n : ℕ} {t : Table B ν α (n + 1)} {p q : ℤ} {f : Table B ν α n → Table B ν α n}
    (hq : digit B n q ≠ digit B n p) : walk (n + 1) (descend t p f) q = walk (n + 1) t q := by
  rw [walk_succ, walk_succ, descend, setChild_snd_of_ne _ _ hq]

theorem store_of_stop_pos {a : Option α} {n : ℕ} {t : Table B ν α (n + 1)} {p : ℤ} (h : stop (n + 1) t p ≠ 0) :
    store a n t p = t := by
  induction n with
  | zero => exact absurd (Nat.le_zero.1 (stop_le 0 t p)) h
  | succ n ih =>
      cases hc : t.2 (digit B (n + 1) p) with
      | none => exact descend_none hc
      | some c =>
          rw [stop, walk_succ_some hc] at h
          rw [store, descend, hc, Option.map_some, ih h, setChild_eq_self t hc]

theorem walk_store_self {a : Option α} {n : ℕ} {t : Table B ν α (n + 1)} {p q : ℤ} (h : stop (n + 1) t p = 0)
    (hq : Agree B 0 (n + 1) p q) : walk (n + 1) (store a n t p) q = (0, a) := by
  induction n with
  | zero =>
      have hdigit : digit B 0 q = digit B 0 p := (hq 0 (Nat.le_refl 0) Nat.one_pos).symm
      rw [walk_succ, store, hdigit, setChild_snd_self]
      cases a <;> rfl
  | succ n ih =>
      have hdigit : digit B (n + 1) q = digit B (n + 1) p := (hq (n + 1) (Nat.zero_le _) (Nat.lt_succ_self _)).symm
      cases hc : t.2 (digit B (n + 1) p) with
      | none =>
          rw [stop, walk_succ_none hc] at h
          exact absurd h (Nat.succ_ne_zero n)
      | some c =>
          rw [stop, walk_succ_some hc] at h
          rw [store, walk_descend_self hc hdigit]
          exact ih h fun j hj hlt => hq j hj (by omega)

theorem walk_store_of_not_agree {a : Option α} {n : ℕ} {t : Table B ν α (n + 1)} {p q : ℤ}
    (hq : ¬ Agree B 0 (n + 1) p q) : walk (n + 1) (store a n t p) q = walk (n + 1) t q := by
  induction n with
  | zero =>
      have hdigit : digit B 0 q ≠ digit B 0 p := fun h => hq fun j _ hlt => by
        rw [Nat.lt_one_iff.1 hlt, h]
      rw [walk_succ, walk_succ, store, setChild_snd_of_ne _ _ hdigit]
  | succ n ih =>
      rw [store]
      by_cases hdigit : digit B (n + 1) q = digit B (n + 1) p
      · have hrest : ¬ Agree B 0 (n + 1) p q := fun h => hq ((agree_succ (Nat.zero_le _)).2 ⟨h, hdigit.symm⟩)
        cases hc : t.2 (digit B (n + 1) p) with
        | none => rw [descend_none hc]
        | some c =>
            have hcq : t.2 (digit B (n + 1) q) = some c := hdigit ▸ hc
            rw [walk_descend_self hc hdigit, ih hrest, walk_succ_some hcq]
      · exact walk_descend_of_ne hdigit

/-- Storing doesn't change where walks stop. -/
@[simp] theorem stop_store (a : Option α) (n : ℕ) (t : Table B ν α (n + 1)) (p q : ℤ) :
    stop (n + 1) (store a n t p) q = stop (n + 1) t q := by
  by_cases h : stop (n + 1) t p = 0
  · by_cases hq : Agree B 0 (n + 1) p q
    · rw [stop, walk_store_self h hq]
      exact ((stop_eq_zero_congr (hq.mono (Nat.zero_le 1))).2 h).symm
    · rw [stop, walk_store_of_not_agree hq, stop]
  · rw [store_of_stop_pos h]

theorem lookup_store_self {a : Option α} {n : ℕ} {t : Table B ν α (n + 1)} {p q : ℤ} (h : stop (n + 1) t p = 0)
    (hq : Agree B 0 (n + 1) p q) : lookup (n + 1) (store a n t p) q = a := by
  rw [lookup, walk_store_self h hq]

theorem lookup_store_of_not_agree {a : Option α} {n : ℕ} {t : Table B ν α (n + 1)} {p q : ℤ}
    (hq : ¬ Agree B 0 (n + 1) p q) : lookup (n + 1) (store a n t p) q = lookup (n + 1) t q := by
  rw [lookup, walk_store_of_not_agree hq, lookup]

/-- Taking an entry away. -/
theorem lookup_store_none_self (n : ℕ) (t : Table B ν α (n + 1)) {p q : ℤ} (hq : Agree B 0 (n + 1) p q) :
    lookup (n + 1) (store none n t p) q = none := by
  by_cases h : stop (n + 1) t p = 0
  · exact lookup_store_self h hq
  · rw [store_of_stop_pos h, lookup_congr hq, lookup_of_stop_pos h]

/-! ### Adding tables -/

/-- Adds the tables that are missing on the way to a key, with the labels given, as far as there are labels. -/
def graft : (n : ℕ) → List ν → Table B ν α (n + 1) → ℤ → Table B ν α (n + 1)
  | 0, _, t, _ => t
  | n + 1, ls, t, p =>
    match t.2 (digit B (n + 1) p) with
    | some _ => descend t p fun c => graft n ls c p
    | none =>
      match ls with
      | [] => t
      | l :: ls => setChild t (digit B (n + 1) p) (some (graft n ls (bare n l) p))

theorem graft_some {n : ℕ} {ls : List ν} {t : Table B ν α (n + 2)} {p : ℤ} {c : Table B ν α (n + 1)}
    (h : t.2 (digit B (n + 1) p) = some c) : graft (n + 1) ls t p = descend t p fun c => graft n ls c p := by
  rw [graft.eq_def]
  simp only [h]

theorem graft_nil (n : ℕ) (t : Table B ν α (n + 1)) (p : ℤ) : graft n [] t p = t := by
  induction n with
  | zero => rfl
  | succ n ih =>
      cases hc : t.2 (digit B (n + 1) p) with
      | none => rw [graft, hc]
      | some c => rw [graft_some hc, descend, hc, Option.map_some, ih, setChild_eq_self t hc]

theorem graft_cons_none {n : ℕ} {l : ν} {ls : List ν} {t : Table B ν α (n + 2)} {p : ℤ}
    (h : t.2 (digit B (n + 1) p) = none) : graft (n + 1) (l :: ls) t p =
      setChild t (digit B (n + 1) p) (some (graft n ls (bare n l) p)) := by
  rw [graft, h]

/-- Adding tables adds no entries. -/
@[simp] theorem lookup_graft (n : ℕ) (ls : List ν) (t : Table B ν α (n + 1)) (p q : ℤ) :
    lookup (n + 1) (graft n ls t p) q = lookup (n + 1) t q := by
  induction n generalizing ls with
  | zero => rfl
  | succ n ih =>
      by_cases hdigit : digit B (n + 1) q = digit B (n + 1) p
      · cases hc : t.2 (digit B (n + 1) p) with
        | none =>
            cases ls with
            | nil => rw [graft_nil]
            | cons l ls =>
                have hstep : (graft (n + 1) (l :: ls) t p).2 (digit B (n + 1) q) =
                    some (graft n ls (bare n l) p) := by
                  rw [graft_cons_none hc, hdigit, setChild_snd_self]
                rw [lookup, walk_succ_some hstep, ← lookup, ih, lookup, walk_bare, lookup,
                  walk_succ_none (hdigit ▸ hc)]
        | some c =>
            have hcq : t.2 (digit B (n + 1) q) = some c := hdigit ▸ hc
            rw [lookup, graft_some hc, walk_descend_self hc hdigit, ← lookup, ih, lookup, lookup, walk_succ_some hcq]
      · have hstep : (graft (n + 1) ls t p).2 (digit B (n + 1) q) = t.2 (digit B (n + 1) q) := by
          cases hc : t.2 (digit B (n + 1) p) with
          | none =>
              cases ls with
              | nil => rw [graft_nil]
              | cons l ls => rw [graft_cons_none hc, setChild_snd_of_ne _ _ hdigit]
          | some c => rw [graft_some hc, descend, setChild_snd_of_ne _ _ hdigit]
        rw [lookup, lookup, walk_succ, walk_succ, hstep]

/-- Each table that is added lets the walk go one level further. -/
theorem stop_graft (n : ℕ) (ls : List ν) (t : Table B ν α (n + 1)) (p : ℤ) :
    stop (n + 1) (graft n ls t p) p = stop (n + 1) t p - ls.length := by
  induction n generalizing ls with
  | zero => rw [graft, Nat.le_zero.1 (stop_le 0 t p), Nat.zero_sub]
  | succ n ih =>
      cases hc : t.2 (digit B (n + 1) p) with
      | none =>
          cases ls with
          | nil => rw [graft_nil, List.length_nil, Nat.sub_zero]
          | cons l ls =>
              have hstep : (graft (n + 1) (l :: ls) t p).2 (digit B (n + 1) p) =
                  some (graft n ls (bare n l) p) := by
                rw [graft_cons_none hc, setChild_snd_self]
              have ht : stop (n + 2) t p = n + 1 := by rw [stop, walk_succ_none hc]
              have hb : stop (n + 1) (bare n l : Table B ν α (n + 1)) p = n := by rw [stop, walk_bare]
              rw [stop, walk_succ_some hstep, ← stop, ih, hb, ht, List.length_cons]
              omega
      | some c =>
          have ht : stop (n + 2) t p = stop (n + 1) c p := by rw [stop, walk_succ_some hc, stop]
          rw [stop, graft_some hc, walk_descend_self hc rfl, ← stop, ih, ht]

/-- Where there are only the tables on the way to one key, the walk to another key doesn't come below the level
where they part. -/
theorem le_stop_graft_bare {n k : ℕ} (l : ν) (ls : List ν) {p q : ℤ} (h : ¬ Agree B k (n + 1) p q) :
    k ≤ stop (n + 1) (graft n ls (bare n l : Table B ν α (n + 1)) p) q := by
  induction n generalizing l ls with
  | zero =>
      by_contra hk
      refine h fun j hj hlt => ?_
      omega
  | succ n ih =>
      have hk : k ≤ n + 1 := by
        by_contra hk
        refine h fun j hj hlt => ?_
        omega
      cases ls with
      | nil =>
          rw [graft_nil, stop, walk_bare]
          exact hk
      | cons l' ls =>
          have hbare : (bare (n + 1) l : Table B ν α (n + 2)).2 (digit B (n + 1) p) = none := rfl
          by_cases hdigit : digit B (n + 1) p = digit B (n + 1) q
          · have hstep : (graft (n + 1) (l' :: ls) (bare (n + 1) l : Table B ν α (n + 2)) p).2 (digit B (n + 1) q) =
                some (graft n ls (bare n l') p) := by
              rw [graft_cons_none hbare, ← hdigit, setChild_snd_self]
            rw [stop, walk_succ_some hstep]
            exact ih l' ls fun hag => h ((agree_succ hk).2 ⟨hag, hdigit⟩)
          · have hstep : (graft (n + 1) (l' :: ls) (bare (n + 1) l : Table B ν α (n + 2)) p).2 (digit B (n + 1) q) =
                none := by
              rw [graft_cons_none hbare, setChild_snd_of_ne _ _ (Ne.symm hdigit)]
              rfl
            rw [stop, walk_succ_none hstep]
            exact hk

/-! ### Taking tables away -/

/-- The last table on the way to a key. -/
def leaf : (n : ℕ) → Table B ν α (n + 1) → ℤ → Option (Table B ν α 1)
  | 0, t, _ => some t
  | n + 1, t, p => (t.2 (digit B (n + 1) p)).bind fun c => leaf n c p

/-- Takes the last table on the way to a key away. -/
def dropLeaf : (n : ℕ) → Table B ν α (n + 2) → ℤ → Table B ν α (n + 2)
  | 0, t, p => setChild t (digit B 1 p) none
  | n + 1, t, p => descend t p fun c => dropLeaf n c p

/-- The last table on the way to a key has no entries. -/
def LeafEmpty (n : ℕ) (t : Table B ν α (n + 1)) (p : ℤ) : Prop := ∀ l ∈ leaf n t p, ∀ i, l.2 i = none

theorem lookup_eq_leaf {n : ℕ} {t : Table B ν α (n + 1)} {p q : ℤ} (h : Agree B 1 (n + 1) p q) :
    lookup (n + 1) t q = (leaf n t p).bind fun l => l.2 (digit B 0 q) := by
  induction n with
  | zero =>
      rw [lookup, walk_succ, leaf, Option.bind_some]
      cases t.2 (digit B 0 q) <;> rfl
  | succ n ih =>
      have hdigit : digit B (n + 1) p = digit B (n + 1) q := h (n + 1) (by omega) (by omega)
      cases hc : t.2 (digit B (n + 1) p) with
      | none => rw [lookup, walk_succ_none (hdigit ▸ hc), leaf, hc, Option.bind_none, Option.bind_none]
      | some c =>
          rw [lookup, walk_succ_some (hdigit ▸ hc), leaf, hc, Option.bind_some]
          exact ih fun j hj hlt => h j hj (by omega)

/-- The key with another last digit. -/
theorem exists_last_digit (p : ℤ) (i : Fin B) : ∃ q, q / B = p / B ∧ digit B 0 q = i := by
  refine ⟨i + B * (p / B), ?_, ?_⟩
  · rw [Int.add_mul_ediv_left _ _ base_pos.ne',
      Int.ediv_eq_zero_of_lt (Int.natCast_nonneg i) (Int.ofNat_lt.2 i.isLt), zero_add]
  · have hmod : ((i : ℕ) + (B : ℤ) * (p / B)) % B = (i : ℕ) := by
      rw [Int.add_mul_emod_self_left, Int.emod_eq_of_lt (Int.natCast_nonneg i) (Int.ofNat_lt.2 i.isLt)]
    rw [digit, pow_zero, Int.ediv_one, hmod, Int.toNat_natCast, Fin.ofNat_val_eq_self]

/-- A last table none of whose keys is found is empty. -/
theorem leafEmpty_of_lookup {n : ℕ} {t : Table B ν α (n + 1)} {p : ℤ}
    (h : ∀ q, q / (B : ℤ) = p / B → lookup (n + 1) t q = none) : LeafEmpty n t p := by
  intro l hl i
  obtain ⟨q, hq, rfl⟩ := exists_last_digit p i
  have hagree : Agree B 1 (n + 1) p q := agree_of_div_eq (by rw [pow_one, hq]) _
  have hlook := h q hq
  rwa [lookup_eq_leaf hagree, Option.mem_def.1 hl, Option.bind_some] at hlook

/-- Taking an empty table away takes no entry away. -/
theorem lookup_dropLeaf {n : ℕ} {t : Table B ν α (n + 2)} {p : ℤ} (h : LeafEmpty (n + 1) t p) (q : ℤ) :
    lookup (n + 2) (dropLeaf n t p) q = lookup (n + 2) t q := by
  induction n with
  | zero =>
      by_cases hdigit : digit B 1 q = digit B 1 p
      · have hnone : (dropLeaf 0 t p).2 (digit B 1 q) = none := by rw [dropLeaf, hdigit, setChild_snd_self]
        have hagree : Agree B 1 2 p q := fun j hj hlt => by
          obtain rfl : j = 1 := by omega
          exact hdigit.symm
        rw [lookup, walk_succ_none hnone, lookup_eq_leaf hagree]
        cases hl : leaf 1 t p with
        | none => rfl
        | some l => exact (h l hl _).symm
      · rw [lookup, lookup, walk_succ, walk_succ, dropLeaf, setChild_snd_of_ne _ _ hdigit]
  | succ n ih =>
      rw [dropLeaf]
      by_cases hdigit : digit B (n + 2) q = digit B (n + 2) p
      · cases hc : t.2 (digit B (n + 2) p) with
        | none => rw [descend_none hc]
        | some c =>
            have hempty : LeafEmpty (n + 1) c p := by
              intro l hl
              exact h l (by rw [leaf, hc]; exact hl)
            have hcq : t.2 (digit B (n + 2) q) = some c := hdigit ▸ hc
            rw [lookup, walk_descend_self hc hdigit, ← lookup, ih hempty, lookup, lookup, walk_succ_some hcq]
      · rw [lookup, lookup, walk_descend_of_ne hdigit]

/-- The walk to a key of another table. -/
theorem walk_dropLeaf_of_not_agree {n : ℕ} {t : Table B ν α (n + 2)} {p q : ℤ} (h : ¬ Agree B 1 (n + 2) p q) :
    walk (n + 2) (dropLeaf n t p) q = walk (n + 2) t q := by
  induction n with
  | zero =>
      have hdigit : digit B 1 q ≠ digit B 1 p := fun heq => h fun j hj hlt => by
        obtain rfl : j = 1 := by omega
        exact heq.symm
      rw [walk_succ, walk_succ, dropLeaf, setChild_snd_of_ne _ _ hdigit]
  | succ n ih =>
      rw [dropLeaf]
      by_cases hdigit : digit B (n + 2) q = digit B (n + 2) p
      · have hrest : ¬ Agree B 1 (n + 2) p q := fun hag => h ((agree_succ (by omega)).2 ⟨hag, hdigit.symm⟩)
        cases hc : t.2 (digit B (n + 2) p) with
        | none => rw [descend_none hc]
        | some c =>
            have hcq : t.2 (digit B (n + 2) q) = some c := hdigit ▸ hc
            rw [walk_descend_self hc hdigit, ih hrest, walk_succ_some hcq]
      · exact walk_descend_of_ne hdigit

/-- Takes the tables without entries away, bottom up; the labels of those that are taken away come in their
order. -/
def prune : (n : ℕ) → Table B ν α (n + 1) → List ν × Option (Table B ν α (n + 1))
  | 0, t => if ∀ i, (t.2 i).isNone then ([t.1], none) else ([], some t)
  | n + 1, t =>
    let rest := (List.finRange B).flatMap fun i => ((t.2 i).map fun c => (prune n c).1).getD []
    let child i := (t.2 i).bind fun c => (prune n c).2
    if ∀ i, (child i).isNone then (rest ++ [t.1], none) else (rest, some (t.1, child))

/-- Taking empty tables away takes no entry away. -/
theorem lookup_prune (n : ℕ) (t : Table B ν α (n + 1)) (q : ℤ) :
    ((prune n t).2.bind fun c => lookup (n + 1) c q) = lookup (n + 1) t q := by
  induction n with
  | zero =>
      rw [prune]
      split
      · rename_i h
        rw [lookup, walk_succ_none (Option.isNone_iff_eq_none.1 (h _))]
        rfl
      · rfl
  | succ n ih =>
      have hchild : ((t.2 (digit B (n + 1) q)).bind fun c => (prune n c).2).bind (fun c => lookup (n + 1) c q) =
          lookup (n + 2) t q := by
        cases hc : t.2 (digit B (n + 1) q) with
        | none => rw [lookup, walk_succ_none hc, Option.bind_none, Option.bind_none]
        | some c => rw [lookup, walk_succ_some hc, Option.bind_some, ih, lookup]
      rw [prune]
      dsimp only
      split
      · rename_i h
        rw [← hchild, Option.isNone_iff_eq_none.1 (h _)]
        rfl
      · rw [Option.bind_some, ← hchild]
        cases hc : (t.2 (digit B (n + 1) q)).bind fun c => (prune n c).2 with
        | none => rw [lookup, walk_succ_none hc, Option.bind_none]
        | some c => rw [lookup, walk_succ_some hc, Option.bind_some, lookup]

/-! ### Sums -/

section Sums

variable {M : Type} [AddCancelCommMonoid M] (w : ν → M) (u : α → M)

/-- What there is of a summand that may be missing. -/
def weight {β : Type} (f : β → M) (o : Option β) : M := (o.map f).getD 0

@[simp] theorem weight_none {β : Type} (f : β → M) : weight f none = 0 := rfl

@[simp] theorem weight_some {β : Type} (f : β → M) (b : β) : weight f (some b) = f b := rfl

/-- The sum over the labels and the entries of a table. -/
def total : (n : ℕ) → Table B ν α n → M
  | 0, a => u a
  | n + 1, t => w t.1 + ∑ i, weight (total n) (t.2 i)

variable {w u}

omit [NeZero B] in
theorem total_succ (n : ℕ) (t : Table B ν α (n + 1)) :
    total w u (n + 1) t = w t.1 + ∑ i, weight (total w u n) (t.2 i) := rfl

omit [NeZero B] in
@[simp] theorem total_bare (n : ℕ) (l : ν) : total w u (n + 1) (bare n l : Table B ν α (n + 1)) = w l := by
  rw [total_succ, bare]
  simp

omit [NeZero B] in
/-- One summand is exchanged for another. -/
theorem sum_update {β : Type} (f : β → M) (c : Fin B → Option β) (d : Fin B) (x : Option β) :
    (∑ i, weight f (Function.update c d x i)) + weight f (c d) = (∑ i, weight f (c i)) + weight f x := by
  rw [← Finset.add_sum_erase _ _ (Finset.mem_univ d),
    ← Finset.add_sum_erase Finset.univ (fun i => weight f (c i)) (Finset.mem_univ d), Function.update_self]
  have hrest : ∑ i ∈ Finset.univ.erase d, weight f (Function.update c d x i) =
      ∑ i ∈ Finset.univ.erase d, weight f (c i) := by
    refine Finset.sum_congr rfl fun i hi => ?_
    rw [Function.update_of_ne (Finset.ne_of_mem_erase hi)]
  rw [hrest]
  abel

omit [NeZero B] in
theorem total_setChild {n : ℕ} {t : Table B ν α (n + 1)} {d : Fin B} {x : Option (Table B ν α n)} :
    total w u (n + 1) (setChild t d x) + weight (total w u n) (t.2 d) =
      total w u (n + 1) t + weight (total w u n) x := by
  rw [total_succ, total_succ, setChild, add_assoc, sum_update, add_assoc]

/-- A change below an entry is a change of the table. -/
theorem total_descend {n : ℕ} {t : Table B ν α (n + 1)} {p : ℤ} {f : Table B ν α n → Table B ν α n}
    {c : Table B ν α n} {x y : M} (hc : t.2 (digit B n p) = some c)
    (h : total w u n (f c) + x = total w u n c + y) :
    total w u (n + 1) (descend t p f) + x = total w u (n + 1) t + y := by
  have hstep := total_setChild (w := w) (u := u) (t := t) (d := digit B n p) (x := some (f c))
  rw [hc, weight_some, weight_some] at hstep
  rw [descend, hc, Option.map_some]
  refine add_right_cancel (b := total w u n c) ?_
  calc _ = (total w u (n + 1) (setChild t (digit B n p) (some (f c))) + total w u n c) + x := by abel
    _ = total w u (n + 1) t + (total w u n (f c) + x) := by rw [hstep, add_assoc]
    _ = _ := by rw [h, add_comm (total w u n c) y, ← add_assoc]

/-- Storing exchanges an entry for another. -/
theorem total_store {a : Option α} {n : ℕ} {t : Table B ν α (n + 1)} {p : ℤ} (h : stop (n + 1) t p = 0) :
    total w u (n + 1) (store a n t p) + weight u (lookup (n + 1) t p) = total w u (n + 1) t + weight u a := by
  induction n with
  | zero =>
      have hlook : lookup 1 t p = t.2 (digit B 0 p) := by
        rw [lookup, walk_succ]
        cases t.2 (digit B 0 p) <;> rfl
      rw [store, hlook]
      exact total_setChild
  | succ n ih =>
      cases hc : t.2 (digit B (n + 1) p) with
      | none =>
          rw [stop, walk_succ_none hc] at h
          exact absurd h (Nat.succ_ne_zero n)
      | some c =>
          rw [stop, walk_succ_some hc] at h
          have hlook : lookup (n + 2) t p = lookup (n + 1) c p := by rw [lookup, walk_succ_some hc, lookup]
          rw [store, hlook]
          exact total_descend hc (ih h)

/-- The tables that are added bring their labels. -/
theorem total_graft (n : ℕ) (ls : List ν) (t : Table B ν α (n + 1)) (p : ℤ) (h : ls.length ≤ stop (n + 1) t p) :
    total w u (n + 1) (graft n ls t p) = total w u (n + 1) t + (ls.map w).sum := by
  induction n generalizing ls with
  | zero =>
      have hnil : ls = [] := List.length_eq_zero_iff.1 (Nat.le_zero.1 (h.trans (stop_le 0 t p)))
      rw [hnil, graft_nil, List.map_nil, List.sum_nil, add_zero]
  | succ n ih =>
      cases hc : t.2 (digit B (n + 1) p) with
      | none =>
          cases ls with
          | nil => rw [graft_nil, List.map_nil, List.sum_nil, add_zero]
          | cons l ls =>
              have ht : stop (n + 2) t p = n + 1 := by rw [stop, walk_succ_none hc]
              have hb : stop (n + 1) (bare n l : Table B ν α (n + 1)) p = n := by rw [stop, walk_bare]
              rw [ht, List.length_cons] at h
              have hstep := total_setChild (w := w) (u := u) (t := t) (d := digit B (n + 1) p)
                (x := some (graft n ls (bare n l) p))
              rw [hc, weight_none, add_zero, weight_some, ih ls (bare n l) (by omega), total_bare] at hstep
              rw [graft_cons_none hc, hstep, List.map_cons, List.sum_cons]
      | some c =>
          have ht : stop (n + 2) t p = stop (n + 1) c p := by rw [stop, walk_succ_some hc, stop]
          have hrest := ih ls c (ht ▸ h)
          have hzero := total_descend (w := w) (u := u) (x := (0 : M)) (y := (ls.map w).sum) hc
            (f := fun c => graft n ls c p) (by rw [hrest, add_zero])
          rw [graft_some hc]
          simpa only [add_zero] using hzero

/-- An empty table that is taken away takes its label with it. -/
theorem total_dropLeaf {n : ℕ} {t : Table B ν α (n + 2)} {p : ℤ} (h : LeafEmpty (n + 1) t p) :
    total w u (n + 2) (dropLeaf n t p) + weight (fun l => w l.1) (leaf (n + 1) t p) = total w u (n + 2) t := by
  induction n with
  | zero =>
      have hstep := total_setChild (w := w) (u := u) (t := t) (d := digit B 1 p) (x := none)
      rw [weight_none, add_zero] at hstep
      rw [dropLeaf, ← hstep]
      refine congrArg _ ?_
      cases hc : t.2 (digit B 1 p) with
      | none => rw [leaf, hc, Option.bind_none, weight_none, weight_none]
      | some c =>
          have hleaf : leaf 1 t p = some c := by rw [leaf, hc, Option.bind_some, leaf]
          have hnone (i : Fin B) : c.2 i = none := h c hleaf i
          rw [hleaf, weight_some, weight_some, total_succ]
          simp [hnone]
  | succ n ih =>
      cases hc : t.2 (digit B (n + 2) p) with
      | none => rw [dropLeaf, descend_none hc, leaf, hc, Option.bind_none, weight_none, add_zero]
      | some c =>
          have hleaf : leaf (n + 2) t p = leaf (n + 1) c p := by rw [leaf, hc, Option.bind_some]
          have hempty : LeafEmpty (n + 1) c p := fun l hl => h l (hleaf ▸ hl)
          have hstep := total_descend (w := w) (u := u) (y := (0 : M)) hc (f := fun c => dropLeaf n c p)
            (x := weight (fun l => w l.1) (leaf (n + 1) c p)) (by rw [ih hempty, add_zero])
          rw [dropLeaf, hleaf, hstep, add_zero]

omit [NeZero B] in
/-- The tables that are taken away take their labels with them. -/
theorem total_prune (n : ℕ) (t : Table B ν α (n + 1)) :
    ((prune n t).1.map w).sum + weight (total w u (n + 1)) (prune n t).2 = total w u (n + 1) t := by
  induction n with
  | zero =>
      rw [prune]
      split
      · rename_i h
        have hnone (i : Fin B) : t.2 i = none := Option.isNone_iff_eq_none.1 (h i)
        simp [total_succ, hnone]
      · simp
  | succ n ih =>
      have hrest : (((List.finRange B).flatMap fun i =>
          ((t.2 i).map fun c => (prune n c).1).getD []).map w).sum +
            ∑ i, weight (total w u (n + 1)) ((t.2 i).bind fun c => (prune n c).2) =
          ∑ i, weight (total w u (n + 1)) (t.2 i) := by
        have hlist : (((List.finRange B).flatMap fun i =>
            ((t.2 i).map fun c => (prune n c).1).getD []).map w).sum =
              ∑ i, ((((t.2 i).map fun c => (prune n c).1).getD []).map w).sum := by
          rw [List.map_flatMap, List.flatMap, List.sum_flatten, List.map_map, Fin.sum_univ_def]
          rfl
        rw [hlist, ← Finset.sum_add_distrib]
        refine Finset.sum_congr rfl fun i _ => ?_
        cases t.2 i with
        | none => simp
        | some c => exact ih c
      rw [prune]
      dsimp only
      rw [total_succ, ← hrest]
      split
      · rename_i h
        have hnone (i : Fin B) : ((t.2 i).bind fun c => (prune n c).2) = none := Option.isNone_iff_eq_none.1 (h i)
        simp [hnone]
        abel
      · rw [weight_some, total_succ]
        abel

-- what goes through all entries of a table is never to be computed when terms are compared
attribute [irreducible] total prune

end Sums

/-! ### Long strides -/

/-- Each level's span either begins at the first key of the range or reaches its end. -/
def Covers (B n : ℕ) (p e : ℤ) : Prop := ∀ k < n, (B : ℤ) ^ k ∣ p ∨ e ≤ (p / (B : ℤ) ^ k + 1) * (B : ℤ) ^ k

instance (B n : ℕ) (p e : ℤ) : Decidable (Covers B n p e) := inferInstanceAs (Decidable (∀ k < n, _))

/-- A stride from `p` over the span where the walk stops, and no longer one, passes over no key before `e`. -/
def Harmless (n : ℕ) (t : Table B ν α n) (p e : ℤ) : Prop :=
  ∀ k ≤ stop n t p, (B : ℤ) ^ k ∣ p ∨ e ≤ (p / (B : ℤ) ^ k + 1) * (B : ℤ) ^ k

theorem Covers.harmless {n : ℕ} {p e : ℤ} (h : Covers B (n + 1) p e) (t : Table B ν α (n + 1)) :
    Harmless (n + 1) t p e :=
  fun k hk => h k (by have := stop_le n t p; omega)

/-- The keys that a harmless stride goes over before the end have the digits of its first key. -/
theorem Harmless.div_eq {n : ℕ} {t : Table B ν α n} {p e q : ℤ} (h : Harmless n t p e) (hpq : p ≤ q)
    (hq : q < p + (B : ℤ) ^ stop n t p) (hqe : q < e) :
    q / (B : ℤ) ^ stop n t p = p / (B : ℤ) ^ stop n t p := by
  have hpow := pow_base_pos (B := B) (stop n t p)
  have hlow : p / (B : ℤ) ^ stop n t p ≤ q / (B : ℤ) ^ stop n t p := Int.ediv_le_ediv hpow hpq
  have hhigh : q / (B : ℤ) ^ stop n t p < p / (B : ℤ) ^ stop n t p + 1 := by
    rw [Int.ediv_lt_iff_lt_mul hpow]
    rcases h _ (Nat.le_refl _) with hdvd | hend
    · rw [add_mul, one_mul, Int.ediv_mul_cancel hdvd]
      exact hq
    · exact hqe.trans_le hend
  omega

/-- The walk from a key of a block stops at the block's level or above for all of its keys or for none. -/
theorem le_stop_congr {n k : ℕ} {t : Table B ν α n} {p q : ℤ} (h : p / (B : ℤ) ^ k = q / (B : ℤ) ^ k)
    (hk : k ≤ stop n t p) : stop n t q = stop n t p := by
  rw [stop, walk_congr ((agree_of_div_eq h n).mono hk), stop]

/-- A stride that doesn't reach the beginning of a block stays in the block. -/
theorem div_pow_add {p : ℤ} {s k : ℕ} (hdvd : (B : ℤ) ^ s ∣ p) (hsk : s ≤ k)
    (hnot : ¬ (B : ℤ) ^ k ∣ p + (B : ℤ) ^ s) : (p + (B : ℤ) ^ s) / (B : ℤ) ^ k = p / (B : ℤ) ^ k := by
  obtain ⟨m, rfl⟩ := hdvd
  obtain ⟨d, rfl⟩ := Nat.exists_eq_add_of_le hsk
  have hs := pow_base_pos (B := B) s
  have hd := pow_base_pos (B := B) d
  have hfactor : (B : ℤ) ^ s * m + (B : ℤ) ^ s = (B : ℤ) ^ s * (m + 1) := by ring
  rw [hfactor, pow_add] at hnot ⊢
  rw [Int.mul_ediv_mul_of_pos _ _ hs, Int.mul_ediv_mul_of_pos _ _ hs]
  have hrem : (m + 1) % (B : ℤ) ^ d ≠ 0 := fun h =>
    hnot (mul_dvd_mul_left _ (Int.dvd_of_emod_eq_zero h))
  have hsum := Int.emod_add_mul_ediv (m + 1) ((B : ℤ) ^ d)
  have h0 := Int.emod_nonneg (m + 1) hd.ne'
  have hlt := Int.emod_lt_of_pos (m + 1) hd
  refine ((Int.ediv_emod_unique hd).2 ⟨?_, ?_, ?_⟩ : m / _ = _ ∧ m % _ = (m + 1) % (B : ℤ) ^ d - 1).1.symm
  · linarith
  · omega
  · omega

/-- **Long strides stay harmless.** -/
theorem Harmless.next {n : ℕ} {t : Table B ν α n} {p e : ℤ} (h : Harmless n t p e)
    (hlt : p + (B : ℤ) ^ stop n t p < e) : Harmless n t (p + (B : ℤ) ^ stop n t p) e := by
  intro k hk
  have hpow := pow_base_pos (B := B) (stop n t p)
  have hdvd : (B : ℤ) ^ stop n t p ∣ p := by
    rcases h _ (Nat.le_refl _) with hdvd | hend
    · exact hdvd
    · have hle := Int.ediv_mul_le p hpow.ne'
      rw [add_mul, one_mul] at hend
      omega
  rcases Nat.lt_or_ge (stop n t p) k with hgt | hle
  · -- above that level the stride has left the block of `p`, and it stands at the beginning of the next one
    left
    by_contra hnot
    have hsame := div_pow_add hdvd hgt.le hnot
    have := le_stop_congr hsame hk
    omega
  · left
    exact dvd_add ((pow_dvd_pow _ hle).trans hdvd) (pow_dvd_pow _ hle)

end RadixTables
