/-
**Memory in pages.**

An address space gives every page number a page or none.  A page has flags, which say who may use it, and its
bytes.  Bytes are copied into the space a page at a time: each page is looked up before anything is stored in
it, and where the lookup fails the copy ends, with what was stored so far in place.

Main definitions:

* `PagedMemory.peek`, `PagedMemory.store`, `PagedMemory.storeAll` — bytes at addresses;
* `PagedMemory.copyIn` — copying page by page;
* `PagedMemory.Reaches` — every address up to one may be used.

Main results:

* `PagedMemory.peek_storeAll` — what is seen after stores at consecutive addresses;
* `PagedMemory.peek_copyIn` — **a copy stores the bytes it reaches**, and leaves the rest.
-/

import Mathlib.Data.Int.Notation
import Mathlib.Data.Nat.Notation
import Mathlib.Logic.Function.Basic
import Mathlib.Tactic.SplitIfs

set_option relaxedAutoImplicit false
set_option autoImplicit false

namespace PagedMemory

/-! ### Addresses -/

/-- A page: its flags, and the byte at each offset. -/
structure Page (φ : Type) where
  flags : φ
  bytes : ℕ → UInt8

/-- The pages by their numbers. -/
abbrev Space (φ : Type) := ℤ → Option (Page φ)

variable {φ : Type} (size : ℕ)

/-- Where an address lies in its page. -/
def offset (addr : ℤ) : ℕ := (addr % size).toNat

/-- The flags of the page of an address. -/
def flagsAt (m : Space φ) (addr : ℤ) : Option φ := (m (addr / size)).map Page.flags

/-- The byte at an address, whoever may use it. -/
def peek (m : Space φ) (addr : ℤ) : Option UInt8 := (m (addr / size)).map fun p => p.bytes (offset size addr)

/-- Storing a byte.  Where there is no page nothing happens. -/
def store (m : Space φ) (addr : ℤ) (byte : UInt8) : Space φ :=
  Function.update m (addr / size) ((m (addr / size)).map fun p =>
    { p with bytes := Function.update p.bytes (offset size addr) byte })

/-- Storing bytes at consecutive addresses. -/
def storeAll (m : Space φ) (addr : ℤ) : List UInt8 → Space φ
  | [] => m
  | byte :: bytes => storeAll (store size m addr byte) (addr + 1) bytes

/-- The address may be used. -/
def allowed (ok : φ → Bool) (m : Space φ) (addr : ℤ) : Bool := (flagsAt size m addr).any ok

/-- Every address up to one may be used. -/
def Reaches (ok : φ → Bool) (m : Space φ) (addr : ℤ) (j : ℕ) : Prop :=
  ∀ i ≤ j, allowed size ok m (addr + i) = true

/-- Copying bytes into the space, a page in each round, with whether the copy came to its end. -/
def copyIn (ok : φ → Bool) : ℕ → Space φ → ℤ → List UInt8 → Space φ × Bool
  | _, m, _, [] => (m, true)
  | 0, m, _, _ => (m, false)
  | rounds + 1, m, addr, bytes =>
    let k := min (size - offset size addr) bytes.length
    if allowed size ok m addr then
      copyIn ok rounds (storeAll size m addr (bytes.take k)) (addr + k) (bytes.drop k)
    else (m, false)

variable {size} {m : Space φ} {ok : φ → Bool}

/-- Addresses of one page. -/
theorem page_add (hsize : 0 < size) {addr : ℤ} {j : ℕ} (hj : offset size addr + j < size) :
    (addr + j) / (size : ℤ) = addr / size := by
  have hmod := Int.emod_nonneg addr (by omega : (size : ℤ) ≠ 0)
  have hsplit := Int.mul_ediv_add_emod addr size
  unfold offset at hj
  refine ((Int.ediv_emod_unique (r := addr % size + j) (by omega)).2 ⟨?_, by omega, by omega⟩).1
  omega

theorem flagsAt_add (hsize : 0 < size) {addr : ℤ} {j : ℕ} (hj : offset size addr + j < size) :
    flagsAt size m (addr + j) = flagsAt size m addr := by
  rw [flagsAt, page_add hsize hj, flagsAt]

/-! ### Stores -/

@[simp] theorem flagsAt_store (addr a : ℤ) (byte : UInt8) :
    flagsAt size (store size m addr byte) a = flagsAt size m a := by
  unfold flagsAt store
  by_cases h : a / (size : ℤ) = addr / size
  · rw [h, Function.update_self, Option.map_map]
    rfl
  · rw [Function.update_of_ne h]

theorem peek_store_self (addr : ℤ) (byte : UInt8) :
    peek size (store size m addr byte) addr = (flagsAt size m addr).map fun _ => byte := by
  unfold peek store flagsAt
  rw [Function.update_self, Option.map_map, Option.map_map]
  congr 1
  funext p
  exact Function.update_self _ _ _

theorem peek_store_ne (hsize : 0 < size) {addr a : ℤ} (h : a ≠ addr) (byte : UInt8) :
    peek size (store size m addr byte) a = peek size m a := by
  unfold peek store
  by_cases hpage : a / (size : ℤ) = addr / size
  · have hoffset : offset size a ≠ offset size addr := by
      intro heq
      unfold offset at heq
      have ha := Int.emod_nonneg a (by omega : (size : ℤ) ≠ 0)
      have haddr := Int.emod_nonneg addr (by omega : (size : ℤ) ≠ 0)
      have hsplit := Int.mul_ediv_add_emod a size
      have hsplit' := Int.mul_ediv_add_emod addr size
      rw [hpage] at hsplit
      omega
    rw [hpage, Function.update_self, Option.map_map]
    congr 1
    funext p
    exact Function.update_of_ne hoffset _ _
  · rw [Function.update_of_ne hpage]

@[simp] theorem flagsAt_storeAll (addr a : ℤ) (bytes : List UInt8) :
    flagsAt size (storeAll size m addr bytes) a = flagsAt size m a := by
  induction bytes generalizing m addr with
  | nil => rfl
  | cons byte bytes ih => rw [storeAll, ih, flagsAt_store]

theorem storeAll_append (addr : ℤ) (bytes bytes' : List UInt8) :
    storeAll size m addr (bytes ++ bytes') =
      storeAll size (storeAll size m addr bytes) (addr + bytes.length) bytes' := by
  induction bytes generalizing m addr with
  | nil => simp [storeAll]
  | cons byte bytes ih =>
      have haddr : addr + 1 + bytes.length = addr + (byte :: bytes).length := by
        rw [List.length_cons]
        omega
      rw [List.cons_append, storeAll, ih, haddr, storeAll]

theorem peek_storeAll_of_lt (hsize : 0 < size) {addr a : ℤ} (h : a < addr) (bytes : List UInt8) :
    peek size (storeAll size m addr bytes) a = peek size m a := by
  induction bytes generalizing m addr with
  | nil => rfl
  | cons byte bytes ih =>
      have hne : a ≠ addr := by omega
      rw [storeAll, ih (by omega), peek_store_ne hsize hne]

/-- **What is seen after stores at consecutive addresses.** -/
theorem peek_storeAll (hsize : 0 < size) (addr : ℤ) (bytes : List UInt8) (j : ℕ) :
    peek size (storeAll size m addr bytes) (addr + j) =
      match bytes[j]? with
      | none => peek size m (addr + j)
      | some byte => (flagsAt size m (addr + j)).map fun _ => byte := by
  induction bytes generalizing m addr j with
  | nil => rfl
  | cons byte bytes ih =>
      rw [storeAll]
      cases j with
      | zero =>
          rw [Int.natCast_zero, Int.add_zero, peek_storeAll_of_lt hsize (by omega), peek_store_self]
          rfl
      | succ j =>
          have haddr : addr + ((j + 1 : ℕ) : ℤ) = addr + 1 + j := by omega
          have hne : addr + 1 + (j : ℤ) ≠ addr := by omega
          rw [haddr, ih, List.getElem?_cons_succ, flagsAt_store, peek_store_ne hsize hne]

/-! ### Copies -/

theorem allowed_storeAll (addr a : ℤ) (bytes : List UInt8) :
    allowed size ok (storeAll size m addr bytes) a = allowed size ok m a := by
  rw [allowed, flagsAt_storeAll, allowed]

/-- The number of addresses that are reached, of the next `n`. -/
def reach (size : ℕ) (ok : φ → Bool) (m : Space φ) (addr : ℤ) : ℕ → ℕ
  | 0 => 0
  | n + 1 => if allowed size ok m addr then reach size ok m (addr + 1) n + 1 else 0

theorem lt_reach_iff (addr : ℤ) (n j : ℕ) :
    j < reach size ok m addr n ↔ j < n ∧ Reaches size ok m addr j := by
  induction n generalizing addr j with
  | zero => simp [reach]
  | succ n ih =>
      rw [reach]
      split_ifs with hok
      · cases j with
        | zero =>
            refine iff_of_true (Nat.succ_pos _) ⟨Nat.succ_pos n, fun i hi => ?_⟩
            rw [Nat.le_zero.1 hi, Int.natCast_zero, Int.add_zero]
            exact hok
        | succ j =>
            rw [Nat.succ_lt_succ_iff, ih, Nat.succ_lt_succ_iff]
            refine and_congr_right fun _ => ⟨fun h i hi => ?_, fun h i hi => ?_⟩
            · cases i with
              | zero =>
                  rw [Int.natCast_zero, Int.add_zero]
                  exact hok
              | succ i =>
                  have haddr : addr + ((i + 1 : ℕ) : ℤ) = addr + 1 + i := by omega
                  rw [haddr]
                  exact h i (Nat.succ_le_succ_iff.1 hi)
            · have haddr : addr + 1 + (i : ℤ) = addr + ((i + 1 : ℕ) : ℤ) := by omega
              rw [haddr]
              exact h (i + 1) (Nat.succ_le_succ hi)
      · refine iff_of_false (Nat.not_lt_zero j) ?_
        rintro ⟨-, h⟩
        have hzero := h 0 (Nat.zero_le j)
        rw [Int.natCast_zero, Int.add_zero] at hzero
        exact hok hzero

/-- The addresses that are left of a page are reached together. -/
theorem reach_page (hsize : 0 < size) {addr : ℤ} (hok : allowed size ok m addr = true) {k : ℕ}
    (hk : offset size addr + k ≤ size) (n : ℕ) :
    reach size ok m addr (k + n) = k + reach size ok m (addr + k) n := by
  induction k generalizing n with
  | zero => simp
  | succ k ih =>
      have hlast : allowed size ok m (addr + k) = true := by
        rw [allowed, flagsAt_add hsize (by omega)]
        exact hok
      have haddr : addr + (k : ℤ) + 1 = addr + ((k + 1 : ℕ) : ℤ) := by omega
      rw [Nat.add_assoc, ih (by omega), Nat.add_comm 1 n, reach, if_pos hlast, haddr]
      omega

theorem reach_storeAll (addr a : ℤ) (bytes : List UInt8) (n : ℕ) :
    reach size ok (storeAll size m addr bytes) a n = reach size ok m a n := by
  induction n generalizing a with
  | zero => rfl
  | succ n ih => rw [reach, reach, allowed_storeAll, ih]

/-- **A copy stores the bytes it reaches.** -/
theorem copyIn_eq (hsize : 0 < size) {rounds : ℕ} {addr : ℤ} {bytes : List UInt8} (h : bytes.length ≤ rounds) :
    (copyIn size ok rounds m addr bytes).1 =
      storeAll size m addr (bytes.take (reach size ok m addr bytes.length)) := by
  induction rounds generalizing m addr bytes with
  | zero =>
      obtain rfl := List.length_eq_zero_iff.1 (Nat.le_zero.1 h)
      rfl
  | succ rounds ih =>
      by_cases hnil : bytes = []
      · rw [hnil]
        rfl
      have hlen := List.length_pos_iff.2 hnil
      have hoffset : offset size addr < size := by
        have hlt := Int.emod_lt_of_pos addr (by omega : (0 : ℤ) < size)
        unfold offset
        omega
      have hround : copyIn size ok (rounds + 1) m addr bytes =
          if allowed size ok m addr then
            copyIn size ok rounds (storeAll size m addr (bytes.take (min (size - offset size addr) bytes.length)))
              (addr + (min (size - offset size addr) bytes.length : ℕ))
              (bytes.drop (min (size - offset size addr) bytes.length))
          else (m, false) := by
        rw [copyIn]
        exact hnil
      rw [hround]
      split_ifs with hok
      · -- what is left of the page, and the rest
        generalize hk : min (size - offset size addr) bytes.length = k
        have hreach := reach_page hsize hok (k := k) (by omega) (bytes.length - k)
        rw [Nat.add_sub_cancel' (by omega)] at hreach
        rw [ih (by rw [List.length_drop]; omega), reach_storeAll, hreach, List.take_add, storeAll_append,
          List.length_take, Nat.min_eq_left (by omega), List.length_drop]
      · obtain ⟨byte, rest, rfl⟩ := List.exists_cons_of_ne_nil hnil
        rw [List.length_cons, reach, if_neg hok, List.take_zero, storeAll]

theorem isSome_of_allowed {a : ℤ} (h : allowed size ok m a = true) : ∃ flags, flagsAt size m a = some flags := by
  obtain ⟨flags, hflags, -⟩ := (Option.any_eq_true _ _).1 h
  exact ⟨flags, hflags⟩

/-- **After a copy a byte is at its address if the copy reached it, or if it was there before.** -/
theorem peek_copyIn (hsize : 0 < size) {rounds : ℕ} {addr : ℤ} {bytes : List UInt8} (h : bytes.length ≤ rounds)
    {j : ℕ} {byte : UInt8} (hj : bytes[j]? = some byte) :
    peek size (copyIn size ok rounds m addr bytes).1 (addr + j) = some byte ↔
      Reaches size ok m addr j ∨ peek size m (addr + j) = some byte := by
  obtain ⟨hlt, -⟩ := List.getElem?_eq_some_iff.1 hj
  have hiff := @lt_reach_iff φ size m ok addr bytes.length j
  rw [copyIn_eq hsize h, peek_storeAll hsize, List.getElem?_take]
  by_cases hreach : j < reach size ok m addr bytes.length
  · obtain ⟨-, hreaches⟩ := hiff.1 hreach
    obtain ⟨flags, hflags⟩ := isSome_of_allowed (hreaches j (Nat.le_refl j))
    rw [if_pos hreach, hj]
    exact iff_of_true (by rw [hflags]; rfl) (Or.inl hreaches)
  · have hnot : ¬ Reaches size ok m addr j := fun hreaches => hreach (hiff.2 ⟨hlt, hreaches⟩)
    rw [if_neg hreach, or_iff_right hnot]

end PagedMemory
