/-
**Circular buffers and the streams that pass through them.**

A circular buffer has a fixed number of cells, and the element number `k` of the stream that passes
through it lies in the cell `k % cap` while it is in the buffer.  What is in the buffer is a window of the
stream: the elements from a number `lo` on.  This module is about the window alone, for elements of any
type; who moves its two ends, and in which steps, is left to the programs that use it.

Main definitions:

* `RingBuffer.Window` — the cells hold the elements of a stream from a number on;
* `RingBuffer.storeRem`, `RingBuffer.loadRem` — the cell of a number that may be negative.

Main results:

* `RingBuffer.mod_ne_mod` — the elements of a window that fits lie in different cells;
* `RingBuffer.Window.update`, `RingBuffer.Window.push` — the cell behind the window is free, and what is
  written there becomes the next element;
* `RingBuffer.Window.store`, `RingBuffer.Window.append` — the same for many elements at once.
-/

import Mathlib.Algebra.Order.Ring.Int
import Mathlib.Logic.Function.Basic
import Mathlib.Data.List.Basic

set_option relaxedAutoImplicit false
set_option autoImplicit false

namespace RingBuffer

variable {α : Type} {cap lo lo' : ℕ} {cells : ℕ → α} {stream : List α}

/-- Every element of the stream from the number `lo` on lies in its cell. -/
def Window (cap : ℕ) (cells : ℕ → α) (stream : List α) (lo : ℕ) : Prop :=
  ∀ k a, lo ≤ k → stream[k]? = some a → cells (k % cap) = a

/-- Numbers less than `cap` apart have different cells. -/
theorem mod_ne_mod {j k : ℕ} (hjk : j < k) (hk : k < j + cap) : j % cap ≠ k % cap := by
  intro h
  have hdvd : cap ∣ k - j := Nat.dvd_of_mod_eq_zero (Nat.sub_mod_eq_zero_of_mod_eq h.symm)
  have hle : cap ≤ k - j := Nat.le_of_dvd (by omega) hdvd
  omega

theorem mod_inj {j k : ℕ} (hjk : j < k + cap) (hkj : k < j + cap) (h : j % cap = k % cap) : j = k := by
  rcases Nat.lt_trichotomy j k with hlt | heq | hgt
  · exact absurd h (mod_ne_mod hlt hkj)
  · exact heq
  · exact absurd h.symm (mod_ne_mod hgt hjk)

theorem window_nil (cap : ℕ) (cells : ℕ → α) (lo : ℕ) : Window cap cells [] lo := by
  intro k a _ hk
  cases hk

/-- The front of the window may move on. -/
theorem Window.mono (h : Window cap cells stream lo) (hlo : lo ≤ lo') : Window cap cells stream lo' :=
  fun k a hk => h k a (Nat.le_trans hlo hk)

/-- The cell behind a window that leaves room is free. -/
theorem Window.update (h : Window cap cells stream lo) (hroom : stream.length < lo + cap) (a : α) :
    Window cap (Function.update cells (stream.length % cap) a) stream lo := by
  intro k b hk hb
  have hlt : k < stream.length := (List.getElem?_eq_some_iff.1 hb).1
  rw [Function.update_of_ne (mod_ne_mod hlt (by omega))]
  exact h k b hk hb

/-- What lies in the cell behind the window becomes its last element. -/
theorem Window.push (h : Window cap cells stream lo) {a : α} (ha : cells (stream.length % cap) = a) :
    Window cap cells (stream ++ [a]) lo := by
  intro k b hk hb
  rcases Nat.lt_trichotomy k stream.length with hlt | rfl | hgt
  · rw [List.getElem?_append_left hlt] at hb
    exact h k b hk hb
  · rw [List.getElem?_concat_length, Option.some_inj] at hb
    rw [ha, hb]
  · rw [List.getElem?_eq_none (by simp; omega)] at hb
    cases hb

/-- Every cell behind a window that leaves room is free. -/
theorem Window.store (h : Window cap cells stream lo) {n : ℕ} (hn : stream.length ≤ n) (hroom : n < lo + cap)
    (a : α) : Window cap (Function.update cells (n % cap) a) stream lo := by
  intro k b hk hb
  have hlt : k < stream.length := (List.getElem?_eq_some_iff.1 hb).1
  rw [Function.update_of_ne (mod_ne_mod (by omega) (by omega))]
  exact h k b hk hb

/-- What lies in the cells behind the window becomes its last elements. -/
theorem Window.append (h : Window cap cells stream lo) {new : List α}
    (hnew : ∀ i a, new[i]? = some a → cells ((stream.length + i) % cap) = a) :
    Window cap cells (stream ++ new) lo := by
  intro k b hk hb
  rcases Nat.lt_or_ge k stream.length with hlt | hge
  · rw [List.getElem?_append_left hlt] at hb
    exact h k b hk hb
  · rw [List.getElem?_append_right hge] at hb
    have hcell := hnew (k - stream.length) b hb
    rwa [Nat.add_sub_cancel' hge] at hcell

/-! ### Numbers that may be negative -/

/-- `cells[n % cap] = a`, with a remainder that has the sign of `n`.  An assignment to a negative index is
ignored. -/
def storeRem (cap : ℕ) (cells : ℕ → α) (n : ℤ) (a : α) : ℕ → α :=
  if 0 ≤ n.tmod cap then Function.update cells (n.tmod cap).toNat a else cells

/-- `cells[n % cap]`, with what stands for no element. -/
def loadRem (cap : ℕ) (cells : ℕ → α) (none : α) (n : ℤ) : α :=
  if 0 ≤ n.tmod cap then cells (n.tmod cap).toNat else none

theorem storeRem_natCast (cap : ℕ) (cells : ℕ → α) (n : ℕ) (a : α) :
    storeRem cap cells n a = Function.update cells (n % cap) a := by
  have hmod : (n : ℤ).tmod cap = ((n % cap : ℕ) : ℤ) := Int.ofNat_tmod n cap
  rw [storeRem, hmod, if_pos (Int.natCast_nonneg _), Int.toNat_natCast]

theorem loadRem_natCast (cap : ℕ) (cells : ℕ → α) (none : α) (n : ℕ) :
    loadRem cap cells none n = cells (n % cap) := by
  have hmod : (n : ℤ).tmod cap = ((n % cap : ℕ) : ℤ) := Int.ofNat_tmod n cap
  rw [loadRem, hmod, if_pos (Int.natCast_nonneg _), Int.toNat_natCast]

end RingBuffer
