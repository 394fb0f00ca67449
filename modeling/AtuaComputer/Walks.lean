/-
**Walks that stop and walks that go in circles.**

A step leads from a place to the next one, or nowhere.  Where only finitely many places have a next one, a
walk either stops or comes back to a place where it has been, and then it goes on for ever.

Main definitions:

* `Walks.walk` — where a walk is after some steps;
* `Walks.Endless`, `Walks.Returns` — a walk that does not stop, and one that comes back.

Main results:

* `Walks.walk_add` — a walk is continued from where it is;
* `Walks.endless_iff_returns` — **a walk through finitely many places is endless if and only if it returns**.
-/

import Mathlib.Data.Finset.Card
import Mathlib.Data.Finset.Range

set_option relaxedAutoImplicit false
set_option autoImplicit false

namespace Walks

variable {α : Type} (f : α → Option α)

/-- Where a walk is after some steps; nowhere, if it has stopped. -/
def walk (a : α) : ℕ → Option α
  | 0 => some a
  | n + 1 => (walk a n).bind f

/-- The walk does not stop. -/
def Endless (a : α) : Prop := ∀ n, walk f a n ≠ none

/-- The walk comes back to a place where it has been. -/
def Returns (a : α) : Prop := ∃ i j b, i < j ∧ walk f a i = some b ∧ walk f a j = some b

variable {f}

@[simp] theorem walk_zero (a : α) : walk f a 0 = some a := rfl

theorem walk_succ (a : α) (n : ℕ) : walk f a (n + 1) = (walk f a n).bind f := rfl

/-- **A walk is continued from where it is.** -/
theorem walk_add (a : α) (m n : ℕ) : walk f a (m + n) = (walk f a m).bind fun b => walk f b n := by
  induction n with
  | zero => simp
  | succ n ih =>
      rw [Nat.add_succ, walk_succ, ih, Option.bind_assoc]
      rfl

/-- The first step and the rest. -/
theorem walk_succ' (a : α) (n : ℕ) : walk f a (n + 1) = (f a).bind fun b => walk f b n := by
  rw [Nat.add_comm, walk_add, walk_succ, walk_zero, Option.bind_some]

/-- A walk that has stopped stays stopped. -/
theorem walk_eq_none_of_le {a : α} {m n : ℕ} (hle : m ≤ n) (h : walk f a m = none) : walk f a n = none := by
  obtain ⟨k, rfl⟩ := Nat.exists_eq_add_of_le hle
  rw [walk_add, h, Option.bind_none]

/-- A circle is gone round as often as one likes. -/
theorem walk_mul_of_circle {b : α} {k : ℕ} (h : walk f b k = some b) (n : ℕ) : walk f b (k * n) = some b := by
  induction n with
  | zero => rfl
  | succ n ih => rw [Nat.mul_succ, walk_add, ih, Option.bind_some, h]

theorem endless_of_returns {a : α} (h : Returns f a) : Endless f a := by
  obtain ⟨i, j, b, hlt, hi, hj⟩ := h
  obtain ⟨k, rfl⟩ := Nat.exists_eq_add_of_le hlt.le
  rw [walk_add, hi, Option.bind_some] at hj
  intro n hn
  -- after enough rounds the walk is past every number of steps, and at `b` again
  have hrounds : walk f a (i + k * n) = some b := by
    rw [walk_add, hi, Option.bind_some, walk_mul_of_circle hj]
  have hpast : n ≤ i + k * n := Nat.le_add_left_of_le (Nat.le_mul_of_pos_left n (by omega))
  rw [walk_eq_none_of_le hpast hn] at hrounds
  exact Option.some_ne_none b hrounds.symm

/-- Among more steps than there are places with a next one the walk has stopped or come back. -/
theorem returns_of_walk {S : Finset α} (hS : ∀ a b, f a = some b → a ∈ S) {a : α}
    (h : walk f a (S.card + 1) ≠ none) : Returns f a := by
  have hsome (n : ℕ) (hn : n ≤ S.card + 1) : ∃ b, walk f a n = some b :=
    Option.ne_none_iff_exists'.1 fun hnone => h (walk_eq_none_of_le hn hnone)
  have hmem (n : ℕ) (hn : n ∈ Finset.range (S.card + 1)) : (walk f a n).getD a ∈ S := by
    rw [Finset.mem_range] at hn
    obtain ⟨b, hb⟩ := hsome n (by omega)
    obtain ⟨c, hc⟩ := hsome (n + 1) (by omega)
    rw [walk_succ, hb, Option.bind_some] at hc
    rw [hb]
    exact hS b c hc
  obtain ⟨i, hi, j, hj, hne, heq⟩ := Finset.exists_ne_map_eq_of_card_lt_of_maps_to
    (by rw [Finset.card_range]; exact Nat.lt_succ_self _) hmem
  rw [Finset.mem_range] at hi hj
  obtain ⟨b, hb⟩ := hsome i (by omega)
  obtain ⟨c, hc⟩ := hsome j (by omega)
  have hbc : b = c := by simpa [hb, hc] using heq
  subst hbc
  rcases Nat.lt_or_gt_of_ne hne with hlt | hlt
  · exact ⟨i, j, b, hlt, hb, hc⟩
  · exact ⟨j, i, b, hlt, hc, hb⟩

/-- **A walk through finitely many places is endless if and only if it returns.** -/
theorem endless_iff_returns {S : Finset α} (hS : ∀ a b, f a = some b → a ∈ S) {a : α} :
    Endless f a ↔ Returns f a :=
  ⟨fun h => returns_of_walk hS (h _), endless_of_returns⟩

/-- A walk on which a number grows with every step does not come back. -/
theorem not_returns_of_growing {a : α} (rank : α → ℤ)
    (h : ∀ n b c, walk f a n = some b → f b = some c → rank b < rank c) : ¬ Returns f a := by
  rintro ⟨i, j, b, hlt, hi, hj⟩
  have hgrows (k : ℕ) : ∀ c, walk f a (i + k) = some c → rank b + k ≤ rank c := by
    induction k with
    | zero =>
        intro c hc
        rw [Nat.add_zero, hi, Option.some_inj] at hc
        simp [hc]
    | succ k ih =>
        intro c hc
        rw [← Nat.add_assoc, walk_succ] at hc
        obtain ⟨d, hd, hdc⟩ := Option.bind_eq_some_iff.1 hc
        have hstep := h _ d c hd hdc
        have hsofar := ih d hd
        push_cast
        omega
  obtain ⟨k, rfl⟩ := Nat.exists_eq_add_of_le hlt.le
  have hback := hgrows k b hj
  omega

end Walks
