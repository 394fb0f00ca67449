/-
**Records that are moved word by word.**

Two parties that share memory pass a record by storing its words one after the other and loading them one
after the other.  This module is about the part of a record that has been stored, or loaded, so far.

Main definitions:

* `WordTransfer.Holds` — cells hold the values of a list of pairs of an offset and a value.

Main results:

* `WordTransfer.Holds.store` — one more word is stored;
* `WordTransfer.Holds.load` — one more word is loaded.
-/

import Mathlib.Algebra.Order.Ring.Int
import Mathlib.Logic.Function.Basic
import Mathlib.Data.List.Nodup

set_option relaxedAutoImplicit false
set_option autoImplicit false

namespace WordTransfer

variable {α : Type} {cells : ℕ → α} {l m : List (ℕ × α)}

/-- Every offset of the list holds its value. -/
def Holds (cells : ℕ → α) (l : List (ℕ × α)) : Prop := ∀ p ∈ l, cells p.1 = p.2

theorem holds_nil (cells : ℕ → α) : Holds cells [] := by
  intro p hp
  cases hp

theorem Holds.mono (h : Holds cells l) (hsub : m ⊆ l) : Holds cells m :=
  fun p hp => h p (hsub hp)

/-- A store to an offset that the list does not have. -/
theorem Holds.update (h : Holds cells l) {off : ℕ} (hoff : off ∉ l.map Prod.fst) (a : α) :
    Holds (Function.update cells off a) l := by
  intro p hp
  have hne : p.1 ≠ off := by
    rintro rfl
    exact hoff (List.mem_map_of_mem hp)
  rw [Function.update_of_ne hne]
  exact h p hp

/-- The next word of a record is stored. -/
theorem Holds.store {k : ℕ} {p : ℕ × α} (h : Holds cells (l.take k)) (hkeys : (l.map Prod.fst).Nodup)
    (hp : l[k]? = some p) : Holds (Function.update cells p.1 p.2) (l.take (k + 1)) := by
  obtain ⟨hk, rfl⟩ := List.getElem?_eq_some_iff.1 hp
  have hnotin : l[k].1 ∉ (l.take k).map Prod.fst := by
    intro hmem
    obtain ⟨q, hq, heq⟩ := List.mem_map.1 hmem
    obtain ⟨j, hj, rfl⟩ := List.mem_iff_getElem.1 hq
    rw [List.length_take] at hj
    rw [List.getElem_take] at heq
    have hj' : j < (l.map Prod.fst).length := by
      rw [List.length_map]
      omega
    have hk' : k < (l.map Prod.fst).length := by rwa [List.length_map]
    have hkeyj : (l.map Prod.fst)[j] = (l.map Prod.fst)[k] := by
      rw [List.getElem_map, List.getElem_map, heq]
    have hjk : j = k := (List.Nodup.getElem_inj_iff hkeys).1 hkeyj
    omega
  rw [List.take_add_one, hp]
  intro q hq
  rcases List.mem_append.1 hq with hq | hq
  · exact h.update hnotin _ q hq
  · rw [List.mem_singleton.1 hq, Function.update_self]

/-- The next word of a record is loaded. -/
theorem Holds.load {offs : List ℕ} {vals : List α} {k off : ℕ} (h : Holds cells (offs.zip vals))
    (hlen : offs.length = vals.length) (hoff : offs[k]? = some off) : vals[k]? = some (cells off) := by
  obtain ⟨hk, rfl⟩ := List.getElem?_eq_some_iff.1 hoff
  have hk' : k < vals.length := by omega
  have hmem : (offs[k], vals[k]) ∈ offs.zip vals := by
    refine List.mem_iff_getElem.2 ⟨k, by rw [List.length_zip]; omega, ?_⟩
    rw [List.getElem_zip]
  rw [h _ hmem, List.getElem?_eq_getElem]

/-- What has been loaded so far, with one word more. -/
theorem Holds.take_load {offs : List ℕ} {vals got : List α} {off : ℕ} (h : Holds cells (offs.zip vals))
    (hlen : offs.length = vals.length) (hgot : got = vals.take got.length)
    (hoff : offs[got.length]? = some off) :
    got ++ [cells off] = vals.take (got ++ [cells off]).length := by
  have hval := h.load hlen hoff
  rw [List.length_append, List.length_singleton, List.take_add_one, hval, ← hgot]
  rfl

/-- When there is no next word, the record is complete. -/
theorem eq_of_take {offs : List ℕ} {vals got : List α} (hlen : offs.length = vals.length)
    (hgot : got = vals.take got.length) (hoff : offs[got.length]? = none) : got = vals := by
  have hle := List.getElem?_eq_none_iff.1 hoff
  rw [hgot, List.take_of_length_le]
  omega

end WordTransfer
