/-
**JavaScript objects as dictionaries.**

An ordinary object that is used as a dictionary is a map from strings, but it visits its keys in an order of
its own: first those that are array indices, in ascending order, and then the others in the order in which
they were made.  An assignment to the key `__proto__` makes no entry: it sets the prototype.

Main definitions:

* `JsObject.IsIndex` — the keys that are visited first;
* `JsObject.fromEntries`, `JsObject.entries` — `Object.fromEntries` and `Object.entries`;
* `JsObject.assignAll` — assignments to keys, one after the other.

Main results:

* `JsObject.perm_entries` — the entries are those of the map, in another order;
* `JsObject.get?_setAll_entries` — a map that is filled from an object finds what the object holds;
* `JsObject.entries_eq_iff` — the order is that of the map exactly when the indices come first and ascend;
* `JsObject.assignAll_eq` — assignments that do not meet `__proto__` make entries.
-/

import AtuaComputer.JsMap
import Mathlib.Data.List.Basic

set_option relaxedAutoImplicit false
set_option autoImplicit false

namespace JsObject

variable {V : Type}

/-- A key, a string. -/
abbrev Key := List Char

/-- The number a string of digits stands for. -/
def number (k : Key) : ℕ := k.foldl (fun n c => 10 * n + (c.toNat - '0'.toNat)) 0

/-- The key is an array index: a number below `2 ^ 32 - 1` without leading zeros. -/
def IsIndex (k : Key) : Prop :=
  k ≠ [] ∧ (∀ c ∈ k, c.isDigit = true) ∧ (k.head? = some '0' → k = ['0']) ∧ number k < 2 ^ 32 - 1

instance (k : Key) : Decidable (IsIndex k) := inferInstanceAs (Decidable (_ ∧ _))

/-- `Object.fromEntries`; the entries of the map are the properties in the order in which they were made. -/
def fromEntries (es : List (Key × V)) : JsMap Key V := JsMap.empty.setAll es

/-- `Object.entries` -/
def entries (o : JsMap Key V) : List (Key × V) :=
  (o.entries.filter fun e => IsIndex e.1).mergeSort (fun e e' => number e.1 ≤ number e'.1) ++
    o.entries.filter fun e => ¬ IsIndex e.1

/-- `o[k] = v` for each of the entries, when the values are objects. -/
def assignAll (o : JsMap Key V) (es : List (Key × V)) : JsMap Key V :=
  es.foldl (fun o e => if e.1 = "__proto__".toList then o else o.set e.1 e.2) o

/-- **The entries are those of the map, in another order.** -/
theorem perm_entries (o : JsMap Key V) : (entries o).Perm o.entries := by
  have hsort := (List.mergeSort_perm (o.entries.filter fun e => IsIndex e.1)
    (fun e e' => decide (number e.1 ≤ number e'.1))).append_right
      (o.entries.filter fun e => ¬ IsIndex e.1)
  exact hsort.trans (by simpa using List.filter_append_perm (fun e => decide (IsIndex e.1)) o.entries)

/-- **A map that is filled from an object finds what the object holds.** -/
theorem get?_setAll_entries (o : JsMap Key V) (k : Key) :
    (JsMap.empty.setAll (entries o)).get? k = o.get? k := by
  have hperm := perm_entries o
  have hnodup : ((entries o).map Prod.fst).Nodup := (hperm.map Prod.fst).nodup_iff.2 o.nodup
  ext v
  rw [JsMap.get?_setAll_empty hnodup, hperm.mem_iff, JsMap.mem_entries]

/-- The order of two keys when an object is visited: an index comes after smaller indices only. -/
def InOrder (k k' : Key) : Prop := IsIndex k' → IsIndex k ∧ number k ≤ number k'

/-- An object is visited in the order of its keys. -/
theorem pairwise_entries (o : JsMap Key V) : (entries o).Pairwise fun e e' => InOrder e.1 e'.1 := by
  have hsort := @List.pairwise_mergeSort (Key × V) (fun e e' => decide (number e.1 ≤ number e'.1))
    (fun a b c hab hbc => by simp at hab hbc ⊢; omega) (fun a b => by simp; omega)
    (o.entries.filter fun e => IsIndex e.1)
  refine List.pairwise_append.2 ⟨hsort.imp_of_mem fun he _ hle _ => ?_, ?_, ?_⟩
  · rw [List.mem_mergeSort, List.mem_filter] at he
    exact ⟨of_decide_eq_true he.2, of_decide_eq_true hle⟩
  · refine List.pairwise_of_forall_mem_list fun _ _ e' he' hidx => ?_
    exact absurd hidx (of_decide_eq_true (List.mem_filter.1 he').2)
  · intro _ _ e' he' hidx
    exact absurd hidx (of_decide_eq_true (List.mem_filter.1 he').2)

/-- Entries whose indices come first are those of the indices and then the others. -/
theorem filter_append_filter_of_pairwise {es : List (Key × V)} (h : es.Pairwise fun e e' => InOrder e.1 e'.1) :
    (es.filter fun e => IsIndex e.1) ++ es.filter (fun e => ¬ IsIndex e.1) = es := by
  induction h with
  | nil => rfl
  | @cons e es hhead _ ih =>
      by_cases he : IsIndex e.1
      · rw [List.filter_cons_of_pos (by simpa using he), List.filter_cons_of_neg (by simpa using he),
          List.cons_append, ih]
      · have hrest : ∀ e' ∈ es, ¬ IsIndex e'.1 := fun e' he' hidx => he (hhead e' he' hidx).1
        rw [List.filter_eq_nil_iff.2 (by simpa [he] using hrest), List.nil_append,
          List.filter_eq_self.2 (by simpa [he] using hrest)]

/-- **The entries are visited in the order of the map exactly when the indices come first and ascend.** -/
theorem entries_eq_iff {o : JsMap Key V} :
    entries o = o.entries ↔ o.entries.Pairwise fun e e' => InOrder e.1 e'.1 := by
  refine ⟨fun h => h ▸ pairwise_entries o, fun h => ?_⟩
  have hsorted : (o.entries.filter fun e => IsIndex e.1).Pairwise
      fun e e' => decide (number e.1 ≤ number e'.1) = true := by
    refine (h.filter _).imp_of_mem fun _ he' hord => ?_
    exact decide_eq_true (hord (of_decide_eq_true (List.mem_filter.1 he').2)).2
  rw [entries, List.mergeSort_of_pairwise hsorted]
  exact filter_append_filter_of_pairwise h

/-- **Assignments that do not meet `__proto__` make entries.** -/
theorem assignAll_eq {o : JsMap Key V} {es : List (Key × V)}
    (h : ∀ e ∈ es, e.1 ≠ "__proto__".toList) : assignAll o es = o.setAll es := by
  induction es generalizing o with
  | nil => rfl
  | cons e es ih =>
      rw [assignAll, List.foldl_cons, if_neg (h e List.mem_cons_self), JsMap.setAll_cons]
      exact ih fun e' he' => h e' (List.mem_cons_of_mem _ he')

end JsObject
