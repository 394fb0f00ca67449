/-
**Insertion-ordered finite maps.**

A JavaScript `Map` remembers the order in which its keys were first inserted, and a `for … of` loop
over it visits them in that order: writing to a key that is present keeps its place, deleting it
loses the place, and a new key goes to the end.  This module is that data structure over arbitrary
keys with decidable equality.  The absence of duplicate keys is a field of the structure, so every
map that can be built has it.

Main definitions:

* `JsMap` — a list of entries with pairwise distinct keys;
* `JsMap.get?`, `JsMap.has`, `JsMap.set`, `JsMap.delete` — the operations of a `Map`;
* `JsMap.firstFree` — the least number from a given one on that is not a key;
* `JsMap.alter` — another value under a key that is present, or none;
* `JsMap.setAll`, `JsMap.ofKeys` — maps and sets from their entries.

Main results:

* `JsMap.get?_set`, `JsMap.get?_delete` — what a lookup finds after an update;
* `JsMap.mem_entries` — iterating over the entries meets exactly the pairs a lookup finds;
* `JsMap.has_firstFree` — the first free number is free;
* `JsMap.get?_setAll`, `JsMap.setAll_entries` — what is found in a map that was built, and that a map is
  built again from its entries.
-/

import Mathlib.Algebra.Order.Ring.Int
import Mathlib.Data.List.Dedup
import Mathlib.Data.List.Nodup
import Mathlib.Data.List.Lookmap
import Mathlib.Data.List.Perm.Subperm

set_option relaxedAutoImplicit false
set_option autoImplicit false

/-- A finite map that keeps its entries in insertion order. -/
structure JsMap (K V : Type) where
  /-- The entries, oldest first. -/
  entries : List (K × V)
  /-- No key occurs twice. -/
  nodup : (entries.map Prod.fst).Nodup

namespace JsMap

variable {K V : Type}

/-- The empty map. -/
def empty : JsMap K V := ⟨[], List.nodup_nil⟩

instance : Inhabited (JsMap K V) := ⟨empty⟩

/-- The keys, oldest first. -/
def keys (m : JsMap K V) : List K := m.entries.map Prod.fst

/-- The number of entries. -/
def size (m : JsMap K V) : ℕ := m.entries.length

variable [DecidableEq K]

/-- The value stored under a key. -/
def get? (m : JsMap K V) (k : K) : Option V := m.entries.lookup k

/-- Whether a key is present. -/
def has (m : JsMap K V) (k : K) : Bool := (m.get? k).isSome

theorem lookup_cons_ite (k i : K) (w : V) (es : List (K × V)) :
    List.lookup k ((i, w) :: es) = if k = i then some w else es.lookup k := by
  rw [List.lookup_cons]
  by_cases h : k = i
  · simp [h]
  · rw [if_neg h, beq_false_of_ne h]

/-- Overwriting the entry of `k` in place, or adding it at the end. -/
def setEntries (k : K) (v : V) : List (K × V) → List (K × V)
  | [] => [(k, v)]
  | e :: es => if e.1 = k then (k, v) :: es else e :: setEntries k v es

theorem mem_keys_setEntries {k : K} {v : V} {es : List (K × V)} {j : K} :
    j ∈ (setEntries k v es).map Prod.fst ↔ j = k ∨ j ∈ es.map Prod.fst := by
  induction es with
  | nil => simp [setEntries]
  | cons e es ih =>
      by_cases he : e.1 = k
      · simp [setEntries, he]
      · rw [setEntries, if_neg he, List.map_cons, List.mem_cons, ih, List.map_cons, List.mem_cons]
        tauto

theorem nodup_setEntries {k : K} {v : V} {es : List (K × V)}
    (h : (es.map Prod.fst).Nodup) : ((setEntries k v es).map Prod.fst).Nodup := by
  induction es with
  | nil => simp [setEntries]
  | cons e es ih =>
      rw [List.map_cons, List.nodup_cons] at h
      by_cases he : e.1 = k
      · subst he
        simpa [setEntries] using h
      · rw [setEntries, if_neg he, List.map_cons, List.nodup_cons, mem_keys_setEntries]
        refine ⟨?_, ih h.2⟩
        rintro (hk | hk)
        · exact he hk
        · exact h.1 hk

theorem lookup_setEntries (k j : K) (v : V) (es : List (K × V)) :
    (setEntries k v es).lookup j = if j = k then some v else es.lookup j := by
  induction es with
  | nil => rw [setEntries, lookup_cons_ite]
  | cons e es ih =>
      obtain ⟨i, w⟩ := e
      rw [setEntries]
      by_cases he : i = k
      · subst he
        rw [if_pos rfl, lookup_cons_ite, lookup_cons_ite]
        split_ifs <;> rfl
      · rw [if_neg he, lookup_cons_ite, lookup_cons_ite, ih]
        by_cases hi : j = i
        · subst hi
          rw [if_pos rfl, if_neg he, if_pos rfl]
        · rw [if_neg hi, if_neg hi]

/-- Writing `v` under the key `k`. -/
def set (m : JsMap K V) (k : K) (v : V) : JsMap K V :=
  ⟨setEntries k v m.entries, nodup_setEntries m.nodup⟩

/-- Removing the entry of `k`, if there is one. -/
def delete (m : JsMap K V) (k : K) : JsMap K V :=
  ⟨m.entries.filter fun e => e.1 ≠ k, (m.nodup.sublist (List.filter_sublist.map Prod.fst))⟩

theorem lookup_filter_ne (k j : K) (es : List (K × V)) :
    (es.filter fun e => e.1 ≠ k).lookup j = if j = k then none else es.lookup j := by
  induction es with
  | nil => simp
  | cons e es ih =>
      obtain ⟨i, w⟩ := e
      by_cases hi : i = k
      · subst hi
        rw [List.filter_cons_of_neg (by simp), ih, lookup_cons_ite]
        split_ifs <;> rfl
      · rw [List.filter_cons_of_pos (by simpa using hi), lookup_cons_ite, lookup_cons_ite, ih]
        by_cases hj : j = i
        · subst hj
          rw [if_pos rfl, if_neg hi, if_pos rfl]
        · rw [if_neg hj, if_neg hj]

@[simp] theorem get?_empty (k : K) : (empty : JsMap K V).get? k = none := rfl

/-- **A lookup after a write.** -/
@[grind =] theorem get?_set (m : JsMap K V) (k j : K) (v : V) :
    (m.set k v).get? j = if j = k then some v else m.get? j :=
  lookup_setEntries k j v m.entries

@[simp] theorem get?_set_self (m : JsMap K V) (k : K) (v : V) : (m.set k v).get? k = some v := by
  rw [get?_set, if_pos rfl]

theorem get?_set_ne {m : JsMap K V} {k j : K} {v : V} (h : j ≠ k) :
    (m.set k v).get? j = m.get? j := by
  rw [get?_set, if_neg h]

/-- **A lookup after a removal.** -/
@[grind =] theorem get?_delete (m : JsMap K V) (k j : K) :
    (m.delete k).get? j = if j = k then none else m.get? j :=
  lookup_filter_ne k j m.entries

@[simp] theorem get?_delete_self (m : JsMap K V) (k : K) : (m.delete k).get? k = none := by
  rw [get?_delete, if_pos rfl]

theorem get?_delete_ne {m : JsMap K V} {k j : K} (h : j ≠ k) :
    (m.delete k).get? j = m.get? j := by
  rw [get?_delete, if_neg h]

theorem has_iff {m : JsMap K V} {k : K} : m.has k = true ↔ ∃ v, m.get? k = some v := by
  rw [has, Option.isSome_iff_exists]

theorem has_eq_false_iff {m : JsMap K V} {k : K} : m.has k = false ↔ m.get? k = none := by
  rw [has, Option.isSome_eq_false_iff, Option.isNone_iff_eq_none]

theorem has_set {m : JsMap K V} {k j : K} {v : V} : (m.set k v).has j = true ↔ j = k ∨ m.has j = true := by
  rw [has, get?_set, has]
  split_ifs with h <;> simp [h]

theorem has_delete {m : JsMap K V} {k j : K} : (m.delete k).has j = true ↔ j ≠ k ∧ m.has j = true := by
  rw [has, get?_delete, has]
  split_ifs with h <;> simp [h]

theorem mem_lookup_iff {es : List (K × V)} (h : (es.map Prod.fst).Nodup) {k : K} {v : V} :
    (k, v) ∈ es ↔ es.lookup k = some v := by
  induction es with
  | nil => simp
  | cons e es ih =>
      obtain ⟨i, w⟩ := e
      rw [List.map_cons, List.nodup_cons] at h
      rw [lookup_cons_ite, List.mem_cons, ih h.2, Prod.mk.injEq]
      by_cases hi : k = i
      · subst hi
        have hk : es.lookup k ≠ some v := fun hl =>
          h.1 (List.mem_map.2 ⟨(k, v), (ih h.2).2 hl, rfl⟩)
        rw [if_pos rfl, Option.some_inj]
        exact ⟨fun hm => hm.elim (fun hv => hv.2.symm) fun hl => absurd hl hk,
          fun hv => Or.inl ⟨rfl, hv.symm⟩⟩
      · rw [if_neg hi]
        exact ⟨fun hm => hm.resolve_left fun hv => hi hv.1, Or.inr⟩

/-- **Iteration meets exactly the pairs that lookups find.** -/
theorem mem_entries {m : JsMap K V} {k : K} {v : V} : (k, v) ∈ m.entries ↔ m.get? k = some v :=
  mem_lookup_iff m.nodup

theorem mem_keys {m : JsMap K V} {k : K} : k ∈ m.keys ↔ m.has k = true := by
  rw [keys, List.mem_map, has_iff]
  constructor
  · rintro ⟨⟨j, v⟩, hmem, rfl⟩
    exact ⟨v, mem_entries.1 hmem⟩
  · rintro ⟨v, hget⟩
    exact ⟨(k, v), mem_entries.2 hget, rfl⟩

/-! ### Changing what is present -/

/-- The entries with another value under `k`, or without one; a key that is missing stays missing. -/
def alterEntries (k : K) (f : V → Option V) (es : List (K × V)) : List (K × V) :=
  es.filterMap fun e => if e.1 = k then (f e.2).map (Prod.mk e.1) else some e

theorem sublist_keys_alterEntries (k : K) (f : V → Option V) (es : List (K × V)) :
    ((alterEntries k f es).map Prod.fst).Sublist (es.map Prod.fst) := by
  induction es with
  | nil => exact List.Sublist.refl []
  | cons e es ih =>
      unfold alterEntries at ih ⊢
      rw [List.filterMap_cons, List.map_cons]
      split
      · exact ih.cons _
      · next e' he' =>
          have hkey : e'.1 = e.1 := by
            split at he'
            · obtain ⟨w, -, rfl⟩ := Option.map_eq_some_iff.1 he'
              rfl
            · rw [Option.some_inj.1 he']
          rw [List.map_cons, hkey]
          exact ih.cons_cons _

/-- Another value under the key `k`, if it is present, or none. -/
def alter (m : JsMap K V) (k : K) (f : V → Option V) : JsMap K V :=
  ⟨alterEntries k f m.entries, m.nodup.sublist (sublist_keys_alterEntries k f m.entries)⟩

theorem get?_alter_ne {m : JsMap K V} {k j : K} {f : V → Option V} (h : j ≠ k) :
    (m.alter k f).get? j = m.get? j := by
  show (alterEntries k f m.entries).lookup j = m.entries.lookup j
  induction m.entries with
  | nil => rfl
  | cons e es ih =>
      obtain ⟨i, w⟩ := e
      unfold alterEntries at ih ⊢
      rw [List.filterMap_cons]
      dsimp only
      by_cases hi : i = k
      · have hji : j ≠ i := fun hj => h (hj.trans hi)
        rw [if_pos hi, lookup_cons_ite, if_neg hji, ← ih]
        cases f w with
        | none => rfl
        | some w' =>
            dsimp only [Option.map_some]
            rw [lookup_cons_ite, if_neg hji]
      · rw [if_neg hi]
        dsimp only
        rw [lookup_cons_ite, lookup_cons_ite, ih]

theorem get?_alter_self (m : JsMap K V) (k : K) (f : V → Option V) :
    (m.alter k f).get? k = (m.get? k).bind f := by
  obtain ⟨es, hnd⟩ := m
  show (alterEntries k f es).lookup k = (es.lookup k).bind f
  induction es with
  | nil => rfl
  | cons e es ih =>
      obtain ⟨i, w⟩ := e
      rw [List.map_cons, List.nodup_cons] at hnd
      have hrest := ih hnd.2
      unfold alterEntries at hrest ⊢
      rw [List.filterMap_cons]
      dsimp only
      by_cases hi : i = k
      · subst hi
        have hmissing : es.lookup i = none := by
          by_contra hne
          obtain ⟨v, hv⟩ := Option.ne_none_iff_exists'.1 hne
          exact hnd.1 (List.mem_map.2 ⟨(i, v), (mem_lookup_iff hnd.2).2 hv, rfl⟩)
        rw [if_pos rfl, lookup_cons_ite, if_pos rfl, Option.bind_some]
        cases hw : f w with
        | none => rw [Option.map_none, hrest, hmissing, Option.bind_none]
        | some w' =>
            dsimp only [Option.map_some]
            rw [lookup_cons_ite, if_pos rfl]
      · rw [if_neg hi]
        dsimp only
        rw [lookup_cons_ite, lookup_cons_ite, if_neg (Ne.symm hi), if_neg (Ne.symm hi), hrest]

/-- **Writing elsewhere before or after a change.** -/
theorem alter_set {m : JsMap K V} {k j : K} {f : V → Option V} (h : j ≠ k) (v : V) :
    (m.set j v).alter k f = (m.alter k f).set j v := by
  have hentries : ∀ es : List (K × V),
      alterEntries k f (setEntries j v es) = setEntries j v (alterEntries k f es) := by
    intro es
    induction es with
    | nil => simp [alterEntries, setEntries, h]
    | cons e es ih =>
        obtain ⟨i, w⟩ := e
        unfold alterEntries at ih ⊢
        by_cases hij : i = j
        · subst hij
          simp [setEntries, h]
        · by_cases hik : i = k
          · subst hik
            cases hw : f w with
            | none => simp [setEntries, hij, hw, ih]
            | some w' => simp [setEntries, hij, hw, ih]
          · simp [setEntries, hij, hik, ih]
  show (⟨_, _⟩ : JsMap K V) = ⟨_, _⟩
  simp only [JsMap.mk.injEq]
  exact hentries m.entries

/-- Putting what is there changes nothing. -/
theorem alter_self (m : JsMap K V) (k : K) : (m.alter k fun _ => m.get? k) = m := by
  have hentries : alterEntries k (fun _ => m.get? k) m.entries = m.entries := by
    unfold alterEntries
    rw [List.filterMap_congr (g := some), List.filterMap_some]
    intro e he
    split
    · next hk =>
        have hget : m.get? k = some e.2 := mem_entries.1 (hk ▸ he)
        rw [hget]
        rfl
    · rfl
  show (⟨_, _⟩ : JsMap K V) = m
  obtain ⟨es, hnd⟩ := m
  simp only [JsMap.mk.injEq]
  exact hentries

/-! ### Building a map from entries -/

/-- Writing entries one after the other. -/
def setAll (m : JsMap K V) (es : List (K × V)) : JsMap K V := es.foldl (fun m e => m.set e.1 e.2) m

@[simp] theorem setAll_nil (m : JsMap K V) : m.setAll [] = m := rfl

theorem setAll_cons (m : JsMap K V) (e : K × V) (es : List (K × V)) :
    m.setAll (e :: es) = (m.set e.1 e.2).setAll es := rfl

theorem has_setAll {m : JsMap K V} {es : List (K × V)} {k : K} :
    (m.setAll es).has k = true ↔ k ∈ es.map Prod.fst ∨ m.has k = true := by
  induction es generalizing m with
  | nil => simp
  | cons e es ih =>
      rw [setAll_cons, ih, has_set, List.map_cons, List.mem_cons]
      tauto

theorem get?_setAll_of_notMem {m : JsMap K V} {es : List (K × V)} {k : K} (h : k ∉ es.map Prod.fst) :
    (m.setAll es).get? k = m.get? k := by
  induction es generalizing m with
  | nil => rfl
  | cons e es ih =>
      rw [List.map_cons, List.mem_cons, not_or] at h
      rw [setAll_cons, ih h.2, get?_set_ne h.1]

/-- **An entry with a key of its own is found.** -/
theorem get?_setAll {m : JsMap K V} {es : List (K × V)} (h : (es.map Prod.fst).Nodup) {k : K} {v : V}
    (hmem : (k, v) ∈ es) : (m.setAll es).get? k = some v := by
  induction es generalizing m with
  | nil => cases hmem
  | cons e es ih =>
      rw [List.map_cons, List.nodup_cons] at h
      rw [setAll_cons]
      rcases List.mem_cons.1 hmem with rfl | hmem
      · rw [get?_setAll_of_notMem h.1, get?_set_self]
      · exact ih h.2 hmem

/-- What is found among entries with different keys. -/
theorem get?_setAll_empty {es : List (K × V)} (h : (es.map Prod.fst).Nodup) {k : K} {v : V} :
    ((empty : JsMap K V).setAll es).get? k = some v ↔ (k, v) ∈ es := by
  refine ⟨fun hget => ?_, get?_setAll h⟩
  by_cases hk : k ∈ es.map Prod.fst
  · obtain ⟨⟨k, w⟩, hmem, rfl⟩ := List.mem_map.1 hk
    rw [get?_setAll h hmem, Option.some_inj] at hget
    rwa [← hget]
  · rw [get?_setAll_of_notMem hk, get?_empty] at hget
    cases hget

/-- Entries whose values are changed one by one. -/
theorem get?_setAll_map {W : Type} (f : V → W) {es : List (K × V)} (h : (es.map Prod.fst).Nodup) (k : K) :
    ((empty : JsMap K W).setAll (es.map fun e => (e.1, f e.2))).get? k =
      (((empty : JsMap K V).setAll es).get? k).map f := by
  have hkeys : ((es.map fun e => (e.1, f e.2)).map Prod.fst).Nodup := by rwa [List.map_map]
  ext w
  rw [get?_setAll_empty hkeys, List.mem_map, Option.map_eq_some_iff]
  constructor
  · rintro ⟨⟨j, v⟩, hmem, heq⟩
    cases heq
    exact ⟨v, (get?_setAll_empty h).2 hmem, rfl⟩
  · rintro ⟨v, hget, rfl⟩
    exact ⟨(k, v), (get?_setAll_empty h).1 hget, rfl⟩

/-- A new key goes to the end. -/
theorem entries_set_of_notMem {m : JsMap K V} {k : K} (h : k ∉ m.keys) (v : V) :
    (m.set k v).entries = m.entries ++ [(k, v)] := by
  show setEntries k v m.entries = _
  rw [keys] at h
  generalize m.entries = es at h ⊢
  induction es with
  | nil => rfl
  | cons e es ih =>
      rw [List.map_cons, List.mem_cons, not_or] at h
      rw [setEntries, if_neg fun heq => h.1 heq.symm, ih h.2, List.cons_append]

/-- New keys go to the end in their order. -/
theorem entries_setAll {m : JsMap K V} {es : List (K × V)} (h : (m.keys ++ es.map Prod.fst).Nodup) :
    (m.setAll es).entries = m.entries ++ es := by
  induction es generalizing m with
  | nil => simp
  | cons e es ih =>
      have hnew : e.1 ∉ m.keys := fun hmem =>
        List.disjoint_of_nodup_append h hmem List.mem_cons_self
      have hkeys : (m.set e.1 e.2).keys = m.keys ++ [e.1] := by
        rw [keys, entries_set_of_notMem hnew, List.map_append]
        rfl
      rw [setAll_cons, ih (by rwa [hkeys, List.append_assoc]), entries_set_of_notMem hnew, List.append_assoc]
      rfl

/-- A map that has one entry for each entry it was filled from was filled from entries with distinct keys. -/
theorem nodup_of_length_le_size {es : List (K × V)} (h : es.length ≤ ((empty : JsMap K V).setAll es).size) :
    (es.map Prod.fst).Nodup := by
  have hsub : ((empty : JsMap K V).setAll es).keys ⊆ (es.map Prod.fst).dedup := by
    intro k hk
    rw [mem_keys, has_setAll] at hk
    exact List.mem_dedup.2 (hk.resolve_right (by simp [has]))
  have hle : ((empty : JsMap K V).setAll es).keys.length ≤ (es.map Prod.fst).dedup.length :=
    (List.subperm_of_subset (JsMap.nodup _) hsub).length_le
  have hsize : ((empty : JsMap K V).setAll es).keys.length = ((empty : JsMap K V).setAll es).size :=
    List.length_map _
  have hdedup : (es.map Prod.fst).dedup = es.map Prod.fst :=
    (List.dedup_sublist _).eq_of_length_le (by rw [List.length_map]; omega)
  exact List.dedup_eq_self.1 hdedup

/-- **A map is built again from its entries.** -/
theorem setAll_entries (m : JsMap K V) : (empty : JsMap K V).setAll m.entries = m := by
  have hentries : ((empty : JsMap K V).setAll m.entries).entries = m.entries :=
    entries_setAll (by simpa [keys, empty] using m.nodup)
  cases m
  cases hm : (empty : JsMap K V).setAll _
  rw [hm] at hentries
  congr

/-- `new Set(keys)` -/
def ofKeys (ks : List K) : JsMap K Unit := empty.setAll (ks.map fun k => (k, ()))

/-- A set is built again from its elements. -/
@[simp] theorem ofKeys_keys (m : JsMap K Unit) : ofKeys m.keys = m := by
  rw [ofKeys, keys, List.map_map]
  have hunit : (fun e : K × Unit => (e.1, ())) = id := by
    funext e
    rfl
  rw [show ((fun k : K => (k, ())) ∘ Prod.fst : K × Unit → K × Unit) = id from hunit, List.map_id]
  exact setAll_entries m

/-! ### Integer keys -/

/-- The loop `while (m.has(i)) i++`, with a bound on its rounds. -/
def skipKeys {V : Type} (m : JsMap ℤ V) : ℕ → ℤ → ℤ
  | 0, i => i
  | rounds + 1, i => if m.has i then skipKeys m rounds (i + 1) else i

/-- The least number from `i` on that is not a key.  As many rounds as there are entries are enough. -/
def firstFree {V : Type} (m : JsMap ℤ V) (i : ℤ) : ℤ := m.skipKeys m.size i

theorem le_skipKeys {V : Type} (m : JsMap ℤ V) (rounds : ℕ) (i : ℤ) : i ≤ m.skipKeys rounds i := by
  induction rounds generalizing i with
  | zero => exact Int.le_refl i
  | succ rounds ih =>
      rw [skipKeys]
      split_ifs
      · have h := ih (i + 1)
        omega
      · exact Int.le_refl i

/-- A run of distinct keys is no longer than the map. -/
theorem length_le_size {V : Type} {m : JsMap ℤ V} {is : List ℤ} (hnd : is.Nodup)
    (h : ∀ i ∈ is, m.has i = true) : is.length ≤ m.size := by
  have hsub : is ⊆ m.entries.map Prod.fst := by
    intro i hi
    obtain ⟨v, hv⟩ := has_iff.1 (h i hi)
    exact List.mem_map.2 ⟨(i, v), mem_entries.2 hv, rfl⟩
  have hlen := (List.subperm_of_subset hnd hsub).length_le
  rwa [List.length_map] at hlen

theorem has_skipKeys {V : Type} {m : JsMap ℤ V} {rounds : ℕ} {i : ℤ}
    (is : List ℤ) (hnd : is.Nodup) (hlt : ∀ j ∈ is, j < i) (his : ∀ j ∈ is, m.has j = true)
    (hlen : is.length + rounds = m.size) : m.has (m.skipKeys rounds i) = false := by
  induction rounds generalizing i is with
  | zero =>
      by_contra hi
      rw [Bool.not_eq_false, skipKeys] at hi
      have hcons : (i :: is).Nodup := List.nodup_cons.2 ⟨fun hm => Int.lt_irrefl i (hlt i hm), hnd⟩
      have hle := @length_le_size V m (i :: is) hcons (by
        intro j hj
        rcases List.mem_cons.1 hj with rfl | hj
        · exact hi
        · exact his j hj)
      rw [List.length_cons] at hle
      omega
  | succ rounds ih =>
      rw [skipKeys]
      split_ifs with hi
      · refine ih (i :: is) (List.nodup_cons.2 ⟨fun hm => Int.lt_irrefl i (hlt i hm), hnd⟩) ?_ ?_ ?_
        · intro j hj
          rcases List.mem_cons.1 hj with rfl | hj
          · omega
          · have h := hlt j hj
            omega
        · intro j hj
          rcases List.mem_cons.1 hj with rfl | hj
          · exact hi
          · exact his j hj
        · rw [List.length_cons]
          omega
      · exact Bool.eq_false_iff.2 hi

/-- **The first free number is free.** -/
theorem has_firstFree {V : Type} (m : JsMap ℤ V) (i : ℤ) : m.has (m.firstFree i) = false :=
  has_skipKeys [] List.nodup_nil (by simp) (by simp) (by simp)

theorem le_firstFree {V : Type} (m : JsMap ℤ V) (i : ℤ) : i ≤ m.firstFree i := m.le_skipKeys _ i

theorem skipKeys_le {V : Type} {m : JsMap ℤ V} {n : ℤ} (hn : m.has n = false) (rounds : ℕ) {i : ℤ}
    (hi : i ≤ n) : m.skipKeys rounds i ≤ n := by
  induction rounds generalizing i with
  | zero => exact hi
  | succ rounds ih =>
      rw [skipKeys]
      split_ifs with hhas
      · have hne : i ≠ n := by
          rintro rfl
          rw [hn] at hhas
          cases hhas
        exact ih (by omega)
      · exact hi

/-- The first free number is the least. -/
theorem firstFree_le {V : Type} {m : JsMap ℤ V} {i n : ℤ} (hi : i ≤ n) (hn : m.has n = false) :
    m.firstFree i ≤ n :=
  skipKeys_le hn m.size hi

end JsMap
