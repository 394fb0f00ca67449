/-
**Names that share cells.**

A store gives names to cells, and cells hold values; several names may share one cell, and a change of the
cell is then seen under all of them.  Which cell it is that a name has is not observable: two stores say
the same if the same names are bound, the same names share, and the values agree.

This module is that relation between two stores, with arbitrary names, cells and values, and the rules
for the changes that keep it: new bindings, removed ones, a write to a cell of both stores, and a write
that one store makes to a cell while the other moves all the names of the cell to a new one.

Main definitions:

* `SharedCells.Same` — two stores that say the same.

Main results:

* `SharedCells.Same.bind`, `SharedCells.Same.bindFresh`, `SharedCells.Same.share`,
  `SharedCells.Same.drop` — bindings;
* `SharedCells.Same.write` — a write to a cell of both stores;
* `SharedCells.Same.move` — a write to one store, a new cell in the other.
-/

import Mathlib.Logic.Function.Basic
import Mathlib.Tactic.SplitIfs

set_option relaxedAutoImplicit false
set_option autoImplicit false

namespace SharedCells

variable {X C D V : Type}

/-- Two stores with the same names, which share in the same way and have the same values. -/
structure Same (ref : X → Option C) (val : C → V) (ref' : X → Option D) (val' : D → V) : Prop where
  bound : ∀ x, ref x = none ↔ ref' x = none
  shared : ∀ x y c c' d d', ref x = some c → ref y = some c' → ref' x = some d → ref' y = some d' →
    (c = c' ↔ d = d')
  value : ∀ x c d, ref x = some c → ref' x = some d → val c = val' d

/-- A store says the same as itself. -/
theorem Same.refl (ref : X → Option C) (val : C → V) : Same ref val ref val where
  bound := fun _ => Iff.rfl
  shared := by
    intro x y c c' d d' hx hy hx' hy'
    rw [Option.some_inj.1 (hx.symm.trans hx'), Option.some_inj.1 (hy.symm.trans hy')]
  value := by
    intro x c d hx hx'
    rw [Option.some_inj.1 (hx.symm.trans hx')]

variable {ref : X → Option C} {val : C → V} {ref' : X → Option D} {val' : D → V}

/-- A name that is bound in one store is bound in the other. -/
theorem Same.exists_right (h : Same ref val ref' val') {x : X} {c : C} (hx : ref x = some c) :
    ∃ d, ref' x = some d := by
  rw [← Option.ne_none_iff_exists']
  intro hnone
  rw [(h.bound x).2 hnone] at hx
  cases hx

theorem Same.exists_left (h : Same ref val ref' val') {x : X} {d : D} (hx : ref' x = some d) :
    ∃ c, ref x = some c := by
  rw [← Option.ne_none_iff_exists']
  intro hnone
  rw [(h.bound x).1 hnone] at hx
  cases hx

/-- Values of cells without a name do not matter. -/
theorem Same.congr (h : Same ref val ref' val') {w : C → V} {w' : D → V}
    (hw : ∀ x c, ref x = some c → w c = val c) (hw' : ∀ x d, ref' x = some d → w' d = val' d) :
    Same ref w ref' w' where
  bound := h.bound
  shared := h.shared
  value := by
    intro x c d hx hx'
    rw [hw x c hx, hw' x d hx', h.value x c d hx hx']

section Bindings

variable [DecidableEq X]

/-- **Binding a name** to two cells that the other names share alike. -/
theorem Same.bind (h : Same ref val ref' val') {x : X} {c : C} {d : D}
    (hshared : ∀ y c' d', y ≠ x → ref y = some c' → ref' y = some d' → (c' = c ↔ d' = d))
    (hval : val c = val' d) :
    Same (Function.update ref x (some c)) val (Function.update ref' x (some d)) val' where
  bound := by
    intro y
    by_cases hy : y = x
    · subst hy
      simp
    · rw [Function.update_of_ne hy, Function.update_of_ne hy]
      exact h.bound y
  shared := by
    intro y z c₁ c₂ d₁ d₂ hy hz hy' hz'
    by_cases hyx : y = x
    · subst hyx
      rw [Function.update_self, Option.some_inj] at hy hy'
      subst hy hy'
      by_cases hzx : z = y
      · subst hzx
        rw [Function.update_self, Option.some_inj] at hz hz'
        exact iff_of_true hz hz'
      · rw [Function.update_of_ne hzx] at hz hz'
        have hzy := hshared z c₂ d₂ hzx hz hz'
        exact ⟨fun e => (hzy.1 e.symm).symm, fun e => (hzy.2 e.symm).symm⟩
    · rw [Function.update_of_ne hyx] at hy hy'
      by_cases hzx : z = x
      · subst hzx
        rw [Function.update_self, Option.some_inj] at hz hz'
        subst hz hz'
        exact hshared y c₁ d₁ hyx hy hy'
      · rw [Function.update_of_ne hzx] at hz hz'
        exact h.shared y z c₁ c₂ d₁ d₂ hy hz hy' hz'
  value := by
    intro y c' d' hy hy'
    by_cases hyx : y = x
    · subst hyx
      rw [Function.update_self, Option.some_inj] at hy hy'
      rw [← hy, ← hy', hval]
    · rw [Function.update_of_ne hyx] at hy hy'
      exact h.value y c' d' hy hy'

/-- A name may get cells that no name had. -/
theorem Same.bindFresh (h : Same ref val ref' val') (x : X) {c : C} {d : D} (hc : ∀ y, ref y ≠ some c)
    (hd : ∀ y, ref' y ≠ some d) (hval : val c = val' d) :
    Same (Function.update ref x (some c)) val (Function.update ref' x (some d)) val' := by
  refine h.bind ?_ hval
  intro y c' d' _ hy hy'
  refine iff_of_false ?_ ?_
  · rintro rfl
    exact hc y hy
  · rintro rfl
    exact hd y hy'

/-- A name may get the cells of another one. -/
theorem Same.share (h : Same ref val ref' val') (x : X) {y : X} {c : C} {d : D} (hy : ref y = some c)
    (hy' : ref' y = some d) :
    Same (Function.update ref x (some c)) val (Function.update ref' x (some d)) val' :=
  h.bind (fun z c' d' _ hz hz' => h.shared z y c' c d' d hz hy hz' hy') (h.value y c d hy hy')

/-- A name may go. -/
theorem Same.drop (h : Same ref val ref' val') (x : X) :
    Same (Function.update ref x none) val (Function.update ref' x none) val' where
  bound := by
    intro y
    by_cases hy : y = x
    · subst hy
      simp
    · rw [Function.update_of_ne hy, Function.update_of_ne hy]
      exact h.bound y
  shared := by
    intro y z c c' d d' hy hz hy' hz'
    by_cases hyx : y = x
    · subst hyx
      simp at hy
    · by_cases hzx : z = x
      · subst hzx
        simp at hz
      · rw [Function.update_of_ne hyx] at hy hy'
        rw [Function.update_of_ne hzx] at hz hz'
        exact h.shared y z c c' d d' hy hz hy' hz'
  value := by
    intro y c d hy hy'
    by_cases hyx : y = x
    · subst hyx
      simp at hy
    · rw [Function.update_of_ne hyx] at hy hy'
      exact h.value y c d hy hy'

end Bindings

section Cells

variable [DecidableEq C] [DecidableEq D]

/-- **A write to the cells of a name.** -/
theorem Same.write (h : Same ref val ref' val') {x : X} {c : C} {d : D} (hx : ref x = some c)
    (hx' : ref' x = some d) (v : V) :
    Same ref (Function.update val c v) ref' (Function.update val' d v) where
  bound := h.bound
  shared := h.shared
  value := by
    intro y c' d' hy hy'
    have hiff := h.shared y x c' c d' d hy hx hy' hx'
    by_cases hc : c' = c
    · rw [hc, hiff.1 hc, Function.update_self, Function.update_self]
    · have hd : d' ≠ d := fun e => hc (hiff.2 e)
      rw [Function.update_of_ne hc, Function.update_of_ne hd]
      exact h.value y c' d' hy hy'

/-- **A write to the cell of a name, where the first store gives all the names of its cell a new one.** -/
theorem Same.move (h : Same ref val ref' val') {x : X} {c c₂ : C} {d : D} (hx : ref x = some c)
    (hx' : ref' x = some d) (hfresh : ∀ y, ref y ≠ some c₂) (v : V) :
    Same (fun y => if ref y = some c then some c₂ else ref y) (Function.update val c₂ v) ref'
      (Function.update val' d v) where
  bound := by
    intro y
    rw [← h.bound y]
    split_ifs with hy <;> simp [hy]
  shared := by
    intro y z c₁ c' d₁ d' hy hz hy' hz'
    split_ifs at hy hz with hyc hzc hzc
    · rw [← Option.some_inj.1 hy, ← Option.some_inj.1 hz]
      exact iff_of_true rfl ((h.shared y z c c d₁ d' hyc hzc hy' hz').1 rfl)
    · refine iff_of_false ?_ fun e => ?_
      · rintro rfl
        rw [Option.some_inj] at hy
        subst hy
        exact hfresh z hz
      · have hcc := (h.shared y z c c' d₁ d' hyc hz hy' hz').2 e
        exact hzc (hcc ▸ hz)
    · refine iff_of_false ?_ fun e => ?_
      · rintro rfl
        rw [Option.some_inj] at hz
        subst hz
        exact hfresh y hy
      · have hcc := (h.shared y z c₁ c d₁ d' hy hzc hy' hz').2 e
        exact hyc (hcc ▸ hy)
    · exact h.shared y z c₁ c' d₁ d' hy hz hy' hz'
  value := by
    intro y c₁ d₁ hy hy'
    split_ifs at hy with hyc
    · have hd : d₁ = d := (h.shared y x c c d₁ d hyc hx hy' hx').1 rfl
      rw [← Option.some_inj.1 hy, hd, Function.update_self, Function.update_self]
    · have hc : c₁ ≠ c₂ := by
        rintro rfl
        exact hfresh y hy
      have hd : d₁ ≠ d := by
        intro e
        have hcc := (h.shared y x c₁ c d₁ d hy hx hy' hx').2 e
        exact hyc (hcc ▸ hy)
      rw [Function.update_of_ne hc, Function.update_of_ne hd]
      exact h.value y c₁ d₁ hy hy'

end Cells

end SharedCells
