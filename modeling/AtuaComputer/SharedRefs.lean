/-
**Resources held through shared references.**

A resource that several slots may refer to is to live exactly as long as some slot refers to it.  When
nothing counts the references, an operation that overwrites slots and ends or starts resources keeps
that only under a condition on the slots it did not touch.  This module states the condition for the two
things an operation can do: it starts the resources it refers to, or it overwrites slots while at most one
resource ends.

Main definitions:

* `SharedRefs.Coherent` — a resource is live if and only if some slot refers to it;
* `SharedRefs.HeldOutside` — a slot outside a set of slots refers to a resource;
* `SharedRefs.Releases` — a set of slots can be emptied while a resource ends.

Main results:

* `SharedRefs.coherent_update` — coherence after slots of a set were overwritten;
* `SharedRefs.coherent_start`, `SharedRefs.coherent_release` — the two kinds of operation, each with the
  condition that is exact for it.
-/

import Mathlib.Logic.Basic

set_option relaxedAutoImplicit false
set_option autoImplicit false

namespace SharedRefs

variable {S H : Type}

/-- A resource is live exactly when some slot refers to it. -/
def Coherent (refs : S → Option H) (live : H → Prop) : Prop := ∀ h, live h ↔ ∃ s, refs s = some h

/-- Some slot that is not in `A` refers to `h`. -/
def HeldOutside (refs : S → Option H) (A : S → Prop) (h : H) : Prop := ∃ s, ¬ A s ∧ refs s = some h

/-- The slots of `A` can be emptied while the resource `ended` ends: no other slot refers to that one,
and all others that a slot of `A` refers to are held outside of `A`. -/
structure Releases (refs : S → Option H) (A : S → Prop) (ended : Option H) : Prop where
  ends : ∀ h, ended = some h → ¬ HeldOutside refs A h
  keeps : ∀ s h, A s → refs s = some h → ended ≠ some h → HeldOutside refs A h

variable {refs refs' : S → Option H} {live live' : H → Prop} {A : S → Prop}

theorem HeldOutside.held {h : H} (hh : HeldOutside refs A h) : ∃ s, refs s = some h := by
  obtain ⟨s, -, hs⟩ := hh
  exact ⟨s, hs⟩

/-- A reference is in the set or held outside. -/
theorem held_iff (A : S → Prop) {h : H} :
    (∃ s, refs s = some h) ↔ HeldOutside refs A h ∨ ∃ s, A s ∧ refs s = some h := by
  constructor
  · rintro ⟨s, hs⟩
    by_cases hA : A s
    · exact Or.inr ⟨s, hA, hs⟩
    · exact Or.inl ⟨s, hA, hs⟩
  · rintro (h' | ⟨s, -, hs⟩)
    · exact h'.held
    · exact ⟨s, hs⟩

/-- What was held outside of the overwritten slots still is. -/
theorem heldOutside_congr (hout : ∀ s, ¬ A s → refs' s = refs s) {h : H} :
    HeldOutside refs' A h ↔ HeldOutside refs A h := by
  constructor
  · rintro ⟨s, hA, hs⟩
    exact ⟨s, hA, (hout s hA).symm.trans hs⟩
  · rintro ⟨s, hA, hs⟩
    exact ⟨s, hA, (hout s hA).trans hs⟩

/-- **Coherence after an update.**  Only the slots of `A` were overwritten. -/
theorem coherent_update (hout : ∀ s, ¬ A s → refs' s = refs s) :
    Coherent refs' live' ↔
      ∀ h, live' h ↔ HeldOutside refs A h ∨ ∃ s, A s ∧ refs' s = some h := by
  constructor
  · intro hc h
    rw [hc h, held_iff A, heldOutside_congr hout]
  · intro hl h
    rw [hl h, held_iff A, heldOutside_congr hout]

section Rules

variable (hc : Coherent refs live) (hout : ∀ s, ¬ A s → refs' s = refs s)

include hc hout

/-- **Starting the resources** that the overwritten slots now refer to: what was held only there must be
among them. -/
theorem coherent_start (hlive : ∀ h, live' h ↔ live h ∨ ∃ s, A s ∧ refs' s = some h) :
    Coherent refs' live' ↔
      ∀ s h, A s → refs s = some h → HeldOutside refs A h ∨ ∃ t, A t ∧ refs' t = some h := by
  rw [coherent_update hout]
  constructor
  · intro h s r hA hs
    exact (h r).1 ((hlive r).2 (Or.inl ((hc r).2 ⟨s, hs⟩)))
  · intro h r
    rw [hlive r, hc r, held_iff A]
    constructor
    · rintro ((hheld | ⟨s, hA, hs⟩) | hnew)
      · exact Or.inl hheld
      · exact h s r hA hs
      · exact Or.inr hnew
    · rintro (hheld | hnew)
      · exact Or.inl (Or.inl hheld)
      · exact Or.inr hnew

/-- **Overwriting slots** with references that are held elsewhere, or with none, while at most one
resource ends. -/
theorem coherent_release {ended : Option H} (hlive : ∀ h, live' h ↔ live h ∧ ended ≠ some h)
    (hcopy : ∀ s h, A s → refs' s = some h → HeldOutside refs A h) :
    Coherent refs' live' ↔ Releases refs A ended := by
  rw [coherent_update hout]
  constructor
  · intro h
    constructor
    · intro e he hheld
      exact ((hlive e).1 ((h e).2 (Or.inl hheld))).2 he
    · intro s r hA hs hne
      have hr : live' r := (hlive r).2 ⟨(hc r).2 ⟨s, hs⟩, hne⟩
      rcases (h r).1 hr with hheld | ⟨t, ht, hnew⟩
      · exact hheld
      · exact hcopy t r ht hnew
  · rintro ⟨hend, hrest⟩ r
    rw [hlive r, hc r, held_iff A]
    constructor
    · rintro ⟨hheld | ⟨s, hA, hs⟩, hne⟩
      · exact Or.inl hheld
      · exact Or.inl (hrest s r hA hs hne)
    · intro hnew
      have hheld : HeldOutside refs A r := by
        rcases hnew with hheld | ⟨s, hA, hs⟩
        · exact hheld
        · exact hcopy s r hA hs
      exact ⟨Or.inl hheld, fun hre => hend r hre hheld⟩

end Rules

end SharedRefs
