/-
**Computations that do not see a part of the state.**

A part of the state that a computation neither reads nor writes can be replaced before or after it runs, with
the same outcome.  The replacement is a function on states, which may need a condition that the computation
keeps; the computation may throw, and what it did before stays done.

Main definitions:

* `Blindness.Alike` — two computations, one from the replaced state, with the same outcome up to it;
* `Blindness.Blind` — a computation that is alike itself, from every state with the condition.

Main results:

* `Blindness.alike_bind`, `Blindness.blind_bind` — the rule of composition;
* `Blindness.blind_modify` — a change that commutes with the replacement.
-/

import Mathlib.Data.List.Basic

set_option relaxedAutoImplicit false
set_option autoImplicit false

namespace Blindness

variable {σ ε α β : Type}

/-- From the replaced state the first computation does what the second one does from `s`, up to the
replacement, and the second keeps the condition. -/
def Alike (replace : σ → σ) (cond : σ → Prop) (x y : ExceptT ε (StateM σ) α) (s : σ) : Prop :=
  x.run.run (replace s) = ((y.run.run s).1, replace (y.run.run s).2) ∧ cond (y.run.run s).2

/-- **A computation that does not see what is replaced.** -/
def Blind (replace : σ → σ) (cond : σ → Prop) (x : ExceptT ε (StateM σ) α) : Prop :=
  ∀ s, cond s → Alike replace cond x x s

section Rules

variable {replace : σ → σ} {cond : σ → Prop}

theorem blind_pure (a : α) : Blind replace cond (pure a : ExceptT ε (StateM σ) α) :=
  fun _ hs => ⟨rfl, hs⟩

theorem blind_throw (e : ε) : Blind replace cond (throw e : ExceptT ε (StateM σ) α) :=
  fun _ hs => ⟨rfl, hs⟩

/-- The rule of composition: the continuations are alike from every state the first part leads to. -/
theorem alike_bind {x y : ExceptT ε (StateM σ) α} {f g : α → ExceptT ε (StateM σ) β} {s : σ}
    (hxy : Alike replace cond x y s) (hfg : ∀ a s', cond s' → Alike replace cond (f a) (g a) s') :
    Alike replace cond (x >>= f) (y >>= g) s := by
  obtain ⟨hrun, hcond⟩ := hxy
  unfold Alike
  rw [ExceptT.run_bind, ExceptT.run_bind, StateT.run_bind, StateT.run_bind, hrun]
  revert hcond
  obtain ⟨r, s'⟩ := y.run.run s
  intro hcond
  cases r with
  | error e => exact ⟨rfl, hcond⟩
  | ok a => exact hfg a s' hcond

theorem blind_bind {x : ExceptT ε (StateM σ) α} {f : α → ExceptT ε (StateM σ) β}
    (hx : Blind replace cond x) (hf : ∀ a, Blind replace cond (f a)) :
    Blind replace cond (x >>= f) :=
  fun s hs => alike_bind (hx s hs) fun a s' hs' => hf a s' hs'

/-- What is done with the state that is read is alike for the replaced and for the original state. -/
theorem blind_get {f : σ → ExceptT ε (StateM σ) β}
    (hf : ∀ s, cond s → Alike replace cond (f (replace s)) (f s) s) :
    Blind replace cond (get >>= f) :=
  fun s hs => hf s hs

/-- A change that commutes with the replacement. -/
theorem blind_modify {f : σ → σ} (hf : ∀ s, cond s → f (replace s) = replace (f s))
    (hcond : ∀ s, cond s → cond (f s)) :
    Blind replace cond (modify f : ExceptT ε (StateM σ) Unit) := by
  intro s hs
  refine ⟨?_, hcond s hs⟩
  show (Except.ok (), f (replace s)) = (Except.ok (), replace (f s))
  rw [hf s hs]

theorem blind_ite {c : Prop} [Decidable c] {x y : ExceptT ε (StateM σ) α}
    (hx : Blind replace cond x) (hy : Blind replace cond y) :
    Blind replace cond (if c then x else y) := by
  split
  · exact hx
  · exact hy

end Rules

end Blindness
