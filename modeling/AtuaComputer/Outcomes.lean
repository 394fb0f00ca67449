/-
**What a computation with a state returns.**

A computation that may throw either returns a value or throws, and leads to a state in both cases.  The rules
here follow one through its parts.

Main definitions:

* `Outcomes.Returns`, `Outcomes.Throws` — the two outcomes;
* `Outcomes.Ensures` — what holds of the outcome, whichever it is.

Main results:

* `Outcomes.Returns.bind`, `Outcomes.Returns.throws`, `Outcomes.Throws.bind` — the rules of composition;
* `Outcomes.returns_read` — reading the state;
* `Outcomes.ensures_bind` — the rule of composition for what holds of the outcome.
-/

import Mathlib.Data.List.Basic

set_option relaxedAutoImplicit false
set_option autoImplicit false

namespace Outcomes

variable {σ ε α β : Type}

/-- From `s` the computation returns `a` and leads to `s'`. -/
def Returns (x : ExceptT ε (StateM σ) α) (s : σ) (a : α) (s' : σ) : Prop := x.run.run s = (.ok a, s')

/-- From `s` the computation throws `e` and leads to `s'`. -/
def Throws (x : ExceptT ε (StateM σ) α) (s : σ) (e : ε) (s' : σ) : Prop := x.run.run s = (.error e, s')

theorem returns_pure (a : α) (s : σ) : Returns (pure a : ExceptT ε (StateM σ) α) s a s := rfl

theorem throws_throw (e : ε) (s : σ) : Throws (throw e : ExceptT ε (StateM σ) α) s e s := rfl

theorem returns_get (s : σ) : Returns (get : ExceptT ε (StateM σ) σ) s s s := rfl

theorem returns_modify (f : σ → σ) (s : σ) : Returns (modify f : ExceptT ε (StateM σ) Unit) s () (f s) := rfl

section Rules

variable {x : ExceptT ε (StateM σ) α} {f : α → ExceptT ε (StateM σ) β} {s s' s'' : σ}

/-- The rule of composition. -/
theorem Returns.bind {a : α} {b : β} (hx : Returns x s a s') (hf : Returns (f a) s' b s'') :
    Returns (x >>= f) s b s'' := by
  unfold Returns at hx hf ⊢
  rw [ExceptT.run_bind, StateT.run_bind, hx]
  exact hf

/-- The second part throws. -/
theorem Returns.throws {a : α} {e : ε} (hx : Returns x s a s') (hf : Throws (f a) s' e s'') :
    Throws (x >>= f) s e s'' := by
  unfold Returns at hx
  unfold Throws at hf ⊢
  rw [ExceptT.run_bind, StateT.run_bind, hx]
  exact hf

/-- The first part throws. -/
theorem Throws.bind {e : ε} (hx : Throws x s e s') : Throws (x >>= f) s e s' := by
  unfold Throws at hx ⊢
  rw [ExceptT.run_bind, StateT.run_bind, hx]
  rfl

/-- Reading the state and going on. -/
theorem returns_read {b : β} {f : σ → ExceptT ε (StateM σ) β} (hf : Returns (f s) s b s') :
    Returns (get >>= f) s b s' :=
  (returns_get s).bind hf

/-! ### What holds of the outcome -/

/-- From `s` the computation returns a value and leads to a state with `Q`, or throws and leads to one with `E`. -/
def Ensures (x : ExceptT ε (StateM σ) α) (s : σ) (Q : α → σ → Prop) (E : σ → Prop) : Prop :=
  match x.run.run s with
  | (.ok a, s') => Q a s'
  | (.error _, s') => E s'

variable {Q : α → σ → Prop} {E : σ → Prop}

@[simp] theorem ensures_pure {a : α} : Ensures (pure a : ExceptT ε (StateM σ) α) s Q E ↔ Q a s := Iff.rfl

@[simp] theorem ensures_throw {e : ε} : Ensures (throw e : ExceptT ε (StateM σ) α) s Q E ↔ E s := Iff.rfl

@[simp] theorem ensures_get {Q : σ → σ → Prop} : Ensures (get : ExceptT ε (StateM σ) σ) s Q E ↔ Q s s := Iff.rfl

@[simp] theorem ensures_modify {f : σ → σ} {Q : Unit → σ → Prop} :
    Ensures (modify f : ExceptT ε (StateM σ) Unit) s Q E ↔ Q () (f s) := Iff.rfl

/-- The first part leads to states from which the second does. -/
@[simp] theorem ensures_bind {R : β → σ → Prop} :
    Ensures (x >>= f) s R E ↔ Ensures x s (fun a s' => Ensures (f a) s' R E) E := by
  unfold Ensures
  rw [ExceptT.run_bind, StateT.run_bind]
  obtain ⟨r, s'⟩ := x.run.run s
  cases r with
  | error e => exact Iff.rfl
  | ok a => exact Iff.rfl

@[simp] theorem ensures_ite {c : Prop} [Decidable c] {y : ExceptT ε (StateM σ) α} :
    Ensures (if c then x else y) s Q E ↔ if c then Ensures x s Q E else Ensures y s Q E := by
  by_cases h : c
  · rw [if_pos h, if_pos h]
  · rw [if_neg h, if_neg h]

theorem ensures_of_returns {a : α} (h : Returns x s a s') : Ensures x s Q E ↔ Q a s' := by
  unfold Returns at h
  unfold Ensures
  rw [h]

theorem ensures_of_throws {e : ε} (h : Throws x s e s') : Ensures x s Q E ↔ E s' := by
  unfold Throws at h
  unfold Ensures
  rw [h]

theorem Ensures.mono {Q' : α → σ → Prop} {E' : σ → Prop} (h : Ensures x s Q E) (hQ : ∀ a s', Q a s' → Q' a s')
    (hE : ∀ s', E s' → E' s') : Ensures x s Q' E' := by
  unfold Ensures at h ⊢
  revert h
  obtain ⟨r, s'⟩ := x.run.run s
  intro h
  cases r with
  | error e => exact hE s' h
  | ok a => exact hQ a s' h

end Rules

end Outcomes
