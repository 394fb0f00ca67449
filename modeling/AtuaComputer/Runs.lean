/-
**Labelled transition systems and their runs.**

A system is a step relation on states whose labels name the event of a step.  A run from a state is
the list of its labels, each with the state the step led to, so that a statement about a run can
speak about every state it passes through and about every step it takes.

Most of what is proved about a program holds only while its steps meet some condition.  `Runs.Meets`
is such a condition on the label and the state before the step, and the two rules of this module turn
a fact about one step into a fact about whole runs: a condition that is enough for one step to keep an
invariant is enough for every run whose steps meet it, and a condition that is also necessary for one
step characterises those runs.

Main definitions:

* `Runs.IsRun` — the runs of a step relation;
* `Runs.Throughout`, `Runs.EachStep`, `Runs.Meets` — a predicate on every state of a run, on every
  step of it, and on the label and the state before each step;
* `Runs.final` — the state a run ends in;
* `Runs.trace` — the run of a deterministic system over a list of labels.

Main results:

* `Runs.throughout_of_meets` — the invariant rule for guarded runs;
* `Runs.throughout_iff_meets` — the same rule for an exact condition;
* `Runs.meets_of_throughout` — when a condition is necessary;
* `Runs.eachStep_of_meets` — a fact about every step of a guarded run.
-/

import Mathlib.Data.List.Basic

set_option relaxedAutoImplicit false
set_option autoImplicit false

namespace Runs

variable {σ ℓ : Type}

/-- `IsRun step s tr`: the list `tr` of labels and successor states is a run from `s`. -/
def IsRun (step : σ → ℓ → σ → Prop) : σ → List (ℓ × σ) → Prop
  | _, [] => True
  | s, (l, s') :: tr => step s l s' ∧ IsRun step s' tr

/-- The predicate `P` holds in every state of the run, the first and the last included. -/
def Throughout (P : σ → Prop) : σ → List (ℓ × σ) → Prop
  | s, [] => P s
  | s, (_, s') :: tr => P s ∧ Throughout P s' tr

/-- The predicate `Q` holds of every step of the run. -/
def EachStep (Q : σ → ℓ → σ → Prop) : σ → List (ℓ × σ) → Prop
  | _, [] => True
  | s, (l, s') :: tr => Q s l s' ∧ EachStep Q s' tr

/-- Every step of the run meets the condition `G` on its label and the state before it. -/
def Meets (G : σ → ℓ → Prop) : σ → List (ℓ × σ) → Prop :=
  EachStep fun s l _ => G s l

instance decidableEachStep {Q : σ → ℓ → σ → Prop} [∀ s l s', Decidable (Q s l s')] :
    (s : σ) → (tr : List (ℓ × σ)) → Decidable (EachStep Q s tr)
  | _, [] => isTrue trivial
  | s, (l, s') :: tr =>
    have : Decidable (EachStep Q s' tr) := decidableEachStep s' tr
    inferInstanceAs (Decidable (Q s l s' ∧ EachStep Q s' tr))

instance {G : σ → ℓ → Prop} [∀ s l, Decidable (G s l)] (s : σ) (tr : List (ℓ × σ)) :
    Decidable (Meets G s tr) :=
  decidableEachStep s tr

/-- The state a run ends in. -/
def final : σ → List (ℓ × σ) → σ
  | s, [] => s
  | _, (_, s') :: tr => final s' tr

@[simp] theorem isRun_nil (step : σ → ℓ → σ → Prop) (s : σ) : IsRun step s [] := trivial

@[simp] theorem isRun_cons {step : σ → ℓ → σ → Prop} {s s' : σ} {l : ℓ} {tr : List (ℓ × σ)} :
    IsRun step s ((l, s') :: tr) ↔ step s l s' ∧ IsRun step s' tr := Iff.rfl

@[simp] theorem throughout_nil {P : σ → Prop} {s : σ} :
    Throughout P s ([] : List (ℓ × σ)) ↔ P s := Iff.rfl

@[simp] theorem throughout_cons {P : σ → Prop} {s s' : σ} {l : ℓ} {tr : List (ℓ × σ)} :
    Throughout P s ((l, s') :: tr) ↔ P s ∧ Throughout P s' tr := Iff.rfl

@[simp] theorem eachStep_nil (Q : σ → ℓ → σ → Prop) (s : σ) : EachStep Q s [] := trivial

@[simp] theorem eachStep_cons {Q : σ → ℓ → σ → Prop} {s s' : σ} {l : ℓ} {tr : List (ℓ × σ)} :
    EachStep Q s ((l, s') :: tr) ↔ Q s l s' ∧ EachStep Q s' tr := Iff.rfl

@[simp] theorem meets_nil (G : σ → ℓ → Prop) (s : σ) : Meets G s [] := trivial

@[simp] theorem meets_cons {G : σ → ℓ → Prop} {s s' : σ} {l : ℓ} {tr : List (ℓ × σ)} :
    Meets G s ((l, s') :: tr) ↔ G s l ∧ Meets G s' tr := Iff.rfl

/-- Two conditions that all steps meet. -/
theorem Meets.and {G H : σ → ℓ → Prop} {s : σ} {tr : List (ℓ × σ)} (hG : Meets G s tr) (hH : Meets H s tr) :
    Meets (fun s l => G s l ∧ H s l) s tr := by
  induction tr generalizing s with
  | nil => exact meets_nil _ s
  | cons e tr ih => exact ⟨⟨hG.1, hH.1⟩, ih hG.2 hH.2⟩

/-- What holds throughout a run holds where it starts. -/
theorem Throughout.start {P : σ → Prop} {s : σ} {tr : List (ℓ × σ)} (h : Throughout P s tr) :
    P s := by
  cases tr with
  | nil => exact h
  | cons e tr => exact h.1

/-- What holds throughout a run holds where it ends. -/
theorem Throughout.final {P : σ → Prop} {s : σ} {tr : List (ℓ × σ)} (h : Throughout P s tr) :
    P (final s tr) := by
  induction tr generalizing s with
  | nil => exact h
  | cons e tr ih => exact ih h.2

theorem Throughout.mono {P P' : σ → Prop} (hP : ∀ s, P s → P' s) {s : σ} {tr : List (ℓ × σ)}
    (h : Throughout P s tr) : Throughout P' s tr := by
  induction tr generalizing s with
  | nil => exact hP s h
  | cons e tr ih => exact ⟨hP s h.1, ih h.2⟩

/-- A predicate that holds throughout may be added to another one. -/
theorem throughout_and_iff {P Q : σ → Prop} {s : σ} {tr : List (ℓ × σ)} (h : Throughout P s tr) :
    Throughout Q s tr ↔ Throughout (fun s => P s ∧ Q s) s tr := by
  induction tr generalizing s with
  | nil => exact (and_iff_right h).symm
  | cons e tr ih =>
      rw [throughout_cons, throughout_cons, ih h.2, and_iff_right h.1]

/-! ### Deterministic systems -/

/-- The run of a deterministic system over a list of labels. -/
def trace (next : σ → ℓ → σ) : σ → List ℓ → List (ℓ × σ)
  | _, [] => []
  | s, l :: ls => (l, next s l) :: trace next (next s l) ls

theorem isRun_trace (next : σ → ℓ → σ) (s : σ) (ls : List ℓ) :
    IsRun (fun s l s' => s' = next s l) s (trace next s ls) := by
  induction ls generalizing s with
  | nil => trivial
  | cons l ls ih => exact ⟨rfl, ih (next s l)⟩

theorem final_trace (next : σ → ℓ → σ) (s : σ) (ls : List ℓ) :
    final s (trace next s ls) = ls.foldl next s := by
  induction ls generalizing s with
  | nil => rfl
  | cons l ls ih => exact ih (next s l)

/-- A fact about every step of a run of a deterministic system is one about the last. -/
theorem eachStep_last {next : σ → ℓ → σ} {Q : σ → ℓ → σ → Prop} {s : σ} {ls : List ℓ} {l : ℓ}
    (h : EachStep Q s (trace next s (ls ++ [l]))) : Q (ls.foldl next s) l (next (ls.foldl next s) l) := by
  induction ls generalizing s with
  | nil => exact h.1
  | cons l' ls ih => exact ih h.2

section Rules

variable {step : σ → ℓ → σ → Prop} {I : σ → Prop} {G : σ → ℓ → Prop}

/-- **The invariant rule.**  If every step that meets the condition keeps the invariant, the
invariant holds in every state of every run whose steps all meet the condition. -/
theorem throughout_of_meets (hstep : ∀ s l s', I s → G s l → step s l s' → I s') :
    ∀ {s : σ} {tr : List (ℓ × σ)}, I s → IsRun step s tr → Meets G s tr → Throughout I s tr := by
  intro s tr
  induction tr generalizing s with
  | nil => intro hs _ _; exact hs
  | cons e tr ih =>
      intro hs hrun hG
      exact ⟨hs, ih (hstep s e.1 e.2 hs hG.1 hrun.1) hrun.2 hG.2⟩

/-- The invariant rule of a system in which every step keeps the invariant. -/
theorem throughout_of_isRun (hstep : ∀ s l s', I s → step s l s' → I s') {s : σ}
    {tr : List (ℓ × σ)} (hs : I s) (hrun : IsRun step s tr) : Throughout I s tr := by
  induction tr generalizing s with
  | nil => exact hs
  | cons e tr ih => exact ⟨hs, ih (hstep s e.1 e.2 hs hrun.1) hrun.2⟩

/-- **The exact invariant rule.**  If a step from a state with the invariant keeps it exactly when
it meets the condition, then the runs that keep the invariant throughout are those whose steps all
meet the condition. -/
theorem throughout_iff_meets (hstep : ∀ s l s', I s → step s l s' → (I s' ↔ G s l)) :
    ∀ {s : σ} {tr : List (ℓ × σ)}, I s → IsRun step s tr → (Throughout I s tr ↔ Meets G s tr) := by
  intro s tr
  induction tr generalizing s with
  | nil => intro hs _; exact iff_of_true hs trivial
  | cons e tr ih =>
      intro hs hrun
      have hone : I e.2 ↔ G s e.1 := hstep s e.1 e.2 hs hrun.1
      constructor
      · intro h
        have he : I e.2 := h.2.start
        exact ⟨hone.1 he, (ih he hrun.2).1 h.2⟩
      · intro h
        exact ⟨hs, (ih (hone.2 h.1) hrun.2).2 h.2⟩

/-- **The rule of necessity.**  If a step from a state with the invariant can lead to a state where the
predicate holds only by meeting the condition, and then keeps the invariant, the condition is necessary
for the predicate to hold throughout a run. -/
theorem meets_of_throughout {P : σ → Prop}
    (hstep : ∀ s l s', I s → step s l s' → P s' → I s' ∧ G s l) {s : σ} {tr : List (ℓ × σ)} (hs : I s)
    (hrun : IsRun step s tr) (h : Throughout P s tr) : Meets G s tr := by
  induction tr generalizing s with
  | nil => trivial
  | cons e tr ih =>
      obtain ⟨hi, hG⟩ := hstep s e.1 e.2 hs hrun.1 h.2.start
      exact ⟨hG, ih hi hrun.2 h.2⟩

/-- A fact about each step that meets the condition from a state with the invariant. -/
theorem eachStep_of_meets {Q : σ → ℓ → σ → Prop}
    (hstep : ∀ s l s', I s → G s l → step s l s' → I s' ∧ Q s l s') :
    ∀ {s : σ} {tr : List (ℓ × σ)}, I s → IsRun step s tr → Meets G s tr → EachStep Q s tr := by
  intro s tr
  induction tr generalizing s with
  | nil => intro _ _ _; trivial
  | cons e tr ih =>
      intro hs hrun hG
      obtain ⟨hi, hq⟩ := hstep s e.1 e.2 hs hG.1 hrun.1
      exact ⟨hq, ih hi hrun.2 hG.2⟩

/-- A fact about each step of an unguarded run of a system with an invariant. -/
theorem eachStep_of_isRun {Q : σ → ℓ → σ → Prop}
    (hstep : ∀ s l s', I s → step s l s' → I s' ∧ Q s l s') {s : σ} {tr : List (ℓ × σ)}
    (hs : I s) (hrun : IsRun step s tr) : EachStep Q s tr := by
  induction tr generalizing s with
  | nil => trivial
  | cons e tr ih =>
      obtain ⟨hi, hq⟩ := hstep s e.1 e.2 hs hrun.1
      exact ⟨hq, ih hi hrun.2⟩

/-- An exact condition for a fact about each step, in a system with an invariant. -/
theorem eachStep_iff_meets {Q : σ → ℓ → σ → Prop} (hkeep : ∀ s l s', I s → step s l s' → I s')
    (hstep : ∀ s l s', I s → step s l s' → (Q s l s' ↔ G s l)) {s : σ} {tr : List (ℓ × σ)} (hs : I s)
    (hrun : IsRun step s tr) : EachStep Q s tr ↔ Meets G s tr := by
  induction tr generalizing s with
  | nil => exact iff_of_true trivial trivial
  | cons e tr ih =>
      rw [eachStep_cons, meets_cons, hstep s e.1 e.2 hs hrun.1, ih (hkeep s e.1 e.2 hs hrun.1) hrun.2]

end Rules

end Runs
