/-
**Walking a path part by part.**

A path is a list of parts, names and steps up.  The walk takes them one after the other: a step up leaves the
directory that has been reached, and where a name is a link its parts come first, from the root or from the
directory that holds the link.  Another way is to put a path in normal form before any link is looked at, and
to put the normal form of a target in the place of the first link.

This module is the two over arbitrary names, and what keeps them in step.

Main definitions:

* `PathWalk.lexical` — the normal form of parts, from a directory on;
* `PathWalk.Walks` — the walk, with the number of links followed;
* `PathWalk.InStep` — the walk, where normal forms say the same.

Main results:

* `PathWalk.Walks.unique` — the walk has one end;
* `PathWalk.InStep.resolve_eq` — **a walk in step ends where the walk along normal forms does**.
-/

import AtuaComputer.NameTree

set_option relaxedAutoImplicit false
set_option autoImplicit false

namespace PathWalk

open NameTree

variable {N : Type}

/-! ### Parts -/

/-- A part of a path. -/
inductive Part (N : Type) where
  | up
  | name (n : N)
deriving DecidableEq

/-- One part, without links. -/
def go (d : List N) : Part N → List N
  | .up => d.dropLast
  | .name n => d ++ [n]

/-- The normal form of parts, from a directory on. -/
def lexical (d : List N) (parts : List (Part N)) : List N := parts.foldl go d

theorem lexical_append (d : List N) (ps qs : List (Part N)) :
    lexical d (ps ++ qs) = lexical (lexical d ps) qs := List.foldl_append

/-- The parts never step up out of where they start, and `depth` names above it. -/
def Inside : ℕ → List (Part N) → Prop
  | _, [] => True
  | 0, .up :: _ => False
  | depth + 1, .up :: ps => Inside depth ps
  | depth, .name _ :: ps => Inside (depth + 1) ps

/-- Parts that stay inside do the same anywhere. -/
theorem lexical_of_inside {ps : List (Part N)} (d c : List N) (h : Inside c.length ps) :
    lexical (d ++ c) ps = d ++ lexical c ps := by
  induction ps generalizing c with
  | nil => rfl
  | cons part ps ih =>
      cases part with
      | up =>
          cases c using List.reverseRecOn with
          | nil => exact h.elim
          | append_singleton c n =>
              rw [List.length_append, List.length_singleton] at h
              have hleft : go (d ++ (c ++ [n])) .up = d ++ c := by
                show (d ++ (c ++ [n])).dropLast = d ++ c
                rw [← List.append_assoc, List.dropLast_concat]
              have hright : go (c ++ [n]) .up = c := List.dropLast_concat
              show lexical (go (d ++ (c ++ [n])) .up) ps = d ++ lexical (go (c ++ [n]) .up) ps
              rw [hleft, hright]
              exact ih c h
      | name n =>
          have happend : go (d ++ c) (.name n) = d ++ (c ++ [n]) := List.append_assoc d c [n]
          show lexical (go (d ++ c) (.name n)) ps = d ++ lexical (c ++ [n]) ps
          rw [happend]
          refine ih (c ++ [n]) ?_
          rw [List.length_append, List.length_singleton]
          cases c with
          | nil => exact h
          | cons _ _ => exact h

/-! ### The walk -/

/-- What a link says. -/
structure Link (N : Type) where
  absolute : Bool
  parts : List (Part N)
deriving DecidableEq

/-- Where the parts of a link are counted from, if the link is in `d`. -/
def Link.start (l : Link N) (d : List N) : List N := if l.absolute then [] else d

/-- The normal form of a target. -/
def Link.goal (l : Link N) : List N := lexical [] l.parts

/-- The walk from the directory `d` along the parts follows `k` links and ends at `e`. -/
inductive Walks (link : List N → Option (Link N)) : List N → List (Part N) → ℕ → List N → Prop
  | done (d : List N) : Walks link d [] 0 d
  | up {d e : List N} {ps : List (Part N)} {k : ℕ} : Walks link d.dropLast ps k e → Walks link d (.up :: ps) k e
  | name {d e : List N} {n : N} {ps : List (Part N)} {k : ℕ} :
      link (d ++ [n]) = none → Walks link (d ++ [n]) ps k e → Walks link d (.name n :: ps) k e
  | follow {d e : List N} {n : N} {ps : List (Part N)} {k : ℕ} {l : Link N} :
      link (d ++ [n]) = some l → Walks link (l.start d) (l.parts ++ ps) k e →
        Walks link d (.name n :: ps) (k + 1) e

variable {link : List N → Option (Link N)}

/-- **The walk has one end.** -/
theorem Walks.unique {d e e' : List N} {ps : List (Part N)} {k k' : ℕ} (h : Walks link d ps k e)
    (h' : Walks link d ps k' e') : k' = k ∧ e' = e := by
  induction h generalizing k' with
  | done => cases h'; exact ⟨rfl, rfl⟩
  | up _ ih =>
      cases h' with
      | up h' => exact ih h'
  | name hnone _ ih =>
      cases h' with
      | name _ h' => exact ih h'
      | follow hsome _ =>
          rw [hnone] at hsome
          cases hsome
  | follow hsome _ ih =>
      cases h' with
      | name hnone _ =>
          rw [hsome] at hnone
          cases hnone
      | follow hsome' h' =>
          rw [hsome] at hsome'
          obtain rfl := Option.some.inj hsome'
          obtain ⟨rfl, rfl⟩ := ih h'
          exact ⟨rfl, rfl⟩

/-- The walk, where at each link the normal forms say the same: either what comes after the link stays inside
it, and its target has one normal form from the root and from its directory; or the link makes no difference
to the normal form, because a step up takes its name away. -/
inductive InStep (link : List N → Option (Link N)) : List N → List (Part N) → ℕ → List N → Prop
  | done (d : List N) : InStep link d [] 0 d
  | up {d e : List N} {ps : List (Part N)} {k : ℕ} : InStep link d.dropLast ps k e → InStep link d (.up :: ps) k e
  | name {d e : List N} {n : N} {ps : List (Part N)} {k : ℕ} :
      link (d ++ [n]) = none → InStep link (d ++ [n]) ps k e → InStep link d (.name n :: ps) k e
  | follow {d e : List N} {n : N} {ps : List (Part N)} {k : ℕ} {l : Link N} :
      link (d ++ [n]) = some l → Inside 0 ps → lexical (l.start d) l.parts = l.goal →
        InStep link (l.start d) (l.parts ++ ps) k e → InStep link d (.name n :: ps) (k + 1) e
  | cancel {d e : List N} {n : N} {ps : List (Part N)} {k : ℕ} {l : Link N} :
      link (d ++ [n]) = some l → lexical (l.start d) (l.parts ++ ps) = lexical (d ++ [n]) ps →
        InStep link (l.start d) (l.parts ++ ps) k e → InStep link d (.name n :: ps) (k + 1) e

theorem InStep.walks {d e : List N} {ps : List (Part N)} {k : ℕ} (h : InStep link d ps k e) :
    Walks link d ps k e := by
  induction h with
  | done d => exact .done d
  | up _ ih => exact .up ih
  | name hnone _ ih => exact .name hnone ih
  | follow hsome _ _ _ ih => exact .follow hsome ih
  | cancel hsome _ _ ih => exact .follow hsome ih

/-- There is no link on the way down to `d`. -/
def Plain (link : List N → Option (Link N)) (d : List N) : Prop := ∀ a, a ≠ [] → a <+: d → link a = none

theorem plain_nil : Plain link [] := fun _ ha hfront => absurd (List.prefix_nil.1 hfront) ha

theorem Plain.dropLast {d : List N} (h : Plain link d) : Plain link d.dropLast :=
  fun a ha hfront => h a ha (hfront.trans (List.dropLast_prefix d))

theorem Plain.concat {d : List N} {n : N} (h : Plain link d) (hn : link (d ++ [n]) = none) :
    Plain link (d ++ [n]) := by
  intro a ha hfront
  obtain rfl | hfront := List.prefix_concat_iff.1 hfront
  · exact hn
  · exact h a ha hfront

theorem Plain.start {d : List N} (h : Plain link d) (l : Link N) : Plain link (l.start d) := by
  unfold Link.start
  split_ifs
  · exact plain_nil
  · exact h

/-- **A walk in step ends where the walk along normal forms does.** -/
theorem InStep.resolve_eq {d e : List N} {ps : List (Part N)} {k : ℕ} (h : InStep link d ps k e)
    (hd : Plain link d) {fuel : ℕ} (hk : k ≤ fuel) :
    resolve (fun q => (link q).map Link.goal) fuel (lexical d ps) = e := by
  have hcut {d : List N} (hd : Plain link d) : cut (fun q => (link q).map Link.goal) [] d = none := by
    refine cut_eq_none fun a ha hfront => ?_
    rw [List.nil_append, hd a ha hfront, Option.map_none]
  induction h generalizing fuel with
  | done d =>
      show resolve _ fuel d = d
      cases fuel with
      | zero => rfl
      | succ fuel => rw [resolve, hcut hd]
  | up _ ih => exact ih hd.dropLast hk
  | name hnone _ ih => exact ih (hd.concat hnone) hk
  | @follow d e n ps k l hsome hinside hgoal _ ih =>
      obtain ⟨fuel, rfl⟩ : ∃ f, fuel = f + 1 := ⟨fuel - 1, by omega⟩
      -- the link is the first of the normal form, with what comes after it
      have hnormal : lexical d (.name n :: ps) = d ++ n :: lexical [] ps := by
        have hrest := lexical_of_inside (d ++ [n]) [] hinside
        rw [List.append_nil] at hrest
        show lexical (d ++ [n]) ps = _
        rw [hrest, List.append_assoc, List.singleton_append]
      have hfirst : cut (fun q => (link q).map Link.goal) [] (d ++ n :: lexical [] ps) =
          some (l.goal, lexical [] ps) := by
        rw [cut_append, hcut hd]
        show cut _ d (n :: lexical [] ps) = _
        rw [cut, hsome, Option.map_some]
      have hnext : l.goal ++ lexical [] ps = lexical (l.start d) (l.parts ++ ps) := by
        have hrest := lexical_of_inside l.goal [] hinside
        rw [List.append_nil] at hrest
        rw [lexical_append, hgoal, hrest]
      rw [hnormal, resolve, hfirst]
      show resolve _ fuel (l.goal ++ lexical [] ps) = e
      rw [hnext]
      exact ih (hd.start l) (by omega)
  | @cancel d e n ps k l hsome hsame _ ih =>
      show resolve _ fuel (lexical (d ++ [n]) ps) = e
      rw [← hsame]
      exact ih (hd.start l) (by omega)

end PathWalk
