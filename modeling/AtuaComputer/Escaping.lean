/-
**Escaping one symbol by a token.**

A text that must not contain a certain symbol is often made from one that may by putting a token, a fixed
word without the symbol, in its place; the way back puts the symbol in place of each token, from the left.
The way there undoes the way back, but not the other way around: a text may spell the token itself, or may
spell a part of it that the escape of a symbol completes.

Main definitions:

* `Escaping.escape`, `Escaping.unescape` — the two ways;
* `Escaping.Plain` — no token begins in the escaped text where there was no symbol.

Main results:

* `Escaping.escape_unescape` — escaping undoes unescaping;
* `Escaping.unescape_escape_iff` — **unescaping undoes escaping exactly on the plain texts**.
-/

import Mathlib.Data.List.Infix

set_option relaxedAutoImplicit false
set_option autoImplicit false

namespace Escaping

variable {α : Type} [DecidableEq α]

/-- The token in place of every symbol. -/
def escape (symbol : α) (token text : List α) : List α :=
  text.flatMap fun a => if a = symbol then token else [a]

/-- The symbol in place of every token, after a number of elements that are left out. -/
def unescapeFrom (symbol : α) (token : List α) : ℕ → List α → List α
  | _, [] => []
  | skip + 1, _ :: text => unescapeFrom symbol token skip text
  | 0, a :: text =>
    if token.isPrefixOf (a :: text) then symbol :: unescapeFrom symbol token (token.length - 1) text
    else a :: unescapeFrom symbol token 0 text

/-- The symbol in place of every token, the leftmost one first. -/
def unescape (symbol : α) (token text : List α) : List α := unescapeFrom symbol token 0 text

/-- No token begins in the escaped text at a place where the text has another symbol. -/
def Plain (symbol : α) (token text : List α) : Prop :=
  ∀ s, s <:+ text → s.head? ≠ some symbol → ¬ token <+: escape symbol token s

variable {symbol : α} {token text : List α}

@[simp] theorem escape_nil : escape symbol token [] = [] := rfl

theorem escape_cons_self : escape symbol token (symbol :: text) = token ++ escape symbol token text := by
  simp [escape]

theorem escape_cons_of_ne {a : α} (h : a ≠ symbol) :
    escape symbol token (a :: text) = a :: escape symbol token text := by
  simp [escape, h]

@[simp] theorem unescape_nil : unescape symbol token [] = [] := rfl

theorem unescapeFrom_eq (skip : ℕ) :
    unescapeFrom symbol token skip text = unescape symbol token (text.drop skip) := by
  induction text generalizing skip with
  | nil => simp [unescape, unescapeFrom]
  | cons a text ih =>
      cases skip with
      | zero => rfl
      | succ skip => rw [unescapeFrom, ih, List.drop_succ_cons]

/-- A token is read as the symbol. -/
theorem unescape_token (h : token ≠ []) (text : List α) :
    unescape symbol token (token ++ text) = symbol :: unescape symbol token text := by
  cases token with
  | nil => exact absurd rfl h
  | cons a rest =>
      have hfront : (a :: rest).isPrefixOf (a :: (rest ++ text)) = true :=
        List.isPrefixOf_iff_prefix.2 (List.prefix_append (a :: rest) text)
      rw [List.cons_append, unescape, unescapeFrom, if_pos hfront, unescapeFrom_eq, List.length_cons,
        Nat.add_sub_cancel, List.drop_left]

/-- What begins no token is read as itself. -/
theorem unescape_cons {a : α} (h : ¬ token <+: a :: text) :
    unescape symbol token (a :: text) = a :: unescape symbol token text := by
  have hfront : ¬ token.isPrefixOf (a :: text) = true := fun h' => h (List.isPrefixOf_iff_prefix.1 h')
  rw [unescape, unescapeFrom, if_neg hfront]
  rfl

theorem symbol_notMem_escape (h : symbol ∉ token) : symbol ∉ escape symbol token text := by
  rw [escape, List.mem_flatMap]
  rintro ⟨a, -, ha⟩
  split_ifs at ha with heq
  · exact h ha
  · exact heq (List.mem_singleton.1 ha).symm

/-- **Escaping undoes unescaping**, in a text without the symbol. -/
theorem escape_unescape (htoken : token ≠ []) (h : symbol ∉ text) :
    escape symbol token (unescape symbol token text) = text := by
  induction hn : text.length using Nat.strong_induction_on generalizing text with
  | _ n ih =>
      by_cases hfront : token <+: text
      · obtain ⟨rest, rfl⟩ := hfront
        have hlt : rest.length < n := by
          have hpos := List.length_pos_iff.2 htoken
          rw [← hn, List.length_append]
          omega
        have hrest : symbol ∉ rest := fun hmem => h (List.mem_append_right _ hmem)
        rw [unescape_token htoken, escape_cons_self, ih _ hlt hrest rfl]
      · cases text with
        | nil => rfl
        | cons a text =>
            have hlt : text.length < n := by
              rw [← hn, List.length_cons]
              omega
            have hne : a ≠ symbol := fun heq => h (heq ▸ List.mem_cons_self)
            have hrest : symbol ∉ text := fun hmem => h (List.mem_cons_of_mem _ hmem)
            rw [unescape_cons hfront, escape_cons_of_ne hne, ih _ hlt hrest rfl]

theorem plain_cons_self : Plain symbol token (symbol :: text) ↔ Plain symbol token text := by
  constructor
  · intro h s hs
    exact h s (hs.trans (List.suffix_cons _ _))
  · intro h s hs hhead
    rcases List.suffix_cons_iff.1 hs with rfl | hs
    · exact absurd rfl hhead
    · exact h s hs hhead

theorem plain_cons_of_ne {a : α} (ha : a ≠ symbol) :
    Plain symbol token (a :: text) ↔
      ¬ token <+: a :: escape symbol token text ∧ Plain symbol token text := by
  constructor
  · intro h
    refine ⟨?_, fun s hs => h s (hs.trans (List.suffix_cons _ _))⟩
    rw [← escape_cons_of_ne ha]
    exact h _ List.suffix_rfl (by simpa using ha)
  · rintro ⟨hhead, h⟩ s hs hne
    rcases List.suffix_cons_iff.1 hs with rfl | hs
    · rwa [escape_cons_of_ne ha]
    · exact h s hs hne

/-- **Unescaping undoes escaping exactly on the plain texts.** -/
theorem unescape_escape_iff (htoken : token ≠ []) :
    unescape symbol token (escape symbol token text) = text ↔ Plain symbol token text := by
  induction text with
  | nil =>
      refine iff_of_true rfl fun s hs _ hfront => ?_
      rw [List.suffix_nil.1 hs, escape_nil, List.prefix_nil] at hfront
      exact htoken hfront
  | cons a text ih =>
      by_cases ha : a = symbol
      · subst ha
        rw [escape_cons_self, unescape_token htoken, List.cons_inj_right, ih, plain_cons_self]
      · rw [escape_cons_of_ne ha, plain_cons_of_ne ha]
        by_cases hfront : token <+: a :: escape symbol token text
        · obtain ⟨rest, hrest⟩ := hfront
          rw [← hrest, unescape_token htoken]
          refine iff_of_false (fun h => ha (List.cons.inj h).1.symm) fun h => ?_
          exact h.1 (List.prefix_append _ _)
        · rw [unescape_cons hfront, List.cons_inj_right, ih, and_iff_right hfront]

end Escaping
