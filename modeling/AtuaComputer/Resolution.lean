/-
**Canonical paths.**

`normalizePath` leaves the slashes and the dots out of a path, and `resolvePath` puts the target of its first
link in the place of the part before it, and starts again.  Nothing makes the paths shorter, so that the
recursion ends by its depth alone.  If it ends before, no part of the result is a link.

Main definitions:

* `Resolution.Resolves` — the calls that `resolvePath` makes, with the depth of the last one;
* `Resolution.Canonical` — a path without superfluous parts.

Main results:

* `Resolution.resolves_resolvePath`, `Resolution.Resolves.unique` — the recursion ends, with one result;
* `Resolution.Resolves.stable` — a result that was not cut off has no link in it;
* `Resolution.canonical_resolution` — **paths have a canonical form, and so have resolved ones**.
-/

import AtuaComputer.VfsPaths

set_option relaxedAutoImplicit false
set_option autoImplicit false

namespace Resolution

open VirtualFs

/-! ### Canonical paths -/

/-- The root, or names with a slash before each, none of which is empty or consists of dots. -/
def Canonical (path : Path) : Prop :=
  ∃ parts : List Path, path = '/' :: join parts ∧ ∀ part ∈ parts, IsComponent part

theorem canonical_pathOf (p : List Component) : Canonical (pathOf p) := by
  refine ⟨p.map Component.val, rfl, fun part hpart => ?_⟩
  obtain ⟨n, -, rfl⟩ := List.mem_map.1 hpart
  exact n.ok

theorem canonical_normalizePath (path : Path) : Canonical (normalizePath path) := by
  rw [normalizePath_eq]
  exact canonical_pathOf _

theorem normalizePath_normalizePath (path : Path) : normalizePath (normalizePath path) = normalizePath path := by
  rw [normalizePath_eq path, normalizePath_pathOf]

/-! ### The recursion -/

/-- The path of the next call: the target of the link with the rest after it. -/
def descend (target : Path) (rest : List Path) : Path :=
  normalizePath (if join rest = [] then target else target ++ '/' :: join rest)

/-- `resolvePath(path, depth)` returns `result` in a call of the depth `last`. -/
inductive Resolves (symlinks : JsMap Path Path) : Path → ℕ → Path → ℕ → Prop
  | stop {path : Path} {depth : ℕ} :
      symlinks.size = 0 ∨ 40 < depth ∨ firstLink symlinks ((normalizePath path).splitOn '/') = none →
        Resolves symlinks path depth (normalizePath path) depth
  | follow {path target result : Path} {rest : List Path} {depth last : ℕ} :
      symlinks.size ≠ 0 → depth ≤ 40 → firstLink symlinks ((normalizePath path).splitOn '/') = some (target, rest) →
        Resolves symlinks (descend target rest) (depth + 1) result last → Resolves symlinks path depth result last

variable {symlinks : JsMap Path Path}

/-- With the number of links that may still be followed, the recursion ends. -/
theorem resolves_resolveFuel (fuel depth : ℕ) (h : fuel + depth = 41) (path : Path) :
    ∃ last, Resolves symlinks path depth (resolveFuel symlinks fuel path) last := by
  induction fuel generalizing depth path with
  | zero => exact ⟨depth, .stop (.inr (.inl (by omega)))⟩
  | succ fuel ih =>
      rw [resolveFuel]
      dsimp only
      by_cases hsize : symlinks.size = 0
      · rw [if_pos hsize]
        exact ⟨depth, .stop (.inl hsize)⟩
      · rw [if_neg hsize]
        cases hlink : firstLink symlinks ((normalizePath path).splitOn '/') with
        | none => exact ⟨depth, .stop (.inr (.inr hlink))⟩
        | some found =>
            obtain ⟨target, rest⟩ := found
            obtain ⟨last, hrest⟩ := ih (depth + 1) (by omega) (descend target rest)
            exact ⟨last, .follow hsize (by omega) hlink hrest⟩

/-- **The recursion ends.** -/
theorem resolves_resolvePath (path : Path) : ∃ last, Resolves symlinks path 0 (resolvePath symlinks path) last :=
  resolves_resolveFuel 41 0 rfl path

/-- **It has one result.** -/
theorem Resolves.unique {path result result' : Path} {depth last last' : ℕ}
    (h : Resolves symlinks path depth result last) (h' : Resolves symlinks path depth result' last') :
    result' = result ∧ last' = last := by
  induction h with
  | stop hstop =>
      cases h' with
      | stop => exact ⟨rfl, rfl⟩
      | follow hsize hdepth hlink _ =>
          obtain hstop | hstop | hstop := hstop
          · exact absurd hstop hsize
          · exact absurd hstop (by omega)
          · rw [hlink] at hstop
            cases hstop
  | follow hsize hdepth hlink _ ih =>
      cases h' with
      | stop hstop =>
          obtain hstop | hstop | hstop := hstop
          · exact absurd hstop hsize
          · exact absurd hstop (by omega)
          · rw [hlink] at hstop
            cases hstop
      | follow _ _ hlink' hrest =>
          rw [hlink] at hlink'
          obtain ⟨rfl, rfl⟩ := Prod.mk.inj (Option.some.inj hlink')
          exact ih hrest

/-- The result is the normalized path of the last call, which stopped there. -/
theorem Resolves.stopped {path result : Path} {depth last : ℕ} (h : Resolves symlinks path depth result last) :
    ∃ p, result = pathOf p ∧
      (symlinks.size = 0 ∨ 40 < last ∨ firstLink symlinks ((pathOf p).splitOn '/') = none) := by
  induction h with
  | @stop path depth hstop =>
      rw [normalizePath_eq] at hstop ⊢
      exact ⟨components path, rfl, hstop⟩
  | follow _ _ _ _ ih => exact ih

/-! ### Results without links -/

/-- Where the search finds nothing, no part of the path is a link that counts. -/
theorem target_of_firstLink {p q : List Component} (h : firstLink symlinks ((pathOf p).splitOn '/') = none)
    (hq : q ≠ []) (hfront : q <+: p) : target symlinks q = none := by
  have hp : p ≠ [] := by
    rintro rfl
    exact hq (List.prefix_nil.1 hfront)
  obtain ⟨k, hk⟩ : ∃ k, q.length = k + 1 := Nat.exists_eq_succ_of_ne_zero fun h => hq (List.length_eq_zero_iff.1 h)
  have htake : p.take (k + 1) = q := by
    rw [← hk]
    exact (List.prefix_iff_eq_take.1 hfront).symm
  have hle : k + 1 ≤ p.length := by
    rw [← hk]
    exact hfront.length_le
  rw [splitOn_pathOf hp, firstLink, List.findSome?_eq_none_iff] at h
  have hnone := h (k + 1) (List.mem_range.2 (by rw [List.length_cons, List.length_map]; omega))
  rw [join_take hp, htake] at hnone
  unfold target
  cases hget : symlinks.get? (pathOf q) with
  | none => rfl
  | some text =>
      rw [hget] at hnone
      dsimp only at hnone ⊢
      split_ifs at hnone ⊢ with htext
      rfl

/-- **A result that was not cut off is resolved**, and resolving it again changes nothing. -/
theorem Resolves.stable {path result : Path} {depth last : ℕ} (h : Resolves symlinks path depth result last)
    (hlast : last ≤ 40) :
    (∀ q, q ≠ [] → q <+: components result → target symlinks q = none) ∧
      resolvePath symlinks result = result := by
  obtain ⟨p, rfl, hstop⟩ := h.stopped
  have hfree : symlinks.size = 0 ∨ firstLink symlinks ((pathOf p).splitOn '/') = none := by
    obtain hsize | hdepth | hlink := hstop
    · exact .inl hsize
    · exact absurd hdepth (by omega)
    · exact .inr hlink
  constructor
  · intro q hq hfront
    rw [components_pathOf] at hfront
    obtain hsize | hlink := hfree
    · exact target_of_size_eq_zero hsize q
    · exact target_of_firstLink hlink hq hfront
  · rw [resolvePath, resolveFuel, normalizePath_pathOf]
    dsimp only
    obtain hsize | hlink := hfree
    · rw [if_pos hsize]
    · rw [hlink, ite_self]

/-- **Paths have a canonical form, and so have resolved ones.**  For every path and every map of links:
normalizing twice is normalizing once, and leaves nothing superfluous; the calls of `resolvePath` come to an
end, with one result, which is canonical; and if the last of them has a depth of at most 40, no part of the
result is a link that counts, and the result resolves to itself. -/
theorem canonical_resolution (symlinks : JsMap Path Path) (path : Path) :
    normalizePath (normalizePath path) = normalizePath path ∧ Canonical (normalizePath path) ∧
      ∃ last, Resolves symlinks path 0 (resolvePath symlinks path) last ∧
        (∀ result last', Resolves symlinks path 0 result last' → result = resolvePath symlinks path ∧ last' = last) ∧
        Canonical (resolvePath symlinks path) ∧
        (last ≤ 40 →
          (∀ q, q ≠ [] → q <+: components (resolvePath symlinks path) → target symlinks q = none) ∧
            resolvePath symlinks (resolvePath symlinks path) = resolvePath symlinks path) := by
  obtain ⟨last, hresolves⟩ := @resolves_resolvePath symlinks path
  have hcanonical : Canonical (resolvePath symlinks path) := by
    obtain ⟨p, hp, -⟩ := hresolves.stopped
    rw [hp]
    exact canonical_pathOf p
  exact ⟨normalizePath_normalizePath path, canonical_normalizePath path, last, hresolves,
    fun _ _ => hresolves.unique, hcanonical, hresolves.stable⟩

end Resolution
