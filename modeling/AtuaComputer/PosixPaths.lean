/-
**`resolvePath` against the walk of POSIX.**

POSIX takes a path component by component: a link is followed where it stands, a relative target is counted
from the directory of the link, and a step up leaves what has been reached.  `resolvePath` puts the path in
normal form first, so that a step up takes away the name before it, link or not; and it counts every target
from the root, as `loadTar` stores them, while `createSymlink` stores the text it is given.

Main definitions:

* `PosixPaths.partsOf`, `PosixPaths.link` — the parts of a path, and the links as the walk sees them;
* `PosixPaths.Agrees` — the walk ends, and after up to 40 links where `resolvePath` says;
* `PosixPaths.SameRoute` — the condition.

Main results:

* `PosixPaths.components_eq`, `PosixPaths.target_eq` — the code's normal forms are those of `PathWalk`;
* `PosixPaths.components_tarTarget` — a link out of an archive has one meaning for both;
* `PosixPaths.agrees_of_sameRoute` — **under the condition they agree**.
-/

import AtuaComputer.PathWalk
import AtuaComputer.VfsPaths

set_option relaxedAutoImplicit false
set_option autoImplicit false

namespace PosixPaths

open VirtualFs PathWalk

/-! ### Parts and links -/

/-- What stands between two slashes, if it counts. -/
def toPart (part : Path) : Option (PathWalk.Part Component) :=
  if h : IsComponent part then some (.name ⟨part, h⟩)
  else if part = ['.', '.'] then some .up
  else none

/-- The parts of a path. -/
def partsOf (path : Path) : List (PathWalk.Part Component) := (path.splitOn '/').filterMap toPart

/-- The link at a path, if its target counts. -/
def link (symlinks : JsMap Path Path) (p : List Component) : Option (Link Component) :=
  match symlinks.get? (pathOf p) with
  | none => none
  | some text => if text = [] then none else some ⟨text.head? = some '/', partsOf text⟩

theorem addPart_eq (d : List Component) (part : Path) :
    addPart d part = ((toPart part).map (go d)).getD d := by
  unfold addPart toPart
  split_ifs <;> rfl

/-- **The components of a path are the normal form of its parts.** -/
theorem components_eq (path : Path) : components path = lexical [] (partsOf path) := by
  have hfold (parts : List Path) (d : List Component) :
      parts.foldl addPart d = lexical d (parts.filterMap toPart) := by
    induction parts generalizing d with
    | nil => rfl
    | cons part parts ih =>
        rw [List.foldl_cons, ih, addPart_eq]
        cases hpart : toPart part with
        | none => rw [List.filterMap_cons_none hpart, Option.map_none, Option.getD_none]
        | some p => rw [List.filterMap_cons_some hpart, Option.map_some, Option.getD_some]; rfl
  exact hfold _ []

/-- **Where the code goes on from a link is the normal form of its target.** -/
theorem target_eq (symlinks : JsMap Path Path) : target symlinks = fun q => (link symlinks q).map Link.goal := by
  funext q
  unfold target link
  cases symlinks.get? (pathOf q) with
  | none => rfl
  | some text =>
      dsimp only
      split_ifs
      · rfl
      · rw [Option.map_some, components_eq, Link.goal]

/-! ### Links out of an archive -/

theorem partsOf_append (a b : Path) : partsOf (a ++ '/' :: b) = partsOf a ++ partsOf b := by
  rw [partsOf, List.splitOn_append_cons_self, List.filterMap_append]
  rfl

theorem partsOf_nil : partsOf [] = [] := rfl

/-- Slashes more or less make no other path: the first part stays, and no other part is lost that counts. -/
theorem splitOn_collapseSlashes (path : Path) : ∃ first rest rest',
    (collapseSlashes path).splitOn '/' = first :: rest ∧ path.splitOn '/' = first :: rest' ∧
      rest.filterMap toPart = rest'.filterMap toPart := by
  have hslash (path : Path) : ('/' :: path).splitOn '/' = [] :: path.splitOn '/' :=
    List.splitOn_append_cons_self [] path
  fun_induction collapseSlashes path with
  | case1 path ih =>
      obtain ⟨first, rest, rest', hleft, hright, hrest⟩ := ih
      rw [hslash] at hright ⊢
      obtain ⟨rfl, rfl⟩ := List.cons.inj hright
      refine ⟨[], rest, _, hleft, rfl, ?_⟩
      rw [hslash, List.filterMap_cons_none rfl]
      exact hrest
  | case2 c path _ ih =>
      obtain ⟨first, rest, rest', hleft, hright, hrest⟩ := ih
      rw [List.splitOn_cons_eq_if_modifyHead, List.splitOn_cons_eq_if_modifyHead, hleft, hright]
      split_ifs
      · refine ⟨[], _, _, rfl, rfl, ?_⟩
        rw [List.filterMap_cons, List.filterMap_cons, hrest]
      · exact ⟨c :: first, rest, rest', rfl, rfl, hrest⟩
  | case3 => exact ⟨[], [], [], rfl, rfl, rfl⟩

theorem partsOf_collapseSlashes (path : Path) : partsOf (collapseSlashes path) = partsOf path := by
  obtain ⟨first, rest, rest', hleft, hright, hrest⟩ := splitOn_collapseSlashes path
  rw [partsOf, partsOf, hleft, hright, List.filterMap_cons, List.filterMap_cons, hrest]

theorem partsOf_absolute (path : Path) : partsOf (absolute path) = partsOf path := by
  unfold absolute
  split_ifs
  · rfl
  · exact partsOf_append [] path

/-- **The target of a link in an archive** is counted from where the walk counts it. -/
theorem components_tarTarget (d : List Component) (n : Component) (linkname : Path) :
    components (tarTarget (pathOf (d ++ [n])) linkname) =
      lexical (if linkname.head? = some '/' then [] else d) (partsOf linkname) := by
  have hlast (path : Path) :
      partsOf (if path.getLast? = some '/' then path.dropLast else path) = partsOf path := by
    split_ifs with h
    · obtain ⟨path, rfl⟩ := List.getLast?_eq_some_iff.1 h
      rw [List.dropLast_concat, partsOf_append, partsOf_nil, List.append_nil]
    · rfl
  have hdir : (pathOf (d ++ [n])).take ((pathOf (d ++ [n])).length - (baseName (pathOf (d ++ [n]))).length) =
      (if d = [] then [] else pathOf d) ++ ['/'] := by
    have hsplit : pathOf (d ++ [n]) = ((if d = [] then [] else pathOf d) ++ ['/']) ++ n.val := by
      rw [pathOf_append, List.append_assoc, List.singleton_append]
    rw [baseName_append, hsplit, List.length_append, Nat.add_sub_cancel, List.take_left]
  unfold tarTarget
  dsimp only
  rw [components_eq, hlast, partsOf_collapseSlashes, partsOf_absolute]
  split_ifs with habs
  · rfl
  · rw [hdir, List.append_assoc, List.singleton_append, partsOf_append, lexical_append]
    congr 1
    split_ifs with hd
    · rw [hd]
      rfl
    · rw [← components_eq, components_pathOf]

/-! ### The agreement -/

/-- The walk ends, and if it follows up to 40 links, where `resolvePath` says. -/
structure Agrees (symlinks : JsMap Path Path) (path : Path) : Prop where
  ends : ∃ k e, Walks (link symlinks) [] (partsOf path) k e
  same : ∀ k e, Walks (link symlinks) [] (partsOf path) k e → k ≤ 40 → resolvePath symlinks path = pathOf e

instance (symlinks : JsMap Path Path) (path : Path) : Decidable (Untold symlinks path) :=
  decidable_of_iff (symlinks.get? path = none ∨ symlinks.get? path = some []) <| by
    unfold Untold
    cases symlinks.get? path with
    | none => simp
    | some text => simp

/-- The condition.  The walk ends; and if it follows up to 40 links, normal forms say the same at each, the
empty name is no link, and the root is none if the walk ends there. -/
def SameRoute (symlinks : JsMap Path Path) (path : Path) : Prop :=
  ∃ k e, Walks (link symlinks) [] (partsOf path) k e ∧
    (k ≤ 40 → InStep (link symlinks) [] (partsOf path) k e ∧ Untold symlinks [] ∧
      (e = [] → Untold symlinks (pathOf [])))

/-- **Where the two ways say the same.**  For every map of links and every path: if the walk ends, and follows
up to 40 links only where normal forms say the same, `resolvePath` gives its end. -/
theorem agrees_of_sameRoute {symlinks : JsMap Path Path} {path : Path} (h : SameRoute symlinks path) :
    Agrees symlinks path := by
  obtain ⟨k, e, hwalk, hroute⟩ := h
  refine ⟨⟨k, e, hwalk⟩, fun k' e' hwalk' hk => ?_⟩
  obtain ⟨rfl, rfl⟩ := hwalk.unique hwalk'
  obtain ⟨hstep, hempty, hroot⟩ := hroute hk
  have hend : NameTree.resolve (target symlinks) 41 (components path) = e' := by
    rw [target_eq, components_eq]
    exact hstep.resolve_eq plain_nil (by omega)
  have hroot' : NameTree.resolve (target symlinks) 41 (components path) = [] → Untold symlinks (pathOf []) := by
    rw [hend]
    exact hroot
  rw [resolvePath, ← resolveFuel_normalizePath, normalizePath_eq, resolveFuel_eq hempty hroot', hend]

/-- A link from the root that leads on to another in a directory. -/
def linkedTwice : JsMap Path Path :=
  (createSymlink (createSymlink newVfs "d/m".toList "/l".toList) "/e".toList "/d/m".toList).symlinks

theorem agrees_of_sameRoute_linkedTwice :
    SameRoute linkedTwice "/l/x".toList ∧ Agrees linkedTwice "/l/x".toList := by
  have hparts : partsOf "/l/x".toList =
      [.name ⟨"l".toList, by decide⟩, .name ⟨"x".toList, by decide⟩] := by decide +kernel
  have hsame : SameRoute linkedTwice "/l/x".toList := by
    have hstep : InStep (link linkedTwice) [] (partsOf "/l/x".toList) 2
        [⟨"e".toList, by decide⟩, ⟨"x".toList, by decide⟩] := by
      rw [hparts]
      refine .follow
        (l := ⟨false, [.name ⟨"d".toList, by decide⟩, .name ⟨"m".toList, by decide⟩]⟩) ?_ ?_ ?_ ?_
      · decide +kernel
      · trivial
      · rfl
      · refine .name (by decide +kernel) (.follow (l := ⟨true, [.name ⟨"e".toList, by decide⟩]⟩) ?_ ?_ ?_ ?_)
        · decide +kernel
        · trivial
        · rfl
        · exact .name (by decide +kernel) (.name (by decide +kernel) (.done _))
    exact ⟨2, _, hstep.walks, fun _ => ⟨hstep, by decide +kernel, nofun⟩⟩
  exact ⟨hsame, agrees_of_sameRoute hsame⟩

/-- A link to its neighbour. -/
def toNeighbour : JsMap Path Path := (createSymlink newVfs "x".toList "/d/l".toList).symlinks

/-- **A relative target is counted from the root.** -/
theorem not_agrees_toNeighbour : ¬ ∀ (symlinks : JsMap Path Path) (path : Path), Agrees symlinks path := by
  intro h
  have hparts : partsOf "/d/l".toList =
      [.name ⟨"d".toList, by decide⟩, .name ⟨"l".toList, by decide⟩] := by decide +kernel
  have hwalk : Walks (link toNeighbour) [] (partsOf "/d/l".toList) 1
      [⟨"d".toList, by decide⟩, ⟨"x".toList, by decide⟩] := by
    rw [hparts]
    refine .name (by decide +kernel) (.follow (l := ⟨false, [.name ⟨"x".toList, by decide⟩]⟩) ?_ ?_)
    · decide +kernel
    · exact .name (by decide +kernel) (.done _)
  have hsame := (h toNeighbour "/d/l".toList).same _ _ hwalk (by omega)
  revert hsame
  decide +kernel

end PosixPaths
