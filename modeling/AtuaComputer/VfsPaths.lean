/-
**Paths as lists of components.**

`normalizePath` gives a slash and then components with slashes between them, none of them empty and none
made of one dot or two.  This module takes such a path for the list of its components, and says what the
functions on strings do to the list: the last slash splits off the last component, the directories above a
path are the initial parts of the list, and following a link puts other components before the rest.

Main definitions:

* `VirtualFs.Component`, `VirtualFs.pathOf` — components, and the path made of some;
* `VirtualFs.components` — the components of the normalized form of a path.

Main results:

* `VirtualFs.normalizePath_eq`, `VirtualFs.components_pathOf` — normalized paths and lists are the same;
* `VirtualFs.parents_pathOf`, `VirtualFs.parentOf_append`, `VirtualFs.addChild_append` — directories;
* `VirtualFs.resolveFuel_pathOf` — resolving a path is a walk along links.
-/

import AtuaComputer.NameTree
import AtuaComputer.VfsOperations

set_option relaxedAutoImplicit false
set_option autoImplicit false

namespace VirtualFs

/-! ### Components -/

/-- What stands between two slashes of a normalized path. -/
def IsComponent (n : Path) : Prop := n ≠ [] ∧ '/' ∉ n ∧ n ≠ ['.'] ∧ n ≠ ['.', '.']

instance (n : Path) : Decidable (IsComponent n) := by
  unfold IsComponent
  infer_instance

/-- A component of a normalized path. -/
@[ext] structure Component where
  val : Path
  ok : IsComponent val
deriving DecidableEq

theorem Component.ne_nil (n : Component) : n.val ≠ [] := n.ok.1

theorem Component.slash (n : Component) : '/' ∉ n.val := n.ok.2.1

/-- The normalized path with the given components. -/
def pathOf (p : List Component) : Path := '/' :: join (p.map Component.val)

/-- One part of a path is added to the components. -/
def addPart (result : List Component) (part : Path) : List Component :=
  if h : IsComponent part then result ++ [⟨part, h⟩]
  else if part = ['.', '.'] then result.dropLast
  else result

/-- The components of the normalized form of a path. -/
def components (path : Path) : List Component := (path.splitOn '/').foldl addPart []

/-! #### Splitting and joining -/

/-- There is no slash between two slashes. -/
theorem slash_splitOn {path part : Path} (h : part ∈ path.splitOn '/') : '/' ∉ part := by
  induction path generalizing part with
  | nil =>
      rw [List.splitOn_nil, List.mem_singleton] at h
      rw [h]
      exact List.not_mem_nil
  | cons c path ih =>
      rw [List.splitOn_cons_eq_if_modifyHead] at h
      split_ifs at h with hc
      · rcases List.mem_cons.1 h with rfl | h
        · exact List.not_mem_nil
        · exact ih h
      · obtain ⟨first, rest, hsplit⟩ := List.exists_cons_of_ne_nil (List.splitOn_ne_nil '/' path)
        rw [hsplit, List.modifyHead_cons] at h
        rw [beq_iff_eq] at hc
        rcases List.mem_cons.1 h with rfl | h
        · rw [List.mem_cons, not_or]
          exact ⟨fun e => hc e.symm, ih (hsplit ▸ List.mem_cons_self)⟩
        · exact ih (hsplit ▸ List.mem_cons_of_mem _ h)

theorem slash_join (first : Path) {parts : List Path} (h : parts ≠ []) :
    join (first :: parts) = first ++ '/' :: join parts := by
  rw [join, List.intercalate_cons_of_ne_nil h, List.append_assoc]
  rfl

theorem join_singleton (part : Path) : join [part] = part := List.intercalate_singleton

theorem splitOn_join {parts : List Path} (h : parts ≠ []) (hslash : ∀ part ∈ parts, '/' ∉ part) :
    (join parts).splitOn '/' = parts :=
  List.splitOn_intercalate '/' hslash h

theorem slash_vals (p : List Component) : ∀ part ∈ p.map Component.val, '/' ∉ part := by
  intro part hpart
  obtain ⟨n, -, rfl⟩ := List.mem_map.1 hpart
  exact n.slash

theorem splitOn_root : (pathOf []).splitOn '/' = [[], []] := rfl

theorem splitOn_pathOf {p : List Component} (h : p ≠ []) :
    (pathOf p).splitOn '/' = [] :: p.map Component.val := by
  have hjoin : pathOf p = [] ++ '/' :: join (p.map Component.val) := rfl
  rw [hjoin, List.splitOn_append_cons_self_of_not_mem List.not_mem_nil,
    splitOn_join (by simpa using h) (slash_vals p)]

/-- A join of components is empty only if there are none. -/
theorem join_eq_nil {p : List Component} : join (p.map Component.val) = [] ↔ p = [] := by
  constructor
  · intro h
    cases p with
    | nil => rfl
    | cons n p =>
        by_cases hp : p = []
        · subst hp
          rw [List.map_singleton, join_singleton] at h
          exact absurd h n.ne_nil
        · rw [List.map_cons, slash_join _ (by simpa using hp)] at h
          simp at h
  · rintro rfl
    rfl

/-! #### Normalized paths are lists of components -/

theorem foldl_normStep {parts : List Path} (h : ∀ part ∈ parts, '/' ∉ part) (result : List Component) :
    parts.foldl normStep (result.map Component.val) = (parts.foldl addPart result).map Component.val := by
  induction parts generalizing result with
  | nil => rfl
  | cons part parts ih =>
      have hslash := h part List.mem_cons_self
      have hstep : normStep (result.map Component.val) part = (addPart result part).map Component.val := by
        unfold normStep addPart IsComponent
        by_cases hnil : part = []
        · simp [hnil]
        · by_cases hdot : part = ['.']
          · simp [hdot]
          · by_cases hdots : part = ['.', '.']
            · simp [hdots]
            · simp [hnil, hdot, hdots, hslash]
      rw [List.foldl_cons, List.foldl_cons, hstep, ih fun q hq => h q (List.mem_cons_of_mem _ hq)]

/-- **The normalized form of a path is made of its components.** -/
theorem normalizePath_eq (path : Path) : normalizePath path = pathOf (components path) := by
  have hparts : ∀ part ∈ path.splitOn '/', '/' ∉ part := fun _ h => slash_splitOn h
  have hfold := foldl_normStep hparts []
  rw [normalizePath, pathOf, components, ← hfold]
  rfl

theorem foldl_addPart (p result : List Component) :
    (p.map Component.val).foldl addPart result = result ++ p := by
  induction p generalizing result with
  | nil => rw [List.append_nil]; rfl
  | cons n p ih =>
      rw [List.map_cons, List.foldl_cons, ih, addPart, dif_pos n.ok, List.append_assoc]
      rfl

/-- **A list of components is found again in its path.** -/
@[simp] theorem components_pathOf (p : List Component) : components (pathOf p) = p := by
  by_cases hp : p = []
  · subst hp
    rfl
  · have hempty : addPart [] [] = [] := rfl
    rw [components, splitOn_pathOf hp, List.foldl_cons, hempty, foldl_addPart, List.nil_append]

@[simp] theorem normalizePath_pathOf (p : List Component) : normalizePath (pathOf p) = pathOf p := by
  rw [normalizePath_eq, components_pathOf]

theorem pathOf_injective : Function.Injective pathOf :=
  Function.LeftInverse.injective components_pathOf

@[simp] theorem pathOf_inj {p q : List Component} : pathOf p = pathOf q ↔ p = q := pathOf_injective.eq_iff

theorem head?_pathOf (p : List Component) : (pathOf p).head? = some '/' := rfl

@[simp] theorem absolute_pathOf (p : List Component) : absolute (pathOf p) = pathOf p := by
  rw [absolute, if_pos (head?_pathOf p)]

/-- The parts after a slash are added to the components before it. -/
theorem components_append (a b : Path) :
    components (a ++ '/' :: b) = (b.splitOn '/').foldl addPart (components a) := by
  rw [components, List.splitOn_append_cons_self, List.foldl_append, components]

theorem head?_absolute (path : Path) : (absolute path).head? = some '/' := by
  unfold absolute
  split_ifs with h
  · exact h
  · rfl

theorem absolute_absolute (path : Path) : absolute (absolute path) = absolute path := if_pos (head?_absolute path)

theorem head?_normalizePath (path : Path) : (normalizePath path).head? = some '/' := rfl

theorem head?_resolvePath (symlinks : JsMap Path Path) (path : Path) :
    (resolvePath symlinks path).head? = some '/' := by
  have hfuel : ∀ fuel path, (resolveFuel symlinks fuel path).head? = some '/' := by
    intro fuel
    induction fuel with
    | zero => exact head?_normalizePath
    | succ fuel ih =>
      intro path
      rw [resolveFuel]
      dsimp only
      split_ifs
      · exact head?_normalizePath path
      · split
        · exact head?_normalizePath path
        · exact ih _
  exact hfuel 41 path

/-- Another slash in front is no other component. -/
theorem components_cons (path : Path) : components ('/' :: path) = components path := components_append [] path

@[simp] theorem components_absolute (path : Path) : components (absolute path) = components path := by
  unfold absolute
  split_ifs
  · rfl
  · exact components_cons path

theorem normalizePath_absolute (path : Path) : normalizePath (absolute path) = normalizePath path := by
  rw [normalizePath_eq, normalizePath_eq, components_absolute]

/-- The target of a link with the rest of the path after it. -/
theorem components_descend (target : Path) (rest : List Component) :
    components
      (if join (rest.map Component.val) = [] then target else target ++ '/' :: join (rest.map Component.val)) =
      components target ++ rest := by
  by_cases hrest : rest = []
  · rw [if_pos (join_eq_nil.2 hrest), hrest, List.append_nil]
  · rw [if_neg fun h => hrest (join_eq_nil.1 h), components_append,
      splitOn_join (by simpa using hrest) (slash_vals rest), foldl_addPart]

/-! ### The last component -/

theorem join_append {parts : List Path} (h : parts ≠ []) (last : Path) :
    join (parts ++ [last]) = join parts ++ '/' :: last := by
  induction parts with
  | nil => exact absurd rfl h
  | cons part parts ih =>
      by_cases hparts : parts = []
      · subst hparts
        rw [List.singleton_append, slash_join _ (by simp), join_singleton, join_singleton]
      · rw [List.cons_append, slash_join _ (by simp), slash_join _ hparts, ih hparts, List.append_assoc]
        rfl

/-- The last component and what is before its slash. -/
theorem pathOf_append (d : List Component) (n : Component) :
    pathOf (d ++ [n]) = (if d = [] then [] else pathOf d) ++ '/' :: n.val := by
  by_cases hd : d = []
  · subst hd
    rw [if_pos rfl, List.nil_append, pathOf, List.map_singleton, join_singleton]
    rfl
  · rw [if_neg hd, pathOf, List.map_append, List.map_singleton, join_append (by simpa using hd)]
    rfl

section LastSlash

variable {a n : Path}

theorem takeWhile_slash (hn : '/' ∉ n) : (a ++ '/' :: n).reverse.takeWhile (· ≠ '/') = n.reverse := by
  rw [List.reverse_append, List.reverse_cons, List.append_assoc, List.takeWhile_append_of_pos]
  · simp
  · intro c hc
    have hne : c ≠ '/' := by
      rintro rfl
      exact hn (List.mem_reverse.1 hc)
    simpa using hne

theorem baseName_slash (hn : '/' ∉ n) : baseName (a ++ '/' :: n) = n := by
  rw [baseName, takeWhile_slash hn, List.reverse_reverse]

theorem splitLast_slash (hn : '/' ∉ n) :
    splitLast (a ++ '/' :: n) = if a = [] then none else some (a, n) := by
  have htake : (a ++ '/' :: n).take ((a ++ '/' :: n).length - n.length - 1) = a := by
    have hlen : (a ++ '/' :: n).length - n.length - 1 = a.length := by
      rw [List.length_append, List.length_cons]
      omega
    rw [hlen, List.take_left]
  rw [splitLast, takeWhile_slash hn, List.reverse_reverse, htake]

end LastSlash

@[simp] theorem baseName_append (d : List Component) (n : Component) : baseName (pathOf (d ++ [n])) = n.val := by
  rw [pathOf_append, baseName_slash n.slash]

theorem pathOf_ne_nil (p : List Component) : pathOf p ≠ [] := List.cons_ne_nil _ _

theorem splitLast_append (d : List Component) (n : Component) :
    splitLast (pathOf (d ++ [n])) = if d = [] then none else some (pathOf d, n.val) := by
  rw [pathOf_append, splitLast_slash n.slash]
  by_cases hd : d = []
  · rw [if_pos hd, if_pos hd, if_pos rfl]
  · rw [if_neg hd, if_neg hd, if_neg (pathOf_ne_nil d)]

@[simp] theorem parentOf_append (d : List Component) (n : Component) : parentOf (pathOf (d ++ [n])) = pathOf d := by
  rw [parentOf, splitLast_append]
  by_cases hd : d = []
  · rw [if_pos hd, hd]
    rfl
  · rw [if_neg hd]

theorem childPath_pathOf (d : List Component) (n : Component) : childPath (pathOf d) n.val = pathOf (d ++ [n]) := by
  rw [childPath, pathOf_append]
  by_cases hd : d = []
  · subst hd
    rfl
  · have hne : pathOf d ≠ ['/'] := by
      intro h
      exact hd (pathOf_injective h)
    rw [if_neg hne, if_neg hd]

/-- Adding a component to the set of its directory. -/
theorem addChild_append (v : Vfs) (d : List Component) (n : Component) :
    addChild v (pathOf (d ++ [n])) = { v with children := addName v.children (pathOf d) (some n.val) } := by
  rw [addChild, splitLast_append]
  by_cases hd : d = []
  · subst hd
    have hne : pathOf [n] ≠ ['/'] := by
      intro h
      have hnil := @pathOf_injective [n] [] h
      cases hnil
    have hdrop : (pathOf [n]).drop 1 = n.val := by
      rw [pathOf, List.map_singleton, join_singleton]
      rfl
    rw [if_pos rfl, List.nil_append, if_neg hne, hdrop]
    rfl
  · rw [if_neg hd]

theorem addChild_root (v : Vfs) :
    addChild v (pathOf []) = { v with children := addName v.children (pathOf []) none } := rfl

/-- The first parts of a path, with a slash before each. -/
theorem join_take {p : List Component} (h : p ≠ []) (i : ℕ) :
    join (([] :: p.map Component.val).take (i + 1 + 1)) = pathOf (p.take (i + 1)) := by
  have hne : p.take (i + 1) ≠ [] := by
    rw [Ne, List.take_eq_nil_iff]
    rintro (h' | h')
    · omega
    · exact h h'
  rw [List.take_succ_cons, ← List.map_take, slash_join _ (by simpa using hne)]
  rfl

/-- The directories above a path are its initial parts. -/
theorem parents_pathOf {p : List Component} (h : p ≠ []) :
    parents (pathOf p) = (List.range p.length).map fun i => pathOf (p.take i) := by
  rw [parents, splitOn_pathOf h, List.length_cons, List.length_map, Nat.add_sub_cancel]
  refine List.map_congr_left fun i _ => ?_
  cases i with
  | zero => rfl
  | succ i => rw [join_take h, if_neg (pathOf_ne_nil _)]

/-! ### Links -/

/-- The components of the target of a link that counts. -/
def target (symlinks : JsMap Path Path) (p : List Component) : Option (List Component) :=
  match symlinks.get? (pathOf p) with
  | none => none
  | some text => if text = [] then none else some (components text)

section Links

variable {symlinks : JsMap Path Path}

/-- The search of `firstLink`, from a directory on. -/
def search (symlinks : JsMap Path Path) (before p : List Component) : Option (Path × List Path) :=
  (List.range p.length).findSome? fun i =>
    match symlinks.get? (pathOf (before ++ p.take (i + 1))) with
    | none => none
    | some text => if text = [] then none else some (text, (p.drop (i + 1)).map Component.val)

theorem search_cons (before : List Component) (n : Component) (p : List Component) :
    search symlinks before (n :: p) =
      match symlinks.get? (pathOf (before ++ [n])) with
      | none => search symlinks (before ++ [n]) p
      | some text =>
        if text = [] then search symlinks (before ++ [n]) p else some (text, p.map Component.val) := by
  have hrest : ((List.range p.length).map Nat.succ).findSome? (fun i =>
      match symlinks.get? (pathOf (before ++ (n :: p).take (i + 1))) with
      | none => none
      | some text => if text = [] then none else some (text, ((n :: p).drop (i + 1)).map Component.val)) =
        search symlinks (before ++ [n]) p := by
    rw [List.findSome?_map, search]
    congr 1
    funext i
    simp
  rw [search, List.length_cons, List.range_succ_eq_map, List.findSome?_cons, hrest]
  have htake : (n :: p).take (0 + 1) = [n] := by simp
  have hdrop : (n :: p).drop (0 + 1) = p := by simp
  rw [htake, hdrop]
  cases symlinks.get? (pathOf (before ++ [n])) with
  | none => rfl
  | some text =>
      dsimp only
      split_ifs <;> rfl

/-- The search finds the first link of the walk. -/
theorem search_cut (before p : List Component) :
    match NameTree.cut (target symlinks) before p with
    | none => search symlinks before p = none
    | some (goal, rest) =>
      ∃ text, search symlinks before p = some (text, rest.map Component.val) ∧ components text = goal := by
  induction p generalizing before with
  | nil => rfl
  | cons n p ih =>
      rw [NameTree.cut, search_cons, target]
      cases symlinks.get? (pathOf (before ++ [n])) with
      | none => exact ih _
      | some text =>
          dsimp only
          by_cases htext : text = []
          · rw [if_pos htext, if_pos htext]
            exact ih _
          · rw [if_neg htext, if_neg htext]
            exact ⟨text, rfl, rfl⟩

/-- There is no target under a name. -/
def Untold (symlinks : JsMap Path Path) (path : Path) : Prop := ∀ text, symlinks.get? path = some text → text = []

/-- Neither the empty path nor the root is a link. -/
def NoRootLink (symlinks : JsMap Path Path) : Prop :=
  symlinks.get? [] = none ∧ symlinks.get? (pathOf []) = none

theorem untold_of_none {path : Path} (h : symlinks.get? path = none) : Untold symlinks path := by
  intro text htext
  rw [h] at htext
  cases htext

/-- What `firstLink` finds at one place. -/
def prefixLink (symlinks : JsMap Path Path) (parts : List Path) (i : ℕ) : Option (Path × List Path) :=
  match symlinks.get? (join (parts.take (i + 1))) with
  | none => none
  | some text => if text = [] then none else some (text, parts.drop (i + 1))

theorem firstLink_eq (parts : List Path) :
    firstLink symlinks parts = (List.range parts.length).findSome? (prefixLink symlinks parts) := rfl

theorem prefixLink_eq_none {parts : List Path} {i : ℕ} (h : Untold symlinks (join (parts.take (i + 1)))) :
    prefixLink symlinks parts i = none := by
  unfold prefixLink
  cases hget : symlinks.get? (join (parts.take (i + 1))) with
  | none => rfl
  | some text => exact if_pos (h text hget)

theorem firstLink_root (hempty : Untold symlinks []) (hroot : Untold symlinks (pathOf [])) :
    firstLink symlinks ((pathOf []).splitOn '/') = none := by
  have hjoin : join [[], []] = pathOf [] := by rw [slash_join [] (by simp), join_singleton]; rfl
  rw [splitOn_root, firstLink_eq, List.findSome?_eq_none_iff]
  intro i hi
  refine prefixLink_eq_none ?_
  cases i with
  | zero => exact hempty
  | succ i =>
      rw [List.take_of_length_le (by simp), hjoin]
      exact hroot

theorem firstLink_pathOf (hempty : Untold symlinks []) {p : List Component} (hp : p ≠ []) :
    firstLink symlinks ((pathOf p).splitOn '/') = search symlinks [] p := by
  have hrest : prefixLink symlinks ([] :: p.map Component.val) ∘ Nat.succ = fun i =>
      match symlinks.get? (pathOf ([] ++ p.take (i + 1))) with
      | none => none
      | some text => if text = [] then none else some (text, (p.drop (i + 1)).map Component.val) := by
    funext i
    rw [Function.comp_apply, Nat.succ_eq_add_one, prefixLink, join_take hp, List.nil_append, List.drop_succ_cons,
      List.map_drop]
  have hfirst : prefixLink symlinks ([] :: p.map Component.val) 0 = none := prefixLink_eq_none hempty
  rw [splitOn_pathOf hp, firstLink_eq, List.length_cons, List.length_map, List.range_succ_eq_map,
    List.findSome?_cons, hfirst, List.findSome?_map, hrest, search]

theorem target_of_size_eq_zero (h : symlinks.size = 0) (q : List Component) : target symlinks q = none := by
  have hentries : symlinks.entries = [] := List.eq_nil_of_length_eq_zero h
  have hget : symlinks.get? (pathOf q) = none := by
    rw [JsMap.get?, hentries]
    rfl
  rw [target, hget]

/-- **Resolving a path is a walk along links,** if it does not end at a root that is a link. -/
theorem resolveFuel_eq (hempty : Untold symlinks []) {fuel : ℕ} {p : List Component}
    (hroot : NameTree.resolve (target symlinks) fuel p = [] → Untold symlinks (pathOf [])) :
    resolveFuel symlinks fuel (pathOf p) = pathOf (NameTree.resolve (target symlinks) fuel p) := by
  induction fuel generalizing p with
  | zero => exact normalizePath_pathOf p
  | succ fuel ih =>
      rw [NameTree.resolve] at hroot ⊢
      rw [resolveFuel, normalizePath_pathOf]
      dsimp only
      by_cases hsize : symlinks.size = 0
      · -- without links nothing is looked up
        rw [if_pos hsize, NameTree.cut_eq_none fun a _ _ => target_of_size_eq_zero hsize _]
      · rw [if_neg hsize]
        by_cases hp : p = []
        · subst hp
          rw [firstLink_root hempty (hroot rfl)]
          rfl
        · have hcut := @search_cut symlinks [] p
          rw [firstLink_pathOf hempty hp]
          cases hwalk : NameTree.cut (target symlinks) [] p with
          | none =>
              rw [hwalk] at hcut
              rw [hcut]
          | some r =>
              obtain ⟨goal, rest⟩ := r
              rw [hwalk] at hcut hroot
              obtain ⟨text, hsearch, rfl⟩ := hcut
              rw [hsearch]
              dsimp only
              rw [normalizePath_eq, components_descend, ih hroot]

theorem resolveFuel_pathOf (hroot : NoRootLink symlinks) (fuel : ℕ) (p : List Component) :
    resolveFuel symlinks fuel (pathOf p) = pathOf (NameTree.resolve (target symlinks) fuel p) :=
  resolveFuel_eq (untold_of_none hroot.1) fun _ => untold_of_none hroot.2

theorem resolveFuel_normalizePath (fuel : ℕ) (path : Path) :
    resolveFuel symlinks fuel (normalizePath path) = resolveFuel symlinks fuel path := by
  have hidem : normalizePath (normalizePath path) = normalizePath path := by
    rw [normalizePath_eq path, normalizePath_pathOf]
  cases fuel with
  | zero => exact hidem
  | succ fuel => rw [resolveFuel, resolveFuel, hidem]

/-- Where a path leads. -/
def leads (symlinks : JsMap Path Path) (p : List Component) : List Component :=
  NameTree.resolve (target symlinks) 41 p

/-- **The resolved form of a path.** -/
theorem resolvePath_eq (hroot : NoRootLink symlinks) (path : Path) :
    resolvePath symlinks path = pathOf (leads symlinks (components path)) := by
  rw [resolvePath, ← resolveFuel_normalizePath, normalizePath_eq, resolveFuel_pathOf hroot, leads]

end Links

end VirtualFs
