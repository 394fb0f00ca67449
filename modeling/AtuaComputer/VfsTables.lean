/-
**The maps of the virtual filesystem as tables.**

The filesystem keeps its tree in maps: the files, the directories and the links by their paths, the paths
that are hidden, and for each directory the set of the names in it.  These are the tables of `NameTree`, as
far as normalized paths go, and the operations of the filesystem are the operations there.

Main definitions:

* `VfsTables.tables` — the maps as tables;
* `VfsTables.Keys` — the maps that are read with other paths have only normalized ones.

Main results:

* `VfsTables.tables_addFile`, `VfsTables.tables_createFile`, `VfsTables.tables_mkdir`,
  `VfsTables.tables_createSymlink`, `VfsTables.tables_unlink`, `VfsTables.tables_rmdir`,
  `VfsTables.tables_rename_move` — what the operations do to the tables;
* `VfsTables.Keys.addFile` and its like — the keys stay normalized.
-/

import AtuaComputer.NameTree
import AtuaComputer.VfsPaths

set_option relaxedAutoImplicit false
set_option autoImplicit false

namespace VfsTables

open VirtualFs NameTree

/-! ### The maps as tables -/

/-- The names that have been entered for a directory. -/
def namesIn (children : JsMap Path (JsMap Path Unit)) (dir : Path) : JsMap Path Unit :=
  (children.get? dir).getD JsMap.empty

/-- What the maps say of normalized paths. -/
def tables (v : Vfs) : Tables Component where
  file := fun p => v.files.has (pathOf p) = true
  dir := fun p => v.dirs.has (pathOf p) = true
  link := fun p => v.symlinks.has (pathOf p) = true
  hidden := fun p => v.whiteouts.has (pathOf p) = true
  entered := fun d n => (namesIn v.children (pathOf d)).has n.val = true

/-- The keys are normalized, and names are components.  Keys of the other maps do not matter. -/
structure Keys (v : Vfs) : Prop where
  dirs : ∀ path, v.dirs.has path = true → ∃ p, path = pathOf p
  symlinks : ∀ path, v.symlinks.has path = true → ∃ p, path = pathOf p
  names : ∀ d name, (namesIn v.children (pathOf d)).has name = true → IsComponent name

/-! #### Primitives -/

theorem namesIn_set (children : JsMap Path (JsMap Path Unit)) (dir q : Path) (names : JsMap Path Unit) :
    namesIn (children.set dir names) q = if q = dir then names else namesIn children q := by
  rw [namesIn, JsMap.get?_set]
  split_ifs <;> rfl

theorem has_namesIn_addName (children : JsMap Path (JsMap Path Unit)) (dir q n name : Path) :
    (namesIn (addName children dir (some n)) q).has name = true ↔
      (namesIn children q).has name = true ∨ q = dir ∧ name = n := by
  rw [addName, namesIn_set]
  split_ifs with hq
  · rw [JsMap.has_set, ← hq]
    simp only [namesIn, hq, true_and, or_comm]
  · simp only [hq, false_and, or_false]

theorem namesIn_addNone (children : JsMap Path (JsMap Path Unit)) (dir q : Path) :
    namesIn (addName children dir none) q = namesIn children q := by
  rw [addName, namesIn_set]
  split_ifs with hq
  · rw [hq]
    rfl
  · rfl

variable {v : Vfs}

theorem append_inj_iff {d e : List Component} {n m : Component} : d ++ [n] = e ++ [m] ↔ d = e ∧ n = m := by
  constructor
  · intro h
    obtain ⟨hd, hn⟩ := List.append_inj' h rfl
    exact ⟨hd, List.singleton_inj.1 hn⟩
  · rintro ⟨rfl, rfl⟩
    rfl

/-- A name is entered. -/
theorem tables_addChild (v : Vfs) (p : List Component) :
    tables (addChild v (pathOf p)) =
      { tables v with entered := fun e m => (tables v).entered e m ∨ e ++ [m] = p } := by
  rcases List.eq_nil_or_concat p with rfl | ⟨d, n, rfl⟩
  · -- the root has no name
    rw [addChild_root]
    ext e m
    · rfl
    · rfl
    · rfl
    · rfl
    · simp only [tables, namesIn_addNone, append_ne_nil, or_false]
  · rw [List.concat_eq_append, addChild_append]
    ext e m
    · rfl
    · rfl
    · rfl
    · rfl
    · simp only [tables, has_namesIn_addName, append_inj_iff, pathOf_inj, Component.ext_iff]

theorem has_namesIn_removeChild (v : Vfs) (path q name : Path) :
    (namesIn (removeChild v path).children q).has name = true ↔
      (namesIn v.children q).has name = true ∧ ¬ (q = parentOf path ∧ name = baseName path) := by
  unfold removeChild
  cases hget : v.children.get? (parentOf path) with
  | none =>
      dsimp only
      refine ⟨fun h => ⟨h, ?_⟩, fun h => h.1⟩
      rintro ⟨rfl, -⟩
      rw [namesIn, hget] at h
      cases h
  | some names =>
      dsimp only
      rw [namesIn_set]
      split_ifs with hq
      · subst hq
        rw [JsMap.has_delete, namesIn, hget, Option.getD_some]
        grind
      · tauto

/-- A name is taken away. -/
theorem tables_removeChild (v : Vfs) (p : List Component) :
    tables (removeChild v (pathOf p)) =
      { tables v with entered := fun e m => (tables v).entered e m ∧ e ++ [m] ≠ p } := by
  have hentered : ∀ (e : List Component) (m : Component),
      (pathOf e = parentOf (pathOf p) ∧ m.val = baseName (pathOf p)) ↔ e ++ [m] = p := by
    intro e m
    rcases List.eq_nil_or_concat p with rfl | ⟨d, n, rfl⟩
    · refine iff_of_false ?_ (append_ne_nil e m)
      rintro ⟨-, hm⟩
      exact m.ne_nil hm
    · rw [List.concat_eq_append, parentOf_append, baseName_append, append_inj_iff, pathOf_inj, Component.ext_iff]
  obtain ⟨children, hframe⟩ := removeChild_frame v (pathOf p)
  have hnames := fun (e : List Component) (m : Component) =>
    has_namesIn_removeChild v (pathOf p) (pathOf e) m.val
  rw [hframe] at hnames ⊢
  ext e m
  · rfl
  · rfl
  · rfl
  · rfl
  · exact (hnames e m).trans (and_congr_right fun _ => not_congr (hentered e m))

/-- A set that is made for a directory is empty. -/
theorem namesIn_fresh {children : JsMap Path (JsMap Path Unit)} {dir : Path} (h : children.has dir = false)
    (q : Path) : namesIn (children.set dir JsMap.empty) q = namesIn children q := by
  rw [namesIn_set]
  split_ifs with hq
  · rw [hq, namesIn, JsMap.has_eq_false_iff.1 h]
    rfl
  · rfl

/-- A directory goes into the table, and gets a set. -/
theorem tables_addDir {v v' : Vfs} {p : List Component} (hd : v'.dirs = v.dirs.set (pathOf p) ())
    (hf : v'.files = v.files) (hs : v'.symlinks = v.symlinks) (hw : v'.whiteouts = v.whiteouts)
    (hc : ∀ q, namesIn v'.children q = namesIn v.children q) :
    tables v' = { tables v with dir := fun q => q = p ∨ (tables v).dir q } := by
  ext q m
  · simp only [tables, hf]
  · simp only [tables, hd, JsMap.has_set, pathOf_inj]
  · simp only [tables, hs]
  · simp only [tables, hw]
  · simp only [tables, hc]

/-- A directory is entered. -/
theorem tables_registerDir (v : Vfs) (p : List Component) :
    tables (registerDir v (pathOf p)) = enterDir (tables v) p := by
  unfold registerDir
  split_ifs with hdir
  · have hp : (tables v).dir p := hdir
    ext q m
    · rfl
    · exact ⟨Or.inr, fun h => h.elim (fun hq => hq ▸ hp) id⟩
    · rfl
    · rfl
    · exact ⟨Or.inl, fun h => h.resolve_right fun h' => h'.2 hp⟩
  · have hp : ¬ (tables v).dir p := hdir
    have hadd : ∀ v' : Vfs, tables v' = { tables v with dir := fun q => q = p ∨ (tables v).dir q } →
        tables (addChild v' (pathOf p)) = enterDir (tables v) p := by
      intro v' hv'
      rw [tables_addChild, hv']
      ext q m
      · rfl
      · rfl
      · rfl
      · rfl
      · exact or_congr_right (and_iff_left hp).symm
    refine hadd _ ?_
    split_ifs with hchildren
    · exact tables_addDir rfl rfl rfl rfl fun _ => rfl
    · exact tables_addDir rfl rfl rfl rfl (namesIn_fresh (Bool.eq_false_iff.2 hchildren))

/-- The directories above a path are entered. -/
def enterAbove (t : Tables Component) (p : List Component) : Tables Component :=
  { t with
    dir := fun q => Above q p ∨ t.dir q
    entered := fun d n => t.entered d n ∨ (Above (d ++ [n]) p ∧ ¬ t.dir (d ++ [n])) }

theorem tables_foldl_registerDir (v : Vfs) (p : List Component) :
    tables (((List.range p.length).map fun i => pathOf (p.take i)).foldl registerDir v) =
      enterAbove (tables v) p := by
  induction p using List.reverseRecOn with
  | nil =>
      ext q m
      · rfl
      · exact ⟨Or.inr, fun h => h.resolve_left (not_above_nil q)⟩
      · rfl
      · rfl
      · exact ⟨Or.inl, fun h => h.resolve_right fun h' => not_above_nil _ h'.1⟩
  | append_singleton d n ih =>
      have hparents : ((List.range (d ++ [n]).length).map fun i => pathOf ((d ++ [n]).take i)) =
          ((List.range d.length).map fun i => pathOf (d.take i)) ++ [pathOf d] := by
        rw [List.length_append, List.length_singleton, List.range_succ, List.map_append, List.map_singleton,
          List.take_left]
        congr 1
        refine List.map_congr_left fun i hi => ?_
        rw [List.take_append_of_le_length (Nat.le_of_lt (List.mem_range.1 hi))]
      rw [hparents, List.foldl_append, List.foldl_cons, List.foldl_nil, tables_registerDir, ih]
      have habove := fun q => @above_append_iff _ q d n
      have hself := not_above_self d
      ext q m
      · rfl
      · simp only [enterDir, enterAbove, habove]
        grind
      · rfl
      · rfl
      · simp only [enterDir, enterAbove, habove]
        grind

/-- The directories above a path, where the root is one already if the path is the root. -/
theorem tables_registerParents {p : List Component} (h : p = [] → (tables v).dir []) :
    tables (registerParents v (pathOf p)) = enterAbove (tables v) p := by
  by_cases hp : p = []
  · subst hp
    have hroot : registerParents v (pathOf []) = v := by
      have hdir : v.dirs.has (pathOf []) = true := h rfl
      have hparents : parents (pathOf []) = [pathOf []] := by
        rw [parents, splitOn_root]
        rfl
      rw [registerParents, hparents, List.foldl_cons, List.foldl_nil, registerDir, if_pos hdir]
    rw [hroot, ← tables_foldl_registerDir]
    rfl
  · rw [registerParents, parents_pathOf hp, tables_foldl_registerDir]

/-! #### Operations -/

/-- A path goes into the tables, with the directories above it. -/
theorem tables_enterPath (v : Vfs) {p : List Component} (hp : p ≠ []) :
    tables (addChild (registerParents v (pathOf p)) (pathOf p)) =
      { enterAbove (tables v) p with
        entered := fun e m => (enterAbove (tables v) p).entered e m ∨ e ++ [m] = p } := by
  rw [tables_addChild, tables_registerParents fun h => absurd h hp]

theorem tables_addKey (v : Vfs) (buffers : List (List UInt8)) (p : List Component) (content : Buf) :
    tables
        { v with
          buffers
          files := v.files.set (pathOf p) content
          whiteouts := v.whiteouts.delete (pathOf p) } =
      { tables v with
        file := fun q => q = p ∨ (tables v).file q
        hidden := fun q => q ≠ p ∧ (tables v).hidden q } := by
  ext q m
  · simp only [tables, JsMap.has_set, pathOf_inj]
  · rfl
  · rfl
  · simp only [tables, JsMap.has_delete, ne_eq, pathOf_inj]
  · rfl

/-- What the tables say after a file was put at a path. -/
theorem putFile_eq (t : Tables Component) (p : List Component) :
    { enterAbove
        { t with
          file := fun q => q = p ∨ t.file q
          hidden := fun q => q ≠ p ∧ t.hidden q } p with
      entered := fun e m =>
        (enterAbove
          { t with
            file := fun q => q = p ∨ t.file q
            hidden := fun q => q ≠ p ∧ t.hidden q } p).entered e m ∨ e ++ [m] = p } = putFile t p := by
  ext q m
  · rfl
  · rfl
  · rfl
  · rfl
  · simp only [enterAbove, putFile]
    grind

theorem tables_addFile (v : Vfs) {p : List Component} (hp : p ≠ []) (bytes : List UInt8) :
    tables (addFile v (pathOf p) bytes) = putFile (tables v) p := by
  rw [addFile, absolute_pathOf]
  dsimp only [newBuffer]
  rw [tables_enterPath _ hp, tables_addKey, putFile_eq]

theorem tables_createFile (v : Vfs) {p : List Component} (hp : p ≠ []) (mode : Int32) :
    tables (createFile v (pathOf p) mode).1 = putFile (tables v) p := by
  have hmeta : ∀ (w : Vfs) metadata, tables { w with metadata := metadata } = tables w := fun _ _ => rfl
  rw [← putFile_eq, createFile]
  dsimp only [newBuffer]
  split_ifs
  · rw [tables_enterPath _ hp, tables_addKey]
  · rw [hmeta, tables_enterPath _ hp, tables_addKey]

theorem tables_mkdir (v : Vfs) (path : Path) : tables (mkdir v path) = makeDir (tables v) (components path) := by
  rw [mkdir, normalizePath_eq]
  generalize components path = p
  have hparents : tables (registerParents (registerDir v (pathOf p)) (pathOf p)) =
      enterAbove (enterDir (tables v) p) p := by
    rw [tables_registerParents, tables_registerDir]
    rintro rfl
    rw [tables_registerDir]
    exact Or.inl rfl
  have hshow : ∀ w : Vfs, tables { w with whiteouts := w.whiteouts.delete (pathOf p) } =
      { tables w with hidden := fun q => q ≠ p ∧ (tables w).hidden q } := by
    intro w
    ext q m
    · rfl
    · rfl
    · rfl
    · simp only [tables, JsMap.has_delete, ne_eq, pathOf_inj]
    · rfl
  rw [hshow, hparents]
  ext q m
  · rfl
  · simp only [enterAbove, enterDir, makeDir]
    grind
  · rfl
  · rfl
  · simp only [enterAbove, enterDir, makeDir]
    grind

theorem tables_setLink (v : Vfs) (text : Path) (p : List Component) :
    tables (setLink v text (pathOf p)) =
      { tables v with
        dir := fun q => q = p ∨ (tables v).dir q
        link := fun q => q = p ∨ (tables v).link q
        entered := fun e m => (tables v).entered e m ∨ e ++ [m] = p } := by
  rw [setLink, tables_addChild]
  ext q m
  · rfl
  · simp only [tables, JsMap.has_set, pathOf_inj]
  · simp only [tables, JsMap.has_set, pathOf_inj]
  · rfl
  · rfl

theorem tables_createSymlink (v : Vfs) (text linkpath : Path) :
    tables (createSymlink v text linkpath) = putLink (tables v) (components linkpath) := by
  rw [createSymlink, normalizePath_eq, tables_setLink]
  ext q m
  · rfl
  · rfl
  · rfl
  · simp only [tables, putLink, JsMap.has_delete, ne_eq, pathOf_inj]
  · rfl

theorem tables_unlink (v : Vfs) (path : Path) : tables (unlink v path) = remove (tables v) (components path) := by
  rw [unlink, normalizePath_eq, tables_removeChild]
  ext q m
  · simp only [tables, remove, JsMap.has_delete, ne_eq, pathOf_inj]
  · rfl
  · simp only [tables, remove, JsMap.has_delete, ne_eq, pathOf_inj]
  · simp only [tables, remove, JsMap.has_set, pathOf_inj]
  · rfl

theorem namesIn_delete (children : JsMap Path (JsMap Path Unit)) (dir q : Path) :
    namesIn (children.delete dir) q = if q = dir then JsMap.empty else namesIn children q := by
  rw [namesIn, JsMap.get?_delete]
  split_ifs <;> rfl

theorem tables_rmdir (v : Vfs) (path : Path) : tables (rmdir v path) = removeDir (tables v) (components path) := by
  rw [rmdir, normalizePath_eq, tables_removeChild]
  ext q m
  · rfl
  · simp only [tables, removeDir, JsMap.has_delete, ne_eq, pathOf_inj]
  · rfl
  · simp only [tables, removeDir, JsMap.has_set, pathOf_inj]
  · simp only [tables, removeDir, namesIn_delete, pathOf_inj]
    split_ifs with hq
    · refine iff_of_false ?_ fun h => h.1 hq
      rintro ⟨h, -⟩
      cases h
    · rw [and_iff_right hq]

/-! #### Renaming -/

theorem has_moveKey {V : Type} (m : JsMap Path V) {source goal : Path} (hne : source ≠ goal) (path : Path) :
    (moveKey m source goal).has path = true ↔
      path ≠ source ∧ m.has path = true ∨ path = goal ∧ m.has source = true := by
  unfold moveKey
  cases hget : m.get? source with
  | none =>
      have hno : m.has source = false := JsMap.has_eq_false_iff.2 hget
      have hpath : m.has path = true → path ≠ source := by
        rintro h rfl
        rw [hno] at h
        cases h
      rw [hno]
      grind
  | some value =>
      have hyes : m.has source = true := JsMap.has_iff.2 ⟨value, hget⟩
      have hgoal : path = goal → path ≠ source := by
        rintro rfl rfl
        exact hne rfl
      dsimp only
      rw [JsMap.has_delete, JsMap.has_set, hyes]
      grind

theorem moveKey_self {V : Type} {m : JsMap Path V} {path : Path} (h : m.has path = false) :
    moveKey m path path = m := by
  rw [moveKey, JsMap.has_eq_false_iff.1 h]

/-- The names of a directory go with it. -/
theorem namesIn_moveDir (v : Vfs) (source goal q : Path) :
    namesIn (moveDir v source goal).children q =
      if v.dirs.has source ∧ v.children.has source then
        if q = goal then namesIn v.children source
        else if q = source then JsMap.empty
        else namesIn v.children q
      else namesIn v.children q := by
  unfold moveDir
  by_cases hdir : v.dirs.has source = true
  · rw [if_pos hdir]
    dsimp only
    cases hget : v.children.get? source with
    | none =>
        have hno : ¬ v.children.has source = true := by
          rw [JsMap.has, hget]
          simp
        rw [if_neg fun h => hno h.2]
    | some names =>
        rw [if_pos ⟨hdir, JsMap.has_iff.2 ⟨names, hget⟩⟩]
        dsimp only
        have hnames : namesIn v.children source = names := by
          rw [namesIn, hget, Option.getD_some]
        rw [namesIn_set, namesIn_delete, hnames]
  · rw [if_neg hdir, if_neg fun h => hdir h.1]

theorem has_dirs_moveDir (v : Vfs) {source goal : Path} (hne : source ≠ goal) (path : Path) :
    (moveDir v source goal).dirs.has path = true ↔
      path ≠ source ∧ v.dirs.has path = true ∨ path = goal ∧ v.dirs.has source = true := by
  unfold moveDir
  by_cases hdir : v.dirs.has source = true
  · have hdirs : ((v.dirs.delete source).set goal ()).has path = true ↔
        path ≠ source ∧ v.dirs.has path = true ∨ path = goal ∧ v.dirs.has source = true := by
      rw [JsMap.has_set, JsMap.has_delete, hdir]
      grind
    rw [if_pos hdir]
    dsimp only
    split <;> exact hdirs
  · have hpath : v.dirs.has path = true → path ≠ source := by
      rintro h rfl
      exact hdir h
    rw [if_neg hdir]
    grind

/-- The state of `rename` after what is at the source has gone to the target. -/
def moved (v : Vfs) (source goal : Path) : Vfs :=
  moveDir
    { v with
      files := moveKey v.files source goal
      symlinks := moveKey v.symlinks source goal } source goal

/-- The state of `rename` before the whiteouts. -/
def entered (v : Vfs) (source goal : Path) : Vfs :=
  registerParents
    (addChild
      (removeChild
        { moved v source goal with metadata := moveKey (moved v source goal).metadata source goal } source)
      goal) goal

theorem rename_eq (v : Vfs) (source goal : Path) :
    rename v source goal =
      { entered v (normalizePath source) (normalizePath goal) with
        whiteouts :=
          ((entered v (normalizePath source) (normalizePath goal)).whiteouts.set (normalizePath source)
            ()).delete (normalizePath goal) } := rfl

theorem tables_rename (v : Vfs) {source goal : Path}
    (hroot : components goal = [] → (tables (moved v (normalizePath source) (normalizePath goal))).dir []) :
    tables (rename v source goal) =
      { enterAbove
          { tables (moved v (normalizePath source) (normalizePath goal)) with
            entered := fun e m =>
              (tables (moved v (normalizePath source) (normalizePath goal))).entered e m ∧
                e ++ [m] ≠ components source ∨ e ++ [m] = components goal } (components goal) with
        hidden := fun q => q ≠ components goal ∧
          (q = components source ∨ (tables (moved v (normalizePath source) (normalizePath goal))).hidden q) } := by
  have hmeta : ∀ (w : Vfs) metadata, tables { w with metadata := metadata } = tables w := fun _ _ => rfl
  have hshow : ∀ w : Vfs, tables
      { w with
        whiteouts := (w.whiteouts.set (pathOf (components source)) ()).delete (pathOf (components goal)) } =
      { tables w with
        hidden := fun q => q ≠ components goal ∧ (q = components source ∨ (tables w).hidden q) } := by
    intro w
    ext q m
    · rfl
    · rfl
    · rfl
    · simp only [tables, JsMap.has_delete, JsMap.has_set, ne_eq, pathOf_inj]
    · rfl
  rw [rename_eq, entered]
  generalize moved v (normalizePath source) (normalizePath goal) = w at hroot ⊢
  rw [normalizePath_eq, normalizePath_eq, hshow, tables_registerParents, tables_addChild, tables_removeChild, hmeta]
  · rfl
  · intro hu
    rw [tables_addChild, tables_removeChild, hmeta]
    exact hroot hu

theorem moved_frame (v : Vfs) (source goal : Path) :
    (moved v source goal).files = moveKey v.files source goal ∧
      (moved v source goal).symlinks = moveKey v.symlinks source goal ∧
      (moved v source goal).whiteouts = v.whiteouts := by
  obtain ⟨dirs, children, hframe⟩ := moveDir_frame
    { v with
      files := moveKey v.files source goal
      symlinks := moveKey v.symlinks source goal } source goal
  rw [moved, hframe]
  exact ⟨rfl, rfl, rfl⟩

/-- The names of a directory without names are not missed. -/
theorem entered_moved (h : Whole (tables v)) {s u : List Component} (hne : s ≠ u)
    (hsource : Childless (tables v) s)
    (hemptied : (tables v).dir s → ∀ n, Live (tables v) (u ++ [n]) → u ++ [n] = s) (d : List Component)
    (n : Component) :
    (tables (moved v (pathOf s) (pathOf u))).entered d n ∧ d ++ [n] ≠ s ↔
      (tables v).entered d n ∧ d ++ [n] ≠ s := by
  have hnone : ∀ m, ¬ (tables v).entered s m := fun m hm => hsource m ((h.entered_iff s m).1 hm)
  have hnames : (tables (moved v (pathOf s) (pathOf u))).entered d n ↔
      (namesIn (moved v (pathOf s) (pathOf u)).children (pathOf d)).has n.val = true := Iff.rfl
  rw [hnames, moved, namesIn_moveDir]
  split_ifs with hmoves hdu hds
  · rw [pathOf_inj] at hdu
    subst hdu
    refine iff_of_false (fun h' => hnone n h'.1) ?_
    rintro ⟨hentered, hn⟩
    exact hn (hemptied hmoves.1 n ((h.entered_iff d n).1 hentered))
  · rw [pathOf_inj] at hds
    subst hds
    refine iff_of_false ?_ fun h' => hnone n h'.1
    rintro ⟨hempty, -⟩
    cases hempty
  · exact Iff.rfl
  · exact Iff.rfl

/-- **Moving to another path.** -/
theorem tables_rename_move (h : Whole (tables v)) {source goal : Path}
    (hm : Movable (tables v) (components source) (components goal)) :
    tables (rename v source goal) = move (tables v) (components source) (components goal) := by
  rw [tables_rename v fun hnil => absurd hnil hm.target, normalizePath_eq, normalizePath_eq]
  generalize components source = s at hm ⊢
  generalize components goal = u at hm ⊢
  have hne : pathOf s ≠ pathOf u := fun e => hm.ne (pathOf_injective e)
  obtain ⟨hfiles, hsymlinks, hwhiteouts⟩ := moved_frame v (pathOf s) (pathOf u)
  have hdir : ∀ q, (tables (moved v (pathOf s) (pathOf u))).dir q ↔
      q ≠ s ∧ (tables v).dir q ∨ q = u ∧ (tables v).dir s := by
    intro q
    have hhas := has_dirs_moveDir
      { v with
        files := moveKey v.files (pathOf s) (pathOf u)
        symlinks := moveKey v.symlinks (pathOf s) (pathOf u) } hne (pathOf q)
    rw [ne_eq, pathOf_inj, pathOf_inj] at hhas
    exact hhas
  have habove : ∀ q, Above q u → q ≠ s := by
    rintro q hq rfl
    exact hm.notAbove hq
  ext q m
  · simp only [tables, enterAbove, NameTree.move, hfiles, has_moveKey _ hne, ne_eq, pathOf_inj]
  · simp only [enterAbove, NameTree.move, hdir]
    grind
  · simp only [tables, enterAbove, NameTree.move, hsymlinks, has_moveKey _ hne, ne_eq, pathOf_inj]
  · simp only [tables, NameTree.move, hwhiteouts]
  · simp only [enterAbove, NameTree.move, hdir, entered_moved h hm.ne hm.source hm.emptied]
    have hq := habove (q ++ [m])
    have hself := not_above_self u
    grind

/-- A directory that stays where it is. -/
theorem tables_moved_self {s : List Component} (hdir : (tables v).dir s) (hfile : ¬ (tables v).file s)
    (hlink : ¬ (tables v).link s) : tables (moved v (pathOf s) (pathOf s)) = tables v := by
  obtain ⟨hfiles, hsymlinks, hwhiteouts⟩ := moved_frame v (pathOf s) (pathOf s)
  rw [moveKey_self (Bool.eq_false_iff.2 hfile)] at hfiles
  rw [moveKey_self (Bool.eq_false_iff.2 hlink)] at hsymlinks
  have hdirs : ∀ path, (moved v (pathOf s) (pathOf s)).dirs.has path = true ↔
      path = pathOf s ∨ path ≠ pathOf s ∧ v.dirs.has path = true := by
    intro path
    have hset : ((v.dirs.delete (pathOf s)).set (pathOf s) ()).has path = true ↔
        path = pathOf s ∨ path ≠ pathOf s ∧ v.dirs.has path = true := by
      rw [JsMap.has_set, JsMap.has_delete]
    have hthere : v.dirs.has (pathOf s) = true := hdir
    rw [moved, moveDir]
    dsimp only
    rw [if_pos hthere]
    split <;> exact hset
  ext q m
  · simp only [tables, hfiles]
  · simp only [tables, hdirs, ne_eq, pathOf_inj]
    by_cases hq : q = s
    · subst hq
      exact iff_of_true (Or.inl rfl) hdir
    · simp only [hq, false_or, not_false_eq_true, true_and]
  · simp only [tables, hsymlinks]
  · simp only [tables, hwhiteouts]
  · have hnames : (tables (moved v (pathOf s) (pathOf s))).entered q m ↔
        (namesIn (moved v (pathOf s) (pathOf s)).children (pathOf q)).has m.val = true := Iff.rfl
    rw [hnames, moved, namesIn_moveDir]
    split_ifs with hmoves hq
    · rw [← hq]
      exact Iff.rfl
    · exact Iff.rfl
    · exact Iff.rfl

/-- Moving a directory to where it is. -/
theorem tables_rename_self (h : Whole (tables v)) {source goal : Path}
    (heq : components source = components goal) (hdir : IsDir (tables v) (components source))
    (hfile : ¬ (tables v).file (components source)) : tables (rename v source goal) = tables v := by
  have hmoved : tables (moved v (normalizePath source) (normalizePath goal)) = tables v := by
    rw [normalizePath_eq source, normalizePath_eq goal, ← heq]
    exact tables_moved_self hdir.dir hfile hdir.link
  have hroot : components goal = [] →
      (tables (moved v (normalizePath source) (normalizePath goal))).dir [] := by
    intro hnil
    rw [hmoved, ← hnil, ← heq]
    exact hdir.dir
  rw [tables_rename v hroot, hmoved, ← heq]
  generalize components source = s at hdir ⊢
  have habove : ∀ q, Above q s → (tables v).dir q := fun q hq => (h.above hdir.live hq).dir
  have hentered : ∀ q m, q ++ [m] = s → (tables v).entered q m := by
    rintro q m rfl
    exact (h.entered_iff q m).2 hdir.live
  ext q m
  · rfl
  · exact ⟨fun hq => hq.elim (habove q) id, Or.inr⟩
  · rfl
  · have hshown : (tables v).hidden q → q ≠ s := by
      rintro hq rfl
      exact hdir.shown hq
    dsimp only
    grind
  · have hq := habove (q ++ [m])
    have hq' := hentered q m
    simp only [enterAbove]
    grind

/-! ### Keys -/

/-- Fewer keys and names are no harm. -/
theorem Keys.of_subset {v v' : Vfs} (h : Keys v) (hd : ∀ path, v'.dirs.has path = true → v.dirs.has path = true)
    (hs : ∀ path, v'.symlinks.has path = true → v.symlinks.has path = true)
    (hn : ∀ d name, (namesIn v'.children (pathOf d)).has name = true →
      (namesIn v.children (pathOf d)).has name = true) : Keys v' where
  dirs := fun path hpath => h.dirs path (hd path hpath)
  symlinks := fun path hpath => h.symlinks path (hs path hpath)
  names := fun d name hname => h.names d name (hn d name hname)

theorem Keys.addChild (h : Keys v) (p : List Component) : Keys (addChild v (pathOf p)) := by
  rcases List.eq_nil_or_concat p with rfl | ⟨d, n, rfl⟩
  · rw [addChild_root]
    refine h.of_subset (fun _ hpath => hpath) (fun _ hpath => hpath) fun d name hname => ?_
    rwa [namesIn_addNone] at hname
  · rw [List.concat_eq_append, addChild_append]
    refine ⟨h.dirs, h.symlinks, fun e name hname => ?_⟩
    rcases (has_namesIn_addName _ _ _ _ _).1 hname with hold | ⟨-, rfl⟩
    · exact h.names e name hold
    · exact n.ok

theorem Keys.removeChild (h : Keys v) (path : Path) : Keys (removeChild v path) := by
  have hnames := has_namesIn_removeChild v path
  obtain ⟨children, hframe⟩ := removeChild_frame v path
  rw [hframe] at hnames ⊢
  exact h.of_subset (fun _ hpath => hpath) (fun _ hpath => hpath) fun d name hname => ((hnames _ _).1 hname).1

theorem Keys.registerDir (h : Keys v) (p : List Component) : Keys (registerDir v (pathOf p)) := by
  unfold VirtualFs.registerDir
  split_ifs with hdir
  · exact h
  · refine Keys.addChild ?_ p
    have hdirs : ∀ path, (v.dirs.set (pathOf p) ()).has path = true → ∃ q, path = pathOf q := by
      intro path hpath
      rcases JsMap.has_set.1 hpath with rfl | hpath
      · exact ⟨p, rfl⟩
      · exact h.dirs path hpath
    dsimp only
    split_ifs with hchildren
    · exact ⟨hdirs, h.symlinks, h.names⟩
    · refine ⟨hdirs, h.symlinks, fun d name hname => ?_⟩
      rw [namesIn_fresh (Bool.eq_false_iff.2 hchildren)] at hname
      exact h.names d name hname

theorem Keys.registerParents (h : Keys v) (p : List Component) : Keys (registerParents v (pathOf p)) := by
  have hfold : ∀ (dirs : List Path) (w : Vfs), (∀ dir ∈ dirs, ∃ q, dir = pathOf q) → Keys w →
      Keys (dirs.foldl VirtualFs.registerDir w) := by
    intro dirs
    induction dirs with
    | nil =>
        intro w _ hw
        exact hw
    | cons dir dirs ih =>
        intro w hdirs hw
        obtain ⟨q, rfl⟩ := hdirs dir List.mem_cons_self
        exact ih _ (fun d hd => hdirs d (List.mem_cons_of_mem _ hd)) (hw.registerDir q)
  refine hfold _ v (fun dir hdir => ?_) h
  by_cases hp : p = []
  · subst hp
    have hparents : parents (pathOf []) = [pathOf []] := by
      rw [parents, splitOn_root]
      rfl
    rw [hparents, List.mem_singleton] at hdir
    exact ⟨[], hdir⟩
  · rw [parents_pathOf hp] at hdir
    obtain ⟨i, -, rfl⟩ := List.mem_map.1 hdir
    exact ⟨_, rfl⟩

theorem Keys.addFile (h : Keys v) (p : List Component) (bytes : List UInt8) :
    Keys (addFile v (pathOf p) bytes) := by
  rw [VirtualFs.addFile, absolute_pathOf]
  refine (Keys.registerParents ?_ p).addChild p
  exact ⟨h.dirs, h.symlinks, h.names⟩

theorem Keys.createFile (h : Keys v) (p : List Component) (mode : Int32) :
    Keys (createFile v (pathOf p) mode).1 := by
  have hkeys : ∀ w : Vfs, w.dirs = v.dirs → w.symlinks = v.symlinks → w.children = v.children →
      Keys (VirtualFs.addChild (VirtualFs.registerParents w (pathOf p)) (pathOf p)) := by
    intro w hd hs hc
    refine (Keys.registerParents ?_ p).addChild p
    refine h.of_subset (fun _ => ?_) (fun _ => ?_) fun _ _ => ?_
    · rw [hd]
      exact id
    · rw [hs]
      exact id
    · rw [hc]
      exact id
  rw [VirtualFs.createFile]
  dsimp only
  split_ifs
  · exact hkeys _ rfl rfl rfl
  · obtain ⟨hdirs, hsymlinks, hnames⟩ := hkeys
      { (newBuffer v []).1 with
        files := v.files.set (pathOf p) v.buffers.length
        whiteouts := v.whiteouts.delete (pathOf p) } rfl rfl rfl
    exact ⟨hdirs, hsymlinks, hnames⟩

theorem Keys.mkdir (h : Keys v) (path : Path) : Keys (mkdir v path) := by
  rw [VirtualFs.mkdir, normalizePath_eq]
  obtain ⟨hdirs, hsymlinks, hnames⟩ := (h.registerDir (components path)).registerParents (components path)
  exact ⟨hdirs, hsymlinks, hnames⟩

theorem Keys.setLink (h : Keys v) (text : Path) (p : List Component) : Keys (setLink v text (pathOf p)) := by
  have hset : Keys { v with symlinks := v.symlinks.set (pathOf p) text, dirs := v.dirs.set (pathOf p) () } := by
    refine ⟨fun path hpath => ?_, fun path hpath => ?_, h.names⟩
    · rcases JsMap.has_set.1 hpath with rfl | hpath
      · exact ⟨p, rfl⟩
      · exact h.dirs path hpath
    · rcases JsMap.has_set.1 hpath with rfl | hpath
      · exact ⟨p, rfl⟩
      · exact h.symlinks path hpath
  exact hset.addChild p

theorem Keys.createSymlink (h : Keys v) (text linkpath : Path) : Keys (createSymlink v text linkpath) := by
  rw [VirtualFs.createSymlink, normalizePath_eq]
  refine Keys.setLink ?_ text _
  exact ⟨h.dirs, h.symlinks, h.names⟩

theorem Keys.unlink (h : Keys v) (path : Path) : Keys (unlink v path) := by
  refine Keys.removeChild ?_ _
  exact h.of_subset (fun _ hpath => hpath) (fun _ hpath => (JsMap.has_delete.1 hpath).2) fun _ _ hname => hname

theorem Keys.rmdir (h : Keys v) (path : Path) : Keys (rmdir v path) := by
  refine Keys.removeChild ?_ _
  refine h.of_subset (fun _ hpath => (JsMap.has_delete.1 hpath).2) (fun _ hpath => hpath) fun d name hname => ?_
  rw [namesIn_delete] at hname
  split_ifs at hname
  · cases hname
  · exact hname

theorem Keys.moved (h : Keys v) (s u : List Component) : Keys (moved v (pathOf s) (pathOf u)) where
  dirs := by
    intro path hpath
    have hdirs : path = pathOf u ∨ v.dirs.has path = true := by
      rw [VfsTables.moved, moveDir] at hpath
      dsimp only at hpath
      split_ifs at hpath
      · have hset : ((v.dirs.delete (pathOf s)).set (pathOf u) ()).has path = true := by
          split at hpath <;> exact hpath
        exact (JsMap.has_set.1 hset).imp_right fun hold => (JsMap.has_delete.1 hold).2
      · exact Or.inr hpath
    rcases hdirs with rfl | hpath
    · exact ⟨u, rfl⟩
    · exact h.dirs path hpath
  symlinks := by
    intro path hpath
    rw [(moved_frame v (pathOf s) (pathOf u)).2.1, moveKey] at hpath
    split at hpath
    · exact h.symlinks path hpath
    · rcases JsMap.has_set.1 (JsMap.has_delete.1 hpath).2 with rfl | hpath
      · exact ⟨u, rfl⟩
      · exact h.symlinks path hpath
  names := by
    intro d name hname
    rw [VfsTables.moved, namesIn_moveDir] at hname
    split_ifs at hname
    · exact h.names s name hname
    · cases hname
    · exact h.names d name hname
    · exact h.names d name hname

theorem Keys.entered (h : Keys v) (s u : List Component) : Keys (entered v (pathOf s) (pathOf u)) := by
  have hmoved := h.moved s u
  refine Keys.registerParents (Keys.addChild (Keys.removeChild ?_ _) u) u
  exact ⟨hmoved.dirs, hmoved.symlinks, hmoved.names⟩

theorem Keys.rename (h : Keys v) (source goal : Path) : Keys (rename v source goal) := by
  have hentered := h.entered (components source) (components goal)
  rw [rename_eq, normalizePath_eq, normalizePath_eq]
  exact ⟨hentered.dirs, hentered.symlinks, hentered.names⟩

end VfsTables
