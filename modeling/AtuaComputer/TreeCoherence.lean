/-
**The tree of the virtual filesystem.**

`readdir` looks at the sets of names and at what is hidden, `stat` at the files, the directories and the
links, so the two agree only as long as the operations keep all of the maps in step.  Most of them do what
they are asked without a look at what is there: a file is put where a directory is, a directory is removed
with what is in it, and a link that is removed stays in the table of directories.

Even where the maps are in step `readdir` follows no links and the special files are not in the tree.

Main definitions:

* `TreeCoherence.Op`, `TreeCoherence.Step` — the operations;
* `TreeCoherence.Coherent` — `readdir` and `stat` agree, and what is there has a parent;
* `TreeCoherence.Listable`, `TreeCoherence.Placeable` — the names and paths for which they can;
* `TreeCoherence.Keeps` — the condition on the operations.

Main results:

* `TreeCoherence.coherentAt_of_good` — tables that are in step make the two agree for these;
* `TreeCoherence.good_after` — an operation that meets the condition keeps them in step;
* `TreeCoherence.tree_of_meets` — so does a run.
-/

import AtuaComputer.Runs
import AtuaComputer.VfsTables

set_option relaxedAutoImplicit false
set_option autoImplicit false

namespace TreeCoherence

open VirtualFs NameTree Runs VfsTables

/-! ### What is seen -/

/-- A string that can be a name in a directory. -/
def IsName (n : Path) : Prop := n ≠ [] ∧ '/' ∉ n

/-- A path, however it is spelled and whatever links it goes through, that is seen as a directory. -/
def IsDirectory (v : Vfs) (d : Path) : Prop := (stat v d true).map Stat.type = some .dir

/-- `readdir` lists a name with the type that `stat` finds, and lists it only then. -/
def Lists (v : Vfs) (d n : Path) : Prop :=
  ∀ t, (n, t) ∈ readdir v d ↔ (stat v (childPath d n) false).map Stat.type = some t

/-- What is above a path is seen as a directory. -/
def HasParent (v : Vfs) (path : Path) : Prop := IsDirectory v (parentOf (normalizePath path))

/-- `readdir` lists what `stat` finds, and what `stat` finds lies in a directory. -/
structure Coherent (v : Vfs) : Prop where
  listed : ∀ d n, IsDirectory v d → IsName n → Lists v d n
  parent : ∀ path follow, (stat v path follow).isSome = true → HasParent v path

/-! #### Links, spellings and special files -/

/-- A path that goes through no link. -/
def Direct (v : Vfs) (d : Path) : Prop := ∀ a, a <+: components d → v.symlinks.has (pathOf a) = false

/-- There is something where a path leads. -/
def Found (v : Vfs) (path : Path) : Prop :=
  v.whiteouts.has (resolvePath v.symlinks path) = false ∧
    (v.files.has (resolvePath v.symlinks path) = true ∨ v.dirs.has (resolvePath v.symlinks path) = true)

/-- The names that `readdir` can be right about.  It follows no links, `stat` finds a link only by the
normalized path, and neither looks for the special files in the tree. -/
structure Listable (v : Vfs) (d n : Path) : Prop where
  /-- A link that leads nowhere is seen as a directory. -/
  dot : n = ['.'] → Found v d
  special : ¬ isDevice (absolute (childPath d n))
  spelled : Direct v d → v.symlinks.has (normalizePath (childPath d n)) = true →
    absolute (childPath d n) = normalizePath (childPath d n)
  through : ¬ Direct v d → n ≠ ['.'] → n ≠ ['.', '.'] → ¬ Found v (childPath d n)

/-- The paths that can have a directory above them: those below no special file, and a special file itself
where the tree has a directory for it. -/
structure Placeable (v : Vfs) (path : Path) : Prop where
  above : ¬ isDevice (parentOf (normalizePath path))
  special : isDevice (absolute path) →
    v.whiteouts.has (resolvePath v.symlinks "/dev".toList) = false ∧
      v.files.has (resolvePath v.symlinks "/dev".toList) = false ∧
        (v.dirs.has (resolvePath v.symlinks "/dev".toList) = true ∨ v.dirs.has "/dev".toList = true)

/-- Coherence name by name and path by path: it is there for these, and for no others. -/
structure CoherentAt (v : Vfs) : Prop where
  lists_iff : ∀ d n, IsDirectory v d → IsName n → (Lists v d n ↔ Listable v d n)
  hasParent_iff : ∀ path follow, (stat v path follow).isSome = true → (HasParent v path ↔ Placeable v path)

/-- The keys are normalized and the tables are in step. -/
structure Good (v : Vfs) : Prop where
  keys : Keys v
  whole : Whole (tables v)

/-! #### Looking at tables that are in step -/

section Looking

variable {v : Vfs}

/-- The type that `stat` finds at the end of a path. -/
theorem type_statResolved (v : Vfs) (path resolved : Path) :
    (statResolved v path resolved).map Stat.type =
      if v.whiteouts.has resolved = true then none
      else if v.files.has resolved = true then some .file
      else if v.dirs.has resolved = true ∨ v.dirs.has path = true then some .dir
      else none := by
  unfold statResolved
  dsimp only
  by_cases hhidden : v.whiteouts.has resolved = true
  · rw [if_pos hhidden, if_pos hhidden]
    rfl
  · rw [if_neg hhidden, if_neg hhidden]
    cases hfile : v.files.get? resolved with
    | some content =>
        rw [if_pos (JsMap.has_iff.2 ⟨content, hfile⟩)]
        rfl
    | none =>
        rw [if_neg (Bool.eq_false_iff.1 (JsMap.has_eq_false_iff.2 hfile))]
        dsimp only
        by_cases hresolved : v.dirs.has resolved = true
        · rw [if_pos hresolved, if_pos (Or.inl hresolved)]
          rfl
        · rw [if_neg hresolved]
          by_cases hpath : v.dirs.has path = true
          · rw [if_pos hpath, if_pos (Or.inr hpath)]
            rfl
          · rw [if_neg hpath, if_neg (not_or.2 ⟨hresolved, hpath⟩)]
            rfl

theorem found_of_statResolved {path resolved : Path} (h : (statResolved v path resolved).isSome = true) :
    ¬ v.whiteouts.has resolved = true ∧
      (v.files.has resolved = true ∨ v.dirs.has resolved = true ∨ v.dirs.has path = true) := by
  have hne : (statResolved v path resolved).map Stat.type ≠ none := by
    rw [Ne, Option.map_eq_none_iff]
    intro hnone
    rw [hnone] at h
    cases h
  rw [type_statResolved] at hne
  split_ifs at hne with hhidden hfile hdir
  · exact absurd rfl hne
  · exact ⟨hhidden, Or.inl hfile⟩
  · exact ⟨hhidden, Or.inr hdir⟩
  · exact absurd rfl hne

theorem noRootLink (h : Good v) : NoRootLink v.symlinks := by
  refine ⟨JsMap.has_eq_false_iff.1 (Bool.eq_false_iff.2 fun hempty => ?_),
    JsMap.has_eq_false_iff.1 (Bool.eq_false_iff.2 h.whole.root.1)⟩
  obtain ⟨p, hp⟩ := h.keys.symlinks [] hempty
  exact pathOf_ne_nil p hp.symm

theorem target_eq_none {p : List Component} (hp : ¬ (tables v).link p) : target v.symlinks p = none := by
  rw [target, JsMap.has_eq_false_iff.1 (Bool.eq_false_iff.2 hp)]

theorem resolvePath_pathOf (h : Good v) (p : List Component) :
    resolvePath v.symlinks (pathOf p) = pathOf (leads v.symlinks p) := by
  rw [resolvePath_eq (noRootLink h), components_pathOf]

theorem resolvePath_absolute (h : Good v) (path : Path) :
    resolvePath v.symlinks (absolute path) = resolvePath v.symlinks path := by
  rw [resolvePath_eq (noRootLink h), resolvePath_eq (noRootLink h), components_absolute]

/-- A directory leads to itself. -/
theorem leads_isDir (h : Good v) {p : List Component} (hp : IsDir (tables v) p) : leads v.symlinks p = p :=
  h.whole.resolve_isDir (fun _ => target_eq_none) hp 41

/-- A path without links leads to itself. -/
theorem leads_of_links {p : List Component} (habove : ∀ a, Above a p → ¬ (tables v).link a)
    (hp : ¬ (tables v).link p) : leads v.symlinks p = p := by
  refine resolve_of_none (fun a ha => target_eq_none ?_) 41
  by_cases hap : a = p
  · rw [hap]
    exact hp
  · exact habove a ⟨ha, hap⟩

theorem IsDir.file {p : List Component} (hp : IsDir (tables v) p) (h : Good v) : ¬ (tables v).file p :=
  fun hfile => hp.link (h.whole.file_dir p hp.live hfile hp.dir)

/-- A path that leads to a directory is seen as one. -/
theorem type_stat_isDir (h : Good v) {p : List Component} (hp : IsDir (tables v) (leads v.symlinks p))
    (hdevice : ¬ isDevice (pathOf p)) : (stat v (pathOf p) true).map Stat.type = some .dir := by
  have hresolved := type_statResolved v (pathOf p) (resolvePath v.symlinks (pathOf p))
  have hhidden : ¬ v.whiteouts.has (pathOf (leads v.symlinks p)) = true := hp.shown
  have hfile : ¬ v.files.has (pathOf (leads v.symlinks p)) = true := IsDir.file hp h
  have hdir : v.dirs.has (pathOf (leads v.symlinks p)) = true := hp.dir
  rw [resolvePath_pathOf h, if_neg hhidden, if_neg hfile, if_pos (Or.inl hdir)] at hresolved
  unfold stat
  rw [absolute_pathOf]
  dsimp only
  rw [if_neg hdevice, resolvePath_pathOf h]
  split <;> exact hresolved

/-- What has no link above it, and no link is the path itself, when it is in the table of directories. -/
theorem leads_of_dir (h : Good v) {p : List Component} (hdir : (tables v).dir p) (hlink : ¬ (tables v).link p) :
    leads v.symlinks p = p := by
  refine leads_of_links (fun a ha => ?_) hlink
  by_cases hhidden : (tables v).hidden p
  · exact h.whole.stale p a hdir hhidden ha
  · exact (h.whole.above ⟨hhidden, Or.inr (Or.inl hdir)⟩ ha).link

/-- The root leads to itself. -/
theorem leads_root (h : Good v) : leads v.symlinks [] = [] :=
  leads_of_links (fun a ha => absurd ha (not_above_nil a)) h.whole.root.1

theorem isDir_root (h : Good v) (hlive : Live (tables v) []) : IsDir (tables v) [] where
  dir := by
    rcases hlive.2 with hfile | hdir | hlink
    · exact absurd hfile (h.whole.root.2 hlive)
    · exact hdir
    · exact absurd hlink h.whole.root.1
  shown := hlive.1
  link := h.whole.root.1

/-- What is there lies in a directory, and the path to that one goes through no link. -/
theorem isDir_leads_of_live (h : Good v) {p : List Component} (hlive : Live (tables v) p) :
    IsDir (tables v) (leads v.symlinks p.dropLast) := by
  rcases List.eq_nil_or_concat p with rfl | ⟨d, n, rfl⟩
  · rw [List.dropLast_nil, leads_root h]
    exact isDir_root h hlive
  · rw [List.concat_eq_append] at hlive ⊢
    have hd := h.whole.isDir hlive
    rw [List.dropLast_concat, leads_isDir h hd]
    exact hd

/-- So it is where a path leads to something. -/
theorem isDir_leads_of_leads (h : Good v) {p : List Component} (hlive : Live (tables v) (leads v.symlinks p)) :
    IsDir (tables v) (leads v.symlinks p.dropLast) := by
  rcases List.eq_nil_or_concat p with rfl | ⟨d, n, rfl⟩
  · rw [leads_root h] at hlive
    rw [List.dropLast_nil, leads_root h]
    exact isDir_root h hlive
  · rw [List.concat_eq_append] at hlive ⊢
    rw [List.dropLast_concat]
    exact h.whole.resolve_parent (fun _ => target_eq_none) 41 d n hlive

/-- **What is found through a path lies in a directory.** -/
theorem isDir_leads (h : Good v) {path : Path} {follow : Bool} (hsome : (stat v path follow).isSome = true)
    (hdevice : ¬ isDevice (absolute path)) : IsDir (tables v) (leads v.symlinks (components path).dropLast) := by
  have hcomponents : ∀ p, absolute path = pathOf p → components path = p := by
    intro p hp
    rw [← components_absolute, hp, components_pathOf]
  have hfound : (statResolved v (absolute path) (resolvePath v.symlinks (absolute path))).isSome = true →
      IsDir (tables v) (leads v.symlinks (components path).dropLast) := by
    intro hstat
    rw [resolvePath_eq (noRootLink h), components_absolute] at hstat
    obtain ⟨hfound, hkept⟩ := found_of_statResolved hstat
    have hshown : ¬ (tables v).hidden (leads v.symlinks (components path)) := hfound
    rcases hkept with hfile | hdir | hpath
    · exact isDir_leads_of_leads h ⟨hshown, Or.inl hfile⟩
    · exact isDir_leads_of_leads h ⟨hshown, Or.inr (Or.inl hdir)⟩
    · -- the path itself is in the table of directories
      obtain ⟨p, hp⟩ := h.keys.dirs _ hpath
      rw [hcomponents p hp] at hshown ⊢
      rw [hp] at hpath
      by_cases hhidden : (tables v).hidden p
      · rw [leads_of_dir h hpath fun hlink => h.whole.shown p hlink hhidden] at hshown
        exact absurd hhidden hshown
      · exact isDir_leads_of_live h ⟨hhidden, Or.inr (Or.inl hpath)⟩
  unfold stat at hsome
  dsimp only at hsome
  rw [if_neg hdevice] at hsome
  cases hlink : v.symlinks.get? (absolute path) with
  | none =>
      rw [hlink] at hsome
      exact hfound hsome
  | some text =>
      rw [hlink] at hsome
      cases follow with
      | true => exact hfound hsome
      | false =>
          have hhas : v.symlinks.has (absolute path) = true := JsMap.has_iff.2 ⟨text, hlink⟩
          obtain ⟨p, hp⟩ := h.keys.symlinks _ hhas
          rw [hcomponents p hp]
          rw [hp] at hhas
          exact isDir_leads_of_live h ⟨h.whole.shown p hhas, Or.inr (Or.inr hhas)⟩

theorem parentOf_normalizePath (path : Path) :
    parentOf (normalizePath path) = pathOf (components path).dropLast := by
  rw [normalizePath_eq]
  rcases List.eq_nil_or_concat (components path) with hnil | ⟨d, n, hconcat⟩
  · rw [hnil]
    rfl
  · rw [hconcat, List.concat_eq_append, parentOf_append, List.dropLast_concat]

/-! #### Listing -/

/-- The spelling of a directory does not matter. -/
theorem readdir_pathOf_components (v : Vfs) (d : Path) : readdir v (pathOf (components d)) = readdir v d := by
  rw [readdir, readdir, normalizePath_pathOf, normalizePath_eq]

theorem mem_readdir (v : Vfs) (q : List Component) (n : Path) (t : NodeType) :
    (n, t) ∈ readdir v (pathOf q) ↔
      (n = ['.'] ∨ n = ['.', '.']) ∧ t = .dir ∨
        (namesIn v.children (pathOf q)).has n = true ∧ ¬ v.whiteouts.has (childPath (pathOf q) n) = true ∧
          n ≠ ['.'] ∧ n ≠ ['.', '.'] ∧ t = entryType v (childPath (pathOf q) n) := by
  have hnames : n ∈ ((v.children.get? (pathOf q)).map JsMap.keys).getD [] ↔
      (namesIn v.children (pathOf q)).has n = true := by
    rw [namesIn, ← JsMap.mem_keys]
    cases v.children.get? (pathOf q) <;> rfl
  rw [readdir, normalizePath_pathOf]
  simp only [List.mem_cons, Prod.mk.injEq, List.mem_map, List.mem_filter, decide_eq_true_eq]
  constructor
  · rintro (⟨hn, ht⟩ | ⟨hn, ht⟩ | ⟨name, ⟨hmem, hshown, hdot, hdots⟩, rfl, rfl⟩)
    · exact Or.inl ⟨Or.inl hn, ht⟩
    · exact Or.inl ⟨Or.inr hn, ht⟩
    · exact Or.inr ⟨hnames.1 hmem, hshown, hdot, hdots, rfl⟩
  · rintro (⟨hn | hn, ht⟩ | ⟨hmem, hshown, hdot, hdots, ht⟩)
    · exact Or.inl ⟨hn, ht⟩
    · exact Or.inr (Or.inl ⟨hn, ht⟩)
    · exact Or.inr (Or.inr ⟨n, ⟨hnames.2 hmem, hshown, hdot, hdots⟩, rfl, ht.symm⟩)

/-- The names that are listed are those of what is there. -/
theorem mem_readdir_component (h : Good v) (d : Path) (n : Component) (t : NodeType) :
    (n.val, t) ∈ readdir v d ↔
      Live (tables v) (components d ++ [n]) ∧ t = entryType v (pathOf (components d ++ [n])) := by
  obtain ⟨-, -, hdot, hdots⟩ := n.ok
  have hentered := h.whole.entered_iff (components d) n
  have hnames : (namesIn v.children (pathOf (components d))).has n.val = true ↔
      (tables v).entered (components d) n := Iff.rfl
  have hshown : (tables v).entered (components d) n →
      ¬ v.whiteouts.has (pathOf (components d ++ [n])) = true := fun he => (hentered.1 he).1
  rw [← readdir_pathOf_components, mem_readdir, childPath_pathOf, hnames, ← hentered]
  tauto

/-- The type of what the maps have at a path. -/
def typeAt (v : Vfs) (path : Path) : Option NodeType :=
  if v.whiteouts.has path = true then none
  else if v.files.has path = true then some .file
  else if v.dirs.has path = true then some .dir
  else none

theorem typeAt_eq_none {path : Path} : typeAt v (resolvePath v.symlinks path) = none ↔ ¬ Found v path := by
  unfold typeAt Found
  grind

theorem typeAt_ne_symlink (path : Path) : typeAt v path ≠ some .symlink := by
  unfold typeAt
  split_ifs <;> simp

theorem typeAt_isDir (h : Good v) {p : List Component} (hp : IsDir (tables v) p) :
    typeAt v (pathOf p) = some .dir := by
  have hhidden : ¬ v.whiteouts.has (pathOf p) = true := hp.shown
  have hfile : ¬ v.files.has (pathOf p) = true := IsDir.file hp h
  have hdir : v.dirs.has (pathOf p) = true := hp.dir
  rw [typeAt, if_neg hhidden, if_neg hfile, if_pos hdir]

/-- What is there and is no link is seen as it is listed. -/
theorem typeAt_pathOf (h : Good v) {p : List Component} (hlink : ¬ (tables v).link p) (t : NodeType) :
    typeAt v (pathOf p) = some t ↔ Live (tables v) p ∧ t = entryType v (pathOf p) := by
  have hboth := h.whole.file_dir p
  have hnone : ¬ v.symlinks.has (pathOf p) = true := hlink
  rw [typeAt, entryType, if_neg hnone]
  simp only [Live, tables] at hboth ⊢
  simp only [hnone] at hboth ⊢
  split_ifs <;> grind

/-- `stat` goes by the resolved path unless the path is that of a link. -/
theorem type_stat (h : Good v) {path : Path} (hdevice : ¬ isDevice (absolute path))
    (hlink : v.symlinks.has (absolute path) = false) :
    (stat v path false).map Stat.type = typeAt v (resolvePath v.symlinks path) := by
  -- a path in the table of directories that is no link leads to itself
  have hdir : v.dirs.has (absolute path) = true → v.dirs.has (resolvePath v.symlinks path) = true := by
    intro hdirs
    obtain ⟨p, hp⟩ := h.keys.dirs _ hdirs
    rw [hp] at hdirs hlink
    rw [← resolvePath_absolute h path, hp, resolvePath_pathOf h, leads_of_dir h hdirs (Bool.eq_false_iff.1 hlink)]
    exact hdirs
  unfold stat
  dsimp only
  rw [if_neg hdevice, JsMap.has_eq_false_iff.1 hlink]
  dsimp only
  rw [type_statResolved, resolvePath_absolute h, typeAt]
  simp only [or_iff_left_of_imp hdir]

/-- A link is found by its normalized path. -/
theorem type_stat_link {path : Path} (hdevice : ¬ isDevice (absolute path))
    (hlink : v.symlinks.has (absolute path) = true) : (stat v path false).map Stat.type = some .symlink := by
  obtain ⟨text, htext⟩ := JsMap.has_iff.1 hlink
  unfold stat
  dsimp only
  rw [if_neg hdevice, htext]
  rfl

theorem type_stat_device {path : Path} {follow : Bool} (hdevice : isDevice (absolute path)) :
    (stat v path follow).map Stat.type = some .chardev := by
  unfold stat
  dsimp only
  rw [if_pos hdevice]
  rfl

theorem entryType_ne_chardev (path : Path) : entryType v path ≠ .chardev := by
  unfold entryType
  split_ifs <;> simp

theorem components_childPath (d : Path) {n : Path} (hn : '/' ∉ n) :
    components (childPath d n) = addPart (components d) n := by
  have hsplit : ∀ a, components (a ++ '/' :: n) = addPart (components a) n := by
    intro a
    rw [components_append, List.splitOn_eq_singleton hn]
    rfl
  unfold childPath
  split_ifs with hroot
  · rw [hroot]
    exact hsplit []
  · exact hsplit d

/-- A link above is above everything below. -/
theorem not_live_of_not_direct (h : Good v) {d : Path} (hdirect : ¬ Direct v d) (n : Component) :
    ¬ Live (tables v) (components d ++ [n]) := by
  intro hlive
  refine hdirect fun a ha => Bool.eq_false_iff.2 ?_
  have habove : Above a (components d ++ [n]) := by
    rw [above_append_iff]
    by_cases heq : a = components d
    · exact Or.inl heq
    · exact Or.inr ⟨ha, heq⟩
  exact (h.whole.above hlive habove).link

/-- **What `readdir` says of a name is right for the names of `Listable`.** -/
theorem lists_component (h : Good v) (d : Path) (n : Component) : Lists v d n.val ↔ Listable v d n.val := by
  obtain ⟨-, hslash, hdot, hdots⟩ := n.ok
  have hcomponents : components (childPath d n.val) = components d ++ [n] := by
    rw [components_childPath d hslash, addPart, dif_pos n.ok]
  have hnormal : normalizePath (childPath d n.val) = pathOf (components d ++ [n]) := by
    rw [normalizePath_eq, hcomponents]
  have hmem := mem_readdir_component h d n
  -- special files are in no listing
  by_cases hdevice : isDevice (absolute (childPath d n.val))
  · refine iff_of_false (fun hlists => ?_) fun hlistable => hlistable.special hdevice
    exact entryType_ne_chardev _ ((hmem _).1 ((hlists _).2 (type_stat_device hdevice))).2.symm
  by_cases hfound : v.symlinks.has (absolute (childPath d n.val)) = true
  · -- the path is that of a link, which is listed as one
    obtain ⟨p, hp⟩ := h.keys.symlinks _ hfound
    have hpath : p = components d ++ [n] := by rw [← hcomponents, ← components_absolute, hp, components_pathOf]
    rw [hpath] at hp
    have hlink : (tables v).link (components d ++ [n]) := by
      rw [hp] at hfound
      exact hfound
    have hlive : Live (tables v) (components d ++ [n]) := ⟨h.whole.shown _ hlink, Or.inr (Or.inr hlink)⟩
    have htype : entryType v (pathOf (components d ++ [n])) = .symlink := if_pos hlink
    refine iff_of_true (fun t => ?_) ?_
    · rw [hmem, type_stat_link hdevice hfound, htype]
      simp [hlive, eq_comm]
    · exact ⟨fun h' => absurd h' hdot, hdevice, fun _ _ => hp.trans hnormal.symm,
        fun hdirect => absurd hlive (not_live_of_not_direct h hdirect n)⟩
  have hstat := type_stat h hdevice (Bool.eq_false_iff.2 hfound)
  by_cases hdirect : Direct v d
  · by_cases hlink : (tables v).link (components d ++ [n])
    · -- a link by another spelling: it is listed as one, and `stat` goes through it
      have hlive : Live (tables v) (components d ++ [n]) := ⟨h.whole.shown _ hlink, Or.inr (Or.inr hlink)⟩
      refine iff_of_false (fun hlists => ?_) fun hlistable => ?_
      · refine typeAt_ne_symlink _ (hstat.symm.trans ((hlists .symlink).1 ((hmem _).2 ⟨hlive, ?_⟩)))
        exact (if_pos hlink).symm
      · have hspelled := hlistable.spelled hdirect (by rw [hnormal]; exact hlink)
        rw [hspelled, hnormal] at hfound
        exact hfound hlink
    · have hleads : leads v.symlinks (components d ++ [n]) = components d ++ [n] := by
        refine leads_of_links (fun a ha => ?_) hlink
        refine Bool.eq_false_iff.1 (hdirect a ?_)
        rcases above_append_iff.1 ha with rfl | ha
        · exact List.prefix_refl _
        · exact ha.1
      refine iff_of_true (fun t => ?_) ?_
      · rw [hmem, hstat, resolvePath_eq (noRootLink h), hcomponents, hleads, typeAt_pathOf h hlink]
      · refine ⟨fun h' => absurd h' hdot, hdevice, fun _ hhas => ?_, fun h' => absurd hdirect h'⟩
        rw [hnormal] at hhas
        exact absurd hhas hlink
  · -- nothing is listed behind a link
    have hdead := not_live_of_not_direct h hdirect n
    have hlists : Lists v d n.val ↔ ¬ Found v (childPath d n.val) := by
      rw [← typeAt_eq_none, ← hstat, Option.eq_none_iff_forall_ne_some]
      refine forall_congr' fun t => ?_
      rw [hmem]
      tauto
    rw [hlists]
    exact ⟨fun hnone => ⟨fun h' => absurd h' hdot, hdevice, fun h' => absurd h' hdirect, fun _ _ _ => hnone⟩,
      fun hlistable => hlistable.through hdirect hdot hdots⟩

/-! #### Dots -/

theorem baseName_childPath (d : Path) {n : Path} (hn : '/' ∉ n) : baseName (absolute (childPath d n)) = n := by
  have hslash : ∀ a, baseName (absolute (a ++ '/' :: n)) = n := by
    intro a
    unfold absolute
    split_ifs
    · exact baseName_slash hn
    · exact baseName_slash (a := '/' :: a) hn
  unfold childPath
  split_ifs
  · exact hslash []
  · exact hslash d

/-- A path that ends in a dot is not normalized. -/
theorem childPath_ne_pathOf {d n : Path} {p : List Component} (hn : IsName n) (hno : ¬ IsComponent n) :
    absolute (childPath d n) ≠ pathOf p := by
  intro heq
  have hbase := baseName_childPath d hn.2
  rw [heq] at hbase
  rcases List.eq_nil_or_concat p with rfl | ⟨a, m, rfl⟩
  · exact hn.1 hbase.symm
  · rw [List.concat_eq_append, baseName_append] at hbase
    exact hno (hbase ▸ m.ok)

/-- The special files as paths of components. -/
theorem eq_pathOf_of_isDevice {path : Path} (h : isDevice path) : path = pathOf (components path) := by
  rcases h with rfl | rfl | rfl <;> decide +kernel

/-- A directory that is seen leads to nothing hidden and to no file. -/
theorem typeAt_of_isDirectory (h : Good v) {d : Path} (hd : IsDirectory v d) :
    ¬ isDevice (absolute d) ∧ (typeAt v (resolvePath v.symlinks d) = some .dir ↔ Found v d) := by
  have hdevice : ¬ isDevice (absolute d) := by
    intro hdevice
    rw [IsDirectory, type_stat_device hdevice] at hd
    cases hd
  have htype : (statResolved v (absolute d) (resolvePath v.symlinks d)).map Stat.type = some .dir := by
    unfold IsDirectory stat at hd
    dsimp only at hd
    rw [if_neg hdevice, resolvePath_absolute h] at hd
    revert hd
    cases v.symlinks.get? (absolute d) <;> exact id
  refine ⟨hdevice, ?_⟩
  rw [type_statResolved] at htype
  unfold typeAt Found
  grind

/-- The dots are listed as directories. -/
theorem lists_dots (h : Good v) {d n : Path} (hd : IsDirectory v d) (hn : IsName n) (hno : ¬ IsComponent n) :
    Lists v d n ↔ Listable v d n := by
  have hdots : n = ['.'] ∨ n = ['.', '.'] := by
    obtain ⟨hnil, hslash⟩ := hn
    unfold IsComponent at hno
    tauto
  have hdevice : ¬ isDevice (absolute (childPath d n)) := fun hdevice =>
    childPath_ne_pathOf hn hno (eq_pathOf_of_isDevice hdevice)
  have hnolink : v.symlinks.has (absolute (childPath d n)) = false := by
    refine Bool.eq_false_iff.2 fun hhas => ?_
    obtain ⟨p, hp⟩ := h.keys.symlinks _ hhas
    exact childPath_ne_pathOf hn hno hp
  have hlists : Lists v d n ↔ typeAt v (resolvePath v.symlinks (childPath d n)) = some .dir := by
    have hmem : ∀ t, (n, t) ∈ readdir v d ↔ t = .dir := by
      intro t
      rw [← readdir_pathOf_components, mem_readdir]
      tauto
    unfold Lists
    simp only [hmem, type_stat h hdevice hnolink]
    refine ⟨fun hall => (hall .dir).1 rfl, fun htype t => ?_⟩
    rw [htype, Option.some_inj, eq_comm]
  -- the path of the dots is that of the directory or of what is above it
  have hcomponents : components (childPath d n) <+: components d := by
    rw [components_childPath d hn.2, addPart, dif_neg hno]
    split_ifs
    · exact List.dropLast_prefix _
    · exact List.prefix_refl _
  have hspelled : Direct v d → v.symlinks.has (normalizePath (childPath d n)) = true →
      absolute (childPath d n) = normalizePath (childPath d n) := by
    intro hdirect hhas
    rw [normalizePath_eq, hdirect _ hcomponents] at hhas
    cases hhas
  obtain ⟨hdev, hfound⟩ := typeAt_of_isDirectory h hd
  rw [hlists]
  rcases hdots with rfl | rfl
  · have hsame : resolvePath v.symlinks (childPath d ['.']) = resolvePath v.symlinks d := by
      rw [resolvePath_eq (noRootLink h), resolvePath_eq (noRootLink h), components_childPath d hn.2, addPart,
        dif_neg hno, if_neg (by decide)]
    rw [hsame, hfound]
    exact ⟨fun hf => ⟨fun _ => hf, hdevice, hspelled, fun _ hne => absurd rfl hne⟩, fun hl => hl.dot rfl⟩
  · have hsome : (stat v d true).isSome = true := by
      rw [IsDirectory, Option.map_eq_some_iff] at hd
      obtain ⟨found, hstat, -⟩ := hd
      rw [hstat]
      rfl
    have hdir := isDir_leads h hsome hdev
    have hsame : resolvePath v.symlinks (childPath d ['.', '.']) =
        pathOf (leads v.symlinks (components d).dropLast) := by
      rw [resolvePath_eq (noRootLink h), components_childPath d hn.2, addPart, dif_neg hno, if_pos rfl]
    have htype : typeAt v (resolvePath v.symlinks (childPath d ['.', '.'])) = some .dir := by
      rw [hsame, typeAt_isDir h hdir]
    exact iff_of_true htype ⟨fun hdot => absurd hdot (by decide), hdevice, hspelled, fun _ _ hne => absurd rfl hne⟩

/-- What is above a special file. -/
theorem parentOf_of_isDevice {path : Path} (h : isDevice (absolute path)) :
    parentOf (normalizePath path) = "/dev".toList := by
  rw [← normalizePath_absolute]
  rcases h with h | h | h <;> rw [h] <;> decide +kernel

/-- **Tables that are in step make `readdir` and `stat` agree where they can.** -/
theorem coherentAt_of_good (h : Good v) : CoherentAt v where
  lists_iff := by
    intro d n hd hn
    by_cases hcomponent : IsComponent n
    · exact lists_component h d ⟨n, hcomponent⟩
    · exact lists_dots h hd hn hcomponent
  hasParent_iff := by
    intro path follow hsome
    by_cases hdevice : isDevice (absolute path)
    · -- a special file is found whether `/dev` is there or not
      have hparent := parentOf_of_isDevice hdevice
      have habove : ¬ isDevice "/dev".toList := by decide
      have habsolute : absolute "/dev".toList = "/dev".toList := rfl
      have hstat : (stat v "/dev".toList true).map Stat.type =
          (statResolved v "/dev".toList (resolvePath v.symlinks "/dev".toList)).map Stat.type := by
        unfold stat
        dsimp only
        rw [habsolute, if_neg habove]
        cases v.symlinks.get? "/dev".toList <;> rfl
      have hplaceable : HasParent v path ↔
          v.whiteouts.has (resolvePath v.symlinks "/dev".toList) = false ∧
            v.files.has (resolvePath v.symlinks "/dev".toList) = false ∧
              (v.dirs.has (resolvePath v.symlinks "/dev".toList) = true ∨ v.dirs.has "/dev".toList = true) := by
        rw [HasParent, IsDirectory, hparent, hstat, type_statResolved]
        split_ifs <;> simp_all
      rw [hplaceable]
      refine ⟨fun hdir => ⟨?_, fun _ => hdir⟩, fun hp => hp.special hdevice⟩
      rw [hparent]
      exact habove
    · by_cases habove : isDevice (parentOf (normalizePath path))
      · -- below a special file there is one above, whatever the tree has
        refine iff_of_false (fun hparent => ?_) fun hp => hp.above habove
        have habsolute : isDevice (absolute (parentOf (normalizePath path))) := by
          rw [parentOf_normalizePath, absolute_pathOf, ← parentOf_normalizePath]
          exact habove
        rw [HasParent, IsDirectory, type_stat_device habsolute] at hparent
        cases hparent
      · refine iff_of_true ?_ ⟨habove, fun hspecial => absurd hspecial hdevice⟩
        rw [HasParent, IsDirectory, parentOf_normalizePath]
        rw [parentOf_normalizePath] at habove
        exact type_stat_isDir h (isDir_leads h hsome hdevice) habove

end Looking


/-! ### Operations -/

/-- The operations that change the tree, and `write`. -/
inductive Op where
  | loadTar (entries : List TarEntry)
  | addFile (path : Path) (bytes : List UInt8)
  | open (path : Path) (flags mode : Int32)
  | mkdir (path : Path)
  | unlink (path : Path)
  | rmdir (path : Path)
  | createSymlink (text linkpath : Path)
  | rename (source goal : Path)
  | write (fd : ℤ) (src : List UInt8) (offset : ℤ)

/-- The filesystem after an operation. -/
def after (limit : ℕ) (v : Vfs) : Op → Vfs
  | .loadTar entries => loadTar v entries
  | .addFile path bytes => addFile v path bytes
  | .open path flags mode => (openFile v path flags mode).1
  | .mkdir path => mkdir v path
  | .unlink path => unlink v path
  | .rmdir path => rmdir v path
  | .createSymlink text linkpath => createSymlink v text linkpath
  | .rename source goal => rename v source goal
  | .write fd src offset => (writeFile limit v fd src offset).1

/-- The step relation. -/
def Step (limit : ℕ) (v : Vfs) (op : Op) (v' : Vfs) : Prop := v' = after limit v op

/-! #### Archives -/

/-- What an entry of an archive is taken for. -/
inductive EntryKind where
  | skipped
  | dir
  | link
  | file
deriving DecidableEq

/-- The tests of `loadTar`. -/
def entryKind (entry : TarEntry) : EntryKind :=
  let name := tarName entry.name
  if name = [] ∨ name = ['/'] then .skipped
  else if entry.type = ['5'] ∨ (entry.type = [] ∧ name.getLast? = some '/') then .dir
  else if entry.type = ['2'] then .link
  else if entry.type = ['0'] ∨ entry.type = [] then .file
  else .skipped

/-- A file may be put at a path: it is no directory, and what is above may be directories. -/
def Fits (t : Tables Component) (p : List Component) : Prop := p ≠ [] ∧ Clear t p ∧ (t.dir p → t.link p)

/-- The condition on an entry: its path is normalized and not hidden, a directory and a link lie in a
directory that is made or promised, there is nothing below a link, and a file fits. -/
def EntryKeeps (t : Tables Component) (X : List Component → Prop) (entry : TarEntry) : Prop :=
  entryKind entry ≠ .skipped → ∃ p, tarName entry.name = pathOf p ∧
    match entryKind entry with
    | .skipped => True
    | .dir => t.dir p ∨ (¬ t.hidden p ∧ ¬ t.file p ∧ Placed t X p)
    | .link => ¬ t.hidden p ∧ Placed t X p ∧ Bare t p
    | .file => ¬ t.hidden p ∧ Fits t p

/-- The directories that an entry makes. -/
def Promised (entry : TarEntry) (d : List Component) : Prop :=
  ∃ p, tarName entry.name = pathOf p ∧
    (entryKind entry = .dir ∧ d = p ∨ entryKind entry = .file ∧ Above d p)

/-- The condition on an archive, entry by entry.  A directory may come after what lies in it. -/
def TarKeeps (X : List Component → Prop) : Vfs → List TarEntry → Prop
  | _, [] => True
  | v, entry :: entries => EntryKeeps (tables v) X entry ∧ TarKeeps X (loadEntry v entry) entries

/-! #### The condition -/

/-- The opening makes a file. -/
def Creates (v : Vfs) (path : Path) (flags : Int32) : Prop :=
  ¬ isDevice (absolute path) ∧ hasFlag flags oCreat = true ∧ hasFlag flags oDirectory = false ∧
    v.files.has (resolvePath v.symlinks (absolute path)) = false ∧
      ¬ (hasFlag flags oExcl = true ∧ v.dirs.has (resolvePath v.symlinks (absolute path)) = true)

/-- The write puts a longer buffer under the path that the file was opened by. -/
def Grows (limit : ℕ) (v : Vfs) (fd : ℤ) (src : List UInt8) (offset : ℤ) (path : Path) : Prop :=
  ∃ file content, v.openFiles.get? fd = some file ∧ file.special ≠ some .null ∧ file.content = some content ∧
    (bytesOf v content).length <
      (if file.append then ((bytesOf v content).length : ℤ) else offset) + src.length ∧
    (if file.append then ((bytesOf v content).length : ℤ) else offset) + src.length ≤ limit ∧ path = file.path

/-- What gets another path meets what it takes, and what keeps its path is a directory. -/
def RenameKeeps (t : Tables Component) (s u : List Component) : Prop :=
  if s = u then IsDir t s ∧ ¬ t.file s else Movable t s u

/-- The condition. -/
def Keeps (limit : ℕ) (v : Vfs) : Op → Prop
  | .loadTar entries => TarKeeps (fun d => ∃ entry ∈ entries, Promised entry d) v entries
  | .addFile path _ => ∃ p, absolute path = pathOf p ∧ Fits (tables v) p
  | .open path flags _ =>
    Creates v path flags → Fits (tables v) (components (resolvePath v.symlinks (absolute path)))
  | .mkdir path =>
    Clear (tables v) (components path) ∧
      ((tables v).file (components path) → (tables v).link (components path)) ∧
        ((tables v).dir (components path) → ¬ (tables v).hidden (components path))
  | .unlink path => Childless (tables v) (components path)
  | .rmdir path => ¬ (tables v).link (components path) ∧ Childless (tables v) (components path)
  | .createSymlink _ linkpath =>
    components linkpath ≠ [] ∧ Placed (tables v) (fun _ => False) (components linkpath) ∧
      Bare (tables v) (components linkpath)
  | .rename source goal => RenameKeeps (tables v) (components source) (components goal)
  | .write fd src offset =>
    ∀ path, Grows limit v fd src offset path → v.files.has path = true ∨ v.whiteouts.has path = true

/-! ### What operations keep -/

section Steps

variable {v : Vfs}

theorem good_addFile (h : Good v) {p : List Component} (hfits : Fits (tables v) p) (bytes : List UInt8) :
    Good (addFile v (pathOf p) bytes) := by
  obtain ⟨hp, hclear, hdir⟩ := hfits
  refine ⟨h.keys.addFile p bytes, ?_⟩
  rw [tables_addFile v hp]
  exact h.whole.putFile hp hclear hdir

theorem good_createFile (h : Good v) {p : List Component} (hfits : Fits (tables v) p) (mode : Int32) :
    Good (createFile v (pathOf p) mode).1 := by
  obtain ⟨hp, hclear, hdir⟩ := hfits
  refine ⟨h.keys.createFile p mode, ?_⟩
  rw [tables_createFile v hp]
  exact h.whole.putFile hp hclear hdir

/-- Another buffer for a file. -/
theorem Good.setFile (h : Good v) {path : Path} (content : Buf) (buffers : List (List UInt8))
    (openFiles : JsMap ℤ OpenFile) (hpath : v.files.has path = true ∨ v.whiteouts.has path = true) :
    Good { v with buffers, openFiles, files := v.files.set path content } := by
  have htables : tables { v with buffers, openFiles, files := v.files.set path content } =
      { tables v with file := fun q => pathOf q = path ∨ (tables v).file q } := by
    ext q m
    · simp only [tables, JsMap.has_set]
    · rfl
    · rfl
    · rfl
    · rfl
  refine ⟨⟨h.keys.dirs, h.keys.symlinks, h.keys.names⟩, ?_⟩
  rw [htables]
  refine h.whole.addHidden (fun q hq => Or.inr hq) ?_
  rintro q (rfl | hq)
  · exact hpath
  · exact Or.inl hq

/-- Changes of the buffers and the open files. -/
theorem Good.congr (h : Good v) (buffers : List (List UInt8)) (openFiles : JsMap ℤ OpenFile) (nextFd : ℤ) :
    Good { v with buffers, openFiles, nextFd } :=
  ⟨⟨h.keys.dirs, h.keys.symlinks, h.keys.names⟩, h.whole⟩

/-! #### Opening and writing -/

theorem good_openContent (h : Good v) {p : List Component} {flags : Int32} (mode : Int32)
    (hfits : hasFlag flags oCreat = true → v.files.has (pathOf p) = false → Fits (tables v) p) :
    Good (openContent v (pathOf p) flags mode).1 := by
  have hcut : ∀ w : Vfs, Good w → w.files.has (pathOf p) = true → ∀ content,
      Good { (newBuffer w []).1 with files := w.files.set (pathOf p) content } :=
    fun w hw hhas content => hw.setFile content _ w.openFiles (Or.inl hhas)
  unfold openContent
  cases hget : v.files.get? (pathOf p) with
  | some content =>
      dsimp only
      split_ifs
      · exact hcut v h (JsMap.has_iff.2 ⟨content, hget⟩) _
      · exact h
  | none =>
      dsimp only
      by_cases hcreat : hasFlag flags oCreat = true
      · have hcreated := good_createFile h (hfits hcreat (JsMap.has_eq_false_iff.2 hget)) mode
        obtain ⟨dirs, children, metadata, hframe⟩ := createFile_frame v (pathOf p) mode
        have hhas : (createFile v (pathOf p) mode).1.files.has (pathOf p) = true := by
          rw [hframe]
          exact JsMap.has_set.2 (Or.inl rfl)
        rw [if_pos hcreat]
        dsimp only
        split_ifs
        · exact hcut _ hcreated hhas _
        · exact hcreated
      · rw [if_neg hcreat]
        dsimp only
        rw [if_neg fun h => Bool.false_ne_true h.1]
        exact h

theorem good_openFile (h : Good v) {path : Path} {flags : Int32} (mode : Int32)
    (hk : Creates v path flags → Fits (tables v) (components (resolvePath v.symlinks (absolute path)))) :
    Good (openFile v path flags mode).1 := by
  have hresolved : resolvePath v.symlinks (absolute path) =
      pathOf (leads v.symlinks (components (absolute path))) := resolvePath_eq (noRootLink h) _
  have hinstall : ∀ w : Vfs, Good w → ∀ file, Good (install w file).1 := fun w hw file =>
    hw.congr w.buffers _ _
  have hbuffer : Good (newBuffer v []).1 := h.congr _ v.openFiles v.nextFd
  unfold openFile
  dsimp only
  by_cases hnull : absolute path = "/dev/null".toList
  · rw [if_pos hnull]
    exact hinstall _ hbuffer _
  rw [if_neg hnull]
  by_cases hrandom : absolute path = "/dev/urandom".toList ∨ absolute path = "/dev/random".toList
  · rw [if_pos hrandom]
    exact hinstall _ hbuffer _
  rw [if_neg hrandom]
  have hdevice : ¬ isDevice (absolute path) := not_or.2 ⟨hnull, hrandom⟩
  unfold Creates at hk
  rw [hresolved, components_pathOf] at hk
  rw [hresolved]
  generalize leads v.symlinks (components (absolute path)) = p at hk ⊢
  by_cases hhidden : v.whiteouts.has (pathOf p) = true ∧ ¬ hasFlag flags oCreat = true
  · rw [if_pos hhidden]
    exact h
  rw [if_neg hhidden]
  by_cases hdir : hasFlag flags oDirectory = true
  · rw [if_pos hdir]
    split_ifs
    · exact hinstall v h _
    · exact h
  rw [if_neg hdir]
  by_cases hexcl : hasFlag flags oCreat = true ∧ hasFlag flags oExcl = true ∧
      (v.files.has (pathOf p) = true ∨ v.dirs.has (pathOf p) = true)
  · rw [if_pos hexcl]
    exact h
  rw [if_neg hexcl]
  have hcontent : Good (openContent v (pathOf p) flags mode).1 := by
    refine good_openContent h mode fun hcreat hno => hk ⟨hdevice, hcreat, Bool.eq_false_iff.2 hdir, hno, ?_⟩
    rintro ⟨hexcl', hthere⟩
    exact hexcl ⟨hcreat, hexcl', Or.inr hthere⟩
  cases (openContent v (pathOf p) flags mode).2 with
  | some content => exact hinstall _ hcontent _
  | none =>
      dsimp only
      split_ifs
      · exact hinstall _ hcontent _
      · exact hcontent

theorem good_storeBytes (h : Good v) (content : Buf) (src : List UInt8) (off : ℤ) :
    Good (storeBytes v content src off).1 := by
  unfold storeBytes
  split
  · exact h
  · exact h.congr _ v.openFiles v.nextFd

theorem good_growFile (h : Good v) (fd : ℤ) {path : Path} (bytes : List UInt8)
    (hpath : v.files.has path = true ∨ v.whiteouts.has path = true) : Good (growFile v fd path bytes).1 := by
  simp only [growFile, newBuffer, setContent, updateFile]
  cases v.openFiles.get? fd with
  | none => exact h.setFile _ _ v.openFiles hpath
  | some file => exact h.setFile _ _ _ hpath

theorem good_writeFile (h : Good v) {limit : ℕ} {fd : ℤ} {src : List UInt8} {offset : ℤ}
    (hk : ∀ path, Grows limit v fd src offset path → v.files.has path = true ∨ v.whiteouts.has path = true) :
    Good (writeFile limit v fd src offset).1 := by
  unfold writeFile
  cases hfile : v.openFiles.get? fd with
  | none => exact h
  | some file =>
      dsimp only
      by_cases hnull : file.special = some .null
      · rw [if_pos hnull]
        exact h
      rw [if_neg hnull]
      cases hcontent : file.content with
      | none => exact h
      | some content =>
          dsimp only
          have hgrows : ∀ off, off = (if file.append then ((bytesOf v content).length : ℤ) else offset) →
              (bytesOf v content).length < off + src.length → off + src.length ≤ limit →
                v.files.has file.path = true ∨ v.whiteouts.has file.path = true := by
            rintro off rfl hgrow hroom
            exact hk file.path ⟨file, content, hfile, hnull, hcontent, hgrow, hroom, rfl⟩
          generalize (if file.append then ((bytesOf v content).length : ℤ) else offset) = off at hgrows ⊢
          unfold writeContent
          dsimp only
          split_ifs with hgrow hroom
          · exact h
          · exact good_storeBytes (good_growFile h fd _ (hgrows off rfl hgrow (Int.not_lt.1 hroom))) _ _ _
          · exact good_storeBytes h _ _ _

/-! #### Archives -/

/-- The round of `loadTar` for an entry. -/
theorem loadEntry_cases (v : Vfs) (entry : TarEntry) :
    match entryKind entry with
    | .skipped => loadEntry v entry = v
    | .dir => loadEntry v entry = registerDir v (tarName entry.name)
    | .link =>
      loadEntry v entry = setLink v (tarTarget (tarName entry.name) entry.linkname) (tarName entry.name)
    | .file => ∃ buffers content, ∃ w : Vfs, w =
        addChild (registerParents { v with buffers, files := v.files.set (tarName entry.name) content }
          (tarName entry.name)) (tarName entry.name) ∧
        (loadEntry v entry = w ∨ ∃ metadata, loadEntry v entry = { w with metadata }) := by
  unfold entryKind loadEntry
  dsimp only
  by_cases hskip : tarName entry.name = [] ∨ tarName entry.name = ['/']
  · rw [if_pos hskip, if_pos hskip]
  rw [if_neg hskip, if_neg hskip]
  by_cases hdir : entry.type = ['5'] ∨ (entry.type = [] ∧ (tarName entry.name).getLast? = some '/')
  · rw [if_pos hdir, if_pos hdir]
  rw [if_neg hdir, if_neg hdir]
  by_cases hlink : entry.type = ['2']
  · rw [if_pos hlink, if_pos hlink]
  rw [if_neg hlink, if_neg hlink]
  by_cases hfile : entry.type = ['0'] ∨ entry.type = []
  · rw [if_pos hfile, if_pos hfile]
    refine ⟨v.buffers ++ [entry.bytes], v.buffers.length, _, rfl, ?_⟩
    dsimp only [newBuffer]
    generalize (if entry.mode.getD 0 = 0 then 0o755 else entry.mode.getD 0) = mode
    by_cases hmode : mode = 0o755
    · rw [if_pos hmode]
      exact Or.inl rfl
    · rw [if_neg hmode]
      exact Or.inr ⟨_, rfl⟩
  · rw [if_neg hfile, if_neg hfile]

theorem entryKind_root {entry : TarEntry} (h : tarName entry.name = pathOf []) : entryKind entry = .skipped := by
  have hroot : tarName entry.name = ['/'] := h
  unfold entryKind
  dsimp only
  rw [if_pos (Or.inr hroot)]

/-- The tables after an entry that meets the condition. -/
theorem entry_step (v : Vfs) (X : List Component → Prop) {entry : TarEntry} (hkeys : Keys v)
    (hw : Wf (tables v) X) (hk : EntryKeeps (tables v) X entry) :
    Keys (loadEntry v entry) ∧ Wf (tables (loadEntry v entry)) X ∧
      ∀ d, (tables v).dir d ∨ Promised entry d → (tables (loadEntry v entry)).dir d := by
  have hcases := loadEntry_cases v entry
  have hnot : entryKind entry = .skipped ∨ entryKind entry = .link → ∀ d, ¬ Promised entry d := by
    rintro hkind d ⟨p, -, ⟨hdir, -⟩ | ⟨hfile, -⟩⟩
    · rcases hkind with h | h <;> rw [h] at hdir <;> cases hdir
    · rcases hkind with h | h <;> rw [h] at hfile <;> cases hfile
  cases hkind : entryKind entry with
  -- only an archive's directories and files promise directories
  | skipped =>
      rw [hkind] at hcases
      rw [hcases]
      exact ⟨hkeys, hw, fun d hd => hd.resolve_right (hnot (Or.inl hkind) d)⟩
  | dir =>
      obtain ⟨p, hp, hcond⟩ := hk (by rw [hkind]; decide)
      rw [hkind] at hcases hcond
      rw [hp] at hcases
      rw [hcases, tables_registerDir]
      refine ⟨hkeys.registerDir p, ?_, ?_⟩
      · by_cases hthere : (tables v).dir p
        · -- entering a directory again changes nothing
          have hsame : enterDir (tables v) p = tables v := by
            ext q m
            · rfl
            · exact ⟨fun hq => hq.elim (fun e => e ▸ hthere) id, Or.inr⟩
            · rfl
            · rfl
            · exact ⟨fun hm => hm.resolve_right fun hm' => hm'.2 hthere, Or.inl⟩
          rw [hsame]
          exact hw
        · obtain ⟨hshown, hfile, hplaced⟩ := hcond.resolve_left hthere
          exact hw.enterDir hthere hshown hfile hplaced
      · rintro d (hd | ⟨q, hq, ⟨-, rfl⟩ | ⟨hfile, -⟩⟩)
        · exact Or.inr hd
        · exact Or.inl (pathOf_injective (hq.symm.trans hp))
        · rw [hkind] at hfile
          cases hfile
  | link =>
      obtain ⟨p, hp, hcond⟩ := hk (by rw [hkind]; decide)
      rw [hkind] at hcases hcond
      obtain ⟨hshown, hplaced, hbare⟩ := hcond
      have hne : p ≠ [] := by
        rintro rfl
        rw [entryKind_root hp] at hkind
        cases hkind
      have htables : tables (loadEntry v entry) = putLink (tables v) p := by
        rw [hcases, hp, tables_setLink]
        ext q m
        · rfl
        · rfl
        · rfl
        · refine ⟨fun hq => ⟨?_, hq⟩, fun hq => hq.2⟩
          rintro rfl
          exact hshown hq
        · rfl
      refine ⟨?_, ?_, ?_⟩
      · rw [hcases, hp]
        exact hkeys.setLink _ p
      · rw [htables]
        exact hw.putLink hne hplaced hbare
      · intro d hd
        rw [htables]
        exact Or.inr (hd.resolve_right (hnot (Or.inr hkind) d))
  | file =>
      obtain ⟨p, hp, hcond⟩ := hk (by rw [hkind]; decide)
      rw [hkind] at hcases hcond
      obtain ⟨hshown, hne, hclear, hdir⟩ := hcond
      obtain ⟨buffers, content, w, hw', hload⟩ := hcases
      rw [hp] at hw'
      have htables : tables (loadEntry v entry) = putFile (tables v) p := by
        have hbase : tables { v with buffers, files := v.files.set (pathOf p) content } =
            { tables v with file := fun q => q = p ∨ (tables v).file q } := by
          ext q m
          · simp only [tables, JsMap.has_set, pathOf_inj]
          · rfl
          · rfl
          · rfl
          · rfl
        -- what is registered above a file is what `putFile` enters
        have htw : tables w = putFile (tables v) p := by
          rw [hw', tables_enterPath _ hne, hbase]
          ext q m
          · rfl
          · rfl
          · rfl
          · refine ⟨fun hq => ⟨?_, hq⟩, fun hq => hq.2⟩
            rintro rfl
            exact hshown hq
          · simp only [enterAbove, putFile]
            grind
        -- the attributes of the entry are in no table
        rcases hload with hload | ⟨metadata, hload⟩
        · rw [hload, htw]
        · rw [hload]
          exact htw
      refine ⟨?_, ?_, ?_⟩
      · have hkw : Keys w := by
          rw [hw']
          refine (Keys.registerParents ?_ p).addChild p
          exact ⟨hkeys.dirs, hkeys.symlinks, hkeys.names⟩
        rcases hload with hload | ⟨metadata, hload⟩
        · rw [hload]
          exact hkw
        · rw [hload]
          exact ⟨hkw.dirs, hkw.symlinks, hkw.names⟩
      · rw [htables]
        exact hw.putFile hne hclear hdir
      · rw [htables]
        rintro d (hd | ⟨q, hq, ⟨hdir', -⟩ | ⟨-, habove⟩⟩)
        · exact Or.inr hd
        · rw [hkind] at hdir'
          cases hdir'
        · rw [pathOf_injective (hp.symm.trans hq)]
          exact Or.inl habove

theorem good_loadTar (h : Good v) {entries : List TarEntry}
    (hk : TarKeeps (fun d => ∃ entry ∈ entries, Promised entry d) v entries) : Good (loadTar v entries) := by
  have hrun : ∀ (X : List Component → Prop) (rest : List TarEntry) (w : Vfs), Keys w → Wf (tables w) X →
      TarKeeps X w rest → Keys (loadTar w rest) ∧ Wf (tables (loadTar w rest)) X ∧
        ∀ d, ((tables w).dir d ∨ ∃ entry ∈ rest, Promised entry d) → (tables (loadTar w rest)).dir d := by
    intro X rest
    induction rest with
    | nil =>
        intro w hkeys hw _
        refine ⟨hkeys, hw, fun d hd => hd.resolve_right ?_⟩
        rintro ⟨entry, hmem, -⟩
        cases hmem
    | cons entry rest ih =>
        rintro w hkeys hw ⟨hentry, hrest⟩
        obtain ⟨hkeys', hw', hdirs⟩ := entry_step w X hkeys hw hentry
        obtain ⟨hkeys'', hw'', hdirs'⟩ := ih (loadEntry w entry) hkeys' hw' hrest
        refine ⟨hkeys'', hw'', ?_⟩
        rintro d (hd | ⟨e, hmem, hpromised⟩)
        · exact hdirs' d (Or.inl (hdirs d (Or.inl hd)))
        · rcases List.mem_cons.1 hmem with rfl | hmem
          · exact hdirs' d (Or.inl (hdirs d (Or.inr hpromised)))
          · exact hdirs' d (Or.inr ⟨e, hmem, hpromised⟩)
  obtain ⟨hkeys, hw, hdirs⟩ := hrun _ entries v h.keys (h.whole.wf _) hk
  exact ⟨hkeys, hw.whole fun d hd => hdirs d (Or.inr hd)⟩

/-! #### Runs -/

theorem good_rename (h : Good v) {source goal : Path}
    (hk : RenameKeeps (tables v) (components source) (components goal)) : Good (rename v source goal) := by
  refine ⟨h.keys.rename source goal, ?_⟩
  unfold RenameKeeps at hk
  split_ifs at hk with heq
  · rw [tables_rename_self h.whole heq hk.1 hk.2]
    exact h.whole
  · rw [tables_rename_move h.whole hk]
    exact h.whole.move hk

/-- **An operation that meets the condition keeps the tables in step.** -/
theorem good_after {limit : ℕ} {op : Op} (h : Good v) (hk : Keeps limit v op) : Good (after limit v op) := by
  cases op with
  | loadTar entries => exact good_loadTar h hk
  | addFile path bytes =>
      obtain ⟨p, hp, hfits⟩ := hk
      have hsame : addFile v path bytes = addFile v (pathOf p) bytes := by
        rw [addFile, addFile, hp, absolute_pathOf]
      rw [after, hsame]
      exact good_addFile h hfits bytes
  | «open» path flags mode => exact good_openFile h mode hk
  | mkdir path =>
      obtain ⟨hclear, hfile, hdir⟩ := hk
      refine ⟨h.keys.mkdir path, ?_⟩
      rw [after, tables_mkdir]
      exact h.whole.makeDir hclear hfile hdir
  | unlink path =>
      refine ⟨h.keys.unlink path, ?_⟩
      rw [after, tables_unlink]
      exact h.whole.remove hk
  | rmdir path =>
      refine ⟨h.keys.rmdir path, ?_⟩
      rw [after, tables_rmdir]
      exact h.whole.removeDir hk.1 hk.2
  | createSymlink text linkpath =>
      obtain ⟨hp, hplaced, hbare⟩ := hk
      refine ⟨h.keys.createSymlink text linkpath, ?_⟩
      rw [after, tables_createSymlink]
      exact h.whole.putLink hp hplaced hbare
  | rename source goal => exact good_rename h hk
  | write fd src offset => exact good_writeFile h hk

end Steps

theorem good_newVfs : Good newVfs := by
  have hlive : ∀ p, ¬ Live (tables newVfs) p := by
    rintro p ⟨-, h | h | h⟩ <;> cases h
  constructor
  · constructor
    · intro path h
      cases h
    · intro path h
      cases h
    · intro d name h
      cases h
  · constructor
    · intro p h
      cases h
    · intro p h
      cases h
    · intro p h
      exact absurd h (hlive p)
    · intro d n
      refine iff_of_false (fun h => ?_) (hlive _)
      cases h
    · intro d n h
      exact absurd h (hlive _)
    · refine ⟨fun h => ?_, fun h => absurd h (hlive _)⟩
      cases h
    · intro p a h
      cases h

/-- **In every run whose operations meet the condition the tree is coherent, up to links and special files.** -/
theorem tree_of_meets {limit : ℕ} {tr : List (Op × Vfs)} (hrun : IsRun (Step limit) newVfs tr)
    (hk : Meets (Keeps limit) newVfs tr) : Throughout CoherentAt newVfs tr := by
  have hgood : Throughout Good newVfs tr := by
    refine throughout_of_meets ?_ good_newVfs hrun hk
    rintro v op v' h hkeeps rfl
    exact good_after h hkeeps
  exact hgood.mono fun _ h => coherentAt_of_good h

/-! #### Two runs -/

/-- There is nothing below a path that no key is below. -/
theorem bare_of_keys {v : Vfs} {p : List Component}
    (h : ∀ path ∈ v.files.keys ++ v.dirs.keys ++ v.symlinks.keys, ¬ p <+: components path) :
    Bare (tables v) p := by
  have hkey : ∀ q, Above p q → pathOf q ∉ v.files.keys ++ v.dirs.keys ++ v.symlinks.keys := by
    intro q habove hmem
    refine h _ hmem ?_
    rw [components_pathOf]
    exact habove.1
  simp only [List.mem_append, not_or, JsMap.mem_keys] at hkey
  intro q habove
  obtain ⟨⟨hfile, hdir⟩, hlink⟩ := hkey q habove
  refine ⟨?_, hdir⟩
  rintro ⟨-, hfile' | hdir' | hlink'⟩
  · exact hfile hfile'
  · exact hdir hdir'
  · exact hlink hlink'

/-- A file is made in a directory that is not there yet, a directory in the root, and a link to the first. -/
def fileAndDirectory : List Op :=
  [.addFile "/a/f".toList [1], .mkdir "/b".toList, .createSymlink "/a".toList "/l".toList]

theorem tree_of_meets_fileAndDirectory :
    Throughout CoherentAt newVfs (trace (after 4096) newVfs fileAndDirectory) := by
  refine tree_of_meets (isRun_trace _ _ _) ⟨?_, ?_, ?_, trivial⟩
  · refine ⟨components "/a/f".toList, by decide +kernel, by decide +kernel, ?_, ?_⟩
    · intro a _
      refine ⟨?_, ?_, ?_⟩ <;> intro h <;> cases h
    · intro h
      cases h
  · -- the root, which is all that is above, is neither hidden nor a link nor a file
    have hroot : (addFile newVfs "/a/f".toList [1]).whiteouts.has (pathOf []) = false ∧
        (addFile newVfs "/a/f".toList [1]).symlinks.has (pathOf []) = false ∧
        (addFile newVfs "/a/f".toList [1]).files.has (pathOf []) = false := by
      decide +kernel
    have hname : (addFile newVfs "/a/f".toList [1]).files.has (pathOf (components "/b".toList)) = false ∧
        (addFile newVfs "/a/f".toList [1]).dirs.has (pathOf (components "/b".toList)) = false := by
      decide +kernel
    refine ⟨fun a ha => ?_, fun h => ?_, fun h => ?_⟩
    · have hlength := ha.length_lt
      have hone : (components "/b".toList).length = 1 := by decide +kernel
      have hnil : a = [] := List.eq_nil_of_length_eq_zero (by omega)
      subst hnil
      exact ⟨Bool.eq_false_iff.1 hroot.1, Bool.eq_false_iff.1 hroot.2.1, Bool.eq_false_iff.1 hroot.2.2⟩
    · exact absurd h (Bool.eq_false_iff.1 hname.1)
    · exact absurd h (Bool.eq_false_iff.1 hname.2)
  · have hparts : components "/l".toList = [] ++ [⟨"l".toList, by decide⟩] := by decide +kernel
    have hroot : (mkdir (addFile newVfs "/a/f".toList [1]) "/b".toList).dirs.has (pathOf []) = true ∧
        (mkdir (addFile newVfs "/a/f".toList [1]) "/b".toList).whiteouts.has (pathOf []) = false ∧
        (mkdir (addFile newVfs "/a/f".toList [1]) "/b".toList).symlinks.has (pathOf []) = false := by
      decide +kernel
    refine ⟨by decide +kernel, fun d n hdn => ?_, bare_of_keys (by decide +kernel)⟩
    obtain ⟨rfl, -⟩ := append_inj_iff.1 (hparts.symm.trans hdn)
    exact ⟨Or.inl hroot.1, Bool.eq_false_iff.1 hroot.2.1, Bool.eq_false_iff.1 hroot.2.2⟩

/-- A directory is made, a file in it, and the directory is removed. -/
def removedAbove : List Op := [.mkdir "/d".toList, .addFile "/d/f".toList [1], .rmdir "/d".toList]

/-- The file is still found, and its directory is not. -/
theorem orphan_removedAbove :
    IsRun (Step 4096) newVfs (trace (after 4096) newVfs removedAbove) ∧
      ¬ Throughout Coherent newVfs (trace (after 4096) newVfs removedAbove) := by
  refine ⟨isRun_trace _ _ _, fun hall => ?_⟩
  have hparent := hall.final.parent "/d/f".toList true (by decide +kernel)
  unfold HasParent IsDirectory at hparent
  revert hparent
  decide +kernel

end TreeCoherence
