/-
**Names that end in a link.**

`unlink` and `rename` are about the entry that a path names: links above it are followed, and if it is a
link itself, that is what goes.  The handlers hand every path to `resolvePath` first, which follows the last
component too, so they remove or move what the link points to.  The link itself is only reached when the walk
ends there all the same, because its target is empty or because too many links have been followed.

Main definitions:

* `LinkNames.named`, `LinkNames.reached` — the entry that a path names, and the one the handlers get at;
* `LinkNames.Removed`, `LinkNames.MovedTo` — the link is removed or moved, and what it points to stays;
* `LinkNames.Unfound`, `LinkNames.Arrives` — what else the two operations need.

Main results:

* `LinkNames.removed_iff`, `LinkNames.movedTo_iff` — the two operations;
* `LinkNames.acts_on_link_iff` — **when they act on the link that a path names**.
-/

import AtuaComputer.RenameLaw
import AtuaComputer.Syscalls

set_option relaxedAutoImplicit false
set_option autoImplicit false

namespace LinkNames

open VirtualFs NameTree VfsTables RenameLaw Syscalls

/-! ### Entries -/

/-- The entry that a path names: the last component in the directory that the others lead to. -/
def named (v : Vfs) (path : Path) : List Component :=
  match (components path).getLast? with
  | none => []
  | some n => components (resolvePath v.symlinks (pathOf (components path).dropLast)) ++ [n]

/-- The entry that the handlers get at. -/
def reached (v : Vfs) (path : Path) : List Component := components (resolvePath v.symlinks (absolute path))

/-- The path has a last component, which is a link. -/
def NamesLink (v : Vfs) (path : Path) : Prop :=
  components path ≠ [] ∧ v.symlinks.has (pathOf (named v path)) = true

instance (v : Vfs) (path : Path) : Decidable (NamesLink v path) := inferInstanceAs (Decidable (_ ∧ _))

theorem NamesLink.ne_nil {v : Vfs} {path : Path} (h : NamesLink v path) : named v path ≠ [] := by
  unfold named
  cases hlast : (components path).getLast? with
  | none => exact absurd (List.getLast?_eq_none_iff.1 hlast) h.1
  | some n => simp

/-- The link that the path names is gone, what it points to is as it was, and `lstat` fails. -/
structure Removed (v v' : Vfs) (path : Path) : Prop where
  gone : objectAt v' (named v path) = none
  target : reached v path ≠ named v path → objectAt v' (reached v path) = objectAt v (reached v path)
  unfound : VirtualFs.stat v' path false = none

/-- The link is now what `q` named.  What it points to is as it was if `q` does not name that. -/
structure MovedTo (v v' : Vfs) (path q : Path) : Prop where
  arrived : objectAt v' (named v q) = objectAt v (named v path)
  gone : objectAt v' (named v path) = none
  target : reached v path ≠ named v path → reached v path ≠ named v q →
    objectAt v' (reached v path) = objectAt v (reached v path)
  unfound : VirtualFs.stat v' path false = none

/-! ### Where `lstat` fails -/

/-- With the links `links` and the given kinds of entries, nothing is at a path.  The last line of `stat`
looks for the path before it was resolved. -/
structure Unfound (links : JsMap Path Path) (hidden file dir : Path → Prop) (path : Path) : Prop where
  device : ¬ isDevice path
  link : links.get? path = none
  nothing : hidden (resolvePath links path) ∨
    ¬ file (resolvePath links path) ∧ ¬ dir (resolvePath links path) ∧ ¬ dir path

theorem stat_eq_none_iff {v : Vfs} {path : Path} :
    VirtualFs.stat v path false = none ↔
      Unfound v.symlinks (fun x => v.whiteouts.has x = true) (fun x => v.files.has x = true)
        (fun x => v.dirs.has x = true) (absolute path) := by
  constructor
  · intro h
    unfold VirtualFs.stat at h
    dsimp only at h
    have hdev : ¬ isDevice (absolute path) := by
      intro hdev
      rw [if_pos hdev] at h
      cases h
    rw [if_neg hdev] at h
    cases hlink : v.symlinks.get? (absolute path) with
    | some target => simp [hlink] at h
    | none =>
      rw [hlink] at h
      exact ⟨hdev, hlink, statResolved_eq_none_iff.1 h⟩
  · rintro ⟨hdev, hlink, hnothing⟩
    unfold VirtualFs.stat
    dsimp only
    rw [if_neg hdev, hlink]
    exact statResolved_eq_none_iff.2 hnothing

/-! ### Removing -/

theorem objectAt_link {v : Vfs} {p : List Component} {target : Path} (h : v.symlinks.get? (pathOf p) = some target) :
    objectAt v p = some (.symlink target (infoAt v (pathOf p))) := by
  unfold objectAt lookup
  rw [h]

/-- What `unlink` leaves of the maps that `lstat` looks at. -/
def UnfoundWithout (v : Vfs) (s : List Component) (path : Path) : Prop :=
  Unfound (v.symlinks.delete (pathOf s)) (fun x => x = pathOf s ∨ v.whiteouts.has x = true)
    (fun x => x ≠ pathOf s ∧ v.files.has x = true) (fun x => v.dirs.has x = true) (absolute path)

theorem removePath_frame (v : Vfs) (path : Path) :
    ∃ children, removePath v (absolute path) 0 =
      { v with
        files := v.files.delete (pathOf (reached v path))
        symlinks := v.symlinks.delete (pathOf (reached v path))
        metadata := v.metadata.delete (pathOf (reached v path))
        whiteouts := v.whiteouts.set (pathOf (reached v path)) ()
        children } := by
  obtain ⟨children, hframe⟩ := unlink_frame v (resolvePath v.symlinks (absolute path))
  have hflags : removePath v (absolute path) 0 = VirtualFs.unlink v (resolvePath v.symlinks (absolute path)) := rfl
  rw [normalizePath_eq] at hframe
  exact ⟨children, hflags.trans hframe⟩

/-- What the handler does not get at stays. -/
theorem objectAt_removePath {v : Vfs} {path : Path} {x : List Component} (hx : x ≠ reached v path) :
    objectAt (removePath v (absolute path) 0) x = objectAt v x := by
  obtain ⟨children, hframe⟩ := removePath_frame v path
  have hne : pathOf x ≠ pathOf (reached v path) := fun h => hx (pathOf_injective h)
  rw [hframe]
  refine objectAt_congr rfl (JsMap.get?_delete_ne hne) (JsMap.get?_delete_ne hne) ?_ ?_ rfl
  · unfold infoAt
    dsimp only
    rw [JsMap.get?_delete_ne hne]
  · rw [Bool.eq_iff_iff, JsMap.has_set]
    exact or_iff_right hne

theorem objectAt_removePath_reached (v : Vfs) (path : Path) :
    objectAt (removePath v (absolute path) 0) (reached v path) = none := by
  obtain ⟨children, hframe⟩ := removePath_frame v path
  rw [hframe]
  unfold objectAt lookup
  dsimp only
  rw [JsMap.get?_delete_self]
  dsimp only
  rw [if_pos (JsMap.has_set.2 (.inl rfl))]

theorem stat_removePath (v : Vfs) (path : Path) :
    VirtualFs.stat (removePath v (absolute path) 0) path false = none ↔ UnfoundWithout v (reached v path) path := by
  obtain ⟨children, hframe⟩ := removePath_frame v path
  rw [stat_eq_none_iff, hframe]
  dsimp only
  simp only [JsMap.has_set, JsMap.has_delete]
  exact Iff.rfl

/-- **`unlink` removes the link exactly when the handler gets at it**, and without it nothing is there. -/
theorem removed_iff {v : Vfs} {path : Path} (hlink : NamesLink v path) :
    Removed v (removePath v (absolute path) 0) path ↔
      reached v path = named v path ∧ UnfoundWithout v (named v path) path := by
  obtain ⟨target, htarget⟩ := JsMap.has_iff.1 hlink.2
  constructor
  · rintro ⟨hgone, -, hunfound⟩
    have hreached : reached v path = named v path := by
      by_contra hne
      rw [objectAt_removePath fun h => hne h.symm, objectAt_link htarget] at hgone
      cases hgone
    rw [stat_removePath, hreached] at hunfound
    exact ⟨hreached, hunfound⟩
  · rintro ⟨hreached, hunfound⟩
    refine ⟨?_, fun hne => absurd hreached hne, ?_⟩
    · rw [← hreached]
      exact objectAt_removePath_reached v path
    · rw [stat_removePath, hreached]
      exact hunfound

/-! ### Moving -/

/-- The directories after a rename: the entry has moved, and those above the new path have been entered. -/
def DirAfter (v : Vfs) (s u : List Component) (x : Path) : Prop :=
  x ≠ pathOf s ∧ v.dirs.has x = true ∨ x = pathOf u ∧ v.dirs.has (pathOf s) = true ∨ x ∈ parents (pathOf u)

/-- What `rename` leaves of the maps that `lstat` looks at. -/
def UnfoundAfter (v : Vfs) (s u : List Component) (path : Path) : Prop :=
  Unfound (moveKey v.symlinks (pathOf s) (pathOf u))
    (fun x => x ≠ pathOf u ∧ (x = pathOf s ∨ v.whiteouts.has x = true))
    (fun x => (moveKey v.files (pathOf s) (pathOf u)).has x = true) (DirAfter v s u) (absolute path)

/-- What a rename of the link `s` to the entry `u` needs, if the new path names `q`. -/
structure Arrives (v : Vfs) (s q u : List Component) : Prop where
  /-- The rename has two paths. -/
  two : q ≠ s
  /-- No metadata of the target shows through. -/
  info : u = q → v.metadata.has (pathOf s) = true ∨ infoAt v (pathOf q) = default
  /-- At another entry than the path names, such a link has to be there already. -/
  same : u ≠ q → objectAt v q = objectAt v s
  /-- If that is the link again, it is set and then deleted, which leaves a directory of the same name. -/
  self : u = s → v.dirs.has (pathOf s) = false

theorem has_dirs_foldl_registerDir (paths : List Path) (v : Vfs) (x : Path) :
    (paths.foldl registerDir v).dirs.has x = true ↔ x ∈ paths ∨ v.dirs.has x = true := by
  induction paths generalizing v with
  | nil => simp
  | cons path paths ih =>
    have hstep : (registerDir v path).dirs.has x = true ↔ x = path ∨ v.dirs.has x = true := by
      unfold registerDir
      split_ifs with hdir
      · exact (or_iff_right_of_imp fun h => h ▸ hdir).symm
      · dsimp only
        split <;> exact JsMap.has_set
    rw [List.foldl_cons, ih, hstep, List.mem_cons]
    tauto

theorem has_dirs_renamed (v : Vfs) (source goal x : Path) :
    (rename v source goal).dirs.has x = true ↔ DirAfter v (components source) (components goal) x := by
  rw [rename_eq, normalizePath_eq, normalizePath_eq]
  show (entered v (pathOf (components source)) (pathOf (components goal))).dirs.has x = true ↔ _
  obtain ⟨children, hremove⟩ := removeChild_frame
    { moved v (pathOf (components source)) (pathOf (components goal)) with
      metadata := moveKey (moved v (pathOf (components source)) (pathOf (components goal))).metadata
        (pathOf (components source)) (pathOf (components goal)) } (pathOf (components source))
  unfold entered registerParents
  rw [has_dirs_foldl_registerDir, hremove]
  show _ ∨ (moved v _ _).dirs.has x = true ↔ _
  rw [has_dirs_moved]
  unfold DirAfter
  tauto

theorem stat_renamePath (v : Vfs) (path q : Path) :
    VirtualFs.stat (renamePath v (absolute path) (absolute q)) path false = none ↔
      UnfoundAfter v (reached v path) (reached v q) path := by
  obtain ⟨dirs, children, hframe⟩ :=
    rename_frame v (resolvePath v.symlinks (absolute path)) (resolvePath v.symlinks (absolute q))
  have hdirs := has_dirs_renamed v (resolvePath v.symlinks (absolute path)) (resolvePath v.symlinks (absolute q))
  rw [normalizePath_eq, normalizePath_eq] at hframe
  rw [hframe] at hdirs
  have hname : renamePath v (absolute path) (absolute q) =
      rename v (resolvePath v.symlinks (absolute path)) (resolvePath v.symlinks (absolute q)) := rfl
  rw [stat_eq_none_iff, hname, hframe]
  dsimp only at hdirs ⊢
  simp only [hdirs, JsMap.has_delete, JsMap.has_set]
  exact Iff.rfl

section Moving

variable {v v' : Vfs} {s u q : List Component}

/-- The link is gone, unless it is set again. -/
theorem objectAt_moved_source (hm : Maps v v' s u) (hs : s ≠ []) :
    objectAt v' s = none ↔ (u = s → v.dirs.has (pathOf s) = false) := by
  by_cases hne : s = u
  · subst hne
    have hlink : v'.symlinks.get? (pathOf s) = none := by rw [hm.symlinks, if_pos rfl]
    have hfile : v'.files.get? (pathOf s) = none := by rw [hm.files, if_pos rfl]
    have hwhite : v'.whiteouts.has (pathOf s) = false := by
      rw [Bool.eq_false_iff]
      exact fun h => ((hm.whiteouts s).1 h).1 rfl
    have hdir : v'.dirs.has (pathOf s) = true ↔ v.dirs.has (pathOf s) = true := by
      rw [hm.dirs]
      have hself := not_above_self s
      tauto
    unfold objectAt lookup
    rw [hlink, hfile, hwhite, Bool.eq_iff_iff.2 hdir]
    cases v.dirs.has (pathOf s) <;> simp
  · exact iff_of_true (hm.objectAt_source hne) fun h => absurd h.symm hne

/-- A link at a place that the rename does not touch stays, and no other comes there. -/
theorem objectAt_eq_link_iff (hm : Maps v v' s u) (hs : q ≠ s) (hu : q ≠ u) (target : Path) (info : Meta) :
    objectAt v' q = some (.symlink target info) ↔ objectAt v q = some (.symlink target info) := by
  have hlink : v'.symlinks.get? (pathOf q) = v.symlinks.get? (pathOf q) := by rw [hm.symlinks, if_neg hs, if_neg hu]
  have hinfo : infoAt v' (pathOf q) = infoAt v (pathOf q) := by
    rw [infoAt, hm.metadata, if_neg hs, if_neg hu, infoAt]
  have hno (w : Vfs) (h : w.symlinks.get? (pathOf q) = none) : objectAt w q ≠ some (.symlink target info) := by
    unfold objectAt lookup
    rw [h]
    dsimp only
    cases w.files.get? (pathOf q) with
    | some content =>
      dsimp only
      split_ifs <;> simp
    | none =>
      dsimp only
      split_ifs <;> simp
  cases hget : v.symlinks.get? (pathOf q) with
  | some text => rw [objectAt_link hget, objectAt_link (hlink.trans hget), hinfo]
  | none => exact iff_of_false (hno v' (hlink.trans hget)) (hno v hget)

/-- The link arrives. -/
theorem objectAt_moved_goal (hm : Maps v v' s u) (hlink : v.symlinks.has (pathOf s) = true) (hqs : q ≠ s) :
    objectAt v' q = objectAt v s ↔
      (u = q → v.metadata.has (pathOf s) = true ∨ infoAt v (pathOf q) = default) ∧
        (u ≠ q → objectAt v q = objectAt v s) := by
  obtain ⟨target, htarget⟩ := JsMap.has_iff.1 hlink
  have hobject := objectAt_link htarget
  by_cases huq : u = q
  · subst huq
    have hfound : objectAt v s ≠ none := by
      rw [hobject]
      exact nofun
    rw [hm.objectAt_goal (fun h => hqs h.symm) hfound]
    constructor
    · rintro ⟨hinfo, -, -⟩
      exact ⟨fun _ => hinfo, fun h => absurd rfl h⟩
    · rintro ⟨hinfo, -⟩
      exact ⟨hinfo rfl, .inl hlink, .inl hlink⟩
  · rw [hobject, objectAt_eq_link_iff hm hqs fun h => huq h.symm]
    exact ⟨fun h => ⟨fun e => absurd e huq, fun _ => h⟩, fun h => h.2 huq⟩

/-- A link that is not the source stays, whatever comes to its place. -/
theorem objectAt_moved_link (hm : Maps v v' s u) {p : List Component} (hp : v.symlinks.has (pathOf p) = true)
    (hne : p ≠ s) : objectAt v' p ≠ none := by
  obtain ⟨target, htarget⟩ := JsMap.has_iff.1 hp
  have hstill : ∃ text, v'.symlinks.get? (pathOf p) = some text := by
    rw [hm.symlinks, if_neg hne, htarget]
    split_ifs with hu
    · rw [← hu, htarget]
      cases v.symlinks.get? (pathOf s) with
      | some text => exact ⟨text, rfl⟩
      | none => exact ⟨target, rfl⟩
    · exact ⟨target, rfl⟩
  obtain ⟨text, htext⟩ := hstill
  rw [objectAt_link htext]
  exact nofun

end Moving

/-- **`rename` moves the link exactly when the handler gets at it**, it arrives, and without it nothing is
there. -/
theorem movedTo_iff {v : Vfs} {path : Path} (hlink : NamesLink v path) (q : Path) :
    MovedTo v (renamePath v (absolute path) (absolute q)) path q ↔
      reached v path = named v path ∧ Arrives v (named v path) (named v q) (reached v q) ∧
        UnfoundAfter v (named v path) (reached v q) path := by
  have hm : Maps v (renamePath v (absolute path) (absolute q)) (reached v path) (reached v q) :=
    maps_rename v (resolvePath v.symlinks (absolute path)) (resolvePath v.symlinks (absolute q))
  have hstat := stat_renamePath v path q
  obtain ⟨target, htarget⟩ := JsMap.has_iff.1 hlink.2
  constructor
  · rintro ⟨harrived, hgone, -, hunfound⟩
    have hreached : reached v path = named v path := by
      by_contra hne
      exact objectAt_moved_link hm hlink.2 (fun h => hne h.symm) hgone
    have htwo : named v q ≠ named v path := by
      intro h
      rw [h, hgone, objectAt_link htarget] at harrived
      cases harrived
    rw [hreached] at hm hstat
    obtain ⟨hinfo, hsame⟩ := (objectAt_moved_goal hm hlink.2 htwo).1 harrived
    exact ⟨hreached, ⟨htwo, hinfo, hsame, (objectAt_moved_source hm hlink.ne_nil).1 hgone⟩,
      hstat.1 hunfound⟩
  · rintro ⟨hreached, ⟨htwo, hinfo, hsame, hself⟩, hunfound⟩
    rw [hreached] at hm hstat
    exact ⟨(objectAt_moved_goal hm hlink.2 htwo).2 ⟨hinfo, hsame⟩,
      (objectAt_moved_source hm hlink.ne_nil).2 hself, fun hne => absurd hreached hne, hstat.2 hunfound⟩

/-- **The law of links in names.**  For every state and every path that ends in a link, `unlink` removes the
link, and `rename` moves it to any other path, exactly when the walk of `resolvePath` ends at the link itself,
a moved link arrives where the other path says, and without the link the walk finds nothing. -/
theorem acts_on_link_iff {v : Vfs} {path : Path} (hlink : NamesLink v path) :
    (Removed v (removePath v (absolute path) 0) path ↔
      reached v path = named v path ∧ UnfoundWithout v (named v path) path) ∧
    ∀ q, MovedTo v (renamePath v (absolute path) (absolute q)) path q ↔
      reached v path = named v path ∧ Arrives v (named v path) (named v q) (reached v q) ∧
        UnfoundAfter v (named v path) (reached v q) path :=
  ⟨removed_iff hlink, movedTo_iff hlink⟩

/-- A link to a file. -/
def linkToFile : Vfs := createSymlink (addFile newVfs "/t".toList [1]) "/t".toList "/l".toList

theorem namesLink_linkToFile : NamesLink linkToFile "/l".toList := by decide +kernel

/-- **`unlink` of a link removes the file.** -/
theorem not_acts_on_link_toFile :
    ¬ ∀ (v : Vfs) (path : Path), NamesLink v path →
      Removed v (removePath v (absolute path) 0) path ∧
        ∀ q, named v q ≠ named v path → MovedTo v (renamePath v (absolute path) (absolute q)) path q := by
  intro h
  have hgone := (h linkToFile "/l".toList namesLink_linkToFile).1.gone
  have hstill : (objectAt (removePath linkToFile (absolute "/l".toList) 0)
      (named linkToFile "/l".toList)).isSome = true := by decide +kernel
  rw [hgone] at hstill
  cases hstill

/-- A link without a text, at which the walk ends. -/
def linkToNothing : Vfs := createSymlink newVfs [] "/l".toList

theorem namesLink_linkToNothing : NamesLink linkToNothing "/l".toList := by decide +kernel

/-- The link to the file stays when its name is removed; the one to nothing goes, and moves. -/
theorem acts_on_link_iff_links :
    ¬ Removed linkToFile (removePath linkToFile (absolute "/l".toList) 0) "/l".toList ∧
      Removed linkToNothing (removePath linkToNothing (absolute "/l".toList) 0) "/l".toList ∧
        MovedTo linkToNothing (renamePath linkToNothing (absolute "/l".toList) (absolute "/m".toList)) "/l".toList
          "/m".toList := by
  refine ⟨fun h => ?_, ?_, ?_⟩
  · have hreached := ((acts_on_link_iff namesLink_linkToFile).1.1 h).1
    revert hreached
    decide +kernel
  · refine (acts_on_link_iff namesLink_linkToNothing).1.2 ⟨by decide +kernel, ?_⟩
    exact ⟨by decide +kernel, by decide +kernel, .inl (.inl (by decide +kernel))⟩
  · refine ((acts_on_link_iff namesLink_linkToNothing).2 _).2 ⟨by decide +kernel, ?_, ?_⟩
    · exact ⟨by decide +kernel, fun _ => .inr (by decide +kernel), fun h => absurd (by decide +kernel) h,
        fun h => absurd h (by decide +kernel)⟩
    · exact ⟨by decide +kernel, by decide +kernel, .inl ⟨by decide +kernel, .inl (by decide +kernel)⟩⟩

end LinkNames
