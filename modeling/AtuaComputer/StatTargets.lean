/-
**What a path leads to.**

`stat` follows links to their end and reports what is there.  The code looks in the maps at the path that
`resolvePath` gives, which need not be an end: the walk is cut off after 41 links, and a link without a target
is an end of its own.  Every link is recorded as a directory too, and if nothing is found at the resolved path
the path itself is looked for among the directories; so a dangling link is a directory.  And the special files
are recognized by the path before it is resolved.

Main definitions:

* `StatTargets.Leads` — the end of a chain of links, however long;
* `StatTargets.objectAtEnd` — what is there;
* `StatTargets.Follows` — `stat` reports that;
* `StatTargets.Sound` — the condition.

Main results:

* `StatTargets.Leads.unique`, `StatTargets.leads_resolvePath` — a path has one end, and if the walk is not cut
  off, that is what it gives;
* `StatTargets.follows_iff` — **when `stat` reports what a path leads to**.
-/

import AtuaComputer.RenameLaw
import AtuaComputer.Resolution

set_option relaxedAutoImplicit false
set_option autoImplicit false

namespace StatTargets

open VirtualFs Resolution

/-! ### Chains of links -/

/-- The chain of links from a path ends: no part of the last path is a link that counts. -/
inductive Leads (symlinks : JsMap Path Path) : Path → Path → Prop
  | here {path : Path} :
      symlinks.size = 0 ∨ firstLink symlinks ((normalizePath path).splitOn '/') = none →
        Leads symlinks path (normalizePath path)
  | follow {path target last : Path} {rest : List Path} :
      symlinks.size ≠ 0 → firstLink symlinks ((normalizePath path).splitOn '/') = some (target, rest) →
        Leads symlinks (descend target rest) last → Leads symlinks path last

section Chains

variable {symlinks : JsMap Path Path}

/-- **A path has one end.** -/
theorem Leads.unique {path last last' : Path} (h : Leads symlinks path last) (h' : Leads symlinks path last') :
    last' = last := by
  induction h with
  | here hstop =>
      cases h' with
      | here => rfl
      | follow hsize hlink _ =>
          obtain hstop | hstop := hstop
          · exact absurd hstop hsize
          · rw [hlink] at hstop
            cases hstop
  | follow hsize hlink _ ih =>
      cases h' with
      | here hstop =>
          obtain hstop | hstop := hstop
          · exact absurd hstop hsize
          · rw [hlink] at hstop
            cases hstop
      | follow _ hlink' hrest =>
          rw [hlink] at hlink'
          obtain ⟨rfl, rfl⟩ := Prod.mk.inj (Option.some.inj hlink')
          exact ih hrest

/-- There is no link in a path. -/
def Free (symlinks : JsMap Path Path) (path : Path) : Prop :=
  symlinks.size = 0 ∨ firstLink symlinks (path.splitOn '/') = none

instance (path : Path) : Decidable (Free symlinks path) := inferInstanceAs (Decidable (_ ∨ _ = none))

theorem leads_of_resolves {path result : Path} {depth last : ℕ} (h : Resolves symlinks path depth result last)
    (hfree : Free symlinks result) : Leads symlinks path result := by
  induction h with
  | stop => exact .here hfree
  | follow hsize _ hlink _ ih => exact .follow hsize hlink (ih hfree)

/-- **If the walk is not cut off, it gives the end.** -/
theorem leads_resolvePath {path : Path} (hfree : Free symlinks (resolvePath symlinks path)) :
    Leads symlinks path (resolvePath symlinks path) := by
  obtain ⟨last, h⟩ := @resolves_resolvePath symlinks path
  exact leads_of_resolves h hfree

end Chains

/-! ### Objects -/

/-- What `stat` reports of an object, without the metadata. -/
def kind (info : Stat) : NodeType × ℕ := (info.type, info.size)

/-- What is at a path that no link leads on from.  A link there has no target. -/
def objectAtEnd (v : Vfs) (path : Path) : Option (NodeType × ℕ) :=
  if isDevice path then some (.chardev, 0)
  else if v.symlinks.has path then none
  else if v.whiteouts.has path then none
  else
    match v.files.get? path with
    | some content => some (.file, (bytesOf v content).length)
    | none => if v.dirs.has path then some (.dir, 0) else none

/-- `stat` reports what the path leads to, and fails where it leads nowhere. -/
structure Follows (v : Vfs) (path : Path) : Prop where
  found : ∀ last, Leads v.symlinks (absolute path) last →
    (VirtualFs.stat v path true).map kind = objectAtEnd v last
  cycle : (¬ ∃ last, Leads v.symlinks (absolute path) last) → VirtualFs.stat v path true = none

/-- The map of directories has an entry for the resolved path or for the path itself, or there is a file. -/
def Entered (v : Vfs) (path resolved : Path) : Prop :=
  v.files.has resolved = true ∨ v.dirs.has resolved = true ∨ v.dirs.has path = true

/-- What the condition says of a path whose links are all followed. -/
structure SoundAt (v : Vfs) (path resolved : Path) : Prop where
  /-- A special file that a link leads to is not recognized. -/
  device : ¬ isDevice resolved
  /-- A link without a target is hidden, or not recorded as a directory. -/
  link : v.symlinks.has resolved = true → v.whiteouts.has resolved = true ∨ ¬ Entered v path resolved
  /-- Where nothing is, the path itself is not recorded as a directory. -/
  fallback : v.symlinks.has resolved = false → v.whiteouts.has resolved = false →
    v.files.has resolved = false → v.dirs.has resolved = false → v.dirs.has path = false

/-- The maps at `resolved` happen to be like what is at the end. -/
def Alike (v : Vfs) (path resolved last : Path) : Prop :=
  match objectAtEnd v last with
  | none => v.whiteouts.has resolved = true ∨ ¬ Entered v path resolved
  | some (.file, n) =>
    v.whiteouts.has resolved = false ∧ (v.files.get? resolved).map (fun c => (bytesOf v c).length) = some n
  | some (.dir, _) =>
    v.whiteouts.has resolved = false ∧ v.files.has resolved = false ∧
      (v.dirs.has resolved = true ∨ v.dirs.has path = true)
  | some _ => False

/-- The condition. -/
structure Sound (v : Vfs) (path : Path) : Prop where
  /-- What has the name of a special file leads to one. -/
  device : isDevice (absolute path) → ∃ last, Leads v.symlinks (absolute path) last ∧ isDevice last
  target : ¬ isDevice (absolute path) → Free v.symlinks (resolvePath v.symlinks (absolute path)) →
    SoundAt v (absolute path) (resolvePath v.symlinks (absolute path))
  /-- Where the walk is cut off in a cycle, nothing is in the maps. -/
  cycle : ¬ isDevice (absolute path) → (¬ ∃ last, Leads v.symlinks (absolute path) last) →
    v.whiteouts.has (resolvePath v.symlinks (absolute path)) = true ∨
      ¬ Entered v (absolute path) (resolvePath v.symlinks (absolute path))
  /-- Where a longer chain is cut off, there is by chance what is at its end. -/
  long : ¬ isDevice (absolute path) → ¬ Free v.symlinks (resolvePath v.symlinks (absolute path)) →
    ∀ last, Leads v.symlinks (absolute path) last →
      Alike v (absolute path) (resolvePath v.symlinks (absolute path)) last

/-! ### The law -/

theorem statResolved_eq_none {v : Vfs} {path resolved : Path} :
    statResolved v path resolved = none ↔ v.whiteouts.has resolved = true ∨ ¬ Entered v path resolved := by
  rw [RenameLaw.statResolved_eq_none_iff]
  unfold Entered
  tauto

theorem kind_statResolved (v : Vfs) (path resolved : Path) :
    (statResolved v path resolved).map kind =
      if v.whiteouts.has resolved then none
      else
        match v.files.get? resolved with
        | some content => some (.file, (bytesOf v content).length)
        | none => if v.dirs.has resolved = true ∨ v.dirs.has path = true then some (.dir, 0) else none := by
  unfold statResolved
  dsimp only
  by_cases hwhite : v.whiteouts.has resolved = true
  · rw [if_pos hwhite, if_pos hwhite, Option.map_none]
  · rw [if_neg hwhite, if_neg hwhite]
    cases v.files.get? resolved with
    | some content => rfl
    | none =>
        dsimp only
        by_cases hdir : v.dirs.has resolved = true
        · rw [if_pos hdir, if_pos (.inl hdir)]
          rfl
        · rw [if_neg hdir]
          by_cases hpath : v.dirs.has path = true
          · rw [if_pos hpath, if_pos (.inr hpath)]
            rfl
          · rw [if_neg hpath, if_neg (by tauto)]
            rfl

/-- The maps have files and directories only. -/
theorem ne_chardev (file : Option Buf) (size : Buf → ℕ) (c : Prop) [Decidable c] (n : ℕ) :
    (match file with
      | some content => some (NodeType.file, size content)
      | none => if c then some (NodeType.dir, 0) else none) ≠ some (.chardev, n) := by
  cases file with
  | some content => exact nofun
  | none =>
      dsimp only
      split_ifs <;> exact nofun

theorem isDevice_of_objectAtEnd {v : Vfs} {path : Path} {n : ℕ} (h : objectAtEnd v path = some (.chardev, n)) :
    isDevice path := by
  by_contra hdev
  unfold objectAtEnd at h
  rw [if_neg hdev] at h
  by_cases hlink : v.symlinks.has path = true
  · rw [if_pos hlink] at h
    cases h
  by_cases hwhite : v.whiteouts.has path = true
  · rw [if_neg hlink, if_pos hwhite] at h
    cases h
  rw [if_neg hlink, if_neg hwhite] at h
  exact ne_chardev _ _ _ n h

/-- The maps show what is at the end of a path whose links are all followed. -/
theorem soundAt_iff {v : Vfs} {path resolved : Path} :
    (statResolved v path resolved).map kind = objectAtEnd v resolved ↔ SoundAt v path resolved := by
  have hnone : (statResolved v path resolved).map kind = none ↔
      v.whiteouts.has resolved = true ∨ ¬ Entered v path resolved := by
    rw [Option.map_eq_none_iff, statResolved_eq_none]
  unfold objectAtEnd
  by_cases hdev : isDevice resolved
  · rw [if_pos hdev]
    refine iff_of_false (fun h => ?_) fun h => h.device hdev
    rw [kind_statResolved] at h
    by_cases hwhite : v.whiteouts.has resolved = true
    · rw [if_pos hwhite] at h
      cases h
    · rw [if_neg hwhite] at h
      exact ne_chardev _ _ _ 0 h
  rw [if_neg hdev]
  by_cases hlink : v.symlinks.has resolved = true
  · rw [if_pos hlink, hnone]
    exact ⟨fun h => ⟨hdev, fun _ => h, fun hno => absurd hlink (by simp [hno])⟩, fun h => h.link hlink⟩
  rw [if_neg hlink]
  by_cases hwhite : v.whiteouts.has resolved = true
  · rw [if_pos hwhite, hnone]
    exact iff_of_true (.inl hwhite)
      ⟨hdev, fun h => absurd h hlink, fun _ hno => absurd hwhite (by simp [hno])⟩
  rw [if_neg hwhite, kind_statResolved, if_neg hwhite]
  have hshown : SoundAt v path resolved ↔
      (v.files.has resolved = false → v.dirs.has resolved = false → v.dirs.has path = false) := by
    constructor
    · intro h
      exact h.fallback (Bool.eq_false_iff.2 hlink) (Bool.eq_false_iff.2 hwhite)
    · intro h
      exact ⟨hdev, fun h => absurd h hlink, fun _ _ => h⟩
  rw [hshown, JsMap.has_eq_false_iff]
  cases v.files.get? resolved with
  | some content => simp
  | none => cases v.dirs.has resolved <;> cases v.dirs.has path <;> simp

/-- What is at an end is a file, a directory without a size, a special file, or nothing. -/
theorem objectAtEnd_cases (v : Vfs) (last : Path) :
    objectAtEnd v last = none ∨ (∃ n, objectAtEnd v last = some (.file, n)) ∨
      objectAtEnd v last = some (.dir, 0) ∨ objectAtEnd v last = some (.chardev, 0) := by
  unfold objectAtEnd
  cases v.files.get? last with
  | some content =>
      dsimp only
      split_ifs
      · exact .inr (.inr (.inr rfl))
      · exact .inl rfl
      · exact .inl rfl
      · exact .inr (.inl ⟨_, rfl⟩)
  | none =>
      dsimp only
      split_ifs
      · exact .inr (.inr (.inr rfl))
      · exact .inl rfl
      · exact .inl rfl
      · exact .inr (.inr (.inl rfl))
      · exact .inl rfl

theorem alike_iff {v : Vfs} {path resolved last : Path} :
    (statResolved v path resolved).map kind = objectAtEnd v last ↔ Alike v path resolved last := by
  unfold Alike
  obtain h | ⟨n, h⟩ | h | h := objectAtEnd_cases v last
  · rw [h, Option.map_eq_none_iff, statResolved_eq_none]
  · rw [h, kind_statResolved]
    dsimp only
    cases v.whiteouts.has resolved with
    | true => simp
    | false =>
        cases v.files.get? resolved with
        | some content => simp
        | none => simp
  · have hfile : v.files.has resolved = false ↔ v.files.get? resolved = none := JsMap.has_eq_false_iff
    rw [h, kind_statResolved, hfile]
    dsimp only
    cases v.whiteouts.has resolved with
    | true => simp
    | false => cases v.files.get? resolved <;> cases v.dirs.has resolved <;> simp
  · rw [h, kind_statResolved]
    refine iff_of_false (fun hsame => ?_) id
    by_cases hwhite : v.whiteouts.has resolved = true
    · rw [if_pos hwhite] at hsame
      cases hsame
    · rw [if_neg hwhite] at hsame
      exact ne_chardev _ _ _ 0 hsame

/-- **The law of following links.**  For every state and every path, `stat` reports the type and the size of
what is at the end of the chain of links, and fails where nothing is or the chain has no end, exactly under
the condition. -/
theorem follows_iff (v : Vfs) (path : Path) : Follows v path ↔ Sound v path := by
  by_cases hdev : isDevice (absolute path)
  · have hstat : VirtualFs.stat v path true = some ⟨0, .chardev, default⟩ := by
      unfold VirtualFs.stat
      dsimp only
      rw [if_pos hdev]
    constructor
    · rintro ⟨hfound, hcycle⟩
      refine ⟨fun _ => ?_, fun h => absurd hdev h, fun h => absurd hdev h, fun h => absurd hdev h⟩
      obtain ⟨last, hlast⟩ : ∃ last, Leads v.symlinks (absolute path) last := by
        by_contra hno
        rw [hcycle hno] at hstat
        cases hstat
      have hobject := hfound last hlast
      rw [hstat] at hobject
      exact ⟨last, hlast, isDevice_of_objectAtEnd hobject.symm⟩
    · intro h
      obtain ⟨last, hlast, hend⟩ := h.device hdev
      refine ⟨fun last' hlast' => ?_, fun hno => absurd ⟨last, hlast⟩ hno⟩
      rw [hlast.unique hlast', hstat]
      unfold objectAtEnd
      rw [if_pos hend]
      rfl
  · rw [show Follows v path ↔ _ from ⟨fun h => And.intro h.found h.cycle, fun h => ⟨h.1, h.2⟩⟩,
      RenameLaw.stat_of_not_isDevice hdev]
    constructor
    · rintro ⟨hfound, hcycle⟩
      refine ⟨fun h => absurd h hdev, fun _ hfree => ?_, fun _ hno => ?_,
        fun _ _ last hlast => alike_iff.1 (hfound last hlast)⟩
      · exact soundAt_iff.1 (hfound _ (leads_resolvePath hfree))
      · exact statResolved_eq_none.1 (hcycle hno)
    · intro h
      refine ⟨fun last hlast => ?_, fun hno => statResolved_eq_none.2 (h.cycle hdev hno)⟩
      by_cases hfree : Free v.symlinks (resolvePath v.symlinks (absolute path))
      · rw [(leads_resolvePath hfree).unique hlast]
        exact soundAt_iff.2 (h.target hdev hfree)
      · exact alike_iff.2 (h.long hdev hfree last hlast)

/-- A link to nothing. -/
def dangling : Vfs := createSymlink newVfs "/missing".toList "/l".toList

/-- **A dangling link is a directory.** -/
theorem not_follows_dangling : ¬ ∀ (v : Vfs) (path : Path), Follows v path := by
  intro h
  have hfree : Free dangling.symlinks (resolvePath dangling.symlinks "/l".toList) := by decide +kernel
  have hfound := (h dangling "/l".toList).found _ (leads_resolvePath hfree)
  revert hfound
  decide +kernel

end StatTargets
