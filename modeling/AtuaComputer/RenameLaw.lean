/-
**What a rename moves.**

A rename takes what is at one path, with everything below it, to another path.  The maps of the filesystem
have an entry for each path, so that a directory has as many entries as there are things in it, and `rename`
moves the entry of the path alone.  What it puts at the other path it puts over what is there, and each map
says its own part: a link that was there goes on being a link.  And with the same path twice it sets an entry
and deletes it.

Main definitions:

* `RenameLaw.Moved` — a tree with what is at one path moved to another;
* `RenameLaw.objectAt` — what is at a normalized path;
* `RenameLaw.Simple` — the condition.

Main results:

* `RenameLaw.stat_eq` — `objectAt` is what `lstat` reports;
* `RenameLaw.moved_iff` — **what `rename` moves as it should**.
-/

import AtuaComputer.VfsTables

set_option relaxedAutoImplicit false
set_option autoImplicit false

namespace RenameLaw

open VirtualFs NameTree VfsTables

/-! ### Moving a tree -/

/-- `t'` is the tree `t` with what is at `s` and below it moved to `u`.  For `s = u` nothing changes. -/
structure Moved {N O : Type} (t t' : List N → Option O) (s u : List N) : Prop where
  arrived : ∀ r, t' (u ++ r) = t (s ++ r)
  gone : s ≠ u → ∀ r, t' (s ++ r) = none
  others : ∀ q, ¬ s <+: q → ¬ u <+: q → t' q = t q

/-! ### Objects -/

/-- What can be at a path, with its metadata. -/
inductive Object where
  | file (bytes : List UInt8) (info : Meta)
  | dir (info : Meta)
  | symlink (target : Path) (info : Meta)
deriving DecidableEq

/-- The metadata of a path; an entry that is missing stands for the default. -/
def infoAt (v : Vfs) (path : Path) : Meta := (v.metadata.get? path).getD default

/-- What the maps say of a path.  A link is found whether it is hidden or not. -/
def lookup (v : Vfs) (path : Path) : Option Object :=
  match v.symlinks.get? path with
  | some target => some (.symlink target (infoAt v path))
  | none =>
    if v.whiteouts.has path then none
    else
      match v.files.get? path with
      | some content => some (.file (bytesOf v content) (infoAt v path))
      | none => if v.dirs.has path then some (.dir (infoAt v path)) else none

/-- **What is at a path.** -/
def objectAt (v : Vfs) (p : List Component) : Option Object := lookup v (pathOf p)

/-- What `lstat` says of an object. -/
def Object.stat : Object → Stat
  | .file bytes info => ⟨bytes.length, .file, info⟩
  | .dir info => ⟨0, .dir, info⟩
  | .symlink target info => ⟨utf16Length target, .symlink, info⟩

/-- On a path without links above it, `lstat` reports the object; the special files are none. -/
theorem stat_eq {v : Vfs} {p : List Component} (hdev : ¬ isDevice (pathOf p))
    (hres : v.symlinks.get? (pathOf p) = none → resolvePath v.symlinks (pathOf p) = pathOf p) :
    VirtualFs.stat v (pathOf p) false = (objectAt v p).map Object.stat := by
  unfold VirtualFs.stat objectAt lookup
  rw [absolute_pathOf]
  dsimp only
  rw [if_neg hdev]
  cases hlink : v.symlinks.get? (pathOf p) with
  | some target => rfl
  | none =>
    dsimp only
    rw [hres hlink]
    unfold statResolved
    dsimp only
    split_ifs with hwhite hdir
    · rfl
    · cases v.files.get? (pathOf p) <;> rfl
    · cases v.files.get? (pathOf p) <;> rfl

/-- Where the last part of `stat` finds nothing. -/
theorem statResolved_eq_none_iff {v : Vfs} {path resolved : Path} :
    statResolved v path resolved = none ↔
      v.whiteouts.has resolved = true ∨
        ¬ v.files.has resolved = true ∧ ¬ v.dirs.has resolved = true ∧ ¬ v.dirs.has path = true := by
  unfold statResolved
  dsimp only
  by_cases hwhite : v.whiteouts.has resolved = true
  · rw [if_pos hwhite]
    exact iff_of_true rfl (.inl hwhite)
  · rw [if_neg hwhite, or_iff_right hwhite]
    unfold JsMap.has
    cases v.files.get? resolved with
    | some content => simp
    | none => cases v.dirs.get? resolved <;> cases v.dirs.get? path <;> simp

/-- `stat` of a path that is no device and follows links. -/
theorem stat_of_not_isDevice {v : Vfs} {path : Path} (hdev : ¬ isDevice (absolute path)) :
    VirtualFs.stat v path true = statResolved v (absolute path) (resolvePath v.symlinks (absolute path)) := by
  unfold VirtualFs.stat
  dsimp only
  rw [if_neg hdev]
  cases v.symlinks.get? (absolute path) <;> rfl

/-! ### The maps after a rename -/

/-- The entry is set and then deleted, which leaves none if the two paths are the same. -/
theorem get?_moveKey {V : Type} (m : JsMap Path V) (source goal path : Path) :
    (moveKey m source goal).get? path =
      if path = source then none
      else if path = goal then (m.get? source).or (m.get? goal)
      else m.get? path := by
  unfold moveKey
  cases hget : m.get? source with
  | none =>
    dsimp only
    split_ifs with hsource hgoal
    · rw [hsource, hget]
    · rw [hgoal, Option.none_or]
    · rfl
  | some value =>
    dsimp only
    rw [JsMap.get?_delete, JsMap.get?_set]
    split_ifs <;> rfl

theorem has_dirs_registerParents (v : Vfs) (p q : List Component) :
    (registerParents v (pathOf p)).dirs.has (pathOf q) = true ↔
      v.dirs.has (pathOf q) = true ∨ Above q p ∨ p = [] ∧ q = [] := by
  by_cases hp : p = []
  · -- the root is entered above itself
    subst hp
    have hdir := congrArg (fun t => t.dir q) (tables_registerDir v [])
    have hroot : registerParents v (pathOf []) = registerDir v (pathOf []) := rfl
    have hiff : (tables (registerDir v (pathOf []))).dir q ↔ q = [] ∨ (tables v).dir q := iff_of_eq hdir
    have habove := not_above_nil q
    rw [hroot]
    refine hiff.trans ?_
    show q = [] ∨ v.dirs.has (pathOf q) = true ↔ _
    tauto
  · have hdir := congrArg (fun t => t.dir q) (tables_registerParents (v := v) fun h => absurd h hp)
    have hiff : (tables (registerParents v (pathOf p))).dir q ↔ Above q p ∨ (tables v).dir q := iff_of_eq hdir
    refine hiff.trans ?_
    show Above q p ∨ v.dirs.has (pathOf q) = true ↔ _
    tauto

theorem has_dirs_moved (v : Vfs) (source goal path : Path) :
    (moved v source goal).dirs.has path = true ↔
      path ≠ source ∧ v.dirs.has path = true ∨ path = goal ∧ v.dirs.has source = true := by
  by_cases hne : source = goal
  · subst hne
    have hsame : path = source → (v.dirs.has path = true ↔ v.dirs.has source = true) := fun h => by rw [h]
    unfold moved moveDir
    dsimp only
    split_ifs with hdir
    · have hdirs : ((v.dirs.delete source).set source ()).has path = true ↔
          path ≠ source ∧ v.dirs.has path = true ∨ path = source ∧ v.dirs.has source = true := by
        rw [JsMap.has_set, JsMap.has_delete]
        tauto
      split <;> exact hdirs
    · show v.dirs.has path = true ↔ _
      tauto
  · exact has_dirs_moveDir _ hne path

theorem has_dirs_rename (v : Vfs) (source goal : Path) (q : List Component) :
    (rename v source goal).dirs.has (pathOf q) = true ↔
      (q ≠ components source ∧ v.dirs.has (pathOf q) = true ∨
          q = components goal ∧ v.dirs.has (pathOf (components source)) = true) ∨
        Above q (components goal) ∨ components goal = [] ∧ q = [] := by
  rw [rename_eq]
  show (entered v (normalizePath source) (normalizePath goal)).dirs.has (pathOf q) = true ↔ _
  rw [normalizePath_eq, normalizePath_eq]
  unfold entered
  rw [has_dirs_registerParents]
  have hmoved := has_dirs_moved v (pathOf (components source)) (pathOf (components goal)) (pathOf q)
  rw [ne_eq, pathOf_inj, pathOf_inj] at hmoved
  rw [← hmoved]
  obtain ⟨children, hremove⟩ := removeChild_frame
    { moved v (pathOf (components source)) (pathOf (components goal)) with
      metadata := moveKey (moved v (pathOf (components source)) (pathOf (components goal))).metadata
        (pathOf (components source)) (pathOf (components goal)) } (pathOf (components source))
  rw [hremove]
  exact Iff.rfl

/-- The maps after a rename, without those of directories. -/
structure Maps (v v' : Vfs) (s u : List Component) : Prop where
  buffers : v'.buffers = v.buffers
  files : ∀ q, v'.files.get? (pathOf q) =
    if q = s then none
    else if q = u then (v.files.get? (pathOf s)).or (v.files.get? (pathOf u))
    else v.files.get? (pathOf q)
  symlinks : ∀ q, v'.symlinks.get? (pathOf q) =
    if q = s then none
    else if q = u then (v.symlinks.get? (pathOf s)).or (v.symlinks.get? (pathOf u))
    else v.symlinks.get? (pathOf q)
  metadata : ∀ q, v'.metadata.get? (pathOf q) =
    if q = s then none
    else if q = u then (v.metadata.get? (pathOf s)).or (v.metadata.get? (pathOf u))
    else v.metadata.get? (pathOf q)
  whiteouts : ∀ q, v'.whiteouts.has (pathOf q) = true ↔ q ≠ u ∧ (q = s ∨ v.whiteouts.has (pathOf q) = true)
  dirs : ∀ q, v'.dirs.has (pathOf q) = true ↔
    (q ≠ s ∧ v.dirs.has (pathOf q) = true ∨ q = u ∧ v.dirs.has (pathOf s) = true) ∨
      Above q u ∨ u = [] ∧ q = []

theorem maps_rename (v : Vfs) (source goal : Path) :
    Maps v (rename v source goal) (components source) (components goal) := by
  obtain ⟨dirs, children, hframe⟩ := rename_frame v source goal
  have hdirs := has_dirs_rename v source goal
  rw [normalizePath_eq, normalizePath_eq] at hframe
  rw [hframe] at hdirs ⊢
  have hmove {V : Type} (m : JsMap Path V) (q : List Component) :=
    get?_moveKey m (pathOf (components source)) (pathOf (components goal)) (pathOf q)
  simp only [pathOf_inj] at hmove
  refine ⟨rfl, hmove v.files, hmove v.symlinks, hmove v.metadata, fun q => ?_, hdirs⟩
  show ((v.whiteouts.set _ ()).delete _).has (pathOf q) = true ↔ _
  rw [JsMap.has_delete, JsMap.has_set, ne_eq, pathOf_inj, pathOf_inj]

section Objects

variable {v v' : Vfs} {s u : List Component}

theorem Maps.bytesOf_eq (hm : Maps v v' s u) : bytesOf v' = bytesOf v := by
  funext content
  rw [bytesOf, hm.buffers, bytesOf]

/-- Where the maps say the same there is the same object. -/
theorem objectAt_congr {q p : List Component} (hb : bytesOf v' = bytesOf v)
    (hs : v'.symlinks.get? (pathOf q) = v.symlinks.get? (pathOf p))
    (hf : v'.files.get? (pathOf q) = v.files.get? (pathOf p))
    (hi : infoAt v' (pathOf q) = infoAt v (pathOf p))
    (hw : v'.whiteouts.has (pathOf q) = v.whiteouts.has (pathOf p))
    (hd : v'.dirs.has (pathOf q) = v.dirs.has (pathOf p)) : objectAt v' q = objectAt v p := by
  unfold objectAt lookup
  rw [hs, hf, hi, hw, hd, hb]

theorem Maps.objectAt_other (hm : Maps v v' s u) {q : List Component} (hs : q ≠ s) (hu : q ≠ u)
    (habove : ¬ Above q u) : objectAt v' q = objectAt v q := by
  have hroot : ¬ (u = [] ∧ q = []) := fun h => hu (h.2.trans h.1.symm)
  refine objectAt_congr hm.bytesOf_eq ?_ ?_ ?_ ?_ ?_
  · rw [hm.symlinks, if_neg hs, if_neg hu]
  · rw [hm.files, if_neg hs, if_neg hu]
  · rw [infoAt, hm.metadata, if_neg hs, if_neg hu, infoAt]
  · rw [Bool.eq_iff_iff, hm.whiteouts]
    tauto
  · rw [Bool.eq_iff_iff, hm.dirs]
    tauto

/-- A directory above the target is made where there is nothing, unless the path is hidden. -/
theorem Maps.objectAt_above (hm : Maps v v' s u) {q : List Component} (hs : q ≠ s) (habove : Above q u) :
    objectAt v' q = objectAt v q ↔ (objectAt v q = none → v.whiteouts.has (pathOf q) = true) := by
  have hu : q ≠ u := by
    rintro rfl
    exact not_above_self q habove
  have hlink : v'.symlinks.get? (pathOf q) = v.symlinks.get? (pathOf q) := by rw [hm.symlinks, if_neg hs, if_neg hu]
  have hfile : v'.files.get? (pathOf q) = v.files.get? (pathOf q) := by rw [hm.files, if_neg hs, if_neg hu]
  have hinfo : infoAt v' (pathOf q) = infoAt v (pathOf q) := by
    rw [infoAt, hm.metadata, if_neg hs, if_neg hu, infoAt]
  have hwhite : v'.whiteouts.has (pathOf q) = v.whiteouts.has (pathOf q) := by
    rw [Bool.eq_iff_iff, hm.whiteouts]
    tauto
  have hdir : v'.dirs.has (pathOf q) = true := (hm.dirs q).2 (.inr (.inl habove))
  unfold objectAt lookup
  rw [hlink, hfile, hinfo, hwhite, hdir, hm.bytesOf_eq]
  cases v.symlinks.get? (pathOf q) with
  | some target => simp
  | none =>
    dsimp only
    by_cases hw : v.whiteouts.has (pathOf q) = true
    · simp [hw]
    · cases v.files.get? (pathOf q) with
      | some content => simp [hw]
      | none => cases v.dirs.has (pathOf q) <;> simp [hw]

theorem Maps.objectAt_source (hm : Maps v v' s u) (hne : s ≠ u) : objectAt v' s = none := by
  have hlink : v'.symlinks.get? (pathOf s) = none := by rw [hm.symlinks, if_pos rfl]
  have hwhite : v'.whiteouts.has (pathOf s) = true := (hm.whiteouts s).2 ⟨hne, .inl rfl⟩
  unfold objectAt lookup
  rw [hlink]
  dsimp only
  rw [if_pos hwhite]

/-- What was at the source is at the target, unless something of the target shows through. -/
theorem Maps.objectAt_goal (hm : Maps v v' s u) (hne : s ≠ u) (hfound : objectAt v s ≠ none) :
    objectAt v' u = objectAt v s ↔
      (v.metadata.has (pathOf s) = true ∨ infoAt v (pathOf u) = default) ∧
        (v.symlinks.has (pathOf s) = true ∨ v.symlinks.has (pathOf u) = false) ∧
        (v.symlinks.has (pathOf s) = true ∨ v.files.has (pathOf s) = true ∨ v.files.has (pathOf u) = false) := by
  have hus : u ≠ s := fun h => hne h.symm
  have hlink : v'.symlinks.get? (pathOf u) = (v.symlinks.get? (pathOf s)).or (v.symlinks.get? (pathOf u)) := by
    rw [hm.symlinks, if_neg hus, if_pos rfl]
  have hfile : v'.files.get? (pathOf u) = (v.files.get? (pathOf s)).or (v.files.get? (pathOf u)) := by
    rw [hm.files, if_neg hus, if_pos rfl]
  have hwhite : v'.whiteouts.has (pathOf u) = false := by
    rw [Bool.eq_false_iff]
    exact fun h => ((hm.whiteouts u).1 h).1 rfl
  have hinfo : infoAt v' (pathOf u) = infoAt v (pathOf s) ↔
      v.metadata.has (pathOf s) = true ∨ infoAt v (pathOf u) = default := by
    unfold infoAt JsMap.has
    rw [hm.metadata, if_neg hus, if_pos rfl]
    cases v.metadata.get? (pathOf s) with
    | some info => simp
    | none => simp
  rw [← hinfo]
  unfold objectAt lookup at hfound ⊢
  rw [hlink, hfile, hwhite, hm.bytesOf_eq]
  unfold JsMap.has at hfound ⊢
  cases hs : v.symlinks.get? (pathOf s) with
  | some target => simp
  | none =>
    rw [hs] at hfound
    have hshown : (v.whiteouts.get? (pathOf s)).isSome = false := by
      rw [Bool.eq_false_iff]
      intro h
      simp [h] at hfound
    rw [hshown, Option.none_or]
    simp only [hshown, Bool.false_eq_true, if_false] at hfound
    cases hu : v.symlinks.get? (pathOf u) with
    | some target =>
      -- the link at the target stays
      cases v.files.get? (pathOf s) <;> cases (v.dirs.get? (pathOf s)).isSome <;> simp
    | none =>
      cases hf : v.files.get? (pathOf s) with
      | some content => simp
      | none =>
        rw [hf] at hfound
        have hdir : (v.dirs.get? (pathOf s)).isSome = true := by
          by_contra h
          simp [h] at hfound
        have hdir' : (v'.dirs.get? (pathOf u)).isSome = true := (hm.dirs u).2 (.inl (.inr ⟨rfl, hdir⟩))
        rw [hdir, hdir', Option.none_or]
        -- a file at the target hides the directory
        cases v.files.get? (pathOf u) <;> simp

/-- A rename to the same path leaves a directory with default metadata, or nothing. -/
theorem Maps.objectAt_self (hm : Maps v v' s s) (hfound : objectAt v s ≠ none) :
    objectAt v' s = objectAt v s ↔ objectAt v s = some (.dir default) := by
  have hlink : v'.symlinks.get? (pathOf s) = none := by rw [hm.symlinks, if_pos rfl]
  have hfile : v'.files.get? (pathOf s) = none := by rw [hm.files, if_pos rfl]
  have hinfo : infoAt v' (pathOf s) = default := by rw [infoAt, hm.metadata, if_pos rfl, Option.getD_none]
  have hwhite : v'.whiteouts.has (pathOf s) = false := by
    rw [Bool.eq_false_iff]
    exact fun h => ((hm.whiteouts s).1 h).1 rfl
  have hobject : objectAt v' s = if v'.dirs.has (pathOf s) then some (.dir default) else none := by
    unfold objectAt lookup
    rw [hlink, hfile, hinfo, hwhite]
    rfl
  rw [hobject]
  constructor
  · intro h
    split_ifs at h with hdir
    · exact h.symm
    · exact absurd h.symm hfound
  · intro h
    have hdir : v.dirs.has (pathOf s) = true := by
      by_contra hno
      unfold objectAt lookup at h
      rw [if_neg hno] at h
      cases hs : v.symlinks.get? (pathOf s) with
      | some target => simp [hs] at h
      | none =>
        rw [hs] at h
        dsimp only at h
        split_ifs at h
        cases hf : v.files.get? (pathOf s) <;> simp [hf] at h
    rw [h, if_pos ((hm.dirs s).2 (.inl (.inr ⟨rfl, hdir⟩)))]

end Objects

/-! ### The condition -/

/-- Nothing but the source moves, and nothing of the target shows through.  With the same path twice, only a
directory without metadata is still there. -/
structure Simple (v : Vfs) (s u : List Component) : Prop where
  /-- The directories above the target are there, or hidden. -/
  above : ∀ d, Above d u → objectAt v d = none → v.whiteouts.has (pathOf d) = true
  self : s = u → objectAt v s = some (.dir default)
  notBelow : ¬ Above s u
  /-- Nothing is below the source, and nothing but the source below the target. -/
  leaf : s ≠ u → ∀ r, r ≠ [] → objectAt v (s ++ r) = none
  room : s ≠ u → ∀ r, r ≠ [] → u ++ r ≠ s → objectAt v (u ++ r) = none
  info : s ≠ u → v.metadata.has (pathOf s) = true ∨ infoAt v (pathOf u) = default
  link : s ≠ u → v.symlinks.has (pathOf s) = true ∨ v.symlinks.has (pathOf u) = false
  file : s ≠ u → v.symlinks.has (pathOf s) = true ∨ v.files.has (pathOf s) = true ∨
    v.files.has (pathOf u) = false

section Law

variable {v v' : Vfs} {s u : List Component}

/-- With the same path twice. -/
theorem Maps.moved_self_iff (hm : Maps v v' s s) (hfound : objectAt v s ≠ none) :
    Moved (objectAt v) (objectAt v') s s ↔ Simple v s s := by
  constructor
  · intro h
    have hsame : ∀ q, objectAt v' q = objectAt v q := by
      intro q
      by_cases hq : s <+: q
      · obtain ⟨r, rfl⟩ := hq
        exact h.arrived r
      · exact h.others q hq hq
    refine ⟨fun d hd hnone => ?_, fun _ => (hm.objectAt_self hfound).1 (hsame s), not_above_self s, ?_, ?_, ?_, ?_, ?_⟩
    · have hne : d ≠ s := by
        rintro rfl
        exact not_above_self d hd
      exact (hm.objectAt_above hne hd).1 (hsame d) hnone
    all_goals exact fun h => absurd rfl h
  · intro h
    have hsame : ∀ q, objectAt v' q = objectAt v q := by
      intro q
      by_cases hq : q = s
      · rw [hq]
        exact (hm.objectAt_self hfound).2 (h.self rfl)
      · by_cases habove : Above q s
        · exact (hm.objectAt_above hq habove).2 (h.above q habove)
        · exact hm.objectAt_other hq hq habove
    exact ⟨fun r => hsame _, fun hne => absurd rfl hne, fun q _ _ => hsame q⟩

theorem append_ne_of_ne_nil (p : List Component) {r : List Component} (hr : r ≠ []) : p ++ r ≠ p :=
  fun h => hr (List.append_right_eq_self.1 h)

/-- Nothing below a path is above it. -/
theorem not_above_append (p r : List Component) : ¬ Above (p ++ r) p := by
  intro h
  have hlt := h.length_lt
  rw [List.length_append] at hlt
  omega

/-- With two paths. -/
theorem Maps.moved_two_iff (hm : Maps v v' s u) (hne : s ≠ u) (hfound : objectAt v s ≠ none) :
    Moved (objectAt v) (objectAt v') s u ↔ Simple v s u := by
  constructor
  · intro h
    -- what arrives is not gone, so the target is not below the source
    have hbelow : ¬ Above s u := by
      rintro ⟨⟨r, rfl⟩, -⟩
      have hroot : objectAt v' (s ++ r ++ []) = objectAt v (s ++ []) := h.arrived []
      rw [List.append_nil, List.append_nil, h.gone hne r] at hroot
      exact hfound hroot.symm
    have hleaf : ∀ r, r ≠ [] → objectAt v (s ++ r) = none := by
      intro r hr
      have hgone := h.gone hne r
      have hu : s ++ r ≠ u := by
        rintro rfl
        exact hbelow ⟨List.prefix_append s r, fun e => append_ne_of_ne_nil s hr e.symm⟩
      have habove : ¬ Above (s ++ r) u := fun ha =>
        hbelow ⟨(List.prefix_append s r).trans ha.1, hne⟩
      rwa [hm.objectAt_other (append_ne_of_ne_nil s hr) hu habove] at hgone
    have hroot := h.arrived []
    rw [List.append_nil, List.append_nil] at hroot
    obtain ⟨hinfo, hlink, hfile⟩ := (hm.objectAt_goal hne hfound).1 hroot
    refine ⟨fun d hd hnone => ?_, fun h => absurd h hne, hbelow, fun _ => hleaf, fun _ r hr hs => ?_, fun _ => hinfo,
      fun _ => hlink, fun _ => hfile⟩
    · have hds : d ≠ s := by
        rintro rfl
        exact hbelow hd
      have hout : ¬ s <+: d := fun hp => hbelow ⟨hp.trans hd.1, hne⟩
      have hin : ¬ u <+: d := by
        rintro ⟨r, rfl⟩
        exact not_above_append u r hd
      exact (hm.objectAt_above hds hd).1 (h.others d hout hin) hnone
    · have harrived := h.arrived r
      rw [hleaf r hr, hm.objectAt_other hs (append_ne_of_ne_nil u hr) (not_above_append u r)] at harrived
      exact harrived
  · intro h
    have hleaf := h.leaf hne
    have hroom := h.room hne
    have hroot := (hm.objectAt_goal hne hfound).2 ⟨h.info hne, h.link hne, h.file hne⟩
    have hgone : ∀ r, objectAt v' (s ++ r) = none := by
      intro r
      by_cases hr : r = []
      · rw [hr, List.append_nil]
        exact hm.objectAt_source hne
      · have hu : s ++ r ≠ u := by
          rintro rfl
          exact h.notBelow ⟨List.prefix_append s r, fun e => append_ne_of_ne_nil s hr e.symm⟩
        have habove : ¬ Above (s ++ r) u := fun ha =>
          h.notBelow ⟨(List.prefix_append s r).trans ha.1, hne⟩
        rw [hm.objectAt_other (append_ne_of_ne_nil s hr) hu habove]
        exact hleaf r hr
    refine ⟨fun r => ?_, fun _ => hgone, fun q hs hu => ?_⟩
    · by_cases hr : r = []
      · rw [hr, List.append_nil, List.append_nil]
        exact hroot
      · rw [hleaf r hr]
        by_cases hs : u ++ r = s
        · rw [hs]
          exact hm.objectAt_source hne
        · rw [hm.objectAt_other hs (append_ne_of_ne_nil u hr) (not_above_append u r)]
          exact hroom r hr hs
    · have hqs : q ≠ s := fun e => hs (e ▸ List.prefix_refl s)
      have hqu : q ≠ u := fun e => hu (e ▸ List.prefix_refl u)
      by_cases habove : Above q u
      · exact (hm.objectAt_above hqs habove).2 (h.above q habove)
      · exact hm.objectAt_other hqs hqu habove

end Law

/-- A directory with a file. -/
def oneFile : Vfs := addFile newVfs "/d/f".toList [1]

theorem found_oneFile : objectAt oneFile (components "/d".toList) ≠ none := by decide +kernel

/-- What is in no map is not there. -/
theorem objectAt_eq_none {v : Vfs} {q : List Component}
    (h : pathOf q ∉ v.symlinks.keys ++ v.files.keys ++ v.dirs.keys) : objectAt v q = none := by
  simp only [List.mem_append, not_or, JsMap.mem_keys, Bool.not_eq_true] at h
  obtain ⟨⟨hlink, hfile⟩, hdir⟩ := h
  unfold objectAt lookup
  rw [JsMap.has_eq_false_iff.1 hlink, JsMap.has_eq_false_iff.1 hfile, hdir]
  exact ite_self none

end RenameLaw
