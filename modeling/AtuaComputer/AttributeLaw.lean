/-
**Setting attributes, and moving what has them.**

After `chmod`, `chown` or `utimensat` the stat calls are to report what was set, whatever reference it was set
through and whatever one is asked, and a rename is to take all of it along.  The attributes are kept under a
path: what a path resolves to, or what a descriptor was opened on.  A reference that is kept under another path
does not see the change; a time of 0 is read back as the time of the boot; `utimensat` on a descriptor, or for
the current time, stores nothing; and a rename moves the entry of one path, and not those below it.

Which references are to the same object depends on what has happened, so that what is proved holds for any
notion of that.

Main definitions:

* `AttributeLaw.asked`, `AttributeLaw.stored` — what a call asks for, and where it is stored;
* `AttributeLaw.RoundTrip` — what one call is to keep;
* `AttributeLaw.Fits` — the condition.

Main results:

* `AttributeLaw.handleSyscall_asked`, `AttributeLaw.handleSyscall_renames` — what the calls do;
* `AttributeLaw.nodeAt_rename_iff` — when a rename takes attributes along;
* `AttributeLaw.attributes_kept_iff` — **the runs in which attributes are kept**.
-/

import AtuaComputer.Attributes
import AtuaComputer.Runs

set_option relaxedAutoImplicit false
set_option autoImplicit false

namespace AttributeLaw

open VirtualFs Kernel FileIo FileOutcomes Syscalls NameTree RenameLaw StatReports Attributes Runs Outcomes

/-! ### What calls ask for -/

/-- A time of `utimensat`, in whole seconds; `UTIME_OMIT` is none. -/
def setting (now : ℕ) (sec nsec : ℤ) : Option ℤ :=
  if nsec = 0x3FFFFFFE then none else if nsec = 0x3FFFFFFF then some (now / 1000) else some sec

/-- A number of eight bytes in the memory of a process. -/
def bigAt (io : FileIo.State) (pid : ℤ) (addr : ℕ) : ℤ := signed64 (((io.memory pid).drop addr).take 8)

/-- The times behind a pointer; a null pointer stands for the current time. -/
def timesAt (io : FileIo.State) (pid : ℤ) (p : Proc) (now : ℕ) (c : Int32) : Option Change :=
  if c = 0 then some (.times (some (now / 1000)) (some (now / 1000)))
  else if p.wasmMemory = true ∧ unsigned c + 32 ≤ (io.memory pid).length then
    some (.times (setting now (bigAt io pid (unsigned c)) (bigAt io pid (unsigned c + 8)))
      (setting now (bigAt io pid (unsigned c + 16)) (bigAt io pid (unsigned c + 24))))
  else none

/-- The reference a call is about, and the change it asks for.  Without a path, `utimensat` is about the
descriptor. -/
def asked (s : Syscalls.State) (pid : ℤ) (p : Proc) : Syscalls.Call → Option (Ref × Change)
  | .chmod path b => some (.path (readCString p path), .mode (unsigned b))
  | .fchmod a b => some (.fd pid a.toInt, .mode (unsigned b))
  | .fchmodat _ path c => some (.path (readCString p path), .mode (unsigned c))
  | .chown path b c => some (.path (readCString p path), .owner b c)
  | .fchown a b c => some (.fd pid a.toInt, .owner b c)
  | .fchownat _ path c d => some (.path (readCString p path), .owner c d)
  | .utimensat now a b path c =>
    (timesAt s.io pid p now c).map fun change =>
      (if b = 0 then .fd pid a.toInt else .path (readCString p path), change)
  | _ => none

/-- The two paths of a rename, resolved. -/
def renames (v : Vfs) (p : Proc) : Syscalls.Call → Option (Path × Path)
  | .rename oldPath newPath | .renameat _ oldPath _ newPath =>
    some (resolvePath v.symlinks (absolute (readCString p oldPath)),
      resolvePath v.symlinks (absolute (readCString p newPath)))
  | _ => none

/-- A path that is neither absolute nor relative to the working directory is refused. -/
def Elsewhere (dirfd : Int32) (path : Path) : Prop := path.head? ≠ some '/' ∧ dirfd ≠ atFdcwd

/-- The calls that are refused. -/
def Refused (p : Proc) : Syscalls.Call → Prop
  | .fchmodat a path _ | .fchownat a path _ _ => Elsewhere a (readCString p path)
  | .utimensat _ a b path _ => b ≠ 0 ∧ Elsewhere a (readCString p path)
  | .renameat a oldPath c newPath => Elsewhere a (readCString p oldPath) ∨ Elsewhere c (readCString p newPath)
  | _ => False

/-- The calls that store nothing: `utimensat` without a path or without times. -/
def ignored : Syscalls.Call → Bool
  | .utimensat _ _ b _ c => decide (b = 0 ∨ c = 0)
  | _ => false

/-- Where a change is stored. -/
def stored (s : Syscalls.State) (r : Ref) (call : Syscalls.Call) : Option Path :=
  if ignored call then none else keyOf s r

/-! ### What the calls do -/

section Calls

variable {s : Syscalls.State} {pid : ℤ} {p : Proc}

theorem handleSyscall_other (hp : s.io.kernel.processTable.get? pid = some p) (call : Syscalls.Call) :
    Syscalls.handleSyscall s pid (.other call) =
      ((attempt s (handler s.bootTime pid p call)).1, some (attempt s (handler s.bootTime pid p call)).2) := by
  unfold Syscalls.handleSyscall
  rw [hp]

theorem attempt_store {x : Io ℤ} {key : Option Path} {f : Meta → Meta}
    (h : Returns x s.io 0 (storeMeta s key f).io) : attempt s x = (storeMeta s key f, 0) := by
  rw [attempt_of_returns h]
  cases key <;> rfl

theorem returns_changeMeta (path : Path) (f : Meta → Meta) :
    Returns (changeMeta (absolute path) f) s.io 0 (storeMeta s (keyOf s (.path path)) f).io := by
  unfold changeMeta change
  exact returns_onVfs rfl

/-- What `fchmod` and its kind do with the file of a descriptor. -/
theorem returns_setMeta (vfsFd : ℤ) (f : Meta → Meta) :
    Returns (do
      match ← getFile vfsFd with
      | none => return 0
      | some file =>
        if file.path = [] then return 0
        onVfs fun _ v => (setMeta v file.path f, some 0)) s.io 0
      (storeMeta s (((vfs s).openFiles.get? vfsFd).bind openedOn) f).io := by
  cases hopen : (vfs s).openFiles.get? vfsFd with
  | none =>
    have hget : Returns (getFile vfsFd) s.io none s.io := by
      show (Except.ok ((vfs s).openFiles.get? vfsFd), s.io) = _
      rw [hopen]
    exact hget.bind (returns_pure 0 s.io)
  | some file =>
    refine (returns_getFile hopen).bind ?_
    unfold openedOn
    dsimp only [Option.bind_some]
    split_ifs with hpath
    · exact returns_pure 0 s.io
    · exact returns_onVfs rfl

theorem returns_changeFile (hp : s.io.kernel.processTable.get? pid = some p) (a : Int32) (f : Meta → Meta) :
    Returns (changeFile p a f) s.io 0 (storeMeta s (keyOf s (.fd pid a.toInt)) f).io := by
  unfold changeFile withEntry keyOf
  dsimp only
  rw [kindAt_eq hp]
  cases p.fdTable.get? a.toInt with
  | none => exact returns_pure 0 s.io
  | some entry =>
    obtain ⟨kind, cell⟩ := entry
    cases kind with
    | special name => exact returns_pure 0 s.io
    | pipe fdEnd ringOffset => exact returns_pure 0 s.io
    | file vfsFd | dir vfsFd => exact returns_setMeta vfsFd f

theorem atPath_of_elsewhere {dirfd : Int32} {path : Path} (h : Elsewhere dirfd path) (error : ℤ)
    (body : Path → Io ℤ) : atPath dirfd path error body = pure error := if_pos h

theorem atPath_of_not_elsewhere {dirfd : Int32} {path : Path} (h : ¬ Elsewhere dirfd path) (error : ℤ)
    (body : Path → Io ℤ) : atPath dirfd path error body = body (absolute path) := if_neg h

/-- A change through a path and a descriptor of a directory. -/
theorem returns_atPath (dirfd : Int32) (path : Path) (f : Meta → Meta) :
    (¬ Elsewhere dirfd path →
      Returns (atPath dirfd path (-95) fun path => changeMeta path f) s.io 0
        (storeMeta s (keyOf s (.path path)) f).io) ∧
      (Elsewhere dirfd path → Returns (atPath dirfd path (-95) fun path => changeMeta path f) s.io (-95) s.io) := by
  constructor
  · intro h
    rw [atPath_of_not_elsewhere h]
    exact returns_changeMeta path f
  · intro h
    rw [atPath_of_elsewhere h]
    exact returns_pure (-95) s.io

theorem pickTime_eq (now : ℕ) (old : Option ℤ) (sec nsec : ℤ) :
    pickTime now old sec nsec = (setting now sec nsec).or old := by
  unfold pickTime setting
  split_ifs <;> rfl

/-- The times are read, and stored under what the path resolves to. -/
theorem returns_times {path : Path} {now : ℕ} {c : Int32} (hc : c ≠ 0) {change : Change}
    (h : timesAt s.io pid p now c = some change) :
    Returns (do
      let atimeSec ← loadBig pid p (unsigned c)
      let atimeNsec ← loadBig pid p (unsigned c + 8)
      let mtimeSec ← loadBig pid p (unsigned c + 16)
      let mtimeNsec ← loadBig pid p (unsigned c + 24)
      changeMeta (absolute path) fun info =>
        { info with
          atime := pickTime now info.atime atimeSec atimeNsec
          mtime := pickTime now info.mtime mtimeSec mtimeNsec }) s.io 0
      (storeMeta s (keyOf s (.path path)) change.update).io := by
  unfold timesAt at h
  rw [if_neg hc] at h
  split_ifs at h with hroom
  obtain rfl := Option.some.inj h
  refine (returns_loadBig hroom.1 (by omega)).bind ?_
  refine (returns_loadBig hroom.1 (by omega)).bind ?_
  refine (returns_loadBig hroom.1 (by omega)).bind ?_
  refine (returns_loadBig hroom.1 (by omega)).bind ?_
  simp only [pickTime_eq]
  exact returns_changeMeta path _

/-- A call for a change stores it, unless the call is refused. -/
theorem handleSyscall_asked (hp : s.io.kernel.processTable.get? pid = some p) {call : Syscalls.Call} {r : Ref}
    {change : Change} (hasked : asked s pid p call = some (r, change)) :
    (¬ Refused p call →
      Syscalls.handleSyscall s pid (.other call) = (storeMeta s (stored s r call) change.update, some 0)) ∧
      (Refused p call → (Syscalls.handleSyscall s pid (.other call)).2 = some (-95)) := by
  rw [handleSyscall_other hp]
  have hstore {x : Io ℤ} {key : Option Path} {f : Meta → Meta} (h : Returns x s.io 0 (storeMeta s key f).io) :
      ((attempt s x).1, some (attempt s x).2) = (storeMeta s key f, some 0) := by
    rw [attempt_store h]
  have hrefuse {x : Io ℤ} (h : Returns x s.io (-95) s.io) : some (attempt s x).2 = some (-95) := by
    rw [attempt_of_returns h]
  cases call with
  | chmod path b | chown path b c =>
    obtain ⟨rfl, rfl⟩ := Prod.mk.inj (Option.some.inj hasked)
    exact ⟨fun _ => hstore (returns_changeMeta _ _), False.elim⟩
  | fchmod a b | fchown a b c =>
    obtain ⟨rfl, rfl⟩ := Prod.mk.inj (Option.some.inj hasked)
    exact ⟨fun _ => hstore (returns_changeFile hp _ _), False.elim⟩
  | fchmodat a path c =>
    obtain ⟨rfl, rfl⟩ := Prod.mk.inj (Option.some.inj hasked)
    obtain ⟨hdone, hrefused⟩ := returns_atPath (s := s) a (readCString p path) (Change.mode (unsigned c)).update
    exact ⟨fun h => hstore (hdone h), fun h => hrefuse (hrefused h)⟩
  | fchownat a path c d =>
    obtain ⟨rfl, rfl⟩ := Prod.mk.inj (Option.some.inj hasked)
    obtain ⟨hdone, hrefused⟩ := returns_atPath (s := s) a (readCString p path) (Change.owner c d).update
    exact ⟨fun h => hstore (hdone h), fun h => hrefuse (hrefused h)⟩
  | utimensat now a b path c =>
    obtain ⟨change', htimes, heq⟩ := Option.map_eq_some_iff.1 hasked
    obtain ⟨rfl, rfl⟩ := Prod.mk.inj heq
    show (¬ (b ≠ 0 ∧ Elsewhere a (readCString p path)) → _) ∧ (b ≠ 0 ∧ Elsewhere a (readCString p path) → _)
    unfold stored ignored handler sysUtimensat
    dsimp only
    by_cases hb : b = 0
    · rw [if_pos hb, if_pos (by simp [hb])]
      exact ⟨fun _ => rfl, fun h => absurd hb h.1⟩
    · rw [if_neg hb, if_neg hb]
      constructor
      · intro h
        rw [atPath_of_not_elsewhere fun helse => h ⟨hb, helse⟩]
        by_cases hc : c = 0
        · rw [if_pos hc, if_pos (by simp [hc])]
          rfl
        · rw [if_neg hc, if_neg (by simp [hb, hc])]
          exact hstore (returns_times hc htimes)
      · rintro ⟨-, helse⟩
        rw [atPath_of_elsewhere helse]
        rfl
  | _ => cases hasked

/-- A rename is made on the resolved paths, unless the call is refused. -/
theorem handleSyscall_renames (hp : s.io.kernel.processTable.get? pid = some p) {call : Syscalls.Call}
    {source goal : Path} (hrename : renames (vfs s) p call = some (source, goal)) :
    (¬ Refused p call →
      Syscalls.handleSyscall s pid (.other call) =
        ({ s with io := withVfs s.io (rename (vfs s) source goal) }, some 0)) ∧
      (Refused p call → (Syscalls.handleSyscall s pid (.other call)).2 = some (-95)) := by
  rw [handleSyscall_other hp]
  have hchange {x : Io ℤ} {io : FileIo.State} (h : Returns x s.io 0 io) :
      ((attempt s x).1, some (attempt s x).2) = ({ s with io }, some 0) := by
    rw [attempt_of_returns h]
  cases call with
  | rename oldPath newPath =>
    obtain ⟨rfl, rfl⟩ := Prod.mk.inj (Option.some.inj hrename)
    refine ⟨fun _ => hchange ?_, False.elim⟩
    show Returns (sysRename p oldPath newPath) _ _ _
    unfold sysRename change renamePath
    exact returns_onVfs rfl
  | renameat a oldPath c newPath =>
    obtain ⟨rfl, rfl⟩ := Prod.mk.inj (Option.some.inj hrename)
    constructor
    · intro h
      have hold : ¬ Elsewhere a (readCString p oldPath) := fun helse => h (.inl helse)
      have hnew : ¬ Elsewhere c (readCString p newPath) := fun helse => h (.inr helse)
      refine hchange ?_
      show Returns (sysRenameat p a oldPath c newPath) _ _ _
      unfold sysRenameat
      rw [atPath_of_not_elsewhere hold, atPath_of_not_elsewhere hnew]
      unfold change renamePath
      exact returns_onVfs rfl
    · intro h
      show some (attempt s (sysRenameat p a oldPath c newPath)).2 = _
      unfold sysRenameat
      by_cases hold : Elsewhere a (readCString p oldPath)
      · rw [atPath_of_elsewhere hold]
        rfl
      · rw [atPath_of_not_elsewhere hold, atPath_of_elsewhere (h.resolve_left hold)]
        rfl
  | _ => cases hrename

end Calls

/-! ### Renames -/

/-- The attributes do not depend on whether it is a file or a directory. -/
theorem shown_node {type : NodeType} (h : type = .file ∨ type = .dir) (bootTime : ℤ) (info : Meta) :
    shown bootTime type info = shown bootTime .file info := by
  obtain rfl | rfl := h
  · rfl
  · unfold shown permBits
    cases info.mode <;> rfl

/-- What is at a name can be moved to another one with its attributes. -/
structure Movable (bootTime : ℤ) (v : Vfs) (a b : List Component) : Prop where
  /-- To the same name: the entry is lost, and a directory is there again. -/
  same : a = b → ∀ type attrs, nodeAt bootTime v a = some (type, attrs) →
    type = .dir ∧ attrs = shown bootTime .file default
  /-- An entry of the goal shows through where the source has none. -/
  goal : a ≠ b → ∀ type attrs, nodeAt bootTime v a = some (type, attrs) →
    (v.metadata.has (pathOf a) = true ∨ attrs = shown bootTime .file (infoAt v (pathOf b))) ∧
      v.symlinks.has (pathOf b) = false ∧ (v.files.has (pathOf a) = true ∨ v.files.has (pathOf b) = false)
  /-- Nothing below is moved: it has to be there already. -/
  below : a ≠ b → ∀ rest x, rest ≠ [] → nodeAt bootTime v (a ++ rest) = some x →
    b ++ rest ≠ a ∧ nodeAt bootTime v (b ++ rest) = some x

section Renames

variable {bootTime : ℤ} {v v' : Vfs} {a b : List Component}

theorem type_of_nodeAt {p : List Component} {type : NodeType} {attrs : Attrs}
    (h : nodeAt bootTime v p = some (type, attrs)) : type = .file ∨ type = .dir := by
  obtain ⟨-, -, hkind, -⟩ := nodeAt_eq_some_iff.1 h
  exact hkind.imp And.right fun h => h.2.2

theorem nodeAt_other (hm : Maps v v' a b) {q : List Component} (ha : q ≠ a) (hb : q ≠ b) (habove : ¬ Above q b) :
    nodeAt bootTime v' q = nodeAt bootTime v q := by
  rw [nodeAt, hm.objectAt_other ha hb habove, nodeAt]

theorem nodeAt_self_iff (hm : Maps v v' a a) {type : NodeType} {attrs : Attrs}
    (h : nodeAt bootTime v a = some (type, attrs)) :
    nodeAt bootTime v' a = some (type, attrs) ↔ type = .dir ∧ attrs = shown bootTime .file default := by
  have hlink : v'.symlinks.has (pathOf a) = false := by
    rw [JsMap.has_eq_false_iff, hm.symlinks, if_pos rfl]
  have hfile : v'.files.has (pathOf a) = false := by
    rw [JsMap.has_eq_false_iff, hm.files, if_pos rfl]
  have hwhite : v'.whiteouts.has (pathOf a) = false := by
    rw [Bool.eq_false_iff]
    exact fun hw => ((hm.whiteouts a).1 hw).1 rfl
  have hinfo : infoAt v' (pathOf a) = default := by rw [infoAt, hm.metadata, if_pos rfl, Option.getD_none]
  rw [nodeAt_eq_some_iff, hinfo]
  constructor
  · rintro ⟨-, -, ⟨hhas, -⟩ | ⟨-, -, rfl⟩, rfl⟩
    · exact absurd (hfile.symm.trans hhas) (by decide)
    · exact ⟨rfl, shown_node (.inr rfl) _ _⟩
  · rintro ⟨rfl, rfl⟩
    obtain ⟨-, -, ⟨-, htype⟩ | ⟨-, hdir, -⟩, -⟩ := nodeAt_eq_some_iff.1 h
    · cases htype
    · exact ⟨hlink, hwhite, .inr ⟨hfile, (hm.dirs a).2 (.inl (.inr ⟨rfl, hdir⟩)), rfl⟩,
        (shown_node (.inr rfl) _ _).symm⟩

theorem nodeAt_goal_iff (hm : Maps v v' a b) (hne : a ≠ b) {type : NodeType} {attrs : Attrs}
    (h : nodeAt bootTime v a = some (type, attrs)) :
    nodeAt bootTime v' b = some (type, attrs) ↔
      (v.metadata.has (pathOf a) = true ∨ attrs = shown bootTime .file (infoAt v (pathOf b))) ∧
        v.symlinks.has (pathOf b) = false ∧ (v.files.has (pathOf a) = true ∨ v.files.has (pathOf b) = false) := by
  have hnode := type_of_nodeAt h
  obtain ⟨hlink, -, hkind, rfl⟩ := nodeAt_eq_some_iff.1 h
  have hba : b ≠ a := fun h => hne h.symm
  have hlink' : v'.symlinks.has (pathOf b) = v.symlinks.has (pathOf b) := by
    rw [JsMap.has, hm.symlinks, if_neg hba, if_pos rfl, JsMap.has_eq_false_iff.1 hlink, Option.none_or, JsMap.has]
  have hfile' : v'.files.has (pathOf b) = (v.files.has (pathOf a) || v.files.has (pathOf b)) := by
    rw [JsMap.has, hm.files, if_neg hba, if_pos rfl, Option.isSome_or, JsMap.has, JsMap.has]
  have hwhite : v'.whiteouts.has (pathOf b) = false := by
    rw [Bool.eq_false_iff]
    exact fun hw => ((hm.whiteouts b).1 hw).1 rfl
  have hinfo : shown bootTime type (infoAt v (pathOf a)) = shown bootTime type (infoAt v' (pathOf b)) ↔
      v.metadata.has (pathOf a) = true ∨
        shown bootTime type (infoAt v (pathOf a)) = shown bootTime .file (infoAt v (pathOf b)) := by
    rw [shown_node hnode, shown_node hnode]
    unfold infoAt JsMap.has
    rw [hm.metadata, if_neg hba, if_pos rfl]
    cases v.metadata.get? (pathOf a) with
    | some info => simp
    | none => simp
  rw [nodeAt_eq_some_iff, hlink', hfile', hwhite, hinfo]
  obtain ⟨hfile, rfl⟩ | ⟨hfile, hdir, rfl⟩ := hkind
  · rw [hfile]
    simp only [Bool.true_or, Bool.true_eq_false, false_and, or_false, true_and, true_or, and_true]
    exact and_comm
  · have hdir' : v'.dirs.has (pathOf b) = true := (hm.dirs b).2 (.inl (.inr ⟨rfl, hdir⟩))
    rw [hfile, hdir']
    simp only [Bool.false_or, reduceCtorEq, and_false, false_or, true_and, and_true, Bool.false_eq_true]
    tauto

/-- **When a rename takes attributes along.** -/
theorem nodeAt_rename_iff (hm : Maps v v' a b) :
    (∀ rest x, nodeAt bootTime v (a ++ rest) = some x → nodeAt bootTime v' (b ++ rest) = some x) ↔
      Movable bootTime v a b := by
  have hother {rest : List Component} (hrest : rest ≠ []) (hne : b ++ rest ≠ a) :
      nodeAt bootTime v' (b ++ rest) = nodeAt bootTime v (b ++ rest) :=
    nodeAt_other hm hne (append_ne_of_ne_nil b hrest) (not_above_append b rest)
  constructor
  · intro h
    have hself (type : NodeType) (attrs : Attrs) (hnode : nodeAt bootTime v a = some (type, attrs)) :
        nodeAt bootTime v' b = some (type, attrs) := by
      have h' := h [] (type, attrs)
      rw [List.append_nil, List.append_nil] at h'
      exact h' hnode
    refine ⟨?_, fun hne type attrs hnode => (nodeAt_goal_iff hm hne hnode).1 (hself _ _ hnode), ?_⟩
    · rintro rfl type attrs hnode
      exact (nodeAt_self_iff hm hnode).1 (hself _ _ hnode)
    · intro hne rest x hrest hnode
      have harrived := h rest x hnode
      have hba : b ++ rest ≠ a := by
        intro heq
        rw [heq, nodeAt, hm.objectAt_source hne] at harrived
        cases harrived
      exact ⟨hba, hother hrest hba ▸ harrived⟩
  · intro h rest x hnode
    by_cases hrest : rest = []
    · subst hrest
      rw [List.append_nil] at hnode ⊢
      obtain ⟨type, attrs⟩ := x
      by_cases hab : a = b
      · subst hab
        exact (nodeAt_self_iff hm hnode).2 (h.same rfl type attrs hnode)
      · exact (nodeAt_goal_iff hm hab hnode).2 (h.goal hab type attrs hnode)
    · by_cases hab : a = b
      · subst hab
        rw [hother hrest (append_ne_of_ne_nil a hrest)]
        exact hnode
      · obtain ⟨hne, hthere⟩ := h.below hab rest x hrest hnode
        rw [hother hrest hne]
        exact hthere

end Renames

/-- A descriptor keeps its attributes when an entry is moved: it has no entry of its own to lose, and none is put
over it. -/
structure Stays (bootTime : ℤ) (v : Vfs) (a b : List Component) (key : Option Path) (attrs : Attrs) : Prop where
  left : key = some (pathOf a) → attrs = shown bootTime .file default
  replaced : a ≠ b → key = some (pathOf b) → v.metadata.has (pathOf a) = true →
    attrs = shown bootTime .file (infoAt v (pathOf a))

theorem shown_moved_iff (bootTime : ℤ) {v v' : Vfs} {a b : List Component}
    (hmeta : v'.metadata = moveKey v.metadata (pathOf a) (pathOf b)) (key : Option Path) :
    shown bootTime .file (infoOf v' key) = shown bootTime .file (infoOf v key) ↔
      Stays bootTime v a b key (shown bootTime .file (infoOf v key)) := by
  cases key with
  | none => exact iff_of_true rfl ⟨nofun, nofun⟩
  | some key =>
    have hget := get?_moveKey v.metadata (pathOf a) (pathOf b) key
    unfold infoOf infoAt
    dsimp only
    rw [hmeta, hget]
    by_cases ha : key = pathOf a
    · subst ha
      rw [if_pos rfl]
      constructor
      · intro h
        exact ⟨fun _ => h.symm, fun hne hkey => absurd (pathOf_inj.1 (Option.some.inj hkey)) hne⟩
      · intro h
        exact (h.left rfl).symm
    · rw [if_neg ha]
      by_cases hb : key = pathOf b
      · subst hb
        rw [if_pos rfl]
        have hne : a ≠ b := fun h => ha (h ▸ rfl)
        cases hinfo : v.metadata.get? (pathOf a) with
        | none =>
          have hhas : v.metadata.has (pathOf a) = false := JsMap.has_eq_false_iff.2 hinfo
          refine iff_of_true rfl ⟨fun h => absurd (Option.some.inj h) ha, fun _ _ h => ?_⟩
          exact absurd (hhas.symm.trans h) (by decide)
        | some info =>
          have hat : infoAt v (pathOf a) = info := by rw [infoAt, hinfo, Option.getD_some]
          rw [Option.some_or, Option.getD_some]
          constructor
          · intro h
            refine ⟨fun hkey => absurd (Option.some.inj hkey) ha, fun _ _ _ => ?_⟩
            rw [hat]
            exact h.symm
          · intro h
            have hreplaced := h.replaced hne rfl (JsMap.has_iff.2 ⟨info, hinfo⟩)
            rw [hat] at hreplaced
            exact hreplaced.symm
      · rw [if_neg hb]
        exact iff_of_true rfl
          ⟨fun h => absurd (Option.some.inj h) ha, fun _ h => absurd (Option.some.inj h) hb⟩

/-- **What a descriptor reports after a rename.** -/
theorem report_renamed {s : Syscalls.State} {pid fd : ℤ} {bytes : List UInt8} (source goal : Path)
    (h : report s (.fd pid fd) = some bytes) (hnode : OnNode bytes) :
    (∃ bytes', report { s with io := withVfs s.io (rename (vfs s) source goal) } (.fd pid fd) = some bytes' ∧
        attrsOf bytes' = attrsOf bytes) ↔
      Stays s.bootTime (vfs s) (components source) (components goal) (keyOf s (.fd pid fd)) (attrsOf bytes) := by
  obtain ⟨hr, d, hd, rfl, htype⟩ := reported h hnode
  obtain ⟨dirs, children, hframe⟩ := rename_frame (vfs s) source goal
  rw [normalizePath_eq, normalizePath_eq] at hframe
  have hmeta : (rename (vfs s) source goal).metadata =
      moveKey (vfs s).metadata (pathOf (components source)) (pathOf (components goal)) := by rw [hframe]
  have hkey : keyOf { s with io := withVfs s.io (rename (vfs s) source goal) } (.fd pid fd) = keyOf s (.fd pid fd) := by
    rw [hframe]
    rfl
  have hd' : describe { s with io := withVfs s.io (rename (vfs s) source goal) } (.fd pid fd) = some d := by
    rw [hframe, ← hd]
    rfl
  have hr' : ¬ IsPipe { s with io := withVfs s.io (rename (vfs s) source goal) } (.fd pid fd) := hr
  have hvfs : vfs { s with io := withVfs s.io (rename (vfs s) source goal) } = rename (vfs s) source goal := rfl
  have hattrs (info : Meta) : attrsOf (structureOf s.bootTime info d) = shown s.bootTime .file info := by
    rw [structureOf, attrsOf_statBuf, shown_node htype]
  rw [report_eq hr', hd', hkey, hvfs, hattrs, ← shown_moved_iff s.bootTime hmeta]
  constructor
  · rintro ⟨bytes', hbytes, hsame⟩
    rwa [← Option.some.inj hbytes, hattrs] at hsame
  · intro hsame
    exact ⟨_, rfl, (hattrs _).trans hsame⟩

/-! ### The law -/

/-- Which references are to the same object, in each state. -/
abbrev Sameness := Syscalls.State → Ref → Ref → Prop

/-- After a change through one reference, every other one to the same file or directory reports it. -/
def SetKept (n : Sameness) (s s' : Syscalls.State) (r : Ref) (change : Change) : Prop :=
  ∀ bytes, report s r = some bytes → OnNode bytes → ∀ r' bytes', n s r r' → report s r' = some bytes' → OnNode bytes' →
    ∃ bytes'', report s' r' = some bytes'' ∧ attrsOf bytes'' = change.apply (attrsOf bytes')

/-- After a rename, what was at the old name and below it is at the new name with its attributes, and a
descriptor on it reports them too. -/
structure MoveKept (n : Sameness) (s s' : Syscalls.State) (a b : List Component) : Prop where
  names : ∀ rest x, nodeAt s.bootTime (vfs s) (a ++ rest) = some x → nodeAt s'.bootTime (vfs s') (b ++ rest) = some x
  descriptors : ∀ rest pid fd bytes, n s (.path (pathOf (a ++ rest))) (.fd pid fd) →
    report s (.fd pid fd) = some bytes → OnNode bytes →
      ∃ bytes', report s' (.fd pid fd) = some bytes' ∧ attrsOf bytes' = attrsOf bytes

/-- **Attributes are kept by a step**: by a call that returns 0. -/
def RoundTrip (n : Sameness) (s : Syscalls.State) (ev : Syscalls.Event) (s' : Syscalls.State) : Prop :=
  ∀ pid call p, ev = .syscall pid (.other call) → s.io.kernel.processTable.get? pid = some p →
    (Syscalls.handleSyscall s pid (.other call)).2 = some 0 →
      (∀ r change, asked s pid p call = some (r, change) → SetKept n s s' r change) ∧
        ∀ source goal, renames (vfs s) p call = some (source, goal) →
          MoveKept n s s' (components source) (components goal)

/-- References whose attributes are kept where the change is stored are told the change, and the others have the
values already. -/
def SetFits (n : Sameness) (s : Syscalls.State) (r : Ref) (key : Option Path) (change : Change) : Prop :=
  ∀ bytes, report s r = some bytes → OnNode bytes → ∀ r' bytes', n s r r' → report s r' = some bytes' → OnNode bytes' →
    if ∃ path, key = some path ∧ keyOf s r' = some path then change.Told s.bootTime (attrsOf bytes')
    else change.Idle (attrsOf bytes')

/-- The names can be moved, and the descriptors do not depend on the entries that are. -/
structure MoveFits (n : Sameness) (s : Syscalls.State) (a b : List Component) : Prop where
  names : Movable s.bootTime (vfs s) a b
  descriptors : ∀ rest pid fd bytes, n s (.path (pathOf (a ++ rest))) (.fd pid fd) →
    report s (.fd pid fd) = some bytes → OnNode bytes →
      Stays s.bootTime (vfs s) a b (keyOf s (.fd pid fd)) (attrsOf bytes)

/-- **The condition.** -/
def Fits (n : Sameness) (s : Syscalls.State) (ev : Syscalls.Event) : Prop :=
  ∀ pid call p, ev = .syscall pid (.other call) → s.io.kernel.processTable.get? pid = some p → ¬ Refused p call →
    (∀ r change, asked s pid p call = some (r, change) → SetFits n s r (stored s r call) change) ∧
      ∀ source goal, renames (vfs s) p call = some (source, goal) → MoveFits n s (components source) (components goal)

theorem setKept_iff (n : Sameness) (s : Syscalls.State) (r : Ref) (key : Option Path) (change : Change) :
    SetKept n s (storeMeta s key change.update) r change ↔ SetFits n s r key change := by
  constructor
  · intro h bytes hr hon r' bytes' hsame hr' hon'
    exact (report_stored key change hr' hon').1 (h bytes hr hon r' bytes' hsame hr' hon')
  · intro h bytes hr hon r' bytes' hsame hr' hon'
    exact (report_stored key change hr' hon').2 (h bytes hr hon r' bytes' hsame hr' hon')

theorem moveKept_iff (n : Sameness) (s : Syscalls.State) (source goal : Path) :
    MoveKept n s { s with io := withVfs s.io (rename (vfs s) source goal) } (components source) (components goal) ↔
      MoveFits n s (components source) (components goal) := by
  have hnames := @nodeAt_rename_iff s.bootTime _ _ _ _ (maps_rename (vfs s) source goal)
  constructor
  · intro h
    refine ⟨hnames.1 h.names, fun rest pid fd bytes hsame hr hon => ?_⟩
    exact (report_renamed source goal hr hon).1 (h.descriptors rest pid fd bytes hsame hr hon)
  · intro h
    refine ⟨hnames.2 h.names, fun rest pid fd bytes hsame hr hon => ?_⟩
    exact (report_renamed source goal hr hon).2 (h.descriptors rest pid fd bytes hsame hr hon)

theorem roundTrip_step_iff (n : Sameness) (s : Syscalls.State) (ev : Syscalls.Event) :
    RoundTrip n s ev (Syscalls.after s ev) ↔ Fits n s ev := by
  have hstate {pid : ℤ} {call : Syscall} {s' : Syscalls.State} {result : Option ℤ}
      (h : Syscalls.handleSyscall s pid call = (s', result)) : Syscalls.after s (.syscall pid call) = s' := by
    show (Syscalls.handleSyscall s pid call).1 = s'
    rw [h]
  constructor
  · rintro h pid call p rfl hp haccepted
    constructor
    · intro r change hasked
      have hdone := (handleSyscall_asked hp hasked).1 haccepted
      have hkept := (h pid call p rfl hp (by rw [hdone])).1 r change hasked
      rw [hstate hdone] at hkept
      exact (setKept_iff n s r _ change).1 hkept
    · intro source goal hrename
      have hdone := (handleSyscall_renames hp hrename).1 haccepted
      have hkept := (h pid call p rfl hp (by rw [hdone])).2 source goal hrename
      rw [hstate hdone] at hkept
      exact (moveKept_iff n s source goal).1 hkept
  · rintro h pid call p rfl hp hzero
    constructor
    · intro r change hasked
      obtain ⟨hdone, hrefused⟩ := handleSyscall_asked hp hasked
      have haccepted : ¬ Refused p call := by
        intro hrefuse
        rw [hrefused hrefuse] at hzero
        exact absurd (Option.some.inj hzero) (by decide)
      rw [hstate (hdone haccepted)]
      exact (setKept_iff n s r _ change).2 ((h pid call p rfl hp haccepted).1 r change hasked)
    · intro source goal hrename
      obtain ⟨hdone, hrefused⟩ := handleSyscall_renames hp hrename
      have haccepted : ¬ Refused p call := by
        intro hrefuse
        rw [hrefused hrefuse] at hzero
        exact absurd (Option.some.inj hzero) (by decide)
      rw [hstate (hdone haccepted)]
      exact (moveKept_iff n s source goal).2 ((h pid call p rfl hp haccepted).2 source goal hrename)

/-- The events, one after the other. -/
def Step (s : Syscalls.State) (ev : Syscalls.Event) (s' : Syscalls.State) : Prop := s' = Syscalls.after s ev

/-- The state without files, some time after 1970. -/
def bootedLater : Syscalls.State := { Syscalls.booted with bootTime := 1 }

/-- A process makes a file and sets its times to 0. -/
def setsZero : List Syscalls.Event :=
  [.registerWorker 1 [], .registerMemory 1 (List.replicate 64 0),
    .syscall 1 (.kernel (.open "/a".toList oCreat 0) .answered),
    .syscall 1 (.other (.utimensat 0 atFdcwd 1 "/a".toList 8))]

/-- The state before the times are set. -/
def beforeZero : Syscalls.State := (setsZero.take 3).foldl Syscalls.after bootedLater

end AttributeLaw
