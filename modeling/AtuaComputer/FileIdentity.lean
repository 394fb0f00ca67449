/-
**The identity of a file.**

Two references lead to the same file when the stat calls report the same device and inode number for them,
and a descriptor that was opened on a path reports what the path does.  The kernel has no inodes: it makes the
number from the text of the path or from the number of the descriptor.  So two spellings of a path have two
numbers, and the number of a new descriptor is that of its path by chance only.

Which file a descriptor is on depends on what has happened: after a truncation the maps are as after a removal
and a new file of that name.  So the runs keep account of the files: a name has its file until it is taken
away, moved or given to a link, and a description is on the file whose name it was opened by.

Main definitions:

* `FileIdentity.Files`, `FileIdentity.Tracked` — which file is where, and the states with this account;
* `FileIdentity.SameFile`, `FileIdentity.Identity` — the same file, and that numbers tell it;
* `FileIdentity.Agrees` — a new descriptor reports what its path does;
* `FileIdentity.Tells`, `FileIdentity.Matches` — the two conditions.

Main results:

* `FileIdentity.named_injective` — no two names ever have one file;
* `FileIdentity.identity_iff_tells` — **which references the numbers are right about**;
* `FileIdentity.agrees_iff` — **which new descriptors report what their paths do**;
* `FileIdentity.law_iff` — both along any run.
-/

import AtuaComputer.Runs
import AtuaComputer.StatReports

set_option relaxedAutoImplicit false
set_option autoImplicit false

namespace FileIdentity

open VirtualFs Kernel FileIo FileOutcomes Syscalls RenameLaw StatReports Runs

/-! ### Which file is where -/

/-- A file, by the name that it was made under and by when that name was free last. -/
abbrev FileId := Path × ℕ

/-- The file that has each name, and the file that each description is on. -/
structure Files where
  named : Path → FileId
  opened : ℤ → FileId
  clock : ℕ

/-- A state with its files. -/
structure Tracked where
  state : Syscalls.State
  files : Files

/-- Every name has a file of its own, and what is open is on the file of its name. -/
def start (s : Syscalls.State) : Tracked where
  state := s
  files :=
    { named := fun path => (path, 0)
      opened := fun vfsFd => ((((vfs s).openFiles.get? vfsFd).map OpenFile.path).getD [], 0)
      clock := 0 }

/-- A relative path at a descriptor, which the calls refuse. -/
def Refused (dirfd : Int32) (path : Path) : Prop := path.head? ≠ some '/' ∧ dirfd ≠ atFdcwd

instance (dirfd : Int32) (path : Path) : Decidable (Refused dirfd path) := by
  unfold Refused
  infer_instance

/-- The name that a call takes from the file that has it, and the name that the file goes on under, if there
is one.  A link takes its name from what was there. -/
def taken (v : Vfs) (p : Proc) : Syscalls.Call → Option (Path × Option Path)
  | .unlink path => some (resolvePath v.symlinks (absolute (readCString p path)), none)
  | .unlinkat a path _ =>
    if Refused a (readCString p path) then none
    else some (resolvePath v.symlinks (absolute (readCString p path)), none)
  | .rename oldPath newPath =>
    some (resolvePath v.symlinks (absolute (readCString p oldPath)),
      some (resolvePath v.symlinks (absolute (readCString p newPath))))
  | .renameat a oldPath c newPath =>
    if Refused a (readCString p oldPath) ∨ Refused c (readCString p newPath) then none
    else
      some (resolvePath v.symlinks (absolute (readCString p oldPath)),
        some (resolvePath v.symlinks (absolute (readCString p newPath))))
  | .symlinkat _ b linkpath =>
    if Refused b (readCString p linkpath) then none
    else some (normalizePath (absolute (readCString p linkpath)), none)
  | _ => none

/-- A name is taken: it is free for another file.  What is not in the maps cannot be moved, and what is moved
onto itself is lost, unless it is a directory. -/
def Files.take (f : Files) (v : Vfs) (source : Path) (goal : Option Path) : Files :=
  { f with
    named := fun path =>
      if goal = some path ∧ (v.files.has source || v.dirs.has source || v.symlinks.has source) = true ∧
          (path = source → v.dirs.has source = true) then
        f.named source
      else if path = source then (path, f.clock + 1)
      else f.named path
    clock := f.clock + 1 }

/-- The names after an event. -/
def Files.rename (f : Files) (s : Syscalls.State) : Syscalls.Event → Files
  | .syscall pid (.other call) =>
    match (s.io.kernel.processTable.get? pid).bind fun p => taken (vfs s) p call with
    | some (source, goal) => f.take (vfs s) source goal
    | none => f
  | _ => f

/-- A new description is on the file of its name, and stays there. -/
def Files.open (f : Files) (s s' : Syscalls.State) : Files :=
  { f with
    opened := fun vfsFd =>
      match (vfs s).openFiles.get? vfsFd, (vfs s').openFiles.get? vfsFd with
      | none, some file => f.named file.path
      | _, _ => f.opened vfsFd }

/-- The events, with the account of the files. -/
def next (t : Tracked) (ev : Syscalls.Event) : Tracked where
  state := Syscalls.after t.state ev
  files := (t.files.rename t.state ev).open t.state (Syscalls.after t.state ev)

/-- The step relation. -/
def Step (t : Tracked) (ev : Syscalls.Event) (t' : Tracked) : Prop := t' = next t ev

/-- What the clock of the account guarantees. -/
structure Files.Sound (f : Files) : Prop where
  named : Function.Injective f.named
  clock : ∀ path, (f.named path).2 ≤ f.clock

theorem Files.Sound.take {f : Files} (h : f.Sound) (v : Vfs) (source : Path) (goal : Option Path) :
    (f.take v source goal).Sound := by
  have hfresh : ∀ path, f.named path ≠ (source, f.clock + 1) := by
    intro path heq
    have hle := h.clock path
    rw [heq] at hle
    exact absurd hle (by simp)
  have hkeep : ∀ path path', f.named path = f.named path' → path = path' := fun _ _ heq => h.named heq
  constructor
  · intro path path' heq
    simp only [Files.take] at heq
    grind
  · intro path
    have hpath := h.clock path
    have hsource := h.clock source
    simp only [Files.take]
    grind

/-- **No two names ever have one file.** -/
theorem named_injective {s : Syscalls.State} {tr : List (Syscalls.Event × Tracked)}
    (hrun : IsRun Step (start s) tr) : Throughout (fun t => Function.Injective t.files.named) (start s) tr := by
  have hsound : Throughout (fun t => t.files.Sound) (start s) tr := by
    refine throughout_of_isRun ?_ ⟨fun path path' heq => (Prod.mk.inj heq).1, fun path => Nat.le_refl 0⟩ hrun
    rintro t ev t' h rfl
    have hrename : (t.files.rename t.state ev).Sound := by
      unfold Files.rename
      split
      · split
        · exact h.take _ _ _
        · exact h
      · exact h
    exact ⟨hrename.named, hrename.clock⟩
  exact hsound.mono fun _ h => h.named

/-! ### The law -/

/-- There is a file or a directory at a resolved path. -/
def Shows (v : Vfs) (resolved : Path) : Prop :=
  v.whiteouts.has resolved = false ∧ (v.files.has resolved = true ∨ v.dirs.has resolved = true)

instance (v : Vfs) (resolved : Path) : Decidable (Shows v resolved) := by
  unfold Shows
  infer_instance

/-- What a reference can lead to. -/
inductive Object where
  | device (name : Path)
  | stream (name : Special)
  | pipe (ringOffset : ℤ)
  | file (id : FileId)
deriving DecidableEq

/-- The name that a path leads to: its own one, if there is nothing behind the links. -/
def endOf (v : Vfs) (path : Path) : Path :=
  if Shows v (resolvePath v.symlinks (absolute path)) then resolvePath v.symlinks (absolute path)
  else absolute path

/-- What a description is on.  The streams and the devices are no files of the tree. -/
def openedObject (t : Tracked) (vfsFd : ℤ) (file : OpenFile) : Object :=
  match file.special with
  | some .null | some .urandom => .device file.path
  | some name => .stream name
  | none => .file (t.files.opened vfsFd)

/-- What a reference leads to. -/
def object (t : Tracked) : Ref → Option Object
  | .path path =>
    some (if isDevice (absolute path) then .device (absolute path)
      else .file (t.files.named (endOf (vfs t.state) path)))
  | .link path =>
    some (if isDevice (absolute path) then .device (absolute path)
      else if (vfs t.state).symlinks.has (absolute path) then .file (t.files.named (absolute path))
      else .file (t.files.named (endOf (vfs t.state) path)))
  | .fd pid fd =>
    (kindAt t.state.io.kernel pid fd).bind fun
      | .special name => some (.stream name)
      | .pipe _ ringOffset => some (.pipe ringOffset)
      | .file vfsFd | .dir vfsFd => ((vfs t.state).openFiles.get? vfsFd).map (openedObject t vfsFd)

/-- Two references lead to the same file. -/
def SameFile (t : Tracked) (r r' : Ref) : Prop := object t r = object t r'

/-- Of any two references that are reported, the identities are equal exactly when the files are the same. -/
def Identity (t : Tracked) : Prop :=
  ∀ r r' bytes bytes', report t.state r = some bytes → report t.state r' = some bytes' →
    (identity bytes = identity bytes' ↔ SameFile t r r')

/-- The descriptor and the path are reported, with the same inode number, type, permissions and size. -/
def SameReport (s : Syscalls.State) (pid fd : ℤ) (path : Path) : Prop :=
  ∃ bytes bytes', report s (.fd pid fd) = some bytes ∧ report s (.path path) = some bytes' ∧
    inoField bytes = inoField bytes' ∧ modeField bytes = modeField bytes' ∧ sizeField bytes = sizeField bytes'

/-- The path, the flags and the mode of a call that opens. -/
def openArgs : Syscall → Option (Path × Int32 × Int32)
  | .kernel (.open path b c) _ => some (path, b, c)
  | .kernel (.openat path c d) _ => some (path, c, d)
  | .kernel (.fsOpen path b c) _ => some (path, b, c)
  | _ => none

/-- A descriptor that the event opens on a path reports what the path does. -/
def Agrees (s : Syscalls.State) (ev : Syscalls.Event) (s' : Syscalls.State) : Prop :=
  ∀ pid call path flags mode p fd, ev = .syscall pid call → openArgs call = some (path, flags, mode) →
    s.io.kernel.processTable.get? pid = some p → (Syscalls.handleSyscall s pid call).2 = some fd → 0 ≤ fd →
      SameReport s' pid fd (readCString p path)

/-! ### The conditions -/

/-- What a program says to get a report: the text of a path, or the number of a descriptor. -/
def words : Ref → Path ⊕ ℤ
  | .path path | .link path => .inl (absolute path)
  | .fd _ fd => .inr fd

/-- The references that the numbers are right about.  All pipes have the same number.  Else the same words
have, so they must lead to the same file; other words have it by chance, and then only may they. -/
structure Tells (t : Tracked) (r r' : Ref) : Prop where
  pipes : IsPipe t.state r → IsPipe t.state r' → SameFile t r r'
  sameWords : ¬ IsPipe t.state r → ¬ IsPipe t.state r' → words r = words r' → SameFile t r r'
  otherWords : ¬ IsPipe t.state r → ¬ IsPipe t.state r' → words r ≠ words r' →
    (SameFile t r r' ↔ inode r.number ≡ inode r'.number [ZMOD 2 ^ 64])

/-- The law of identity reference by reference. -/
def IdentityAt (t : Tracked) : Prop :=
  ∀ r r' bytes bytes', report t.state r = some bytes → report t.state r' = some bytes' →
    ((identity bytes = identity bytes' ↔ SameFile t r r') ↔ Tells t r r')

/-- The next descriptor has the number of the path by chance, and what is opened is what the path shows. -/
structure Matches (v : Vfs) (path : Path) (flags : Int32) : Prop where
  number : inode (v.nextFd + 1000) ≡ inode (pathIno (absolute path)) [ZMOD 2 ^ 64]
  /-- The permissions of a device are looked up under its name, and under what that resolves to. -/
  device : isDevice (absolute path) →
    permBits .chardev (infoAt v (absolute path)) =
      permBits .chardev (infoAt v (resolvePath v.symlinks (absolute path)))
  /-- A hidden file can be opened with `O_CREAT`, and a hidden directory too. -/
  shown : ¬ isDevice (absolute path) → v.whiteouts.has (resolvePath v.symlinks (absolute path)) = true →
    v.files.has (resolvePath v.symlinks (absolute path)) = false ∧ hasFlag flags oDirectory = false
  /-- What is a file and a directory is opened as a directory with `O_DIRECTORY`. -/
  directory : ¬ isDevice (absolute path) → hasFlag flags oDirectory = true →
    v.files.has (resolvePath v.symlinks (absolute path)) = false

/-- What a call that opens has to meet, if it succeeds. -/
def Fits (s : Syscalls.State) (ev : Syscalls.Event) : Prop :=
  ∀ pid call path flags mode p, ev = .syscall pid call → openArgs call = some (path, flags, mode) →
    s.io.kernel.processTable.get? pid = some p →
      0 ≤ (openFile (vfs s) (readCString p path) flags mode).2 → Matches (vfs s) (readCString p path) flags

/-! ### Numbers -/

theorem not_isDevice_cons {path : Path} (h : path.head? = some '/') : ¬ isDevice ('/' :: path) := by
  obtain ⟨c, rest, rfl⟩ : ∃ c rest, path = c :: rest := by
    cases path with
    | nil => cases h
    | cons c rest => exact ⟨c, rest, rfl⟩
  obtain rfl : c = '/' := Option.some.inj h
  rintro (hdev | hdev | hdev) <;> simp at hdev

theorem resolvePath_cons (symlinks : JsMap Path Path) (path : Path) :
    resolvePath symlinks ('/' :: path) = resolvePath symlinks path := by
  have hnorm : normalizePath ('/' :: path) = normalizePath path := by
    rw [normalizePath_eq, normalizePath_eq, components_cons]
  unfold resolvePath resolveFuel
  rw [hnorm]

/-- A path that leads somewhere is reported. -/
theorem report_of_shows {s : Syscalls.State} {path : Path} (hroot : path.head? = some '/') (hdev : ¬ isDevice path)
    (h : Shows (vfs s) (resolvePath (vfs s).symlinks path)) : ∃ bytes, report s (.path path) = some bytes := by
  have habs : absolute path = path := if_pos hroot
  have hstat : VirtualFs.stat (vfs s) path true = statResolved (vfs s) path (resolvePath (vfs s).symlinks path) := by
    unfold VirtualFs.stat
    rw [habs]
    dsimp only
    rw [if_neg hdev]
    cases (vfs s).symlinks.get? path <;> rfl
  have hfound : statResolved (vfs s) path (resolvePath (vfs s).symlinks path) ≠ none := by
    rw [ne_eq, statResolved_eq_none_iff]
    obtain ⟨hshown, hthere⟩ := h
    rw [hshown]
    tauto
  obtain ⟨info, hinfo⟩ := Option.ne_none_iff_exists'.1 hfound
  exact ⟨_, by rw [report, pathReport, hstat, hinfo, Option.map_some]⟩

/-- The inode numbers of two paths that are reported as the same file are equal. -/
theorem Identity.inode_eq {t : Tracked} (h : Identity t) {path path' : Path}
    (hroot : path.head? = some '/') (hroot' : path'.head? = some '/') (hsame : SameFile t (.path path) (.path path'))
    (hreport : ∃ bytes, report t.state (.path path) = some bytes)
    (hreport' : ∃ bytes, report t.state (.path path') = some bytes) :
    inode (pathIno path) ≡ inode (pathIno path') [ZMOD 2 ^ 64] := by
  obtain ⟨bytes, hbytes⟩ := hreport
  obtain ⟨bytes', hbytes'⟩ := hreport'
  have hequal := (h _ _ _ _ hbytes hbytes').2 hsame
  obtain ⟨hpipe, -⟩ | ⟨-, -, hnumber⟩ := (identity_eq_iff hbytes hbytes').1 hequal
  · exact hpipe.elim
  · unfold Ref.number at hnumber
    dsimp only at hnumber
    rwa [absolute, if_pos hroot, absolute, if_pos hroot'] at hnumber

/-- Another slash in front leads to the same file. -/
theorem sameFile_cons {t : Tracked} {path : Path} (hroot : path.head? = some '/') (hdev : ¬ isDevice path)
    (hshows : Shows (vfs t.state) (resolvePath (vfs t.state).symlinks path)) :
    SameFile t (.path path) (.path ('/' :: path)) := by
  have habs : absolute path = path := if_pos hroot
  have habs' : absolute ('/' :: path) = '/' :: path := rfl
  unfold SameFile object endOf
  dsimp only
  rw [habs, habs', if_neg hdev, if_neg (not_isDevice_cons hroot), resolvePath_cons, if_pos hshows, if_pos hshows]

/-- **Where a path leads somewhere, the numbers do not tell the files apart.** -/
theorem not_identity_of_shows {t : Tracked} (path : Path) (hdev : ¬ isDevice (absolute path))
    (hshows : Shows (vfs t.state) (resolvePath (vfs t.state).symlinks (absolute path))) : ¬ Identity t := by
  intro h
  generalize hpath : absolute path = a at hdev hshows
  have hroot : a.head? = some '/' := hpath ▸ head?_absolute path
  have hreport := report_of_shows hroot hdev hshows
  have hdev₁ := not_isDevice_cons hroot
  have hshows₁ : Shows (vfs t.state) (resolvePath (vfs t.state).symlinks ('/' :: a)) := by rwa [resolvePath_cons]
  have hreport₁ : ∃ bytes, report t.state (.path ('/' :: a)) = some bytes := report_of_shows rfl hdev₁ hshows₁
  have hreport₂ : ∃ bytes, report t.state (.path ('/' :: '/' :: a)) = some bytes :=
    report_of_shows rfl (not_isDevice_cons rfl) (by rwa [resolvePath_cons])
  have hone := h.inode_eq hroot rfl (sameFile_cons hroot hdev hshows) hreport hreport₁
  have htwo := h.inode_eq rfl rfl (sameFile_cons rfl hdev₁ hshows₁) hreport₁ hreport₂
  exact (inode_spellings a).elim (· hone) (· htwo)

/-- The same words have the same number. -/
theorem number_eq_of_words {r r' : Ref} (h : words r = words r') : r.number = r'.number := by
  have hnumber : ∀ r : Ref, r.number = (words r).elim (fun text => (pathIno text : ℤ)) (· + 1000) := by
    intro r
    cases r <;> rfl
  rw [hnumber, hnumber, h]

/-- Only descriptors of pipes lead to pipes. -/
theorem isPipe_of_object {t : Tracked} {r : Ref} {ringOffset : ℤ} (h : object t r = some (.pipe ringOffset)) :
    IsPipe t.state r := by
  cases r with
  | path path =>
    unfold object at h
    dsimp only at h
    split_ifs at h <;> cases h
  | link path =>
    unfold object at h
    dsimp only at h
    split_ifs at h <;> cases h
  | fd pid fd =>
    obtain ⟨kind, hkind, hobject⟩ := Option.bind_eq_some_iff.1 h
    have hopened (vfsFd : ℤ) : ((vfs t.state).openFiles.get? vfsFd).map (openedObject t vfsFd) ≠
        some (.pipe ringOffset) := by
      intro heq
      obtain ⟨file, -, hfile⟩ := Option.map_eq_some_iff.1 heq
      unfold openedObject at hfile
      split at hfile <;> cases hfile
    cases kind with
    | special name => cases hobject
    | pipe fdEnd offset => exact ⟨fdEnd, offset, hkind⟩
    | file vfsFd | dir vfsFd => exact absurd hobject (hopened vfsFd)

theorem object_of_isPipe {t : Tracked} {r : Ref} (h : IsPipe t.state r) :
    ∃ ringOffset, object t r = some (.pipe ringOffset) := by
  cases r with
  | path path => exact h.elim
  | link path => exact h.elim
  | fd pid fd =>
    obtain ⟨fdEnd, ringOffset, hkind⟩ := h
    exact ⟨ringOffset, by rw [object, hkind]; rfl⟩

/-- A pipe is the same file as pipes only. -/
theorem SameFile.isPipe {t : Tracked} {r r' : Ref} (h : SameFile t r r') (hpipe : IsPipe t.state r) :
    IsPipe t.state r' := by
  obtain ⟨ringOffset, hobject⟩ := object_of_isPipe hpipe
  exact isPipe_of_object (h.symm.trans hobject)

/-- **Which references the numbers are right about.** -/
theorem identity_iff_tells (t : Tracked) : IdentityAt t := by
  intro r r' bytes bytes' hbytes hbytes'
  rw [identity_eq_iff hbytes hbytes', SameNumber]
  by_cases hpipe : IsPipe t.state r <;> by_cases hpipe' : IsPipe t.state r'
  · -- two pipes
    rw [iff_true_left (Or.inl ⟨hpipe, hpipe'⟩)]
    exact ⟨fun h => ⟨fun _ _ => h, fun hno => absurd hpipe hno, fun hno => absurd hpipe hno⟩,
      fun h => h.pipes hpipe hpipe'⟩
  · -- a pipe and something else
    refine iff_of_true (iff_of_false (by tauto) fun h => hpipe' (h.isPipe hpipe)) ?_
    exact ⟨fun _ h => absurd h hpipe', fun h => absurd hpipe h, fun h => absurd hpipe h⟩
  · refine iff_of_true (iff_of_false (by tauto) fun h => hpipe (SameFile.isPipe h.symm hpipe')) ?_
    exact ⟨fun h => absurd h hpipe, fun _ h => absurd hpipe' h, fun _ h => absurd hpipe' h⟩
  · -- the numbers are what the words make them
    have hnumbers : (IsPipe t.state r ∧ IsPipe t.state r' ∨ ¬ IsPipe t.state r ∧ ¬ IsPipe t.state r' ∧
        inode r.number ≡ inode r'.number [ZMOD 2 ^ 64]) ↔ inode r.number ≡ inode r'.number [ZMOD 2 ^ 64] := by
      tauto
    rw [hnumbers]
    by_cases hwords : words r = words r'
    · have hequal : inode r.number ≡ inode r'.number [ZMOD 2 ^ 64] := by rw [number_eq_of_words hwords]
      rw [iff_true_left hequal]
      exact ⟨fun h => ⟨fun hp => absurd hp hpipe, fun _ _ _ => h, fun _ _ hne => absurd hwords hne⟩,
        fun h => h.sameWords hpipe hpipe' hwords⟩
    · exact ⟨fun h => ⟨fun hp => absurd hp hpipe, fun _ _ heq => absurd heq hwords, fun _ _ _ => h.symm⟩,
        fun h => (h.otherWords hpipe hpipe' hwords).symm⟩

/-! ### Opening -/

/-- What `open` enters, if it succeeds: the filesystem up to the table, and the description. -/
inductive Opened (v : Vfs) (path : Path) (flags : Int32) : Vfs → OpenFile → Prop
  | device (file : OpenFile) : isDevice (absolute path) → fileType file = .chardev →
      file.path = absolute path → file.content = some v.buffers.length →
        Opened v path flags (newBuffer v []).1 file
  | directory (file : OpenFile) : ¬ isDevice (absolute path) → file.isDir = true →
      file.path = resolvePath v.symlinks (absolute path) → file.content = none →
      v.dirs.has (resolvePath v.symlinks (absolute path)) = true ∨ v.dirs.has (absolute path) = true →
      (hasFlag flags oDirectory = false → v.files.has (resolvePath v.symlinks (absolute path)) = false ∧
        v.whiteouts.has (resolvePath v.symlinks (absolute path)) = false) →
        Opened v path flags v file
  | file (w : Vfs) (file : OpenFile) (content : Buf) : ¬ isDevice (absolute path) →
      hasFlag flags oDirectory = false → fileType file = .file →
      file.path = resolvePath v.symlinks (absolute path) → file.content = some content →
      w.symlinks = v.symlinks → w.files.get? (resolvePath v.symlinks (absolute path)) = some content →
      (w.whiteouts.has (resolvePath v.symlinks (absolute path)) = true ↔
        v.whiteouts.has (resolvePath v.symlinks (absolute path)) = true ∧
          v.files.has (resolvePath v.symlinks (absolute path)) = true) →
        Opened v path flags w file

/-- The buffer of an opened file is the one that the map has then. -/
theorem openContent_spec (v : Vfs) (resolved : Path) (flags mode : Int32) :
    openContent v resolved flags mode = (v, none) ∧ v.files.has resolved = false ∧
        hasFlag flags oCreat = false ∨
      ∃ w content, openContent v resolved flags mode = (w, some content) ∧ w.symlinks = v.symlinks ∧
        w.files.get? resolved = some content ∧
        (w.whiteouts.has resolved = true ↔ v.whiteouts.has resolved = true ∧ v.files.has resolved = true) := by
  -- truncating sets the entry to a new buffer
  have htrunc (w : Vfs) (content : Buf) (hlinks : w.symlinks = v.symlinks)
      (hget : w.files.get? resolved = some content)
      (hwhite : w.whiteouts.has resolved = true ↔ v.whiteouts.has resolved = true ∧ v.files.has resolved = true) :
      ∃ w' content', (if (some content).isSome = true ∧ hasFlag flags oTrunc = true then
          ({ w with buffers := w.buffers ++ [[]], files := w.files.set resolved w.buffers.length },
            some w.buffers.length)
        else (w, some content)) = (w', some content') ∧ w'.symlinks = v.symlinks ∧
        w'.files.get? resolved = some content' ∧
        (w'.whiteouts.has resolved = true ↔ v.whiteouts.has resolved = true ∧ v.files.has resolved = true) := by
    split_ifs
    · exact ⟨_, _, rfl, hlinks, JsMap.get?_set_self _ _ _, hwhite⟩
    · exact ⟨_, _, rfl, hlinks, hget, hwhite⟩
  unfold openContent
  cases hget : v.files.get? resolved with
  | some content =>
    have hfile : v.files.has resolved = true := JsMap.has_iff.2 ⟨content, hget⟩
    exact .inr (htrunc v content rfl hget (by rw [hfile]; tauto))
  | none =>
    have hfile : v.files.has resolved = false := JsMap.has_eq_false_iff.2 hget
    by_cases hcreat : hasFlag flags oCreat = true
    · obtain ⟨dirs, children, metadata, hframe⟩ := createFile_frame v resolved mode
      dsimp only
      rw [if_pos hcreat, hframe]
      refine .inr (htrunc _ _ rfl (JsMap.get?_set_self _ _ _) ?_)
      rw [hfile, JsMap.has_delete]
      tauto
    · dsimp only
      rw [if_neg hcreat]
      exact .inl ⟨by rw [if_neg (by simp)], hfile, Bool.eq_false_iff.2 hcreat⟩

theorem opened_of_openFile {v : Vfs} {path : Path} {flags mode : Int32}
    (h : 0 ≤ (openFile v path flags mode).2) :
    ∃ w file, openFile v path flags mode = install w file ∧ w.nextFd = v.nextFd ∧ Opened v path flags w file := by
  have hcontent := sameTable_openContent v (resolvePath v.symlinks (absolute path)) flags mode
  unfold openFile at h ⊢
  dsimp only at h ⊢
  by_cases hnull : absolute path = "/dev/null".toList
  · rw [if_pos hnull]
    exact ⟨_, _, rfl, rfl, .device _ (.inl hnull) rfl rfl rfl⟩
  rw [if_neg hnull] at h ⊢
  by_cases hrandom : absolute path = "/dev/urandom".toList ∨ absolute path = "/dev/random".toList
  · rw [if_pos hrandom]
    exact ⟨_, _, rfl, rfl, .device _ (.inr hrandom) rfl rfl rfl⟩
  rw [if_neg hrandom] at h ⊢
  have hdev : ¬ isDevice (absolute path) := by
    rintro (hdev | hdev)
    · exact hnull hdev
    · exact hrandom hdev
  by_cases hhidden : v.whiteouts.has (resolvePath v.symlinks (absolute path)) = true ∧ ¬ hasFlag flags oCreat = true
  · rw [if_pos hhidden] at h
    exact absurd h (by simp)
  rw [if_neg hhidden] at h ⊢
  by_cases hflag : hasFlag flags oDirectory = true
  · rw [if_pos hflag] at h ⊢
    split_ifs at h ⊢ with hdir
    · exact ⟨_, _, rfl, rfl, .directory _ hdev rfl rfl rfl hdir fun hno => absurd hflag (by simp [hno])⟩
    · exact absurd h (by simp)
  rw [if_neg hflag] at h ⊢
  by_cases hexcl : hasFlag flags oCreat = true ∧ hasFlag flags oExcl = true ∧
      (v.files.has (resolvePath v.symlinks (absolute path)) = true ∨
        v.dirs.has (resolvePath v.symlinks (absolute path)) = true)
  · rw [if_pos hexcl] at h
    exact absurd h (by simp)
  rw [if_neg hexcl] at h ⊢
  obtain ⟨hnone, hfile, hcreat⟩ | ⟨w, content, hsome, hlinks, hget, hwhite⟩ :=
    openContent_spec v (resolvePath v.symlinks (absolute path)) flags mode
  · rw [hnone] at h ⊢
    dsimp only at h ⊢
    split_ifs at h ⊢ with hdir
    · refine ⟨_, _, rfl, rfl, .directory _ hdev rfl rfl rfl hdir fun _ => ⟨hfile, ?_⟩⟩
      rw [Bool.eq_false_iff]
      exact fun hwhite => hhidden ⟨hwhite, by simp [hcreat]⟩
    · exact absurd h (by simp)
  · rw [hsome] at hcontent ⊢
    exact ⟨w, _, rfl, hcontent.1,
      .file w _ content hdev (Bool.eq_false_iff.2 hflag) rfl rfl rfl hlinks hget hwhite⟩

/-! ### The report on what was opened -/

/-- The two reports in terms of what they are made of. -/
theorem sameReport_iff {s : Syscalls.State} {pid fd : ℤ} {path : Path} {file : OpenFile}
    (hkind : kindAt s.io.kernel pid fd = some (.file fd) ∨ kindAt s.io.kernel pid fd = some (.dir fd))
    (hfile : (vfs s).openFiles.get? fd = some file) (hpath : file.path ≠ []) :
    SameReport s pid fd path ↔
      ∃ info, VirtualFs.stat (vfs s) path true = some info ∧
        inode (fd + 1000) ≡ inode (pathIno (absolute path)) [ZMOD 2 ^ 64] ∧
        (fileType file = info.type ∧ permBits (fileType file) (infoAt (vfs s) file.path) =
          permBits info.type (infoAt (vfs s) (resolvePath (vfs s).symlinks (absolute path)))) ∧
        (contentLength (vfs s) file : ℤ) ≡ info.size [ZMOD 2 ^ 64] := by
  have hreport : report s (.fd pid fd) = some (statBuf s.bootTime (contentLength (vfs s) file) (fileType file)
      (infoAt (vfs s) file.path) (fd + 1000)) := by
    obtain hkind | hkind := hkind
    all_goals
      rw [report, hkind, Option.bind_some, kindReport, hfile, Option.map_some, if_neg hpath]
  have hshow : report s (.path path) = (VirtualFs.stat (vfs s) path true).map _ := rfl
  unfold SameReport
  rw [hreport, hshow]
  constructor
  · rintro ⟨bytes, bytes', hbytes, hbytes', hino, hmode, hsize⟩
    obtain rfl := Option.some.inj hbytes
    obtain ⟨info, hinfo, rfl⟩ := Option.map_eq_some_iff.1 hbytes'
    rw [inoField_statBuf, inoField_statBuf, wordBytes_eq_iff] at hino
    rw [modeField_statBuf, modeField_statBuf, mode_eq_iff] at hmode
    rw [sizeField_statBuf, sizeField_statBuf, wordBytes_eq_iff] at hsize
    exact ⟨info, hinfo, hino, hmode, hsize⟩
  · rintro ⟨info, hinfo, hino, hmode, hsize⟩
    rw [hinfo, Option.map_some]
    refine ⟨_, _, rfl, rfl, ?_, ?_, ?_⟩
    · rw [inoField_statBuf, inoField_statBuf, wordBytes_eq_iff]
      exact hino
    · rw [modeField_statBuf, modeField_statBuf, mode_eq_iff]
      exact hmode
    · rw [sizeField_statBuf, sizeField_statBuf, wordBytes_eq_iff]
      exact hsize

theorem ne_nil_of_root {path : Path} (h : path.head? = some '/') : path ≠ [] := by
  rintro rfl
  cases h

/-- **What was opened is what the path shows, exactly under the condition.** -/
theorem Opened.shows_iff {v w : Vfs} {path : Path} {flags : Int32} {file : OpenFile}
    (h : Opened v path flags w file) :
    (∃ info, VirtualFs.stat w path true = some info ∧
      inode (v.nextFd + 1000) ≡ inode (pathIno (absolute path)) [ZMOD 2 ^ 64] ∧
      (fileType file = info.type ∧ permBits (fileType file) (infoAt w file.path) =
        permBits info.type (infoAt w (resolvePath w.symlinks (absolute path)))) ∧
      (contentLength w file : ℤ) ≡ info.size [ZMOD 2 ^ 64]) ↔ Matches v path flags := by
  cases h with
  | device _ hdev htype hpath hcontent =>
    have hstat : VirtualFs.stat (newBuffer v []).1 path true = some ⟨0, .chardev, default⟩ := by
      unfold VirtualFs.stat
      dsimp only
      rw [if_pos hdev]
    have hsize : contentLength (newBuffer v []).1 file = 0 := by
      rw [contentLength, hcontent]
      simp [newBuffer, bytesOf]
    rw [hstat, hsize, htype, hpath]
    constructor
    · rintro ⟨info, hinfo, hnumber, ⟨-, hperm⟩, -⟩
      obtain rfl := Option.some.inj hinfo
      exact ⟨hnumber, fun _ => hperm, fun hno => absurd hdev hno, fun hno => absurd hdev hno⟩
    · intro hm
      exact ⟨_, rfl, hm.number, ⟨rfl, hm.device hdev⟩, rfl⟩
  | directory _ hdev hisDir hpath hcontent hdir hplain =>
    have htype : fileType file = .dir := if_pos hisDir
    have hsize : contentLength v file = 0 := by rw [contentLength, hcontent]
    rw [stat_of_not_isDevice hdev, hsize, htype, hpath]
    constructor
    · rintro ⟨info, hinfo, hnumber, ⟨hdirectory, -⟩, -⟩
      -- `stat` sees the directory only if there is no whiteout and no file entry
      have hshown : v.whiteouts.has (resolvePath v.symlinks (absolute path)) ≠ true := by
        intro hwhite
        rw [statResolved_eq_none_iff.2 (.inl hwhite)] at hinfo
        cases hinfo
      have hfile : v.files.has (resolvePath v.symlinks (absolute path)) = false := by
        rw [JsMap.has_eq_false_iff]
        cases hget : v.files.get? (resolvePath v.symlinks (absolute path)) with
        | none => rfl
        | some content =>
          unfold statResolved at hinfo
          dsimp only at hinfo
          rw [if_neg hshown, hget] at hinfo
          obtain rfl := Option.some.inj hinfo
          cases hdirectory
      exact ⟨hnumber, fun h => absurd h hdev, fun _ hwhite => absurd hwhite hshown, fun _ _ => hfile⟩
    · intro hm
      have hshown : v.whiteouts.has (resolvePath v.symlinks (absolute path)) ≠ true := by
        intro hwhite
        have hno := hplain (hm.shown hdev hwhite).2
        rw [hno.2] at hwhite
        cases hwhite
      have hfile : v.files.get? (resolvePath v.symlinks (absolute path)) = none := by
        rw [← JsMap.has_eq_false_iff]
        by_cases hflag : hasFlag flags oDirectory = true
        · exact hm.directory hdev hflag
        · exact (hplain (Bool.eq_false_iff.2 hflag)).1
      unfold statResolved
      dsimp only
      rw [if_neg hshown, hfile]
      by_cases hresolved : v.dirs.has (resolvePath v.symlinks (absolute path)) = true
      · rw [if_pos hresolved]
        exact ⟨_, rfl, hm.number, ⟨rfl, rfl⟩, rfl⟩
      · rw [if_neg hresolved, if_pos (hdir.resolve_left hresolved)]
        exact ⟨_, rfl, hm.number, ⟨rfl, rfl⟩, rfl⟩
  | file _ _ content hdev hflag htype hpath hcontent hlinks hget hwhite =>
    rw [stat_of_not_isDevice hdev, hlinks, htype, hpath]
    unfold statResolved
    dsimp only
    rw [hget]
    constructor
    · rintro ⟨info, hinfo, hnumber, -, -⟩
      refine ⟨hnumber, fun h => absurd h hdev, fun _ hhidden => ⟨?_, hflag⟩, fun _ h => absurd h (by simp [hflag])⟩
      rw [Bool.eq_false_iff]
      intro hfile
      rw [if_pos (hwhite.2 ⟨hhidden, hfile⟩)] at hinfo
      cases hinfo
    · intro hm
      -- an opening that makes the file takes the whiteout away, one of a file that is there does not
      have hshown : ¬ w.whiteouts.has (resolvePath v.symlinks (absolute path)) = true := by
        intro h
        obtain ⟨hhidden, hfile⟩ := hwhite.1 h
        rw [(hm.shown hdev hhidden).1] at hfile
        cases hfile
      rw [if_neg hshown]
      refine ⟨_, rfl, hm.number, ⟨rfl, rfl⟩, ?_⟩
      rw [contentLength, hcontent]

/-! ### A step -/

theorem handleSyscall_open {s : Syscalls.State} {pid : ℤ} {call : Syscall} {path : Path} {flags mode : Int32}
    {p : Proc} (hcall : openArgs call = some (path, flags, mode))
    (hp : s.io.kernel.processTable.get? pid = some p) :
    (Syscalls.handleSyscall s pid call).2 = some (openPath s.io.kernel pid p path flags mode).result ∧
      (Syscalls.handleSyscall s pid call).1.io.kernel = (openPath s.io.kernel pid p path flags mode).kernel := by
  unfold Syscalls.handleSyscall
  rw [hp]
  cases call with
  | kernel call fate =>
    dsimp only
    unfold Kernel.handleSyscall
    rw [hp]
    cases call with
    | «open» path b c | openat path c d | fsOpen path b c =>
      obtain ⟨rfl, rfl, rfl⟩ := by simpa [openArgs] using hcall
      exact ⟨rfl, rfl⟩
    | _ => cases hcall
  | _ => cases hcall

theorem openPath_result (k : Kernel.State) (pid : ℤ) (p : Proc) (path : Path) (flags mode : Int32) :
    (openPath k pid p path flags mode).result = (openFile k.vfs (readCString p path) flags mode).2 := by
  unfold openPath
  dsimp only
  split_ifs <;> rfl

/-- The descriptor is entered under the number of the description. -/
theorem openPath_kernel {k : Kernel.State} {pid : ℤ} {p : Proc} {path : Path} {flags mode : Int32} {w : Vfs}
    {file : OpenFile} (hp : k.processTable.get? pid = some p)
    (hopen : openFile k.vfs (readCString p path) flags mode = install w file) (hfd : 0 ≤ w.nextFd) :
    (openPath k pid p path flags mode).kernel.vfs = (install w file).1 ∧
      (kindAt (openPath k pid p path flags mode).kernel pid w.nextFd = some (.file w.nextFd) ∨
        kindAt (openPath k pid p path flags mode).kernel pid w.nextFd = some (.dir w.nextFd)) := by
  have hfd' : 0 ≤ (install w file).2 := hfd
  have hp' : ({ k with vfs := (install w file).1 } : Kernel.State).processTable.has pid = true :=
    JsMap.has_iff.2 ⟨p, hp⟩
  unfold openPath
  rw [hopen]
  dsimp only
  rw [if_pos hfd']
  constructor
  · rw [vfs_bumpFd, vfs_putFd]
  · rw [kindAt_bumpFd, kindAt_putFd hp', if_pos ⟨rfl, rfl⟩]
    split_ifs
    · exact .inr rfl
    · exact .inl rfl

/-- **Which new descriptors report what their paths do.** -/
theorem agrees_iff (s : Syscalls.State) (ev : Syscalls.Event) : Agrees s ev (Syscalls.after s ev) ↔ Fits s ev := by
  have hone {pid : ℤ} {call : Syscall} {path : Path} {flags mode : Int32} {p : Proc}
      (hcall : openArgs call = some (path, flags, mode)) (hp : s.io.kernel.processTable.get? pid = some p)
      (hfd : 0 ≤ (openFile (vfs s) (readCString p path) flags mode).2) :
      SameReport (Syscalls.handleSyscall s pid call).1 pid (openFile (vfs s) (readCString p path) flags mode).2
          (readCString p path) ↔ Matches (vfs s) (readCString p path) flags := by
    obtain ⟨w, file, hopen, hnext, hopened⟩ := opened_of_openFile hfd
    have hresult : (openFile (vfs s) (readCString p path) flags mode).2 = w.nextFd := by rw [hopen]; rfl
    rw [hresult] at hfd ⊢
    obtain ⟨-, hkernel⟩ := handleSyscall_open hcall hp
    obtain ⟨hvfs, hkind⟩ := openPath_kernel hp hopen hfd
    rw [← hkernel] at hvfs hkind
    have hfile : (vfs (Syscalls.handleSyscall s pid call).1).openFiles.get? w.nextFd = some file := by
      rw [vfs, hvfs]
      exact JsMap.get?_set_self _ _ _
    have hpath : file.path ≠ [] := by
      cases hopened with
      | device _ _ _ hpath => exact hpath ▸ ne_nil_of_root (head?_absolute _)
      | directory _ _ _ hpath => exact hpath ▸ ne_nil_of_root (head?_resolvePath _ _)
      | file _ _ _ _ _ _ hpath => exact hpath ▸ ne_nil_of_root (head?_resolvePath _ _)
    rw [sameReport_iff hkind hfile hpath, ← hopened.shows_iff, ← hnext]
    unfold vfs
    rw [hvfs]
    exact Iff.rfl
  constructor
  · intro h pid call path flags mode p hev hcall hp hfd
    subst hev
    refine (hone hcall hp hfd).1 (h pid call path flags mode p _ rfl hcall hp ?_ hfd)
    rw [(handleSyscall_open hcall hp).1, openPath_result]
  · intro h pid call path flags mode p fd hev hcall hp hresult hfd
    subst hev
    rw [(handleSyscall_open hcall hp).1, openPath_result] at hresult
    obtain rfl := Option.some.inj hresult
    exact (hone hcall hp hfd).2 (h pid call path flags mode p rfl hcall hp hfd)

/-! ### Runs -/

/-- A process that makes a file. -/
def makesFile : List Syscalls.Event :=
  [.registerWorker 1 [], .registerMemory 1 [], .syscall 1 (.kernel (.open "/a".toList oCreat 0) .answered)]

/-- Then the descriptor is copied and the file moved. -/
def movesFile : List Syscalls.Event :=
  makesFile ++ [.syscall 1 (.kernel (.dup 4) .answered), .syscall 1 (.other (.rename "/a".toList "/b".toList))]

/-- The copy is on the file that is at the second name now. -/
example : object (final (start Syscalls.booted) (trace next (start Syscalls.booted) movesFile)) (.fd 1 5) =
    object (final (start Syscalls.booted) (trace next (start Syscalls.booted) movesFile)) (.path "/b".toList) := by
  decide +kernel

end FileIdentity
