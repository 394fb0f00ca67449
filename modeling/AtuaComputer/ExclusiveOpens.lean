/-
**Exclusive opens.**

`O_CREAT | O_EXCL` makes a file only where there is none, which is how lock files work.  The filesystem looks
for a file or a directory at the resolved path and answers `EEXIST`, but `SysOpenat` turns every error into
`ENOENT`; and what is there is decided without the whiteouts and the special files, so that `stat` and `open`
do not mean the same by it.  That two such opens never both succeed needs less: a file stays in the map until
something is removed, and only a new link can lead the path elsewhere.

Main definitions:

* `ExclusiveOpens.sysOpenat` — what an open of the guest does to the filesystem;
* `ExclusiveOpens.Op`, `ExclusiveOpens.State` — the operations, and the paths that are held;
* `ExclusiveOpens.Law`, `ExclusiveOpens.Locked` — what an exclusive open has to do;
* `ExclusiveOpens.Vacant`, `ExclusiveOpens.Steady` — the conditions.

Main results:

* `ExclusiveOpens.sysOpenat_refines` — the open of the guest over the kernel is this one;
* `ExclusiveOpens.exclusive_iff_vacant` — the condition is exact for one open;
* `ExclusiveOpens.law_and_lock` — the law holds in every step of a run **if and only if** every open finds
  the path vacant, and the lock holds if no link leads a held path elsewhere.
-/

import AtuaComputer.DescriptorLimits
import AtuaComputer.Resolution
import AtuaComputer.TreeCoherence

set_option relaxedAutoImplicit false
set_option autoImplicit false

namespace ExclusiveOpens

open VirtualFs Runs VfsTables
open DescriptorLimits (Result openatResult emfile enoent)

/-! ### Opening -/

/-- `SysOpenat` as far as the filesystem is concerned. -/
def sysOpenat (lim : ℕ) (v : Vfs) (path : Path) (sysflags mode : Int32) : Vfs × Result :=
  if lim = 0 then (v, .error emfile)
  else
    let opened := openFile v path sysflags mode
    let fildes := (Int32.ofInt opened.2).toInt
    (if lim ≤ fildes then closeFile opened.1 fildes else opened.1, openatResult lim fildes)

/-- The flags of an exclusive open. -/
def Excl (flags : Int32) : Prop :=
  hasFlag flags oCreat = true ∧ hasFlag flags oExcl = true ∧ hasFlag flags oDirectory = false

instance (flags : Int32) : Decidable (Excl flags) := by
  unfold Excl
  infer_instance

def eexist : ℤ := 17

/-- The guest gets a descriptor. -/
def Succeeds (lim : ℕ) (v : Vfs) (path : Path) (sysflags mode : Int32) : Prop :=
  (sysOpenat lim v path sysflags mode).2.isOk = true

instance (lim : ℕ) (v : Vfs) (path : Path) (sysflags mode : Int32) :
    Decidable (Succeeds lim v path sysflags mode) := by
  unfold Succeeds
  infer_instance

/-! ### Runs -/

/-- The operations: those of the filesystem, what the kernel does with an open file and with metadata, and
opens of the guest. -/
inductive Op where
  | tree (op : TreeCoherence.Op)
  | ftruncate (fd : ℤ) (len : ℕ)
  | close (fd : ℤ)
  | setMetadata (path : Path) (info : Meta)
  | openat (lim : ℕ) (path : Path) (sysflags mode : Int32)

/-- The filesystem after an operation. -/
def after (limit : ℕ) (v : Vfs) : Op → Vfs
  | .tree op => TreeCoherence.after limit v op
  | .ftruncate fd len => (truncateFile limit v fd len).1
  | .close fd => closeFile v fd
  | .setMetadata path info => { v with metadata := v.metadata.set path info }
  | .openat lim path sysflags mode => (sysOpenat lim v path sysflags mode).1

/-- The filesystem, with the paths that were opened exclusively since something was last removed. -/
structure State where
  vfs : Vfs
  held : List Path

/-- The paths that are held after an operation. -/
def heldAfter (s : State) : Op → List Path
  | .tree (.unlink _) | .tree (.rmdir _) | .tree (.rename _ _) => []
  | .openat lim path sysflags mode =>
    if Excl sysflags ∧ Succeeds lim s.vfs path sysflags mode then path :: s.held else s.held
  | _ => s.held

def next (limit : ℕ) (s : State) (op : Op) : State := ⟨after limit s.vfs op, heldAfter s op⟩

def Step (limit : ℕ) (s : State) (op : Op) (s' : State) : Prop := s' = next limit s op

def fresh : State := ⟨newVfs, []⟩

/-! ### The properties -/

/-- A directory lists a path under a name. -/
def Lists (v : Vfs) (path : Path) : Prop :=
  TreeCoherence.IsName (baseName path) ∧ ∃ t, (baseName path, t) ∈ readdir v (parentOf path)

/-- The directory of a path is there. -/
def HasParent (v : Vfs) (path : Path) : Prop :=
  (stat v (parentOf (normalizePath path)) true).map Stat.type = some .dir

/-- **What an exclusive open has to do**: it fails with `EEXIST` exactly when `lstat` finds something, and
otherwise makes a file, if there is a directory for it. -/
structure Exclusive (lim : ℕ) (v : Vfs) (path : Path) (sysflags mode : Int32) : Prop where
  refuses : (sysOpenat lim v path sysflags mode).2 = .error eexist ↔ (stat v path false).isSome = true
  creates : stat v path false = none → HasParent v path →
    Succeeds lim v path sysflags mode ∧
      (stat (sysOpenat lim v path sysflags mode).1 path true).map Stat.type = some .file ∧
      Lists (sysOpenat lim v path sysflags mode).1 (resolvePath v.symlinks (absolute path))

/-- Exclusive opens do what they have to. -/
def Law (s : State) : Op → State → Prop
  | .openat lim path sysflags mode, _ => Excl sysflags → Exclusive lim s.vfs path sysflags mode
  | _, _ => True

/-- An exclusive open of a held path does not succeed. -/
def Locked (s : State) : Op → State → Prop
  | .openat lim path sysflags mode, _ =>
    Excl sysflags → path ∈ s.held → ¬ Succeeds lim s.vfs path sysflags mode
  | _, _ => True

/-! ### The conditions -/

/-- `lstat` finds nothing; and if there is a directory, nothing is left in the maps of files and directories
where the path leads, which is not the root, and the next number fits. -/
def Vacant (lim : ℕ) (v : Vfs) (path : Path) : Prop :=
  let resolved := resolvePath v.symlinks (absolute path)
  stat v path false = none ∧
    (HasParent v path → DescriptorLimits.Fits lim v.nextFd ∧ v.files.has resolved = false ∧
      v.dirs.has resolved = false ∧ resolved ≠ ['/'])

/-- Every exclusive open finds the path vacant. -/
def Clear (s : State) : Op → Prop
  | .openat lim path sysflags _ => Excl sysflags → Vacant lim s.vfs path
  | _ => True

/-- Held paths lead where they did. -/
def SameRoutes (held : List Path) (v v' : Vfs) : Prop :=
  ∀ path ∈ held, resolvePath v'.symlinks (absolute path) = resolvePath v.symlinks (absolute path)

/-- Exclusive opens are not of special files, and no new link leads a held path elsewhere. -/
def Steady (s : State) : Op → Prop
  | .openat _ path sysflags _ => Excl sysflags → ¬ isDevice (absolute path)
  | .tree (.createSymlink text linkpath) => SameRoutes s.held s.vfs (createSymlink s.vfs text linkpath)
  | .tree (.loadTar entries) => SameRoutes s.held s.vfs (loadTar s.vfs entries)
  | _ => True

/-! ### One open -/

section Result

variable {lim : ℕ} {v : Vfs} {path : Path} {sysflags mode : Int32}

/-- The guest never sees `EEXIST`. -/
theorem result_ne_eexist : (sysOpenat lim v path sysflags mode).2 ≠ .error eexist := by
  have hne : ∀ e, e ≠ eexist → (Except.error e : Result) ≠ .error eexist :=
    fun e he h => he (Except.error.inj h)
  unfold sysOpenat
  by_cases hzero : lim = 0
  · rw [if_pos hzero]
    exact hne emfile (by decide)
  rw [if_neg hzero]
  dsimp only [openatResult]
  split_ifs
  · exact hne enoent (by decide)
  · exact hne emfile (by decide)
  · exact nofun

theorem openatResult_isOk (w : ℤ) : (openatResult lim w).isOk = true ↔ 0 ≤ w ∧ w < lim := by
  unfold openatResult
  split_ifs with hneg hpast
  · exact iff_of_false Bool.false_ne_true (by omega)
  · exact iff_of_false Bool.false_ne_true (by omega)
  · exact iff_of_true rfl ⟨by omega, by omega⟩

/-- The open succeeds exactly when the number of the filesystem fits; and then nothing is closed again. -/
theorem succeeds_iff :
    Succeeds lim v path sysflags mode ↔ DescriptorLimits.Fits lim (openFile v path sysflags mode).2 := by
  unfold Succeeds sysOpenat DescriptorLimits.Fits
  by_cases hzero : lim = 0
  · rw [if_pos hzero]
    exact iff_of_false Bool.false_ne_true (by omega)
  · rw [if_neg hzero]
    exact openatResult_isOk _

theorem vfs_of_succeeds (h : Succeeds lim v path sysflags mode) :
    (sysOpenat lim v path sysflags mode).1 = (openFile v path sysflags mode).1 := by
  have hfits := succeeds_iff.1 h
  unfold DescriptorLimits.Fits at hfits
  unfold sysOpenat
  rw [if_neg (by omega)]
  dsimp only
  rw [if_neg (by omega)]

end Result

/-! #### Over the kernel -/

section Kernel

open Kernel Bridge

theorem vfs_close (k : Kernel.State) (pid : ℤ) (a : Int32) (fate : Fate) :
    ∃ openFiles, (handleSyscall k pid (.close a) fate).kernel.vfs = { k.vfs with openFiles } := by
  have hsame : ∃ openFiles, k.vfs = { k.vfs with openFiles } := ⟨k.vfs.openFiles, rfl⟩
  rw [handleSyscall]
  cases k.processTable.get? pid with
  | none => exact hsame
  | some p =>
      dsimp only [sysClose]
      cases p.fdTable.get? a.toInt with
      | none => exact hsame
      | some entry =>
          obtain ⟨kind, cell⟩ := entry
          cases kind with
          | special name =>
              rw [vfs_dropFd]
              exact hsame
          | file vfsFd =>
              rw [vfs_dropFd]
              exact ⟨k.vfs.openFiles.delete vfsFd, rfl⟩
          | dir vfsFd =>
              rw [vfs_dropFd]
              exact ⟨k.vfs.openFiles.delete vfsFd, rfl⟩
          | pipe fdEnd ringOffset =>
              rw [vfs_dropFd, vfs_request]
              exact hsame

/-- **An open over the kernel is the open of the filesystem**: the guest gets the same answer, and but for the
table of open files the same is left. -/
theorem sysOpenat_refines {k : Kernel.State} {pid : ℤ} {p : Proc} (hp : k.processTable.get? pid = some p)
    (lim : ℕ) (path : Path) (sysflags mode : Int32) (fate : Fate) :
    let s := DescriptorLimits.sysOpenat lim k pid path sysflags mode fate
    let r := sysOpenat lim k.vfs (readCString p path) sysflags mode
    s.2 = r.2 ∧ { s.1.vfs with openFiles := r.1.openFiles } = r.1 := by
  have hopened : (openPath k pid p path sysflags mode).result =
        (openFile k.vfs (readCString p path) sysflags mode).2 ∧
      (openPath k pid p path sysflags mode).kernel.vfs =
        (openFile k.vfs (readCString p path) sysflags mode).1 := by
    unfold openPath
    dsimp only
    by_cases hopen : 0 ≤ (openFile k.vfs (readCString p path) sysflags mode).2
    · rw [if_pos hopen]
      exact ⟨rfl, by rw [vfs_bumpFd, vfs_putFd]⟩
    · rw [if_neg hopen]
      exact ⟨rfl, rfl⟩
  dsimp only
  by_cases hzero : lim = 0
  · rw [DescriptorLimits.sysOpenat, if_pos hzero, sysOpenat, if_pos hzero]
    exact ⟨rfl, rfl⟩
  rw [DescriptorLimits.sysOpenat, if_neg hzero, sysOpenat, if_neg hzero,
    DescriptorLimits.handleSyscall_fsOpen hp]
  dsimp only [FdAlloc.returned]
  rw [hopened.1]
  refine ⟨rfl, ?_⟩
  split_ifs
  · obtain ⟨openFiles, hclose⟩ := vfs_close (openPath k pid p path sysflags mode).kernel pid
      (Int32.ofInt (openFile k.vfs (readCString p path) sysflags mode).2) fate
    rw [hclose, hopened.2, closeFile]
  · rw [hopened.2]

end Kernel

/-! #### Where the path is taken, and where it is vacant -/

/-- A file was made at a resolved path. -/
structure Made (v v' : Vfs) (resolved : Path) : Prop where
  symlinks : v'.symlinks = v.symlinks
  file : v'.files.has resolved = true
  shown : v'.whiteouts.has resolved = false
  listed : resolved ≠ ['/'] → Lists v' resolved

section Open

variable {v : Vfs} {path : Path} {sysflags mode : Int32} (hexcl : Excl sysflags)

theorem made_createFile (v : Vfs) (p : List Component) (mode : Int32) :
    Made v (createFile v (pathOf p) mode).1 (pathOf p) := by
  obtain ⟨dirs, children, metadata, hframe⟩ := createFile_frame v (pathOf p) mode
  constructor
  · rw [hframe]
  · rw [hframe]
    exact JsMap.has_set.2 (Or.inl rfl)
  · rw [hframe]
    exact JsMap.has_eq_false_iff.2 (JsMap.get?_delete_self _ _)
  · intro hroot
    have hp : p ≠ [] := by
      rintro rfl
      exact hroot rfl
    have htables := tables_createFile v hp mode
    obtain ⟨d, n, rfl⟩ : ∃ d n, p = d ++ [n] := by
      obtain ⟨d, n, hconcat⟩ := List.eq_nil_or_concat p |>.resolve_left hp
      exact ⟨d, n, by rw [hconcat, List.concat_eq_append]⟩
    have hentered : (tables (createFile v (pathOf (d ++ [n])) mode).1).entered d n := by
      rw [htables]
      exact Or.inr (Or.inl rfl)
    have hshown : ¬ (tables (createFile v (pathOf (d ++ [n])) mode).1).hidden (d ++ [n]) := by
      rw [htables]
      exact fun h => h.1 rfl
    obtain ⟨hne, hslash, hdot, hdots⟩ := n.ok
    rw [Lists, baseName_append, parentOf_append]
    refine ⟨⟨hne, hslash⟩, _, (TreeCoherence.mem_readdir _ _ _ _).2 (Or.inr ⟨hentered, ?_, hdot, hdots, rfl⟩)⟩
    rw [childPath_pathOf]
    exact hshown

/-- What is seen of a path does not depend on the buffers and the open files. -/
theorem Made.of_eq {v v' v'' : Vfs} {resolved : Path} (h : Made v v' resolved)
    (hsymlinks : v''.symlinks = v'.symlinks) (hwhiteouts : v''.whiteouts = v'.whiteouts)
    (hdirs : v''.dirs = v'.dirs) (hchildren : v''.children = v'.children)
    (hfile : v'.files.has resolved = true → v''.files.has resolved = true) : Made v v'' resolved where
  symlinks := hsymlinks.trans h.symlinks
  file := hfile h.file
  shown := by
    rw [hwhiteouts]
    exact h.shown
  listed := by
    intro hroot
    obtain ⟨hname, t, ht⟩ := h.listed hroot
    refine ⟨hname, t, ?_⟩
    unfold readdir entryType at ht ⊢
    rw [hchildren, hwhiteouts, hdirs, hsymlinks]
    exact ht

include hexcl

theorem openFile_taken (hdevice : ¬ isDevice (absolute path))
    (htaken : v.files.has (resolvePath v.symlinks (absolute path)) = true ∨
      v.dirs.has (resolvePath v.symlinks (absolute path)) = true) :
    openFile v path sysflags mode = (v, -17) := by
  obtain ⟨hcreat, hexcl, hdirectory⟩ := hexcl
  unfold isDevice at hdevice
  unfold openFile
  dsimp only
  rw [if_neg (by tauto), if_neg (by tauto), if_neg (by simp [hcreat]), if_neg (by simp [hdirectory]),
    if_pos ⟨hcreat, hexcl, htaken⟩]

/-- `O_CREAT` where there is no file. -/
theorem made_openContent {resolved : Path} (hr : ∃ p, resolved = pathOf p) (hfile : v.files.has resolved = false) :
    ∃ content, (openContent v resolved sysflags mode).2 = some content ∧
      Made v (openContent v resolved sysflags mode).1 resolved := by
  obtain ⟨p, rfl⟩ := hr
  have hmade := made_createFile v p mode
  unfold openContent
  rw [JsMap.has_eq_false_iff.1 hfile]
  simp only [hexcl.1, if_true, Option.isSome_some, true_and]
  split_ifs
  · exact ⟨_, rfl, hmade.of_eq rfl rfl rfl rfl fun h => JsMap.has_set.2 (Or.inr h)⟩
  · exact ⟨_, rfl, hmade⟩

theorem openFile_vacant (hdevice : ¬ isDevice (absolute path))
    (hfile : v.files.has (resolvePath v.symlinks (absolute path)) = false)
    (hdir : v.dirs.has (resolvePath v.symlinks (absolute path)) = false) :
    (openFile v path sysflags mode).2 = v.nextFd ∧
      Made v (openFile v path sysflags mode).1 (resolvePath v.symlinks (absolute path)) := by
  have hr : ∃ p, resolvePath v.symlinks (absolute path) = pathOf p := by
    obtain ⟨last, hresolves⟩ := Resolution.resolves_resolvePath (absolute path)
    obtain ⟨p, hp, -⟩ := hresolves.stopped
    exact ⟨p, hp⟩
  obtain ⟨content, hcontent, hmade⟩ := @made_openContent v sysflags mode hexcl _ hr hfile
  have htable := sameTable_openContent v (resolvePath v.symlinks (absolute path)) sysflags mode
  obtain ⟨hcreat, hexcl, hdirectory⟩ := hexcl
  unfold isDevice at hdevice
  unfold openFile
  dsimp only
  rw [if_neg (by tauto), if_neg (by tauto), if_neg (by simp [hcreat]), if_neg (by simp [hdirectory]),
    if_neg (by simp [hfile, hdir])]
  generalize openContent v (resolvePath v.symlinks (absolute path)) sysflags mode = opened at hcontent hmade htable ⊢
  obtain ⟨v', c⟩ := opened
  subst hcontent
  exact ⟨htable.1, hmade.of_eq rfl rfl rfl rfl id⟩

end Open

/-! #### The condition is exact -/

section Exact

variable {lim : ℕ} {v : Vfs} {path : Path} {sysflags mode : Int32}

theorem not_device_of_stat (h : stat v path false = none) : ¬ isDevice (absolute path) := by
  intro hdevice
  unfold stat at h
  dsimp only at h
  rw [if_pos hdevice] at h
  cases h

/-- What `stat` sees after the file was made. -/
theorem type_stat_made {v' : Vfs} (h : Made v v' (resolvePath v.symlinks (absolute path)))
    (hdevice : ¬ isDevice (absolute path)) : (stat v' path true).map Stat.type = some .file := by
  have htype := TreeCoherence.type_statResolved v' (absolute path) (resolvePath v.symlinks (absolute path))
  rw [h.shown, h.file, if_neg Bool.false_ne_true, if_pos rfl] at htype
  unfold stat
  dsimp only
  rw [if_neg hdevice, h.symlinks]
  cases v.symlinks.get? (absolute path) with
  | none => exact htype
  | some text => exact htype

theorem not_fits_neg : ¬ DescriptorLimits.Fits lim (-17) := by
  rintro ⟨hpos, -⟩
  exact absurd hpos (by decide)

/-- **The condition is exact for one open.** -/
theorem exclusive_iff_vacant (hexcl : Excl sysflags) :
    Exclusive lim v path sysflags mode ↔ Vacant lim v path := by
  constructor
  · intro h
    have hnone : stat v path false = none := by
      rw [← Option.not_isSome_iff_eq_none]
      exact fun hsome => result_ne_eexist (h.refuses.2 hsome)
    have hdevice := not_device_of_stat hnone
    refine ⟨hnone, fun hparent => ?_⟩
    obtain ⟨hsucceeds, -, hlists⟩ := h.creates hnone hparent
    have hfits := succeeds_iff.1 hsucceeds
    have hfree : ¬ (v.files.has (resolvePath v.symlinks (absolute path)) = true ∨
        v.dirs.has (resolvePath v.symlinks (absolute path)) = true) := by
      intro htaken
      rw [openFile_taken hexcl hdevice htaken] at hfits
      exact not_fits_neg hfits
    rw [not_or, Bool.not_eq_true, Bool.not_eq_true] at hfree
    rw [(openFile_vacant hexcl hdevice hfree.1 hfree.2).1] at hfits
    refine ⟨hfits, hfree.1, hfree.2, fun hroot => ?_⟩
    -- the root has no name
    rw [hroot] at hlists
    exact hlists.1.1 rfl
  · rintro ⟨hnone, hvacant⟩
    have hdevice := not_device_of_stat hnone
    constructor
    · refine iff_of_false result_ne_eexist ?_
      rw [hnone]
      exact Bool.false_ne_true
    · intro _ hparent
      obtain ⟨hfits, hfile, hdir, hroot⟩ := hvacant hparent
      obtain ⟨hnumber, hmade⟩ := @openFile_vacant v path sysflags mode hexcl hdevice hfile hdir
      have hsucceeds : Succeeds lim v path sysflags mode := by
        rw [succeeds_iff, hnumber]
        exact hfits
      rw [vfs_of_succeeds hsucceeds]
      exact ⟨hsucceeds, type_stat_made hmade hdevice, hmade.listed hroot⟩

end Exact

/-! ### What stays in the map of files -/

/-- No file is removed. -/
def KeepsFiles (v v' : Vfs) : Prop := ∀ path, v.files.has path = true → v'.files.has path = true

theorem KeepsFiles.of_eq {v v' : Vfs} (h : v'.files = v.files) : KeepsFiles v v' := fun path => by
  rw [h]
  exact id

theorem KeepsFiles.of_set {v v' : Vfs} {path : Path} {content : Buf} (h : v'.files = v.files.set path content) :
    KeepsFiles v v' := fun q hq => by
  rw [h]
  exact JsMap.has_set.2 (Or.inr hq)

theorem KeepsFiles.trans {v₁ v₂ v₃ : Vfs} (h : KeepsFiles v₁ v₂) (h' : KeepsFiles v₂ v₃) : KeepsFiles v₁ v₃ :=
  fun path hpath => h' path (h path hpath)

/-- No file is removed, and no link changed. -/
def Keeps (v v' : Vfs) : Prop := KeepsFiles v v' ∧ v'.symlinks = v.symlinks

theorem Keeps.trans {v₁ v₂ v₃ : Vfs} (h : Keeps v₁ v₂) (h' : Keeps v₂ v₃) : Keeps v₁ v₃ :=
  ⟨h.1.trans h'.1, h'.2.trans h.2⟩

theorem keeps_of_eq {v v' : Vfs} (hfiles : v'.files = v.files) (hsymlinks : v'.symlinks = v.symlinks) : Keeps v v' :=
  ⟨.of_eq hfiles, hsymlinks⟩

theorem keeps_of_set {v v' : Vfs} {path : Path} {content : Buf} (hfiles : v'.files = v.files.set path content)
    (hsymlinks : v'.symlinks = v.symlinks) : Keeps v v' :=
  ⟨.of_set hfiles, hsymlinks⟩

theorem keeps_registerParents (v : Vfs) (path : Path) : Keeps v (registerParents v path) := by
  obtain ⟨dirs, children, h⟩ := registerParents_frame v path
  exact keeps_of_eq (by rw [h]) (by rw [h])

theorem keeps_registerDir (v : Vfs) (path : Path) : Keeps v (registerDir v path) := by
  obtain ⟨dirs, children, h⟩ := registerDir_frame v path
  exact keeps_of_eq (by rw [h]) (by rw [h])

theorem keeps_addChild (v : Vfs) (path : Path) : Keeps v (addChild v path) := keeps_of_eq rfl rfl

theorem keeps_addFile (v : Vfs) (path : Path) (bytes : List UInt8) : Keeps v (addFile v path bytes) := by
  have hset : Keeps v
      { v with
        buffers := v.buffers ++ [bytes]
        files := v.files.set (absolute path) v.buffers.length
        whiteouts := v.whiteouts.delete (absolute path) } := keeps_of_set rfl rfl
  exact (hset.trans (keeps_registerParents _ _)).trans (keeps_addChild _ _)

theorem keeps_mkdir (v : Vfs) (path : Path) : Keeps v (mkdir v path) := by
  have hdirs := (keeps_registerDir v (normalizePath path)).trans (keeps_registerParents _ (normalizePath path))
  exact hdirs.trans (keeps_of_eq rfl rfl)

theorem keeps_createFile (v : Vfs) (resolved : Path) (mode : Int32) : Keeps v (createFile v resolved mode).1 := by
  obtain ⟨dirs, children, metadata, hframe⟩ := createFile_frame v resolved mode
  rw [hframe]
  exact keeps_of_set rfl rfl

theorem keeps_openContent (v : Vfs) (resolved : Path) (flags mode : Int32) :
    Keeps v (openContent v resolved flags mode).1 := by
  have hcreate := keeps_createFile v resolved mode
  unfold openContent
  cases v.files.get? resolved with
  | some content =>
      dsimp only [newBuffer]
      split_ifs
      · exact keeps_of_set rfl rfl
      · exact keeps_of_eq rfl rfl
  | none =>
      by_cases hcreat : hasFlag flags oCreat = true
      · simp only [hcreat, if_true]
        dsimp only [newBuffer]
        split_ifs
        · exact hcreate.trans (keeps_of_set rfl rfl)
        · exact hcreate
      · simp only [hcreat]
        exact keeps_of_eq rfl rfl

theorem keeps_install (v : Vfs) (file : OpenFile) : Keeps v (install v file).1 := keeps_of_eq rfl rfl

theorem keeps_openFile (v : Vfs) (path : Path) (flags mode : Int32) : Keeps v (openFile v path flags mode).1 := by
  have hcontent := keeps_openContent v (resolvePath v.symlinks (absolute path)) flags mode
  have hself := keeps_of_eq (rfl : v.files = v.files) rfl
  unfold openFile
  dsimp only [newBuffer]
  split_ifs
  · exact keeps_of_eq rfl rfl
  · exact keeps_of_eq rfl rfl
  · exact hself
  · exact keeps_install v _
  · exact hself
  · exact hself
  · split
    · exact hcontent.trans (keeps_install _ _)
    · exact hcontent.trans (keeps_install _ _)
  · split
    · exact hcontent
    · exact hcontent.trans (keeps_install _ _)

theorem keeps_updateFile (v : Vfs) (fd : ℤ) (f : OpenFile → OpenFile) : Keeps v (updateFile v fd f) := by
  unfold updateFile
  split
  · exact keeps_of_eq rfl rfl
  · exact keeps_of_eq rfl rfl

theorem keeps_storeBytes (v : Vfs) (content : Buf) (src : List UInt8) (off : ℤ) :
    Keeps v (storeBytes v content src off).1 := by
  unfold storeBytes
  split
  · exact keeps_of_eq rfl rfl
  · exact keeps_of_eq rfl rfl

/-- A new buffer for an open file. -/
theorem keeps_replaced (v : Vfs) (fd : ℤ) (bytes : List UInt8) :
    Keeps v (setContent (newBuffer v bytes).1 fd (newBuffer v bytes).2) := by
  have hbuffer : Keeps v (newBuffer v bytes).1 := keeps_of_eq rfl rfl
  exact hbuffer.trans (keeps_updateFile _ _ _)

theorem keeps_writeContent (limit : ℕ) (v : Vfs) (fd : ℤ) (path : Path) (content : Buf) (src : List UInt8)
    (off : ℤ) : Keeps v (writeContent limit v fd path content src off).1 := by
  have hgrow : ∀ bytes, Keeps v (growFile v fd path bytes).1 := fun bytes =>
    (keeps_replaced v fd bytes).trans (keeps_of_set rfl rfl)
  unfold writeContent
  dsimp only
  split_ifs
  · exact keeps_of_eq rfl rfl
  · exact (hgrow _).trans (keeps_storeBytes _ _ _ _)
  · exact keeps_storeBytes _ _ _ _

theorem keeps_writeFile (limit : ℕ) (v : Vfs) (fd : ℤ) (src : List UInt8) (offset : ℤ) :
    Keeps v (writeFile limit v fd src offset).1 := by
  have hself := keeps_of_eq (rfl : v.files = v.files) rfl
  unfold writeFile
  cases v.openFiles.get? fd with
  | none => exact hself
  | some file =>
      dsimp only
      by_cases hnull : file.special = some .null
      · rw [if_pos hnull]
        exact hself
      · rw [if_neg hnull]
        cases file.content with
        | none => exact hself
        | some content => exact keeps_writeContent _ _ _ _ _ _ _

theorem keeps_resizeFile (limit : ℕ) (v : Vfs) (fd : ℤ) (path : Path) (content : Buf) (len : ℕ) :
    Keeps v (resizeFile limit v fd path content len).1 := by
  have hself := keeps_of_eq (rfl : v.files = v.files) rfl
  have hput : ∀ (v' : Vfs) (buf : Buf),
      Keeps v' (if path = [] then v' else { v' with files := v'.files.set path buf }) := by
    intro v' buf
    split_ifs
    · exact keeps_of_eq rfl rfl
    · exact keeps_of_set rfl rfl
  unfold resizeFile
  dsimp only
  by_cases hlen : len = (bytesOf v content).length
  · rw [if_pos hlen]
    exact hput v content
  · rw [if_neg hlen]
    by_cases hlimit : limit < len
    · rw [if_pos hlimit]
      exact hself
    · rw [if_neg hlimit]
      exact (keeps_replaced v fd _).trans (hput _ _)

theorem keeps_truncateFile (limit : ℕ) (v : Vfs) (fd : ℤ) (len : ℕ) : Keeps v (truncateFile limit v fd len).1 := by
  have hself := keeps_of_eq (rfl : v.files = v.files) rfl
  unfold truncateFile
  cases v.openFiles.get? fd with
  | none => exact hself
  | some file =>
      dsimp only
      split_ifs
      · exact hself
      · exact hself
      · cases file.content with
        | none => exact hself
        | some content => exact keeps_resizeFile _ _ _ _ _ _

theorem keeps_sysOpenat (lim : ℕ) (v : Vfs) (path : Path) (sysflags mode : Int32) :
    Keeps v (sysOpenat lim v path sysflags mode).1 := by
  have hopen := keeps_openFile v path sysflags mode
  unfold sysOpenat
  by_cases hzero : lim = 0
  · rw [if_pos hzero]
    exact keeps_of_eq rfl rfl
  · rw [if_neg hzero]
    dsimp only
    split_ifs
    · exact hopen.trans (keeps_of_eq rfl rfl)
    · exact hopen

theorem keepsFiles_loadEntry (v : Vfs) (entry : TarEntry) : KeepsFiles v (loadEntry v entry) := by
  have hcases := TreeCoherence.loadEntry_cases v entry
  cases hkind : TreeCoherence.entryKind entry with
  | skipped =>
      rw [hkind] at hcases
      exact .of_eq (congrArg Vfs.files hcases)
  | dir =>
      rw [hkind] at hcases
      simp only at hcases
      rw [hcases]
      exact (keeps_registerDir v _).1
  | link =>
      rw [hkind] at hcases
      simp only at hcases
      rw [hcases]
      exact .of_eq rfl
  | file =>
      rw [hkind] at hcases
      obtain ⟨buffers, content, w, hw, hcases⟩ := hcases
      have hset : Keeps v { v with buffers, files := v.files.set (tarName entry.name) content } :=
        keeps_of_set rfl rfl
      have hkeeps : KeepsFiles v w := by
        rw [hw]
        exact ((hset.trans (keeps_registerParents _ _)).trans (keeps_addChild _ _)).1
      rcases hcases with heq | ⟨metadata, heq⟩
      · rw [heq]
        exact hkeeps
      · rw [heq]
        exact hkeeps.trans (.of_eq rfl)

theorem keepsFiles_loadTar (v : Vfs) (entries : List TarEntry) : KeepsFiles v (loadTar v entries) := by
  unfold loadTar
  induction entries generalizing v with
  | nil => exact .of_eq rfl
  | cons entry rest ih => exact (keepsFiles_loadEntry v entry).trans (ih (loadEntry v entry))

/-! ### The lock -/

/-- Held paths lead to files. -/
def Held (s : State) : Prop :=
  ∀ path ∈ s.held, ¬ isDevice (absolute path) ∧
    s.vfs.files.has (resolvePath s.vfs.symlinks (absolute path)) = true

/-- What an operation that is no removal does to the held paths. -/
theorem Held.of_same {s s' : State} (h : Held s) (hfiles : KeepsFiles s.vfs s'.vfs)
    (hroutes : SameRoutes s.held s.vfs s'.vfs) (hheld : s'.held = s.held) : Held s' := by
  intro path hpath
  rw [hheld] at hpath
  obtain ⟨hdevice, hfile⟩ := h path hpath
  refine ⟨hdevice, ?_⟩
  rw [hroutes path hpath]
  exact hfiles _ hfile

theorem Keeps.sameRoutes {v v' : Vfs} (h : Keeps v v') (held : List Path) : SameRoutes held v v' := fun path _ => by
  rw [h.2]

/-- A path that was opened exclusively leads to a file. -/
theorem file_of_succeeds {lim : ℕ} {v : Vfs} {path : Path} {sysflags mode : Int32} (hexcl : Excl sysflags)
    (hdevice : ¬ isDevice (absolute path)) (hsucceeds : Succeeds lim v path sysflags mode) :
    v.files.has (resolvePath v.symlinks (absolute path)) = false ∧
      (sysOpenat lim v path sysflags mode).1.files.has (resolvePath v.symlinks (absolute path)) = true := by
  have hfree : ¬ (v.files.has (resolvePath v.symlinks (absolute path)) = true ∨
      v.dirs.has (resolvePath v.symlinks (absolute path)) = true) := by
    intro htaken
    have hfits := succeeds_iff.1 hsucceeds
    rw [openFile_taken hexcl hdevice htaken] at hfits
    exact not_fits_neg hfits
  rw [not_or, Bool.not_eq_true, Bool.not_eq_true] at hfree
  rw [vfs_of_succeeds hsucceeds]
  exact ⟨hfree.1, (openFile_vacant hexcl hdevice hfree.1 hfree.2).2.file⟩

theorem held_next {limit : ℕ} {s : State} {op : Op} (h : Held s) (hsteady : Steady s op) : Held (next limit s op) := by
  cases op with
  | tree op =>
      cases op with
      | loadTar entries => exact h.of_same (keepsFiles_loadTar s.vfs entries) hsteady rfl
      | addFile path bytes =>
          have hkeeps := keeps_addFile s.vfs path bytes
          exact h.of_same hkeeps.1 (hkeeps.sameRoutes _) rfl
      | «open» path flags mode =>
          have hkeeps := keeps_openFile s.vfs path flags mode
          exact h.of_same hkeeps.1 (hkeeps.sameRoutes _) rfl
      | mkdir path =>
          have hkeeps := keeps_mkdir s.vfs path
          exact h.of_same hkeeps.1 (hkeeps.sameRoutes _) rfl
      | unlink path => exact nofun
      | rmdir path => exact nofun
      | createSymlink text linkpath => exact h.of_same (.of_eq rfl) hsteady rfl
      | rename source goal => exact nofun
      | write fd src offset =>
          have hkeeps := keeps_writeFile limit s.vfs fd src offset
          exact h.of_same hkeeps.1 (hkeeps.sameRoutes _) rfl
  | ftruncate fd len =>
      have hkeeps := keeps_truncateFile limit s.vfs fd len
      exact h.of_same hkeeps.1 (hkeeps.sameRoutes _) rfl
  | close fd => exact h.of_same (.of_eq rfl) (fun _ _ => rfl) rfl
  | setMetadata path info => exact h.of_same (.of_eq rfl) (fun _ _ => rfl) rfl
  | openat lim path sysflags mode =>
      have hkeeps := keeps_sysOpenat lim s.vfs path sysflags mode
      have hold : Held ⟨(sysOpenat lim s.vfs path sysflags mode).1, s.held⟩ :=
        h.of_same hkeeps.1 (hkeeps.sameRoutes _) rfl
      by_cases htakes : Excl sysflags ∧ Succeeds lim s.vfs path sysflags mode
      · intro q hq
        have hheld : (next limit s (.openat lim path sysflags mode)).held = path :: s.held := if_pos htakes
        rw [hheld] at hq
        rcases List.mem_cons.1 hq with rfl | hq
        · have hdevice := hsteady htakes.1
          refine ⟨hdevice, ?_⟩
          have hfile := (file_of_succeeds htakes.1 hdevice htakes.2).2
          simp only [next, after, hkeeps.2]
          exact hfile
        · exact hold q hq
      · have hheld : (next limit s (.openat lim path sysflags mode)).held = s.held := if_neg htakes
        intro q hq
        rw [hheld] at hq
        exact hold q hq

theorem locked_of_held {s : State} (h : Held s) (op : Op) (s' : State) : Locked s op s' := by
  cases op with
  | openat lim path sysflags mode =>
      intro hexcl hmem hsucceeds
      obtain ⟨hdevice, hfile⟩ := h path hmem
      rw [(file_of_succeeds hexcl hdevice hsucceeds).1] at hfile
      cases hfile
  | _ => trivial

/-! ### Runs -/

theorem law_next_iff (limit : ℕ) (s : State) (op : Op) : Law s op (next limit s op) ↔ Clear s op := by
  cases op with
  | openat lim path sysflags mode => exact imp_congr_right fun hexcl => exclusive_iff_vacant hexcl
  | _ => exact Iff.rfl

/-- **The law holds in every step of a run exactly when every exclusive open finds its path vacant; and the
lock holds if no link leads a held path elsewhere.** -/
theorem law_and_lock {limit : ℕ} {tr : List (Op × State)} (hrun : IsRun (Step limit) fresh tr) :
    (EachStep Law fresh tr ↔ Meets Clear fresh tr) ∧ (Meets Steady fresh tr → EachStep Locked fresh tr) := by
  constructor
  · refine eachStep_iff_meets (I := fun _ => True) (fun _ _ _ _ _ => trivial) ?_ trivial hrun
    rintro s op s' - rfl
    exact law_next_iff limit s op
  · refine eachStep_of_meets (I := Held) ?_ nofun hrun
    rintro s op s' hheld hsteady rfl
    exact ⟨held_next hheld hsteady, locked_of_held hheld op _⟩

/-- The flags of a lock file: `O_CREAT | O_EXCL`. -/
def lockFlags : Int32 := 0xc0

/-- A process opens a lock file, and a link is made. -/
def lockOnce : List Op :=
  [.tree (.mkdir "/d".toList), .openat 1024 "/d/lock".toList lockFlags 0o600,
    .tree (.createSymlink "lock".toList "/d/l".toList)]

/-- Another process opens the lock file. -/
def lockTwice : List Op := lockOnce ++ [.openat 1024 "/d/lock".toList lockFlags 0o600]

theorem found_lockOnce : (stat (lockOnce.foldl (next 0) fresh).vfs "/d/lock".toList false).isSome = true := by
  decide +kernel

theorem law_and_lock_lockTwice :
    ¬ EachStep Law fresh (trace (next 0) fresh lockTwice) ∧ EachStep Locked fresh (trace (next 0) fresh lockTwice) := by
  have hboth := law_and_lock (isRun_trace (next 0) fresh lockTwice)
  constructor
  · intro hlaw
    have hvacant : Vacant 1024 (lockOnce.foldl (next 0) fresh).vfs "/d/lock".toList :=
      (hboth.1.1 hlaw).2.2.2.1 (by decide)
    have hfound := found_lockOnce
    rw [hvacant.1] at hfound
    cases hfound
  · refine hboth.2 ⟨trivial, fun _ => by decide, ?_, fun _ => by decide, trivial⟩
    intro path hpath
    have hheld : (next 0 (next 0 fresh (.tree (.mkdir "/d".toList)))
        (.openat 1024 "/d/lock".toList lockFlags 0o600)).held = ["/d/lock".toList] := by
      decide +kernel
    rw [hheld, List.mem_singleton] at hpath
    rw [hpath]
    decide +kernel

/-- **The guest is not told that a file is there.** -/
theorem not_law : ¬ ∀ (limit : ℕ) (tr : List (Op × State)), IsRun (Step limit) fresh tr →
    EachStep Law fresh tr ∧ EachStep Locked fresh tr := by
  intro h
  have hexclusive : Exclusive 1024 (lockOnce.foldl (next 0) fresh).vfs "/d/lock".toList lockFlags 0o600 :=
    (h 0 _ (isRun_trace (next 0) fresh lockTwice)).1.2.2.2.1 (by decide)
  exact result_ne_eexist (hexclusive.refuses.2 found_lockOnce)

end ExclusiveOpens
