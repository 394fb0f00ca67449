/-
**What a syscall may not have touched.**

A call that fails is expected to have left the descriptors, the files and the positions alone.  This module says what
is observed of these, and goes through the syscalls that leave it alone whatever happens: those that only read, those
that fill a structure in the guest's memory, and those that change the metadata of a path.

Main definitions:

* `Observations.View`, `Observations.view` — the tables of descriptors with their flags, the contents, the namespace,
  the positions and the offsets in directories;
* `Observations.Quiet` — a handler that leaves them alone, also when it throws.

Main results:

* `Observations.quiet_bind`, `Observations.quiet_onVfs` — the rules;
* `Observations.quiet_iovLoop` — the loop over an I/O vector;
* `Observations.quiet_handler` — **the syscalls that only look**.
-/

import AtuaComputer.Outcomes
import AtuaComputer.Syscalls

set_option relaxedAutoImplicit false
set_option autoImplicit false

namespace Observations

open VirtualFs Kernel FileIo Syscalls Outcomes

/-! ### Views -/

/-- What is observed of a filesystem: the content of every path, the rest of the namespace, and the position and the
content of every open file. -/
structure FsView where
  contents : Path → Option (List UInt8)
  dirs : JsMap Path Unit
  symlinks : JsMap Path Path
  whiteouts : JsMap Path Unit
  children : JsMap Path (JsMap Path Unit)
  opened : ℤ → Option (ℤ × Option (List UInt8))

/-- The view of a filesystem. -/
def fsView (v : Vfs) : FsView where
  contents := fun path => (v.files.get? path).map (bytesOf v)
  dirs := v.dirs
  symlinks := v.symlinks
  whiteouts := v.whiteouts
  children := v.children
  opened := fun fd => (v.openFiles.get? fd).map fun file => (file.position, file.content.map (bytesOf v))

/-- What is observed of the kernel. -/
structure View where
  tables : ℤ → Option (JsMap ℤ FdEntry)
  cloexec : ℤ → ℤ → Option Bool
  dirOffset : ℤ → ℕ
  fs : FsView

/-- The view of the kernel.  A directory that was not listed yet is listed from its start. -/
def view (s : FileIo.State) : View where
  tables := fun q => (s.kernel.processTable.get? q).map Proc.fdTable
  cloexec := fun q fd => (entryAt s.kernel q fd).bind fun entry => s.kernel.cloexec[entry.cell]?
  dirOffset := fun fd => ((s.cursors.get? fd).map Cursor.dirOffset).getD 0
  fs := fsView s.kernel.vfs

/-- A handler that leaves what is observed alone, also when it throws. -/
def Quiet {α : Type} (x : Io α) : Prop :=
  ∀ s, Ensures x s (fun _ s' => view s' = view s) fun s' => view s' = view s

/-! ### Rules -/

section Rules

variable {α β : Type}

theorem quiet_pure (a : α) : Quiet (pure a) := fun _ => ensures_pure.2 rfl

theorem quiet_throw : Quiet (throw () : Io α) := fun _ => ensures_throw.2 rfl

theorem quiet_bind {x : Io α} {f : α → Io β} (hx : Quiet x) (hf : ∀ a, Quiet (f a)) : Quiet (x >>= f) := by
  intro s
  refine ensures_bind.2 ((hx s).mono (fun a s' hs' => ?_) fun _ => id)
  exact (hf a s').mono (fun _ _ h => h.trans hs') fun _ h => h.trans hs'

theorem quiet_read {f : FileIo.State → Io α} (hf : ∀ s, Quiet (f s)) : Quiet (get >>= f) :=
  fun s => ensures_bind.2 (hf s s)

theorem quiet_modify {f : FileIo.State → FileIo.State} (hf : ∀ s, view (f s) = view s) :
    Quiet (modify f : Io Unit) := fun s => ensures_modify.2 (hf s)

theorem quiet_ite {c : Prop} [Decidable c] {x y : Io α} (hx : Quiet x) (hy : Quiet y) :
    Quiet (if c then x else y) := by
  split_ifs
  · exact hx
  · exact hy

end Rules

/-! ### Memory and files -/

theorem quiet_alloc (n : ℕ) : Quiet (alloc n) :=
  quiet_read fun _ => quiet_ite quiet_throw (quiet_pure ())

theorem quiet_guestMemory (pid : ℤ) (p : Proc) : Quiet (guestMemory pid p) :=
  quiet_ite (quiet_read fun _ => quiet_pure _) quiet_throw

theorem quiet_storeGuest (pid : ℤ) (p : Proc) (addr : ℕ) (bytes : List UInt8) :
    Quiet (storeGuest pid p addr bytes) := by
  refine quiet_bind (quiet_guestMemory pid p) fun wasm => ?_
  split
  · exact quiet_throw
  · exact quiet_modify fun _ => rfl

theorem quiet_viewGuest (pid : ℤ) (p : Proc) (addr count : ℕ) : Quiet (viewGuest pid p addr count) :=
  quiet_bind (quiet_guestMemory pid p) fun _ => quiet_pure _

theorem quiet_sliceGuest (pid : ℤ) (p : Proc) (addr count : ℕ) : Quiet (sliceGuest pid p addr count) :=
  quiet_bind (quiet_viewGuest pid p addr count) fun _ => quiet_bind (quiet_alloc _) fun _ => quiet_pure _

theorem quiet_loadWord (pid : ℤ) (p : Proc) (addr : ℕ) : Quiet (loadWord pid p addr) := by
  refine quiet_bind (quiet_guestMemory pid p) fun wasm => ?_
  split_ifs
  · exact quiet_bind quiet_throw fun _ => quiet_pure _
  · exact quiet_pure _

theorem quiet_randomBytes (n : ℕ) : Quiet (randomBytes n) := by
  unfold randomBytes
  split_ifs
  · exact quiet_bind quiet_throw fun _ _ => rfl
  · exact fun _ => rfl

theorem quiet_getFile (vfsFd : ℤ) : Quiet (getFile vfsFd) := quiet_read fun _ => quiet_pure _

theorem quiet_vfsRead (vfsFd : ℤ) (count : ℕ) (offset : ℤ) : Quiet (vfsRead vfsFd count offset) := by
  refine quiet_bind (quiet_alloc count) fun _ => quiet_read fun s => ?_
  exact quiet_ite (quiet_bind (quiet_randomBytes count) fun _ => quiet_pure _) (quiet_pure _)

theorem quiet_onVfs {f : ℕ → Vfs → Vfs × Option ℤ} (hf : ∀ limit v, fsView (f limit v).1 = fsView v) :
    Quiet (onVfs f) := by
  intro s
  have hview : view { s with kernel := { s.kernel with vfs := (f s.limit s.kernel.vfs).1 } } = view s :=
    congrArg (View.mk (view s).tables (view s).cloexec (view s).dirOffset) (hf s.limit s.kernel.vfs)
  refine ensures_bind.2 (ensures_bind.2 ?_)
  cases (f s.limit s.kernel.vfs).2 with
  | none => exact hview
  | some n => exact hview

theorem quiet_withEntry {p : Proc} {a : Int32} {missing : Io ℤ} {body : FdKind → Io ℤ} (hm : Quiet missing)
    (hb : ∀ kind, Quiet (body kind)) : Quiet (withEntry p a missing body) := by
  unfold withEntry
  split
  · exact hm
  · exact hb _

theorem quiet_withFile {vfsFd : ℤ} {body : OpenFile → Io ℤ} (hb : ∀ file, Quiet (body file)) :
    Quiet (withFile vfsFd body) := by
  refine quiet_bind (quiet_getFile vfsFd) fun file => ?_
  split
  · exact quiet_pure _
  · exact hb _

theorem quiet_loadIov (pid : ℤ) (p : Proc) (iov i : ℕ) : Quiet (loadIov pid p iov i) :=
  quiet_bind (quiet_loadWord pid p _) fun _ => quiet_bind (quiet_loadWord pid p _) fun _ => quiet_pure _

theorem quiet_iovLoop {pid : ℤ} {p : Proc} {iov : ℕ} {round : ℤ → ℕ → ℕ → Io ℤ} {stops : Bool}
    (hr : ∀ total iovBase iovLen, Quiet (round total iovBase iovLen)) (rounds i : ℕ) (total : ℤ) :
    Quiet (iovLoop pid p iov round stops rounds i total) := by
  induction rounds generalizing i total with
  | zero => exact quiet_pure _
  | succ rounds ih =>
      refine quiet_bind (quiet_loadIov pid p iov i) fun words => ?_
      refine quiet_bind (hr total words.1 words.2) fun n => ?_
      exact quiet_ite (quiet_pure _) (ih (i + 1) (total + n))

theorem quiet_gather (pid : ℤ) (p : Proc) (iov rounds i : ℕ) : Quiet (gather pid p iov rounds i) := by
  induction rounds generalizing i with
  | zero => exact quiet_pure _
  | succ rounds ih =>
      refine quiet_bind (quiet_loadIov pid p iov i) fun words => ?_
      exact quiet_bind (quiet_viewGuest pid p _ _) fun piece => quiet_bind (ih (i + 1)) fun _ => quiet_pure _

/-- What the reading syscalls do with what they read. -/
theorem quiet_storeRead (pid : ℤ) (p : Proc) (addr : ℕ) (r : ℤ × List UInt8) :
    Quiet (do
      if 0 < r.1 then
        storeGuest pid p addr r.2
        return r.1
      return r.1) :=
  quiet_ite (quiet_bind (quiet_storeGuest pid p addr r.2) fun _ => quiet_pure _) (quiet_pure _)

theorem quiet_loadBig (pid : ℤ) (p : Proc) (addr : ℕ) : Quiet (loadBig pid p addr) := by
  refine quiet_bind (quiet_guestMemory pid p) fun wasm => ?_
  split_ifs
  · exact quiet_bind quiet_throw fun _ => quiet_pure _
  · exact quiet_pure _

theorem quiet_storeWord (pid : ℤ) (p : Proc) (w addr : ℕ) (n : ℤ) : Quiet (storeWord pid p w addr n) :=
  quiet_storeGuest pid p addr _

theorem quiet_clearGuest (pid : ℤ) (p : Proc) (addr count : ℕ) : Quiet (clearGuest pid p addr count) := by
  refine quiet_bind (quiet_guestMemory pid p) fun wasm => ?_
  exact quiet_ite (quiet_storeGuest pid p _ _) (quiet_pure _)

theorem quiet_storeCString (pid : ℤ) (p : Proc) (addr : ℕ) (s : Path) : Quiet (storeCString pid p addr s) := by
  refine quiet_bind (quiet_storeGuest pid p _ _) fun _ => quiet_bind (quiet_guestMemory pid p) fun wasm => ?_
  exact quiet_ite (quiet_storeGuest pid p _ _) (quiet_pure _)

/-! ### Syscalls -/

theorem quiet_sysPread64 (pid : ℤ) (p : Proc) (a b c d e : Int32) : Quiet (sysPread64 pid p a b c d e) := by
  refine quiet_withEntry (quiet_pure _) fun kind => ?_
  split
  · exact quiet_withFile fun _ => quiet_bind (quiet_vfsRead _ _ _) fun r => quiet_storeRead pid p _ r
  · exact quiet_withFile fun _ => quiet_bind (quiet_vfsRead _ _ _) fun r => quiet_storeRead pid p _ r
  · exact quiet_pure _

theorem quiet_sysPreadv (pid : ℤ) (p : Proc) (a b c d e : Int32) : Quiet (sysPreadv pid p a b c d e) := by
  refine quiet_withEntry (quiet_pure _) fun kind => ?_
  split
  · refine quiet_withFile fun _ => quiet_iovLoop (fun total iovBase iovLen => ?_) _ _ _
    exact quiet_bind (quiet_vfsRead _ _ _) fun r => quiet_storeRead pid p _ r
  · refine quiet_withFile fun _ => quiet_iovLoop (fun total iovBase iovLen => ?_) _ _ _
    exact quiet_bind (quiet_vfsRead _ _ _) fun r => quiet_storeRead pid p _ r
  · exact quiet_pure _

theorem quiet_sysMmap (pid : ℤ) (p : Proc) (a b d e f : Int32) : Quiet (sysMmap pid p a b d e f) := by
  refine quiet_ite (quiet_pure _) (quiet_bind (quiet_getFile _) fun file => ?_)
  split
  · exact quiet_pure _
  · refine quiet_ite (quiet_read fun s => ?_) (quiet_pure _)
    exact quiet_ite (quiet_bind (quiet_storeGuest pid p _ _) fun _ => quiet_pure _) (quiet_pure _)

theorem quiet_sysFstat (bootTime : ℤ) (pid : ℤ) (p : Proc) (a b : Int32) : Quiet (sysFstat bootTime pid p a b) := by
  have hfile (vfsFd : ℤ) : Quiet (withFile vfsFd fun file => do
      let v := (← get).kernel.vfs
      let info := if file.path = [] then default else (v.metadata.get? file.path).getD default
      storeGuest pid p (unsigned b)
        (statBuf bootTime (contentLength v file) (fileType file) info (a.toInt + 1000))
      return 0) :=
    quiet_withFile fun file => quiet_read fun s => quiet_bind (quiet_storeGuest pid p _ _) fun _ => quiet_pure _
  refine quiet_withEntry (quiet_pure _) fun kind => ?_
  split
  · exact quiet_bind (quiet_storeGuest pid p _ _) fun _ => quiet_pure _
  · exact quiet_bind (quiet_storeGuest pid p _ _) fun _ => quiet_pure _
  · exact hfile _
  · exact hfile _

/-- Metadata is not observed. -/
theorem fsView_setMeta (v : Vfs) (path : Path) (f : Meta → Meta) : fsView (setMeta v path f) = fsView v := rfl

theorem quiet_changeFile (p : Proc) (a : Int32) (f : Meta → Meta) : Quiet (changeFile p a f) := by
  have hset (path : Path) : Quiet (if path = [] then pure 0 else onVfs fun _ v => (setMeta v path f, some (0 : ℤ))) :=
    quiet_ite (quiet_pure _) (quiet_onVfs fun _ v => fsView_setMeta v _ f)
  refine quiet_withEntry (quiet_pure _) fun kind => ?_
  split
  · refine quiet_bind (quiet_getFile _) fun file => ?_
    cases file with
    | none => exact quiet_pure _
    | some file => exact hset file.path
  · refine quiet_bind (quiet_getFile _) fun file => ?_
    cases file with
    | none => exact quiet_pure _
    | some file => exact hset file.path
  · exact quiet_pure _

theorem quiet_sysFsRead (pid : ℤ) (p : Proc) (a b c d e : Int32) : Quiet (sysFsRead pid p a b c d e) :=
  quiet_bind (quiet_vfsRead _ _ _) fun r => quiet_storeRead pid p _ r

theorem quiet_sysFsFstat (a : Int32) : Quiet (sysFsFstat a) := by
  refine quiet_bind (quiet_getFile _) fun file => ?_
  split
  · exact quiet_pure _
  · exact quiet_read fun s => quiet_pure _

theorem quiet_atPath (dirfd : Int32) (path : Path) (error : ℤ) {body : Path → Io ℤ} (hb : ∀ path, Quiet (body path)) :
    Quiet (atPath dirfd path error body) :=
  quiet_ite (quiet_pure _) (hb _)

theorem quiet_statPath (bootTime : ℤ) (pid : ℤ) (p : Proc) (path : Path) (followSymlinks : Bool) (buf : Int32) :
    Quiet (statPath bootTime pid p path followSymlinks buf) := by
  refine quiet_read fun s => ?_
  dsimp only
  split
  · exact quiet_pure _
  · exact quiet_bind (quiet_storeGuest pid p _ _) fun _ => quiet_pure _

theorem quiet_sysStatx (pid : ℤ) (p : Proc) (path : Path) (e : Int32) : Quiet (sysStatx pid p path e) := by
  refine quiet_read fun s => ?_
  split
  · exact quiet_pure _
  · exact quiet_bind (quiet_storeGuest pid p _ _) fun _ => quiet_pure _

theorem quiet_storeLink (pid : ℤ) (p : Proc) (buf size : Int32) (target : Path) :
    Quiet (storeLink pid p buf size target) :=
  quiet_bind (quiet_storeGuest pid p _ _) fun _ => quiet_pure _

theorem quiet_readTarget (pid : ℤ) (p : Proc) (path : Path) (buf size : Int32) :
    Quiet (readTarget pid p path buf size) := by
  refine quiet_read fun s => ?_
  split
  · exact quiet_pure _
  · exact quiet_storeLink pid p buf size _

theorem quiet_sysReadlinkat (pid : ℤ) (p : Proc) (a : Int32) (path : Path) (c d : Int32) :
    Quiet (sysReadlinkat pid p a path c d) := by
  refine quiet_atPath _ _ _ fun path => quiet_ite (quiet_storeLink pid p c d _) ?_
  split
  · exact quiet_bind (quiet_getFile _) fun file => quiet_storeLink pid p c d _
  · exact quiet_readTarget pid p path c d

theorem quiet_changeMeta (path : Path) (f : Meta → Meta) : Quiet (changeMeta path f) := by
  unfold changeMeta change
  exact quiet_onVfs fun _ v => fsView_setMeta v _ f

theorem quiet_sysUtimensat (now : ℕ) (pid : ℤ) (p : Proc) (a b : Int32) (path : Path) (c : Int32) :
    Quiet (sysUtimensat now pid p a b path c) := by
  refine quiet_ite (quiet_pure _) (quiet_atPath _ _ _ fun path => quiet_ite (quiet_pure _) ?_)
  refine quiet_bind (quiet_loadBig pid p _) fun _ => quiet_bind (quiet_loadBig pid p _) fun _ => ?_
  refine quiet_bind (quiet_loadBig pid p _) fun _ => quiet_bind (quiet_loadBig pid p _) fun _ => ?_
  exact quiet_changeMeta path _

theorem quiet_storeFields (pid : ℤ) (p : Proc) (off : ℕ) (fields : List Path) :
    Quiet (storeFields pid p off fields) := by
  induction fields generalizing off with
  | nil => exact quiet_pure _
  | cons field fields ih => exact quiet_bind (quiet_storeCString pid p off field) fun _ => ih (off + 65)

/-- Two words in the guest's memory, and a result. -/
theorem quiet_storeWords (pid : ℤ) (p : Proc) (w w' addr addr' : ℕ) (m n : ℤ) :
    Quiet (do
      storeWord pid p w addr m
      storeWord pid p w' addr' n
      return (0 : ℤ)) :=
  quiet_bind (quiet_storeWord pid p w addr m) fun _ =>
    quiet_bind (quiet_storeWord pid p w' addr' n) fun _ => quiet_pure _

theorem quiet_storeIds (pid : ℤ) (p : Proc) (a b c : Int32) : Quiet (storeIds pid p a b c) :=
  quiet_bind (quiet_storeWord pid p _ _ _) fun _ => quiet_storeWords pid p _ _ _ _ _ _

/-- The calls that change the filesystem, or the position of an open file. -/
def Changes : Syscalls.Call → Bool
  | .mkdir _ _ | .mkdirat _ _ _ | .unlink _ | .unlinkat _ _ _ | .rename _ _ | .renameat _ _ _ _ | .symlinkat _ _ _
  | .linkat _ _ _ _ | .sendfile _ _ _ _ | .fsWrite _ _ _ _ _ => true
  | _ => false

/-- **The other calls only look.** -/
theorem quiet_handler (bootTime : ℤ) (pid : ℤ) (p : Proc) {call : Syscalls.Call} (h : Changes call = false) :
    Quiet (handler bootTime pid p call) := by
  cases call with
  | mmap a b d e f => exact quiet_sysMmap pid p a b d e f
  | fstat a b => exact quiet_sysFstat bootTime pid p a b
  | stat path b => exact quiet_statPath bootTime pid p path true b
  | lstat path b => exact quiet_statPath bootTime pid p path false b
  | fstatat path c d => exact quiet_statPath bootTime pid p path _ c
  | clockGettime now b => exact quiet_storeWords pid p _ _ _ _ _ _
  | clockGetres b => exact quiet_ite (quiet_storeWords pid p _ _ _ _ _ _) (quiet_pure _)
  | nanosleep a =>
      refine quiet_bind (quiet_loadBig pid p _) fun _ => ?_
      exact quiet_bind (quiet_loadBig pid p _) fun _ => quiet_pure _
  | getrandom a b =>
      refine quiet_bind (quiet_alloc _) fun _ => quiet_bind (quiet_randomBytes _) fun _ => ?_
      exact quiet_bind (quiet_storeGuest pid p _ _) fun _ => quiet_pure _
  | uname a => exact quiet_bind (quiet_storeFields pid p _ _) fun _ => quiet_pure _
  | faccessat path => exact quiet_read fun s => quiet_pure _
  | statx path e => exact quiet_sysStatx pid p path e
  | prlimit64 d => exact quiet_ite (quiet_storeWords pid p _ _ _ _ _ _) (quiet_pure _)
  | readlink path b c => exact quiet_ite (quiet_storeLink pid p b c _) (quiet_readTarget pid p _ b c)
  | readlinkat a path c d => exact quiet_sysReadlinkat pid p a path c d
  | gettimeofday now a => exact quiet_ite (quiet_storeWords pid p _ _ _ _ _ _) (quiet_pure _)
  | getrusage b => exact quiet_bind (quiet_clearGuest pid p _ _) fun _ => quiet_pure _
  | times a => exact quiet_ite (quiet_bind (quiet_clearGuest pid p _ _) fun _ => quiet_pure _) (quiet_pure _)
  | getresuid a b c => exact quiet_storeIds pid p a b c
  | getresgid a b c => exact quiet_storeIds pid p a b c
  | chmod path b => exact quiet_changeMeta _ _
  | fchmod a b => exact quiet_changeFile p a _
  | chown path b c => exact quiet_changeMeta _ _
  | fchown a b c => exact quiet_changeFile p a _
  | fchmodat a path c => exact quiet_atPath _ _ _ fun path => quiet_changeMeta path _
  | fchownat a path c d => exact quiet_atPath _ _ _ fun path => quiet_changeMeta path _
  | utimensat now a b path c => exact quiet_sysUtimensat now pid p a b path c
  | statfs b => exact quiet_bind (quiet_storeGuest pid p _ _) fun _ => quiet_pure _
  | fstatfs b => exact quiet_bind (quiet_storeGuest pid p _ _) fun _ => quiet_pure _
  | fsRead a b c d e => exact quiet_sysFsRead pid p a b c d e
  | fsFstat a => exact quiet_sysFsFstat a
  | mkdir | mkdirat | unlink | unlinkat | rename | renameat | symlinkat | linkat | sendfile | fsWrite => cases h

end Observations
