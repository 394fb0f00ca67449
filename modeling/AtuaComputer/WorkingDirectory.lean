/-
**The working directory.**

A process that calls `chdir` should have its relative paths taken from there, and those of the calls that take
the descriptor of a directory from that directory.  The kernel does neither.  `SYS_chdir` succeeds and does
nothing, `SYS_CHDIR` stores any text, and what it stores is read by `getcwd` only: every call puts a slash in
front of a relative path, after the decoder has taken a byte order mark away.  The calls with a descriptor
look at it just to refuse, and `openat` and `fstatat` do not even do that.

Next to the state of the kernel this module keeps the directory that each process has reached by its
successful `chdir`s, and compares what a call does with what the same call does for the absolute path.

Main definitions:

* `WorkingDirectory.State`, `WorkingDirectory.after` — the kernel, with the directories that were reached;
* `WorkingDirectory.PathCall` — the calls on paths;
* `WorkingDirectory.Acts` — a call fails, or acts on what its absolute path names;
* `WorkingDirectory.Careful` — the condition.

Main results:

* `WorkingDirectory.handleSyscall_absolute` — a call that is not refused puts a slash in front of its paths;
* `WorkingDirectory.resolves_of_meets` — **runs whose steps meet the condition**.
-/

import AtuaComputer.Isolation
import AtuaComputer.Runs
import AtuaComputer.VfsPaths

set_option relaxedAutoImplicit false
set_option autoImplicit false

namespace WorkingDirectory

open VirtualFs Kernel Bridge FileIo Syscalls Runs

/-! ### Calls on paths -/

/-- The calls on paths, with the descriptors of directories that some of them take. -/
inductive PathCall where
  | open (path : Path) (b c : Int32)
  | openat (a : Int32) (path : Path) (c d : Int32)
  | fsOpen (path : Path) (b c : Int32)
  | stat (path : Path) (b : Int32)
  | lstat (path : Path) (b : Int32)
  | fstatat (a : Int32) (path : Path) (c d : Int32)
  | mkdir (path : Path) (b : Int32)
  | mkdirat (a : Int32) (path : Path) (c : Int32)
  | unlink (path : Path)
  | unlinkat (a : Int32) (path : Path) (c : Int32)
  | rename (oldPath newPath : Path)
  | renameat (a : Int32) (oldPath : Path) (c : Int32) (newPath : Path)
  | readlink (path : Path) (b c : Int32)
  | readlinkat (a : Int32) (path : Path) (c d : Int32)
  | chmod (path : Path) (b : Int32)
  | fchmodat (a : Int32) (path : Path) (c : Int32)

/-- The syscall of the kernel.  `openat` and `fstatat` do not look at the descriptor. -/
def PathCall.syscall : PathCall → Syscall
  | .open path b c => .kernel (.open path b c) .answered
  | .openat _ path c d => .kernel (.openat path c d) .answered
  | .fsOpen path b c => .kernel (.fsOpen path b c) .answered
  | .stat path b => .other (.stat path b)
  | .lstat path b => .other (.lstat path b)
  | .fstatat _ path c d => .other (.fstatat path c d)
  | .mkdir path b => .other (.mkdir path b)
  | .mkdirat a path c => .other (.mkdirat a path c)
  | .unlink path => .other (.unlink path)
  | .unlinkat a path c => .other (.unlinkat a path c)
  | .rename oldPath newPath => .other (.rename oldPath newPath)
  | .renameat a oldPath c newPath => .other (.renameat a oldPath c newPath)
  | .readlink path b c => .other (.readlink path b c)
  | .readlinkat a path c d => .other (.readlinkat a path c d)
  | .chmod path b => .other (.chmod path b)
  | .fchmodat a path c => .other (.fchmodat a path c)

/-- The paths of a call, each with its descriptor. -/
def PathCall.paths : PathCall → List (Option Int32 × Path)
  | .open path _ _ | .fsOpen path _ _ | .stat path _ | .lstat path _ | .mkdir path _ | .unlink path
  | .readlink path _ _ | .chmod path _ => [(none, path)]
  | .openat a path _ _ | .fstatat a path _ _ | .mkdirat a path _ | .unlinkat a path _
  | .readlinkat a path _ _ | .fchmodat a path _ => [(some a, path)]
  | .rename oldPath newPath => [(none, oldPath), (none, newPath)]
  | .renameat a oldPath c newPath => [(some a, oldPath), (some c, newPath)]

/-- The same call for other paths. -/
def PathCall.mapPaths (f : Option Int32 → Path → Path) : PathCall → PathCall
  | .open path b c => .open (f none path) b c
  | .openat a path c d => .openat a (f (some a) path) c d
  | .fsOpen path b c => .fsOpen (f none path) b c
  | .stat path b => .stat (f none path) b
  | .lstat path b => .lstat (f none path) b
  | .fstatat a path c d => .fstatat a (f (some a) path) c d
  | .mkdir path b => .mkdir (f none path) b
  | .mkdirat a path c => .mkdirat a (f (some a) path) c
  | .unlink path => .unlink (f none path)
  | .unlinkat a path c => .unlinkat a (f (some a) path) c
  | .rename oldPath newPath => .rename (f none oldPath) (f none newPath)
  | .renameat a oldPath c newPath => .renameat a (f (some a) oldPath) c (f (some c) newPath)
  | .readlink path b c => .readlink (f none path) b c
  | .readlinkat a path c d => .readlinkat a (f (some a) path) c d
  | .chmod path b => .chmod (f none path) b
  | .fchmodat a path c => .fchmodat a (f (some a) path) c

/-- A relative path. -/
def Relative (path : Path) : Prop := path.head? ≠ some '/'

instance (path : Path) : Decidable (Relative path) := inferInstanceAs (Decidable (_ ≠ _))

/-- The calls that refuse a relative path, as it is read, when they are given a descriptor. -/
def PathCall.Refused (p : Proc) : PathCall → Prop
  | .mkdirat a path _ | .unlinkat a path _ | .readlinkat a path _ _ | .fchmodat a path _ =>
    Relative (readCString p path) ∧ a ≠ atFdcwd
  | .renameat a oldPath c newPath =>
    Relative (readCString p oldPath) ∧ a ≠ atFdcwd ∨ Relative (readCString p newPath) ∧ c ≠ atFdcwd
  | _ => False

/-! ### Directories that were reached -/

/-- The kernel, with the directory that each process has reached. -/
structure State where
  os : Syscalls.State
  cwd : ℤ → Path

/-- A path in a directory; an absolute path is itself. -/
def pathIn (dir path : Path) : Path := if Relative path then childPath dir path else path

/-- The directory behind a descriptor. -/
def dirAt (s : Syscalls.State) (p : Proc) (dirfd : Int32) : Option Path := do
  let entry ← p.fdTable.get? dirfd.toInt
  let vfsFd ← entry.kind.handle?
  let file ← s.io.kernel.vfs.openFiles.get? vfsFd
  file.dirPath

/-- The directory from which a relative path is to be taken. -/
def base (s : State) (pid : ℤ) (p : Proc) : Option Int32 → Option Path
  | none => some (s.cwd pid)
  | some dirfd => if dirfd = atFdcwd then some (s.cwd pid) else dirAt s.os p dirfd

/-- The absolute path, if there is one. -/
def absolutePath (s : State) (pid : ℤ) (p : Proc) (dirfd : Option Int32) (path : Path) : Option Path :=
  if Relative path then (base s pid p dirfd).map fun dir => childPath dir path else some path

/-- A path names the root or a directory that there is. -/
def IsDirectory (v : Vfs) (path : Path) : Prop :=
  resolvePath v.symlinks path = ['/'] ∨
    (VirtualFs.stat v path true).any (fun info => info.type = .dir) = true

instance (v : Vfs) (path : Path) : Decidable (IsDirectory v path) := inferInstanceAs (Decidable (_ ∨ _))

/-- The call failed. -/
def Fails (result : Option ℤ) : Prop := ∃ n, result = some n ∧ n < 0

instance (result : Option ℤ) : Decidable (Fails result) :=
  match result with
  | none => isFalse fun ⟨_, h, _⟩ => by cases h
  | some n => decidable_of_iff (n < 0) ⟨fun h => ⟨n, rfl, h⟩, fun ⟨_, h, hn⟩ => Option.some_inj.1 h ▸ hn⟩

/-- The path of a `chdir` from the directory of the process. -/
def target (s : State) (pid : ℤ) (path : Path) : Path := pathIn (s.cwd pid) path

/-- The directories after a `chdir`. -/
def enter (s : State) (pid : ℤ) (path : Path) (result : Option ℤ) : ℤ → Path :=
  match s.os.io.kernel.processTable.get? pid with
  | none => s.cwd
  | some _ =>
    if Fails result then s.cwd
    else Function.update s.cwd pid (resolvePath s.os.io.kernel.vfs.symlinks (target s pid path))

/-- What happens: a call on paths, `SYS_chdir`, whose number is 80, or anything else. -/
inductive Event where
  | path (pid : ℤ) (call : PathCall)
  | chdir (pid : ℤ) (path : Path)
  | other (ev : Syscalls.Event)

/-- The event of the kernel. -/
def Event.event : Event → Syscalls.Event
  | .path pid call => .syscall pid call.syscall
  | .chdir pid _ => .syscall pid (.plain 80)
  | .other ev => ev

/-- The directories after an event.  A child has that of its parent, and a process that is registered anew the
one it is registered with. -/
def cwdAfter (s : State) : Event → ℤ → Path
  | .chdir pid path => enter s pid path (Syscalls.handleSyscall s.os pid (.plain 80)).2
  | .other (.syscall pid (.fsChdir path)) =>
    enter s pid path (Syscalls.handleSyscall s.os pid (.fsChdir path)).2
  | .other (.syscall pid call) =>
    match Isolation.childOf s.os pid call with
    | none => s.cwd
    | some childPid => Function.update s.cwd childPid (s.cwd pid)
  | .other (.registerWorker msgPid cwd) =>
    let pid := if msgPid ≠ 0 then msgPid else s.os.io.kernel.nextPid
    if s.os.io.kernel.processTable.has pid then s.cwd
    else Function.update s.cwd pid (if cwd = [] then ['/'] else cwd)
  | _ => s.cwd

/-- The state after an event. -/
def after (s : State) (ev : Event) : State := ⟨Syscalls.after s.os ev.event, cwdAfter s ev⟩

/-- The step relation. -/
def Step (s : State) (ev : Event) (s' : State) : Prop := s' = after s ev

/-! ### What should hold -/

/-- A call on paths fails, or does what it does for the absolute paths. -/
def Acts (s : State) (pid : ℤ) (p : Proc) (call : PathCall) : Prop :=
  Fails (Syscalls.handleSyscall s.os pid call.syscall).2 ∨
    ∃ f : Option Int32 → Path → Path,
      (∀ d ∈ call.paths, absolutePath s pid p d.1 d.2 = some (f d.1 d.2)) ∧
        Syscalls.handleSyscall s.os pid call.syscall =
          Syscalls.handleSyscall s.os pid (call.mapPaths f).syscall

/-- A `chdir` fails, or leads to a directory that there is. -/
def Enters (s : State) (pid : ℤ) (path : Path) (result : Option ℤ) : Prop :=
  Fails result ∨ IsDirectory s.os.io.kernel.vfs (target s pid path)

/-- **What should hold of a step.** -/
def Resolves (s : State) (ev : Event) (_ : State) : Prop :=
  match ev with
  | .path pid call => ∀ p ∈ s.os.io.kernel.processTable.get? pid, Acts s pid p call
  | .chdir pid path => ∀ _ ∈ s.os.io.kernel.processTable.get? pid,
      Enters s pid path (Syscalls.handleSyscall s.os pid (.plain 80)).2
  | .other (.syscall pid (.fsChdir path)) => ∀ _ ∈ s.os.io.kernel.processTable.get? pid,
      Enters s pid path (Syscalls.handleSyscall s.os pid (.fsChdir path)).2
  | _ => True

/-- A path that does not begin with a byte order mark. -/
def Unmarked (path : Path) : Prop := path.head? ≠ some Utf8.bom

instance (path : Path) : Decidable (Unmarked path) := inferInstanceAs (Decidable (_ ≠ _))

/-- **The condition**: a relative path is refused, or is to be taken from the root and is read as it is, and a `chdir`
names a directory that there is. -/
def Careful (s : State) : Event → Prop
  | .path pid call => ∀ p ∈ s.os.io.kernel.processTable.get? pid, call.Refused p ∨
      ∀ d ∈ call.paths, Relative d.2 → base s pid p d.1 = some ['/'] ∧ Unmarked d.2
  | .chdir pid path | .other (.syscall pid (.fsChdir path)) =>
    ∀ _ ∈ s.os.io.kernel.processTable.get? pid, IsDirectory s.os.io.kernel.vfs (target s pid path)
  | _ => True

/-! ### A slash in front -/

theorem absolute_of_relative {path : Path} (h : Relative path) : absolute path = '/' :: path := if_neg h

theorem absolute_of_not_relative {path : Path} (h : ¬ Relative path) : absolute path = path :=
  if_pos (not_not.1 h)

theorem not_relative_absolute (path : Path) : ¬ Relative (absolute path) := not_not.2 (head?_absolute path)

/-- An absolute path begins with its slash. -/
theorem unmarked_of_not_relative {path : Path} (h : ¬ Relative path) : Unmarked path := by
  rw [Unmarked, not_not.1 h]
  decide

theorem unmarked_absolute (path : Path) : Unmarked (absolute path) :=
  unmarked_of_not_relative (not_relative_absolute path)

/-- A path without a mark is read as it is, or not at all. -/
theorem readCString_of_unmarked (p : Proc) {path : Path} (h : Unmarked path) :
    readCString p path = if p.wasmMemory then path else [] := by
  unfold readCString
  rw [Utf8.stripBom_of_ne h]

/-- A process reads the path it is given, or none at all. -/
theorem absolute_readCString (p : Proc) {path : Path} (h : Unmarked path) :
    absolute (readCString p (absolute path)) = absolute (readCString p path) := by
  rw [readCString_of_unmarked p h, readCString_of_unmarked p (unmarked_absolute path)]
  split
  · exact absolute_absolute path
  · rfl

theorem openFile_absolute (v : Vfs) (path : Path) (flags mode : Int32) :
    openFile v (absolute path) flags mode = openFile v path flags mode := by
  unfold openFile
  rw [absolute_absolute]

theorem openPath_absolute (k : Kernel.State) (pid : ℤ) (p : Proc) {path : Path} (h : Unmarked path)
    (flags mode : Int32) : openPath k pid p (absolute path) flags mode = openPath k pid p path flags mode := by
  have hopen : openFile k.vfs (readCString p (absolute path)) flags mode =
      openFile k.vfs (readCString p path) flags mode := by
    rw [← openFile_absolute, absolute_readCString p h, openFile_absolute]
  unfold openPath
  rw [hopen]

/-- A call that does not refuse its path. -/
theorem atPath_absolute (p : Proc) {dirfd : Int32} {path : Path} (hpath : Unmarked path)
    (h : ¬ (Relative (readCString p path) ∧ dirfd ≠ atFdcwd)) (error : ℤ) (body : Path → Io ℤ) :
    atPath dirfd (readCString p (absolute path)) error body = atPath dirfd (readCString p path) error body := by
  have hslash : ¬ (Relative (readCString p (absolute path)) ∧ dirfd ≠ atFdcwd) := by
    rw [readCString_of_unmarked p (unmarked_absolute path)]
    rw [readCString_of_unmarked p hpath] at h
    split_ifs with hmemory
    · exact fun hrefused => not_relative_absolute path hrefused.1
    · rwa [if_neg hmemory] at h
  unfold atPath
  rw [absolute_readCString p hpath]
  exact (if_neg hslash).trans (if_neg h).symm

theorem atPath_refused (p : Proc) {dirfd : Int32} {path : Path} (h : Relative (readCString p path) ∧ dirfd ≠ atFdcwd)
    (error : ℤ) (body : Path → Io ℤ) : atPath dirfd (readCString p path) error body = pure error :=
  if_pos h

/-- The path as the calls take it. -/
def slashed (_ : Option Int32) (path : Path) : Path := absolute path

section Handlers

variable {p : Proc} {path : Path} (hpath : Unmarked path)
include hpath

theorem statPath_absolute (bootTime pid : ℤ) (follow : Bool) (buf : Int32) :
    statPath bootTime pid p (absolute path) follow buf = statPath bootTime pid p path follow buf := by
  unfold statPath
  rw [absolute_readCString p hpath]

theorem sysMkdir_absolute (b : Int32) : sysMkdir p (absolute path) b = sysMkdir p path b := by
  unfold sysMkdir
  rw [absolute_readCString p hpath]

theorem sysUnlink_absolute : sysUnlink p (absolute path) = sysUnlink p path := by
  unfold sysUnlink
  rw [absolute_readCString p hpath]

theorem sysRename_absolute {newPath : Path} (hnew : Unmarked newPath) :
    sysRename p (absolute path) (absolute newPath) = sysRename p path newPath := by
  unfold sysRename
  rw [absolute_readCString p hpath, absolute_readCString p hnew]

theorem sysReadlink_absolute (pid : ℤ) (b c : Int32) :
    sysReadlink pid p (absolute path) b c = sysReadlink pid p path b c := by
  unfold sysReadlink
  rw [absolute_readCString p hpath]

theorem sysChmod_absolute (b : Int32) : sysChmod p (absolute path) b = sysChmod p path b := by
  unfold sysChmod
  rw [absolute_readCString p hpath]

section Descriptors

variable {a : Int32} (h : ¬ (Relative (readCString p path) ∧ a ≠ atFdcwd))
include h

theorem sysMkdirat_absolute (c : Int32) : sysMkdirat p a (absolute path) c = sysMkdirat p a path c :=
  atPath_absolute p hpath h _ _

theorem sysUnlinkat_absolute (c : Int32) : sysUnlinkat p a (absolute path) c = sysUnlinkat p a path c :=
  atPath_absolute p hpath h _ _

theorem sysReadlinkat_absolute (pid : ℤ) (c d : Int32) :
    sysReadlinkat pid p a (absolute path) c d = sysReadlinkat pid p a path c d :=
  atPath_absolute p hpath h _ _

theorem sysFchmodat_absolute (c : Int32) : sysFchmodat p a (absolute path) c = sysFchmodat p a path c :=
  atPath_absolute p hpath h _ _

theorem sysRenameat_absolute {c : Int32} {newPath : Path} (hnewPath : Unmarked newPath)
    (hnew : ¬ (Relative (readCString p newPath) ∧ c ≠ atFdcwd)) :
    sysRenameat p a (absolute path) c (absolute newPath) = sysRenameat p a path c newPath := by
  unfold sysRenameat
  rw [atPath_absolute p hpath h]
  congr 1
  funext path
  exact atPath_absolute p hnewPath hnew _ _

end Descriptors

end Handlers

section Kernels

variable {s : Syscalls.State} {pid : ℤ} {p : Proc} (hp : s.io.kernel.processTable.get? pid = some p)
include hp

theorem handleSyscall_other (call : Syscalls.Call) :
    Syscalls.handleSyscall s pid (.other call) =
      ((attempt s (handler s.bootTime pid p call)).1, some (attempt s (handler s.bootTime pid p call)).2) := by
  unfold Syscalls.handleSyscall
  rw [hp]

theorem handleSyscall_open {call : Kernel.Call} {path : Path} {flags mode : Int32}
    (hcall : call = .open path flags mode ∨ call = .openat path flags mode ∨ call = .fsOpen path flags mode) :
    Syscalls.handleSyscall s pid (.kernel call .answered) =
      ({ s with io := { s.io with kernel := (openPath s.io.kernel pid p path flags mode).kernel } },
        some (openPath s.io.kernel pid p path flags mode).result) := by
  unfold Syscalls.handleSyscall Kernel.handleSyscall
  rcases hcall with rfl | rfl | rfl <;> simp only [hp, forkLocals]

/-- **A call that is not refused puts a slash in front of its paths.** -/
theorem handleSyscall_absolute {call : PathCall} (h : ¬ call.Refused p) (hpaths : ∀ d ∈ call.paths, Unmarked d.2) :
    Syscalls.handleSyscall s pid call.syscall =
      Syscalls.handleSyscall s pid (call.mapPaths slashed).syscall := by
  have hother : ∀ c c', handler s.bootTime pid p c' = handler s.bootTime pid p c →
      Syscalls.handleSyscall s pid (.other c) = Syscalls.handleSyscall s pid (.other c') := by
    intro c c' hc
    rw [handleSyscall_other hp, handleSyscall_other hp, hc]
  have hfirst : ∀ d ds, call.paths = d :: ds → Unmarked d.2 := fun d ds hds =>
    hpaths d (hds ▸ List.mem_cons_self)
  cases call with
  | «open» path b c =>
      refine (handleSyscall_open hp (.inl rfl)).trans (Eq.trans ?_ (handleSyscall_open hp (.inl rfl)).symm)
      rw [slashed, openPath_absolute _ _ _ (hfirst _ _ rfl)]
  | openat a path c d =>
      refine (handleSyscall_open hp (.inr (.inl rfl))).trans
        (Eq.trans ?_ (handleSyscall_open hp (.inr (.inl rfl))).symm)
      rw [slashed, openPath_absolute _ _ _ (hfirst _ _ rfl)]
  | fsOpen path b c =>
      refine (handleSyscall_open hp (.inr (.inr rfl))).trans
        (Eq.trans ?_ (handleSyscall_open hp (.inr (.inr rfl))).symm)
      rw [slashed, openPath_absolute _ _ _ (hfirst _ _ rfl)]
  | stat path b => exact hother _ _ (statPath_absolute (hfirst _ _ rfl) _ _ _ _)
  | lstat path b => exact hother _ _ (statPath_absolute (hfirst _ _ rfl) _ _ _ _)
  | fstatat a path c d => exact hother _ _ (statPath_absolute (hfirst _ _ rfl) _ _ _ _)
  | mkdir path b => exact hother _ _ (sysMkdir_absolute (hfirst _ _ rfl) b)
  | mkdirat a path c => exact hother _ _ (sysMkdirat_absolute (hfirst _ _ rfl) h c)
  | unlink path => exact hother _ _ (sysUnlink_absolute (hfirst _ _ rfl))
  | unlinkat a path c => exact hother _ _ (sysUnlinkat_absolute (hfirst _ _ rfl) h c)
  | rename oldPath newPath =>
      have hnew : Unmarked newPath := hpaths (none, newPath) (List.mem_cons_of_mem _ List.mem_cons_self)
      exact hother _ _ (sysRename_absolute (hfirst _ _ rfl) hnew)
  | renameat a oldPath c newPath =>
      have hnew : Unmarked newPath := hpaths (some c, newPath) (List.mem_cons_of_mem _ List.mem_cons_self)
      have hboth := not_or.1 h
      exact hother _ _ (sysRenameat_absolute (hfirst _ _ rfl) hboth.1 hnew hboth.2)
  | readlink path b c => exact hother _ _ (sysReadlink_absolute (hfirst _ _ rfl) pid b c)
  | readlinkat a path c d => exact hother _ _ (sysReadlinkat_absolute (hfirst _ _ rfl) h pid c d)
  | chmod path b => exact hother _ _ (sysChmod_absolute (hfirst _ _ rfl) b)
  | fchmodat a path c => exact hother _ _ (sysFchmodat_absolute (hfirst _ _ rfl) h c)

/-- **A call that is refused fails.** -/
theorem fails_of_refused {call : PathCall} (h : call.Refused p) :
    Fails (Syscalls.handleSyscall s pid call.syscall).2 := by
  have hother : ∀ c (n : ℤ), handler s.bootTime pid p c = pure n → n < 0 →
      Fails (Syscalls.handleSyscall s pid (.other c)).2 := by
    intro c n hc hn
    rw [handleSyscall_other hp, hc]
    exact ⟨n, rfl, hn⟩
  cases call with
  | mkdirat a path c =>
      have hrefused : sysMkdirat p a path c = pure (-95) := atPath_refused p h _ _
      exact hother (.mkdirat a path c) _ hrefused (by decide)
  | unlinkat a path c =>
      have hrefused : sysUnlinkat p a path c = pure (-95) := atPath_refused p h _ _
      exact hother (.unlinkat a path c) _ hrefused (by decide)
  | readlinkat a path c d =>
      have hrefused : sysReadlinkat pid p a path c d = pure (-38) := atPath_refused p h _ _
      exact hother (.readlinkat a path c d) _ hrefused (by decide)
  | fchmodat a path c =>
      have hrefused : sysFchmodat p a path c = pure (-95) := atPath_refused p h _ _
      exact hother (.fchmodat a path c) _ hrefused (by decide)
  | renameat a oldPath c newPath =>
      have hrefused : sysRenameat p a oldPath c newPath = pure (-95) := by
        by_cases hold : Relative (readCString p oldPath) ∧ a ≠ atFdcwd
        · exact atPath_refused p hold _ _
        · -- the first path is taken, and the second one refused
          have hnew := h.resolve_left hold
          unfold sysRenameat atPath
          split
          · rfl
          · exact if_pos hnew
      exact hother (.renameat a oldPath c newPath) _ hrefused (by decide)
  | _ => exact h.elim

end Kernels

/-! ### Runs -/

/-- **A call that meets the condition acts on what its absolute paths name.** -/
theorem acts_of_careful {s : State} {pid : ℤ} {p : Proc} (hp : s.os.io.kernel.processTable.get? pid = some p)
    {call : PathCall}
    (hcare : call.Refused p ∨ ∀ d ∈ call.paths, Relative d.2 → base s pid p d.1 = some ['/'] ∧ Unmarked d.2) :
    Acts s pid p call := by
  by_cases hrefused : call.Refused p
  · exact .inl (fails_of_refused hp hrefused)
  · have hplain := hcare.resolve_left hrefused
    have hpaths : ∀ d ∈ call.paths, Unmarked d.2 := by
      intro d hd
      by_cases hrel : Relative d.2
      · exact (hplain d hd hrel).2
      · exact unmarked_of_not_relative hrel
    refine .inr ⟨slashed, fun d hd => ?_, handleSyscall_absolute hp hrefused hpaths⟩
    unfold absolutePath slashed
    split
    · next hrel =>
        rw [(hplain d hd hrel).1, absolute_of_relative hrel]
        rfl
    · next habs => rw [absolute_of_not_relative habs]

/-- The step: **an event that meets the condition** does what it should. -/
theorem resolves_of_careful {s : State} {ev : Event} (hcare : Careful s ev) (s' : State) :
    Resolves s ev s' := by
  unfold Resolves
  split
  · next pid call => exact fun p hp => acts_of_careful hp (hcare p hp)
  · next pid path => exact fun p hp => .inr (hcare p hp)
  · next pid path => exact fun p hp => .inr (hcare p hp)
  · trivial

/-- **Paths are taken from where a process is.**  In a run whose events all meet the condition, every call on
paths fails or acts on what its absolute paths name, and every `chdir` fails or leads to a directory. -/
theorem resolves_of_meets {s : State} {tr : List (Event × State)} (hrun : IsRun Step s tr)
    (hcare : Meets Careful s tr) : EachStep Resolves s tr :=
  eachStep_of_meets (I := fun _ => True) (fun _ _ s' _ hG _ => ⟨trivial, resolves_of_careful hG s'⟩) trivial
    hrun hcare

/-- The first state, with everyone at the root. -/
def started : State := ⟨Syscalls.booted, fun _ => ['/']⟩

/-- Process 1 makes a directory and goes there. -/
def moving : List Event :=
  [.other (.registerWorker 1 []), .other (.registerMemory 1 (List.replicate 64 0)),
    .path 1 (.mkdir "/d".toList 0), .other (.syscall 1 (.fsChdir "/d".toList))]

/-- From the root it makes another one. -/
def staying : List Event :=
  [.other (.registerWorker 1 []), .other (.registerMemory 1 (List.replicate 64 0)),
    .chdir 1 "/".toList, .path 1 (.mkdir "d".toList 0)]

theorem resolves_of_meets_staying : EachStep Resolves started (trace after started staying) := by
  refine resolves_of_meets (isRun_trace after started staying) ⟨trivial, trivial, ?_, ?_, trivial⟩
  · show ∀ _ ∈ _, IsDirectory _ _
    decide +kernel
  · intro p hp
    refine .inr fun d hd hrel => ?_
    obtain rfl := List.mem_singleton.1 hd
    have hroot : ((staying.take 3).foldl after started).cwd 1 = ['/'] := by decide +kernel
    exact ⟨congrArg some hroot, by decide⟩

/-- Process 1 makes the directory `x`, from where it is. -/
def makeHere : Event := .path 1 (.mkdir "x".toList 0)

/-- **A relative path is not taken from the directory of the process**: `x` is made in the root. -/
theorem not_resolves_moving :
    ¬ ∀ s tr, Syscalls.Starts s.os → (∀ pid, s.cwd pid = ['/']) → IsRun Step s tr →
      EachStep Resolves s tr := by
  intro h
  have hsteps := h started _ Syscalls.starts_booted (fun _ => rfl)
    (isRun_trace after started (moving ++ [makeHere]))
  let s := moving.foldl after started
  have hresolves : Resolves s makeHere (after s makeHere) := hsteps.2.2.2.2.1
  obtain ⟨p, hp⟩ : ∃ p, s.os.io.kernel.processTable.get? 1 = some p :=
    Option.isSome_iff_exists.1 (by decide +kernel)
  rcases hresolves p hp with hfails | ⟨f, hf, hsame⟩
  · have hdone : ¬ Fails (Syscalls.handleSyscall s.os 1 (PathCall.mkdir "x".toList 0).syscall).2 := by
      decide +kernel
    exact hdone hfails
  · have habs : f none "x".toList = "/d/x".toList := by
      have hpath := hf (none, "x".toList) (List.mem_singleton.2 rfl)
      have hcwd : s.cwd 1 = "/d".toList := by decide +kernel
      have hjoined : absolutePath s 1 p none "x".toList = some "/d/x".toList := by
        show some (childPath (s.cwd 1) "x".toList) = _
        rw [hcwd]
        decide
      rw [hjoined] at hpath
      exact (Option.some_inj.1 hpath).symm
    have hmade := congrArg (fun r => r.1.io.kernel.vfs.dirs.has "/x".toList) hsame
    dsimp only [PathCall.mapPaths] at hmade
    rw [habs] at hmade
    revert hmade
    decide +kernel

end WorkingDirectory
