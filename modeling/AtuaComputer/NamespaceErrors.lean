/-
**Operations on names that cannot be done.**

A directory cannot be unlinked, a name cannot be made twice, a tree cannot be moved into itself.  A program
learns this from the result of the call, and counts on nothing having changed.  The methods of the filesystem
have no result, though: they edit their maps whatever the operands are, and the handlers return 0 after them.
The only operands that are refused are relative paths given with a descriptor of a directory, before any
method is called; and `rmdir` has no case at all.

Main definitions:

* `NamespaceErrors.Op` — the calls on names;
* `NamespaceErrors.Invalid` — the operands that a call cannot be done with;
* `NamespaceErrors.Atomic` — an error, and nothing has changed;
* `NamespaceErrors.Refused` — what is refused.

Main results:

* `NamespaceErrors.result_of_accepted` — every call that is not refused returns 0;
* `NamespaceErrors.atomic_iff` — **which operands are errors**.
-/

import AtuaComputer.FileOutcomes
import AtuaComputer.VfsOperations

set_option relaxedAutoImplicit false
set_option autoImplicit false

namespace NamespaceErrors

open VirtualFs Kernel FileIo Syscalls Outcomes FileOutcomes

/-! ### Calls -/

/-- The calls that change names, with their registers and the strings in the guest's memory. -/
inductive Op where
  | mkdir (path : Path) (b : Int32)
  | mkdirat (a : Int32) (path : Path) (c : Int32)
  | unlink (path : Path)
  | unlinkat (a : Int32) (path : Path) (c : Int32)
  | rmdir (path : Path)
  | rename (oldPath newPath : Path)
  | renameat (a : Int32) (oldPath : Path) (c : Int32) (newPath : Path)

/-- The syscall.  `rmdir` has the number 84. -/
def Op.syscall : Op → Syscall
  | .mkdir path b => .other (.mkdir path b)
  | .mkdirat a path c => .other (.mkdirat a path c)
  | .unlink path => .other (.unlink path)
  | .unlinkat a path c => .other (.unlinkat a path c)
  | .rmdir _ => .plain 84
  | .rename oldPath newPath => .other (.rename oldPath newPath)
  | .renameat a oldPath c newPath => .other (.renameat a oldPath c newPath)

/-! ### What a name stands for -/

/-- What `lstat` says of a path. -/
def lstatType (v : Vfs) (path : Path) : Option NodeType := (VirtualFs.stat v path false).map Stat.type

/-- What `stat` says of a path. -/
def statType (v : Vfs) (path : Path) : Option NodeType := (VirtualFs.stat v path true).map Stat.type

/-- The directory that the entry of a path is in. -/
def parentPath (path : Path) : Path := parentOf (normalizePath path)

/-- The directory has a name besides the two dots. -/
def Occupied (v : Vfs) (path : Path) : Prop := 2 < (readdir v path).length

/-- The operands of a removal, of a file or of a directory. -/
def InvalidRemove (v : Vfs) (path : Path) (dir : Bool) : Prop :=
  if dir then lstatType v path ≠ some .dir ∨ Occupied v path
  else lstatType v path = none ∨ lstatType v path = some .dir

/-- The operand of `mkdir`. -/
def InvalidMake (v : Vfs) (path : Path) : Prop :=
  lstatType v path ≠ none ∨ statType v (parentPath path) ≠ some .dir

/-- The operands of `rename`. -/
def InvalidRename (v : Vfs) (oldPath newPath : Path) : Prop :=
  lstatType v oldPath = none ∨
    lstatType v oldPath = some .dir ∧ normalizePath oldPath ++ ['/'] <+: normalizePath newPath

/-- The call cannot be done. -/
def Invalid (v : Vfs) : Op → Prop
  | .mkdir path _ | .mkdirat _ path _ => InvalidMake v (absolute path)
  | .unlink path => InvalidRemove v (absolute path) false
  | .unlinkat _ path c => InvalidRemove v (absolute path) (hasFlag c 0x200)
  | .rmdir path => InvalidRemove v (absolute path) true
  | .rename oldPath newPath | .renameat _ oldPath _ newPath =>
    InvalidRename v (absolute oldPath) (absolute newPath)

/-! ### Errors -/

/-- The bytes behind a path. -/
def contentsAt (v : Vfs) (path : Path) : Option (List UInt8) :=
  (v.files.get? (resolvePath v.symlinks (absolute path))).map (bytesOf v)

/-- Nothing that can be seen of names has changed. -/
structure Same (v v' : Vfs) : Prop where
  stat : ∀ path followSymlinks, VirtualFs.stat v' path followSymlinks = VirtualFs.stat v path followSymlinks
  contents : ∀ path, contentsAt v' path = contentsAt v path
  listing : ∀ path, readdir v' path = readdir v path

theorem same_refl (v : Vfs) : Same v v := ⟨fun _ _ => rfl, fun _ => rfl, fun _ => rfl⟩

/-- **The guest gets a negative result, and nothing has changed.** -/
def Atomic (s : Syscalls.State) (pid : ℤ) (op : Op) : Prop :=
  ((Syscalls.handleSyscall s pid op.syscall).2.any fun n => (Int32.ofInt n).toInt < 0) = true ∧
    Same s.io.kernel.vfs (Syscalls.handleSyscall s pid op.syscall).1.io.kernel.vfs

/-- A path that is taken from a directory, which no handler does. -/
def FromDir (p : Proc) (dirfd : Int32) (path : Path) : Prop :=
  (readCString p path).head? ≠ some '/' ∧ dirfd ≠ atFdcwd

instance (p : Proc) (dirfd : Int32) (path : Path) : Decidable (FromDir p dirfd path) :=
  inferInstanceAs (Decidable (_ ∧ _))

/-- What is refused, in a process that is there. -/
def RefusedBy (p : Proc) : Op → Prop
  | .mkdir _ _ | .unlink _ | .rename _ _ => False
  | .mkdirat a path _ | .unlinkat a path _ => FromDir p a path
  | .rmdir _ => True
  | .renameat a oldPath c newPath => FromDir p a oldPath ∨ FromDir p c newPath

/-- What is refused. -/
def Refused (s : Syscalls.State) (pid : ℤ) (op : Op) : Prop :=
  ∀ p, s.io.kernel.processTable.get? pid = some p → RefusedBy p op

/-! ### Handlers -/

theorem returns_change (f : Vfs → Vfs) (s : FileIo.State) :
    Returns (change f) s 0 (withVfs s (f s.kernel.vfs)) :=
  returns_onVfs rfl

/-- A path that is taken from a directory is refused. -/
theorem atPath_fromDir {p : Proc} {dirfd : Int32} {path : Path} (h : FromDir p dirfd path) (error : ℤ)
    (body : Path → Io ℤ) : atPath dirfd (readCString p path) error body = return error := if_pos h

theorem atPath_accepted {p : Proc} {dirfd : Int32} {path : Path} (h : ¬ FromDir p dirfd path) (error : ℤ)
    (body : Path → Io ℤ) : atPath dirfd (readCString p path) error body = body (absolute (readCString p path)) :=
  if_neg h

/-- What becomes of the names. -/
def Op.change (p : Proc) : Op → Vfs → Vfs
  | .mkdir path b, v => makeDir v (absolute (readCString p path)) b
  | .mkdirat _ path c, v => makeDir v (absolute (readCString p path)) c
  | .unlink path, v => removePath v (absolute (readCString p path)) 0
  | .unlinkat _ path c, v => removePath v (absolute (readCString p path)) c
  | .rmdir _, v => v
  | .rename oldPath newPath, v | .renameat _ oldPath _ newPath, v =>
    renamePath v (absolute (readCString p oldPath)) (absolute (readCString p newPath))

/-- The handler of a call that is not refused makes its change, whatever the operands are, and returns 0. -/
theorem returns_accepted {s : FileIo.State} {p : Proc} {op : Op} (h : ¬ RefusedBy p op) (bootTime pid : ℤ)
    {call : Syscalls.Call} (hcall : op.syscall = .other call) :
    Returns (handler bootTime pid p call) s 0 (withVfs s (op.change p s.kernel.vfs)) := by
  cases op with
  | mkdir path b =>
    obtain rfl := Syscall.other.inj hcall
    show Returns (sysMkdir p path b) s 0 _
    exact returns_change (Op.change p (.mkdir path b)) s
  | mkdirat a path c =>
    obtain rfl := Syscall.other.inj hcall
    show Returns (sysMkdirat p a path c) s 0 _
    rw [sysMkdirat, atPath_accepted h]
    exact returns_change (Op.change p (.mkdirat a path c)) s
  | unlink path =>
    obtain rfl := Syscall.other.inj hcall
    show Returns (sysUnlink p path) s 0 _
    exact returns_change (Op.change p (.unlink path)) s
  | unlinkat a path c =>
    obtain rfl := Syscall.other.inj hcall
    show Returns (sysUnlinkat p a path c) s 0 _
    rw [sysUnlinkat, atPath_accepted h]
    exact returns_change (Op.change p (.unlinkat a path c)) s
  | rmdir path => cases hcall
  | rename oldPath newPath =>
    obtain rfl := Syscall.other.inj hcall
    show Returns (sysRename p oldPath newPath) s 0 _
    exact returns_change (Op.change p (.rename oldPath newPath)) s
  | renameat a oldPath c newPath =>
    obtain rfl := Syscall.other.inj hcall
    show Returns (sysRenameat p a oldPath c newPath) s 0 _
    obtain ⟨hold, hnew⟩ := not_or.1 h
    rw [sysRenameat, atPath_accepted hold, atPath_accepted hnew]
    exact returns_change (Op.change p (.renameat a oldPath c newPath)) s

/-- The handler of a call that is refused returns an error at once. -/
theorem returns_refused {s : FileIo.State} {p : Proc} {op : Op} (h : RefusedBy p op) (bootTime pid : ℤ)
    {call : Syscalls.Call} (hcall : op.syscall = .other call) :
    Returns (handler bootTime pid p call) s (-95) s := by
  cases op with
  | mkdir path b | unlink path | rename oldPath newPath => exact h.elim
  | mkdirat a path c =>
    obtain rfl := Syscall.other.inj hcall
    show Returns (sysMkdirat p a path c) s (-95) s
    rw [sysMkdirat, atPath_fromDir h]
    exact returns_pure _ s
  | unlinkat a path c =>
    obtain rfl := Syscall.other.inj hcall
    show Returns (sysUnlinkat p a path c) s (-95) s
    rw [sysUnlinkat, atPath_fromDir h]
    exact returns_pure _ s
  | rmdir path => cases hcall
  | renameat a oldPath c newPath =>
    obtain rfl := Syscall.other.inj hcall
    show Returns (sysRenameat p a oldPath c newPath) s (-95) s
    unfold sysRenameat
    by_cases hold : FromDir p a oldPath
    · rw [atPath_fromDir hold]
      exact returns_pure _ s
    · rw [atPath_accepted hold, atPath_fromDir (h.resolve_left hold)]
      exact returns_pure _ s

theorem syscall_cases (op : Op) :
    (∃ call, op.syscall = .other call) ∨ op.syscall = .plain 84 ∧ ∃ path, op = .rmdir path := by
  cases op with
  | rmdir path => exact .inr ⟨rfl, path, rfl⟩
  | _ => exact .inl ⟨_, rfl⟩

section Syscall

variable {s : Syscalls.State} {pid : ℤ} {p : Proc} {op : Op}

/-- **Every call that is not refused returns 0**, and has made its change. -/
theorem result_of_accepted (hp : s.io.kernel.processTable.get? pid = some p) (h : ¬ RefusedBy p op) :
    Syscalls.handleSyscall s pid op.syscall =
      ({ s with io := withVfs s.io (op.change p s.io.kernel.vfs) }, some 0) := by
  obtain ⟨call, hcall⟩ | ⟨-, path, rfl⟩ := syscall_cases op
  · have hret := attempt_of_returns (returns_accepted (s := s.io) h s.bootTime pid hcall)
    unfold Syscalls.handleSyscall
    rw [hp, hcall]
    dsimp only
    rw [hret]
  · exact absurd trivial h

/-- What is refused is an error, and the state is the same. -/
theorem result_of_refused (h : Refused s pid op) :
    ∃ n : ℤ, Syscalls.handleSyscall s pid op.syscall = (s, some n) ∧ (Int32.ofInt n).toInt < 0 := by
  cases hp : s.io.kernel.processTable.get? pid with
  | none =>
    refine ⟨-1, ?_, by decide⟩
    unfold Syscalls.handleSyscall
    rw [hp]
  | some p =>
    obtain ⟨call, hcall⟩ | ⟨hplain, -⟩ := syscall_cases op
    · refine ⟨-95, ?_, by decide⟩
      have hret := attempt_of_returns (returns_refused (s := s.io) (h p hp) s.bootTime pid hcall)
      unfold Syscalls.handleSyscall
      rw [hp, hcall]
      dsimp only
      rw [hret]
    · refine ⟨-38, ?_, by decide⟩
      unfold Syscalls.handleSyscall
      rw [hp, hplain]
      rfl

/-- **Operands are errors only where they are refused.**  From any state and with any operands, those that
cannot be done among them, a call returns a negative result and changes nothing exactly when it is refused
before a method of the filesystem is called. -/
theorem atomic_iff (s : Syscalls.State) (pid : ℤ) (op : Op) : Atomic s pid op ↔ Refused s pid op := by
  constructor
  · rintro ⟨hneg, -⟩ p hp
    by_contra haccepted
    rw [result_of_accepted hp haccepted] at hneg
    have hzero : decide ((Int32.ofInt 0).toInt < 0) = true := hneg
    exact absurd hzero (by decide)
  · intro hrefused
    obtain ⟨n, hresult, hneg⟩ := result_of_refused hrefused
    unfold Atomic
    rw [hresult]
    exact ⟨decide_eq_true hneg, same_refl _⟩

end Syscall

/-- Process 1, before there are any files. -/
def started : Syscalls.State :=
  [.registerWorker 1 [], .registerMemory 1 []].foldl Syscalls.after Syscalls.booted

/-- Removing a name that nothing has. -/
def removeMissing : Op := .unlink "/a".toList

theorem invalid_removeMissing : Invalid started.io.kernel.vfs removeMissing := .inl (by decide +kernel)

/-- **Removing nothing succeeds.** -/
theorem not_atomic_removeMissing :
    ¬ ∀ (s : Syscalls.State) (pid : ℤ) (op : Op), Invalid s.io.kernel.vfs op → Atomic s pid op := by
  intro h
  obtain ⟨hneg, -⟩ := h started 1 removeMissing invalid_removeMissing
  have hzero : (Syscalls.handleSyscall started 1 removeMissing.syscall).2 = some 0 := by decide +kernel
  rw [hzero] at hneg
  exact absurd hneg (by decide)

end NamespaceErrors
