/-
**The kernel's descriptors.**

The kernel worker (`kernel-worker.js`) owns the filesystem, the table of processes with a table of
descriptors for each, and the connection to the bridge.  This module is the part of `handleSyscall` that
works on descriptors and processes, and the messages that start and end a process.  The entries of a
table are JavaScript objects that a fork shares between parent and child; all of an entry but its
`cloexec` flag is constant, so an entry here carries the number of the cell in which its flag is kept.

Main definitions:

* `Kernel.FdEntry`, `Kernel.Proc`, `Kernel.State` — entries, processes, the kernel;
* `Kernel.handleSyscall` — the syscalls on descriptors, one definition for each;
* `Kernel.Event`, `Kernel.Step`, `Kernel.Starts` — the kernel as a transition system;
* `Kernel.kindAt` — what a descriptor of a process stands for.

Main results:

* `Kernel.kindAt_putFd`, `Kernel.kindAt_dropFd`, `Kernel.kindAt_forkProc`, … — the descriptors after
  each of the updates that the syscalls are made of.
-/

import AtuaComputer.Bridge
import AtuaComputer.Utf8
import AtuaComputer.VirtualFs

set_option relaxedAutoImplicit false
set_option autoImplicit false

namespace Kernel

open VirtualFs Bridge

/-! ### State -/

/-- What a descriptor stands for. -/
inductive FdKind where
  | special (name : Special)
  | file (vfsFd : ℤ)
  | dir (vfsFd : ℤ)
  | pipe (fdEnd : End) (ringOffset : ℤ)
deriving DecidableEq

/-- An entry of a descriptor table: what it stands for and the cell of its `cloexec` flag. -/
structure FdEntry where
  kind : FdKind
  cell : ℕ

/-- A process, with whether its memory has been registered. -/
structure Proc where
  fdTable : JsMap ℤ FdEntry
  nextFd : ℤ
  wasmMemory : Bool

/-- The kernel worker.  The bridge is missing until its memory is handed over. -/
structure State where
  vfs : Vfs
  processTable : JsMap ℤ Proc
  nextPid : ℤ
  bridge : Option Bridge.State
  /-- The `cloexec` flags of all entries ever made. -/
  cloexec : List Bool

/-- A pipe descriptor as the kernel announces it to a worker. -/
structure PipeView where
  fd : ℤ
  fdEnd : End
  ringOffset : ℤ
deriving DecidableEq

/-- How a child starts. -/
inductive ForkType where
  | restoreFork
  | forkExec
deriving DecidableEq

/-- What the kernel posts to the main thread. -/
inductive Post where
  | pipeFdCache (pid : ℤ) (updates : List PipeView) (removes : List ℤ)
  | forkRequest (pid childPid : ℤ) (forkType : ForkType) (pipeFds : List PipeView)
deriving DecidableEq

/-- The outcome of a syscall: `result` goes to `control[8]`, and `high` to `control[9]` if it is set. -/
structure Outcome where
  kernel : State
  result : ℤ
  high : Option Int32 := none
  posts : List Post := []

/-! ### Updates -/

/-- A change of the process object of `pid`. -/
def updateProc (k : State) (pid : ℤ) (f : Proc → Proc) : State :=
  match k.processTable.get? pid with
  | none => k
  | some p => { k with processTable := k.processTable.set pid (f p) }

/-- `proc.fdTable.set(fd, { … , cloexec })` -/
def putFd (k : State) (pid fd : ℤ) (kind : FdKind) (cloexec : Bool) : State :=
  let entry : FdEntry := ⟨kind, k.cloexec.length⟩
  { updateProc k pid fun p => { p with fdTable := p.fdTable.set fd entry } with
    cloexec := k.cloexec ++ [cloexec] }

/-- `proc.fdTable.delete(fd)` -/
def dropFd (k : State) (pid fd : ℤ) : State :=
  updateProc k pid fun p => { p with fdTable := p.fdTable.delete fd }

/-- `if (fd >= proc.nextFd) proc.nextFd = fd + 1` -/
def bumpFd (k : State) (pid fd : ℤ) : State :=
  updateProc k pid fun p => if p.nextFd ≤ fd then { p with nextFd := fd + 1 } else p

/-- `vfs.close(handle)` -/
def closeHandle (k : State) (handle : ℤ) : State := { k with vfs := closeFile k.vfs handle }

/-- `callBridge`, if there is a bridge. -/
def request (k : State) (req : Request) (fate : Fate) : State × Option Reply :=
  match k.bridge with
  | none => (k, none)
  | some b =>
    let (b, reply) := callBridge b req fate
    ({ k with bridge := some b }, some reply)

/-- The pipe descriptors of a table, oldest entry first. -/
def pipeFds (fdTable : JsMap ℤ FdEntry) : List PipeView :=
  fdTable.entries.filterMap fun e =>
    match e.2.kind with
    | .pipe fdEnd ringOffset => some ⟨e.1, fdEnd, ringOffset⟩
    | _ => none

/-- The table of a child: `new Map(parentFds)`, with the parent's counter and no memory yet. -/
def forkProc (k : State) (childPid : ℤ) (p : Proc) : State :=
  { k with processTable := k.processTable.set childPid { p with wasmMemory := false } }

/-! ### Syscalls -/

/-- The syscalls on descriptors, with their arguments under the names of the registers.  A path is what
the guest's memory holds at the pointer. -/
inductive Call where
  | open (path : Path) (b c : Int32)
  | close (a : Int32)
  | dup (a : Int32)
  | dup2 (a b : Int32)
  | fcntl (a b c : Int32)
  | openat (path : Path) (c d : Int32)
  | dup3 (a b c : Int32)
  | fsOpen (path : Path) (b c : Int32)
  | fsClose (a : Int32)
  | forkSpawn
  | forkExecSpawn (a : Int32)
  | pipeCreate
  | pipeClose (a : Int32)

/-- `readCString`: nothing can be read before the memory is registered.  `path` is what the guest's bytes spell, and
`TextDecoder` leaves a byte order mark at its start away. -/
def readCString (p : Proc) (path : Path) : Path := if p.wasmMemory then Utf8.stripBom path else []

/-- The common body of `SYS_open`, `SYS_openat` and `SYS_FS_OPEN`. -/
def openPath (k : State) (pid : ℤ) (p : Proc) (path : Path) (flags mode : Int32) : Outcome :=
  let (v, vfsFd) := openFile k.vfs (readCString p path) flags mode
  let k := { k with vfs := v }
  if 0 ≤ vfsFd then
    let isDir := (v.openFiles.get? vfsFd).any OpenFile.isDir
    let k := putFd k pid vfsFd (if isDir then .dir vfsFd else .file vfsFd) false
    { kernel := bumpFd k pid vfsFd, result := vfsFd }
  else { kernel := k, result := vfsFd }

/-- `SYS_close`.  Closing an unknown descriptor succeeds. -/
def sysClose (k : State) (pid : ℤ) (p : Proc) (a : Int32) (fate : Fate) : Outcome :=
  match p.fdTable.get? a.toInt with
  | none => { kernel := k, result := 0 }
  | some entry =>
    match entry.kind with
    | .file vfsFd | .dir vfsFd =>
      { kernel := dropFd (closeHandle k vfsFd) pid a.toInt, result := 0 }
    | .pipe _ _ =>
      { kernel := dropFd (request k (.pipeClose a) fate).1 pid a.toInt
        result := 0
        posts := [.pipeFdCache pid [] [a.toInt]] }
    | .special _ => { kernel := dropFd k pid a.toInt, result := 0 }

/-- `F_DUPFD` and `F_DUPFD_CLOEXEC` -/
def dupFrom (k : State) (pid : ℤ) (p : Proc) (entry : FdEntry) (c : Int32) (cloexec : Bool) : Outcome :=
  let newFd := p.fdTable.firstFree c.toUInt32.toNat
  { kernel := bumpFd (putFd k pid newFd entry.kind cloexec) pid newFd, result := newFd }

/-- `SYS_fcntl` -/
def sysFcntl (k : State) (pid : ℤ) (p : Proc) (a b c : Int32) : Outcome :=
  match p.fdTable.get? a.toInt with
  | none => { kernel := k, result := -9 }
  | some entry =>
    if b = 0 ∨ b = 1030 then dupFrom k pid p entry c (b = 1030)
    else if b = 1 then
      { kernel := k, result := if k.cloexec.getD entry.cell false then 1 else 0 }
    else if b = 2 then
      { kernel := { k with cloexec := k.cloexec.set entry.cell (hasFlag c 1) }, result := 0 }
    else if b = 3 then
      match entry.kind with
      | .file vfsFd =>
        { kernel := k
          result := if (k.vfs.openFiles.get? vfsFd).any OpenFile.append then 0x400 else 0 }
      | _ => { kernel := k, result := 0 }
    else { kernel := k, result := 0 }

/-- `SYS_dup` -/
def sysDup (k : State) (pid : ℤ) (p : Proc) (a : Int32) : Outcome :=
  match p.fdTable.get? a.toInt with
  | none => { kernel := k, result := -9 }
  | some entry =>
    { kernel := bumpFd (putFd k pid p.nextFd entry.kind false) pid p.nextFd, result := p.nextFd }

/-- `if (existing is a file or directory) vfs.close(existing.vfsFd)` -/
def closeExisting (k : State) (existing : FdEntry) : State :=
  match existing.kind with
  | .file vfsFd | .dir vfsFd => closeHandle k vfsFd
  | _ => k

/-- `SYS_dup2`.  A pipe at the target is not closed. -/
def sysDup2 (k : State) (pid : ℤ) (p : Proc) (a b : Int32) : Outcome :=
  if a = b then { kernel := k, result := b.toInt }
  else
    match p.fdTable.get? a.toInt with
    | none => { kernel := k, result := -9 }
    | some entry =>
      let k :=
        match p.fdTable.get? b.toInt with
        | none => k
        | some existing => dropFd (closeExisting k existing) pid b.toInt
      { kernel := bumpFd (putFd k pid b.toInt entry.kind false) pid b.toInt
        result := b.toInt
        posts :=
          match entry.kind with
          | .pipe fdEnd ringOffset => [.pipeFdCache pid [⟨b.toInt, fdEnd, ringOffset⟩] []]
          | _ => [] }

/-- `SYS_dup3`.  A pipe at the target is closed. -/
def sysDup3 (k : State) (pid : ℤ) (p : Proc) (a b c : Int32) (fate : Fate) : Outcome :=
  if a = b then { kernel := k, result := -22 }
  else
    match p.fdTable.get? a.toInt with
    | none => { kernel := k, result := -9 }
    | some entry =>
      let k :=
        match p.fdTable.get? b.toInt with
        | none => k
        | some existing =>
          match existing.kind with
          | .pipe _ _ => dropFd (request k (.pipeClose b) fate).1 pid b.toInt
          | _ => dropFd (closeExisting k existing) pid b.toInt
      { kernel := bumpFd (putFd k pid b.toInt entry.kind (hasFlag c oCloexec)) pid b.toInt
        result := b.toInt }

/-- `SYS_FS_CLOSE`: the number names a handle of the filesystem and a descriptor at once. -/
def sysFsClose (k : State) (pid : ℤ) (a : Int32) : Outcome :=
  { kernel := dropFd (closeHandle k a.toInt) pid a.toInt, result := 0 }

/-- `SYS_FORK_SPAWN`.  The bridge hands out the number of the child, if there is a bridge; without a
memory the copy of the fork state throws. -/
def sysForkSpawn (k : State) (pid : ℤ) (p : Proc) (fate : Fate) : Outcome :=
  let (k, childPid) :=
    match request k .fork fate with
    | (k, some reply) => (k, reply.val.toInt)
    | (k, none) => ({ k with nextPid := k.nextPid + 1 }, k.nextPid)
  if p.wasmMemory then
    { kernel := forkProc k childPid p
      result := childPid
      posts := [.forkRequest pid childPid .restoreFork (pipeFds p.fdTable)] }
  else { kernel := k, result := -1 }

/-- `SYS_FORK_EXEC_SPAWN`: the caller chose the number of the child. -/
def sysForkExecSpawn (k : State) (pid : ℤ) (p : Proc) (a : Int32) : Outcome :=
  let childPid := a.toInt
  let k := if k.nextPid ≤ childPid then { k with nextPid := childPid + 1 } else k
  if p.wasmMemory then
    { kernel := forkProc k childPid p
      result := childPid
      posts := [.forkRequest pid childPid .forkExec (pipeFds p.fdTable)] }
  else { kernel := k, result := -1 }

/-- `SYS_PIPE_CREATE`.  The counter of the process is not moved. -/
def sysPipeCreate (k : State) (pid : ℤ) (fate : Fate) : Outcome :=
  match request k .pipeCreate fate with
  | (k, none) => { kernel := k, result := -38 }
  | (k, some resp) =>
    if resp.err ≠ 0 then { kernel := k, result := -resp.err.toInt }
    else
      let readFd := resp.val.toInt
      let writeFd := resp.r1.toInt
      let ringOffset := resp.r2.toInt
      let k := putFd k pid readFd (.pipe .read ringOffset) false
      { kernel := putFd k pid writeFd (.pipe .write ringOffset) false
        result := (readFd - 100) / 2
        high := some resp.r2
        posts :=
          [.pipeFdCache pid [⟨readFd, .read, ringOffset⟩, ⟨writeFd, .write, ringOffset⟩] []] }

/-- `SYS_PIPE_CLOSE`: the bridge is told only of a pipe, and any descriptor is removed. -/
def sysPipeClose (k : State) (pid : ℤ) (p : Proc) (a : Int32) (fate : Fate) : Outcome :=
  match p.fdTable.get? a.toInt with
  | none => { kernel := k, result := 0 }
  | some entry =>
    match entry.kind with
    | .pipe _ _ => { kernel := dropFd (request k (.pipeClose a) fate).1 pid a.toInt, result := 0 }
    | _ => { kernel := dropFd k pid a.toInt, result := 0 }

/-- `handleSyscall`, for the calls on descriptors. -/
def handleSyscall (k : State) (pid : ℤ) (call : Call) (fate : Fate) : Outcome :=
  match k.processTable.get? pid with
  | none => { kernel := k, result := -1 }
  | some p =>
    match call with
    | .open path b c => openPath k pid p path b c
    | .close a => sysClose k pid p a fate
    | .dup a => sysDup k pid p a
    | .dup2 a b => sysDup2 k pid p a b
    | .fcntl a b c => sysFcntl k pid p a b c
    | .openat path c d => openPath k pid p path c d
    | .dup3 a b c => sysDup3 k pid p a b c fate
    | .fsOpen path b c => openPath k pid p path b c
    | .fsClose a => sysFsClose k pid a
    | .forkSpawn => sysForkSpawn k pid p fate
    | .forkExecSpawn a => sysForkExecSpawn k pid p a
    | .pipeCreate => sysPipeCreate k pid fate
    | .pipeClose a => sysPipeClose k pid p a fate

/-! ### Messages -/

/-- The table of a process that no fork prepared. -/
def standardFds (cell : ℕ) : JsMap ℤ FdEntry :=
  ((JsMap.empty.set 0 ⟨.special .stdin, cell⟩).set 1 ⟨.special .stdout, cell + 1⟩).set 2
    ⟨.special .stderr, cell + 2⟩

/-- The number of a registered process, `msg.pid || nextPid++`; the counter stays above it. -/
def registerPid (k : State) (msgPid : ℤ) : State × ℤ :=
  let pid := if msgPid ≠ 0 then msgPid else k.nextPid
  let k := if msgPid ≠ 0 then k else { k with nextPid := k.nextPid + 1 }
  (if k.nextPid ≤ pid then { k with nextPid := pid + 1 } else k, pid)

/-- The process object of a registered process.  What an earlier object of that number had is kept. -/
def registerProc (k : State) (pid : ℤ) : State :=
  match k.processTable.get? pid with
  | some existing =>
    let nextFd := if existing.nextFd ≠ 0 then existing.nextFd else 3
    { k with processTable := k.processTable.set pid { existing with nextFd } }
  | none =>
    { k with
      processTable :=
        k.processTable.set pid
          { fdTable := standardFds k.cloexec.length, nextFd := 3, wasmMemory := false }
      cloexec := k.cloexec ++ [false, false, false] }

/-- The message `register-worker`. -/
def registerWorker (k : State) (msgPid : ℤ) : State :=
  let (k, pid) := registerPid k msgPid
  registerProc k pid

/-- The message `register-memory`. -/
def registerMemory (k : State) (pid : ℤ) : State :=
  updateProc k pid fun p => { p with wasmMemory := true }

/-- The messages `unregister-worker` and, as far as processes are concerned, `worker-exit`. -/
def removeProc (k : State) (pid : ℤ) : State := { k with processTable := k.processTable.delete pid }

/-! ### Runs -/

/-- What the kernel does one after the other: syscalls and messages. -/
inductive Event where
  | call (pid : ℤ) (call : Call) (fate : Fate)
  | registerWorker (pid : ℤ)
  | registerMemory (pid : ℤ)
  | unregisterWorker (pid : ℤ)
  | workerExit (pid : ℤ)

/-- The kernel after an event. -/
def after (k : State) : Event → State
  | .call pid call fate => (handleSyscall k pid call fate).kernel
  | .registerWorker pid => registerWorker k pid
  | .registerMemory pid => registerMemory k pid
  | .unregisterWorker pid => removeProc k pid
  | .workerExit pid => removeProc k pid

/-- The step relation of the kernel. -/
def Step (k : State) (ev : Event) (k' : State) : Prop := k' = after k ev

/-- A bridge that has served no request. -/
structure Fresh (b : Bridge.State) : Prop where
  byteLength_le : b.byteLength ≤ 2 ^ 24
  nextPipeSlot : b.nextPipeSlot = 0
  nextPid : b.nextPid = 2

/-- The kernel after `init`, with any files and with or without a bridge. -/
structure Starts (k : State) : Prop where
  table : SameTable newVfs k.vfs
  noProc : ∀ pid, k.processTable.get? pid = none
  nextPid : k.nextPid = 1
  bridge : ∀ b, k.bridge = some b → Fresh b

/-- The kernel without files and without a bridge. -/
def booted : State where
  vfs := newVfs
  processTable := JsMap.empty
  nextPid := 1
  bridge := none
  cloexec := []

theorem starts_booted : Starts booted where
  table := ⟨rfl, rfl⟩
  noProc := fun _ => rfl
  nextPid := rfl
  bridge := by
    intro b hb
    cases hb

/-- A bridge with 16 MiB of cleared memory. -/
def freshBridge : Bridge.State where
  alive := true
  byteLength := 2 ^ 24
  words := fun _ => 0
  nextPipeSlot := 0
  nextPid := 2

/-- The kernel without files, connected to a bridge. -/
def bootedWithBridge : State := { booted with bridge := some freshBridge }

theorem starts_bootedWithBridge : Starts bootedWithBridge where
  table := ⟨rfl, rfl⟩
  noProc := fun _ => rfl
  nextPid := rfl
  bridge := by
    intro b hb
    obtain rfl := Option.some_inj.1 hb
    exact ⟨Nat.le_refl _, rfl, rfl⟩

/-! ### What a descriptor stands for -/

/-- The entry of a descriptor of a process. -/
def entryAt (k : State) (pid fd : ℤ) : Option FdEntry :=
  (k.processTable.get? pid).bind fun p => p.fdTable.get? fd

/-- What a descriptor of a process stands for, if the process has it. -/
def kindAt (k : State) (pid fd : ℤ) : Option FdKind := (entryAt k pid fd).map FdEntry.kind

theorem entryAt_eq {k : State} {pid : ℤ} {p : Proc} (hp : k.processTable.get? pid = some p) (fd : ℤ) :
    entryAt k pid fd = p.fdTable.get? fd := by
  rw [entryAt, hp]
  rfl

theorem kindAt_eq {k : State} {pid : ℤ} {p : Proc} (hp : k.processTable.get? pid = some p) (fd : ℤ) :
    kindAt k pid fd = (p.fdTable.get? fd).map FdEntry.kind := by
  rw [kindAt, entryAt_eq hp]

/-- Descriptors are read off the process table. -/
theorem kindAt_congr {k k₁ : State} (htab : k₁.processTable = k.processTable) (q i : ℤ) :
    kindAt k₁ q i = kindAt k q i := by
  rw [kindAt, entryAt, htab, kindAt, entryAt]

theorem kindAt_of_noProc {k : State} {pid : ℤ} (hp : k.processTable.get? pid = none) (fd : ℤ) :
    kindAt k pid fd = none := by
  rw [kindAt, entryAt, hp]
  rfl

theorem kindAt_entry {k : State} {pid fd : ℤ} {p : Proc} {entry : FdEntry}
    (hp : k.processTable.get? pid = some p) (he : p.fdTable.get? fd = some entry) :
    kindAt k pid fd = some entry.kind := by
  rw [kindAt_eq hp, he]
  rfl

theorem kindAt_noEntry {k : State} {pid fd : ℤ} {p : Proc}
    (hp : k.processTable.get? pid = some p) (he : p.fdTable.get? fd = none) :
    kindAt k pid fd = none := by
  rw [kindAt_eq hp, he]
  rfl

theorem get?_updateProc (k : State) (pid : ℤ) (f : Proc → Proc) (q : ℤ) :
    (updateProc k pid f).processTable.get? q =
      if q = pid then (k.processTable.get? pid).map f else k.processTable.get? q := by
  unfold updateProc
  cases hp : k.processTable.get? pid with
  | none =>
      by_cases hq : q = pid
      · subst hq
        rw [if_pos rfl, hp]
        rfl
      · rw [if_neg hq]
  | some p =>
      simp only [JsMap.get?_set]
      by_cases hq : q = pid
      · rw [if_pos hq, if_pos hq]
        rfl
      · rw [if_neg hq, if_neg hq]

/-- An update of a process object keeps what the update does not touch. -/
theorem entryAt_updateProc {k : State} {pid : ℤ} {f : Proc → Proc}
    (hf : ∀ p, (f p).fdTable = p.fdTable) (q i : ℤ) :
    entryAt (updateProc k pid f) q i = entryAt k q i := by
  unfold entryAt
  rw [get?_updateProc]
  by_cases hq : q = pid
  · subst hq
    rw [if_pos rfl]
    cases k.processTable.get? q with
    | none => rfl
    | some p => simp [hf]
  · rw [if_neg hq]

@[simp] theorem vfs_updateProc (k : State) (pid : ℤ) (f : Proc → Proc) :
    (updateProc k pid f).vfs = k.vfs := by
  unfold updateProc
  split <;> rfl

@[simp] theorem cloexec_updateProc (k : State) (pid : ℤ) (f : Proc → Proc) :
    (updateProc k pid f).cloexec = k.cloexec := by
  unfold updateProc
  split <;> rfl

@[simp] theorem bridge_updateProc (k : State) (pid : ℤ) (f : Proc → Proc) :
    (updateProc k pid f).bridge = k.bridge := by
  unfold updateProc
  split <;> rfl

@[simp] theorem has_updateProc (k : State) (pid : ℤ) (f : Proc → Proc) (q : ℤ) :
    (updateProc k pid f).processTable.has q = k.processTable.has q := by
  rw [JsMap.has, get?_updateProc, JsMap.has]
  by_cases hq : q = pid
  · subst hq
    rw [if_pos rfl, Option.isSome_map]
  · rw [if_neg hq]

/-! #### New and removed entries -/

/-- The entries after a write to a table: a new one, and all others the same objects. -/
theorem entryAt_putFd {k : State} {pid : ℤ} (hp : k.processTable.has pid = true) (fd : ℤ)
    (kind : FdKind) (cloexec : Bool) (q i : ℤ) :
    entryAt (putFd k pid fd kind cloexec) q i =
      if q = pid ∧ i = fd then some ⟨kind, k.cloexec.length⟩ else entryAt k q i := by
  obtain ⟨p, hp⟩ := JsMap.has_iff.1 hp
  unfold entryAt putFd
  simp only [get?_updateProc, hp]
  by_cases hq : q = pid
  · subst hq
    simp only [if_true, true_and, Option.map_some, Option.bind_some, JsMap.get?_set, hp]
  · simp only [hq, false_and, if_false]

/-- **The descriptors after a write to a table.** -/
theorem kindAt_putFd {k : State} {pid : ℤ} (hp : k.processTable.has pid = true) (fd : ℤ) (kind : FdKind)
    (cloexec : Bool) (q i : ℤ) :
    kindAt (putFd k pid fd kind cloexec) q i =
      if q = pid ∧ i = fd then some kind else kindAt k q i := by
  rw [kindAt, entryAt_putFd hp]
  split_ifs <;> rfl

@[simp] theorem vfs_putFd (k : State) (pid fd : ℤ) (kind : FdKind) (cloexec : Bool) :
    (putFd k pid fd kind cloexec).vfs = k.vfs := by
  simp [putFd]

@[simp] theorem cloexec_putFd (k : State) (pid fd : ℤ) (kind : FdKind) (cloexec : Bool) :
    (putFd k pid fd kind cloexec).cloexec = k.cloexec ++ [cloexec] := rfl

@[simp] theorem bridge_putFd (k : State) (pid fd : ℤ) (kind : FdKind) (cloexec : Bool) :
    (putFd k pid fd kind cloexec).bridge = k.bridge := by
  simp [putFd]

@[simp] theorem has_putFd (k : State) (pid fd : ℤ) (kind : FdKind) (cloexec : Bool) (q : ℤ) :
    (putFd k pid fd kind cloexec).processTable.has q = k.processTable.has q := by
  simp [putFd]

/-- **The descriptors after a removal.** -/
theorem kindAt_dropFd (k : State) (pid fd q i : ℤ) :
    kindAt (dropFd k pid fd) q i = if q = pid ∧ i = fd then none else kindAt k q i := by
  unfold kindAt entryAt dropFd
  rw [get?_updateProc]
  by_cases hq : q = pid
  · subst hq
    rw [if_pos rfl]
    cases k.processTable.get? q with
    | none => simp
    | some p =>
        simp only [true_and, Option.map_some, Option.bind_some, JsMap.get?_delete]
        split_ifs <;> rfl
  · simp only [hq, false_and, if_false]

@[simp] theorem vfs_dropFd (k : State) (pid fd : ℤ) : (dropFd k pid fd).vfs = k.vfs := by
  simp [dropFd]

@[simp] theorem bridge_dropFd (k : State) (pid fd : ℤ) : (dropFd k pid fd).bridge = k.bridge := by
  simp [dropFd]

@[simp] theorem has_dropFd (k : State) (pid fd q : ℤ) :
    (dropFd k pid fd).processTable.has q = k.processTable.has q := by
  simp [dropFd]

/-- The counter is no part of the entries. -/
@[simp] theorem entryAt_bumpFd (k : State) (pid fd q i : ℤ) :
    entryAt (bumpFd k pid fd) q i = entryAt k q i :=
  entryAt_updateProc (fun p => by split_ifs <;> rfl) q i

@[simp] theorem kindAt_bumpFd (k : State) (pid fd q i : ℤ) :
    kindAt (bumpFd k pid fd) q i = kindAt k q i := by
  rw [kindAt, entryAt_bumpFd, kindAt]

@[simp] theorem vfs_bumpFd (k : State) (pid fd : ℤ) : (bumpFd k pid fd).vfs = k.vfs := by
  simp [bumpFd]

@[simp] theorem cloexec_bumpFd (k : State) (pid fd : ℤ) : (bumpFd k pid fd).cloexec = k.cloexec := by
  simp [bumpFd]

@[simp] theorem bridge_bumpFd (k : State) (pid fd : ℤ) : (bumpFd k pid fd).bridge = k.bridge := by
  simp [bumpFd]

@[simp] theorem has_bumpFd (k : State) (pid fd q : ℤ) :
    (bumpFd k pid fd).processTable.has q = k.processTable.has q := by
  simp [bumpFd]

/-! #### Requests -/

@[simp] theorem kindAt_request (k : State) (req : Request) (fate : Fate) (q i : ℤ) :
    kindAt (request k req fate).1 q i = kindAt k q i := by
  unfold request
  split <;> rfl

@[simp] theorem vfs_request (k : State) (req : Request) (fate : Fate) :
    (request k req fate).1.vfs = k.vfs := by
  unfold request
  split <;> rfl

@[simp] theorem has_request (k : State) (req : Request) (fate : Fate) (q : ℤ) :
    (request k req fate).1.processTable.has q = k.processTable.has q := by
  unfold request
  split <;> rfl

theorem bridge_request (k : State) (req : Request) (fate : Fate) :
    (request k req fate).1.bridge = k.bridge.map fun b => (callBridge b req fate).1 := by
  unfold request
  cases h : k.bridge with
  | none => exact h
  | some b => rfl

/-! #### Processes -/

/-- **The descriptors after a fork.** -/
theorem kindAt_forkProc {k : State} {pid : ℤ} {p : Proc} (hp : k.processTable.get? pid = some p)
    (childPid q i : ℤ) :
    kindAt (forkProc k childPid p) q i = if q = childPid then kindAt k pid i else kindAt k q i := by
  unfold forkProc
  rw [kindAt_eq hp]
  unfold kindAt entryAt
  simp only [JsMap.get?_set]
  by_cases hq : q = childPid
  · rw [if_pos hq, if_pos hq]
    rfl
  · rw [if_neg hq, if_neg hq]

/-- The descriptors after a process has gone. -/
theorem kindAt_removeProc (k : State) (pid q i : ℤ) :
    kindAt (removeProc k pid) q i = if q = pid then none else kindAt k q i := by
  unfold kindAt entryAt removeProc
  simp only [JsMap.get?_delete]
  split_ifs <;> rfl

end Kernel
