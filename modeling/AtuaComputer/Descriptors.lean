/-
**What the kernel does to descriptors.**

The syscalls of `Kernel` differ in what they check and return, but each of them does one of few things to
the tables of descriptors: it writes one descriptor, removes one, copies or removes a whole table.  Along
with it a call may open or close a file description and may send the bridge a request.  This module
gives each event of the kernel its effect in these terms, and proves that the kernel has it.

Main definitions:

* `Kernel.Touch`, `Kernel.Touch.lookup` — a change of the tables, and the tables after it;
* `Kernel.Effect`, `Kernel.effectOf` — the effect of an event;
* `Kernel.handleAt`, `Kernel.pipeAt` — the file description or the pipe behind a descriptor;
* `Kernel.Touch.slots` — the descriptors that a change takes something from or gives something new.

Main results:

* `Kernel.took_after` — **the kernel has the effect**, on the tables, the open files and the bridge;
* `Kernel.wf_after` — what every event keeps;
* `Kernel.refs_outside`, `Kernel.refs_copied` — a change leaves all descriptors outside of its slots
  alone, and in its slots it copies from outside of them.
-/

import AtuaComputer.Kernel
import AtuaComputer.SharedRefs

set_option relaxedAutoImplicit false
set_option autoImplicit false

namespace Kernel

open VirtualFs Bridge

/-! ### Behind a descriptor -/

/-- The file description an entry refers to. -/
def FdKind.handle? : FdKind → Option ℤ
  | .file vfsFd | .dir vfsFd => some vfsFd
  | _ => none

/-- The pipe an entry refers to, and the end. -/
def FdKind.pipe? : FdKind → Option (ℤ × End)
  | .pipe fdEnd ringOffset => some (ringOffset, fdEnd)
  | _ => none

/-- What the descriptors refer to, read off the kinds of their entries. -/
def refs {H : Type} (f : FdKind → Option H) (k : State) (s : ℤ × ℤ) : Option H :=
  (kindAt k s.1 s.2).bind f

/-- The file description behind a descriptor of a process. -/
def handleAt (k : State) : ℤ × ℤ → Option ℤ := refs FdKind.handle? k

/-- The pipe end behind a descriptor of a process. -/
def pipeAt (k : State) : ℤ × ℤ → Option (ℤ × End) := refs FdKind.pipe? k

/-! ### Effects -/

/-- A change of the tables of descriptors. -/
inductive Touch where
  | nothing
  /-- A process that has no table gets the standard descriptors. -/
  | register (pid : ℤ)
  /-- A new file description gets a descriptor of its own number. -/
  | open (pid vfsFd : ℤ) (isDir : Bool)
  /-- A descriptor is written. -/
  | put (pid fd : ℤ) (kind : FdKind)
  /-- The two descriptors of a new pipe are written. -/
  | pipe (pid readFd writeFd ringOffset : ℤ)
  /-- A descriptor is removed. -/
  | drop (pid fd : ℤ)
  /-- The table of one process becomes that of another. -/
  | fork (pid childPid : ℤ)
  /-- The table of a process goes. -/
  | exit (pid : ℤ)

/-- The kind of the entry that `open` makes. -/
def openKind (vfsFd : ℤ) (isDir : Bool) : FdKind := if isDir then .dir vfsFd else .file vfsFd

/-- What a descriptor stands for after a change of the tables. -/
def Touch.lookup (k : State) : Touch → ℤ → ℤ → Option FdKind
  | .nothing, q, i => kindAt k q i
  | .register pid, q, i =>
    if q = pid ∧ k.processTable.has pid = false then
      ((standardFds k.cloexec.length).get? i).map FdEntry.kind
    else kindAt k q i
  | .open pid vfsFd isDir, q, i =>
    if q = pid ∧ i = vfsFd then some (openKind vfsFd isDir) else kindAt k q i
  | .put pid fd kind, q, i => if q = pid ∧ i = fd then some kind else kindAt k q i
  | .pipe pid readFd writeFd ringOffset, q, i =>
    if q = pid ∧ i = writeFd then some (.pipe .write ringOffset)
    else if q = pid ∧ i = readFd then some (.pipe .read ringOffset)
    else kindAt k q i
  | .drop pid fd, q, i => if q = pid ∧ i = fd then none else kindAt k q i
  | .fork pid childPid, q, i => if q = childPid then kindAt k pid i else kindAt k q i
  | .exit pid, q, i => if q = pid then none else kindAt k q i

/-- The descriptors that a change of the tables touches.  One that gets what it stood for before, and a
process that gets its own table, are not touched; a registered process gets descriptors only if it has
none. -/
def Touch.slots (k : State) : Touch → ℤ × ℤ → Prop
  | .nothing, _ | .register _, _ => False
  | .open pid vfsFd _, s => s = (pid, vfsFd)
  | .put pid fd kind, s => s = (pid, fd) ∧ kindAt k pid fd ≠ some kind
  | .pipe pid readFd writeFd _, s => s = (pid, readFd) ∨ s = (pid, writeFd)
  | .drop pid fd, s => s = (pid, fd)
  | .fork pid childPid, s => s.1 = childPid ∧ childPid ≠ pid
  | .exit pid, s => s.1 = pid

/-- What an event does: to the tables, to the open files and to the bridge. -/
structure Effect where
  touch : Touch := .nothing
  /-- The file description that is closed. -/
  closes : Option ℤ := none
  /-- The request to the bridge, if there is a bridge. -/
  request : Option Request := none

/-- Opening a file or a directory. -/
def openEffect (k : State) (pid : ℤ) (p : Proc) (path : Path) (flags mode : Int32) : Effect :=
  let (v, vfsFd) := openFile k.vfs (readCString p path) flags mode
  if 0 ≤ vfsFd then
    { touch := .open pid vfsFd ((v.openFiles.get? vfsFd).any OpenFile.isDir) }
  else {}

/-- The request to close the pipe behind a descriptor. -/
def hangUp (k : State) (pid : ℤ) (a : Int32) : Option Request :=
  (pipeAt k (pid, a.toInt)).map fun _ => .pipeClose a

/-- Copying a descriptor to the number `fd`. -/
def copyEffect (k : State) (pid : ℤ) (a : Int32) (fd : ℤ) : Effect :=
  match kindAt k pid a.toInt with
  | none => {}
  | some kind => { touch := .put pid fd kind }

/-- Copying a descriptor over the descriptor `b`. -/
def replaceEffect (k : State) (pid : ℤ) (a b : Int32) (request : Option Request) : Effect :=
  if a = b then {}
  else
    match kindAt k pid a.toInt with
    | none => {}
    | some kind =>
      { touch := .put pid b.toInt kind, closes := handleAt k (pid, b.toInt), request }

/-- Forking into the process `childPid`. -/
def forkEffect (pid : ℤ) (p : Proc) (childPid : ℤ) (request : Option Request) : Effect :=
  { touch := if p.wasmMemory then .fork pid childPid else .nothing, request }

/-- The number of the child of `SYS_FORK_SPAWN`. -/
def childPidOf (k : State) (fate : Fate) : ℤ :=
  match k.bridge with
  | none => k.nextPid
  | some b => (callBridge b .fork fate).2.val.toInt

/-- Creating a pipe, if the bridge answers. -/
def pipeEffect (k : State) (pid : ℤ) (fate : Fate) : Effect :=
  { touch :=
      match k.bridge with
      | none => .nothing
      | some b =>
        let resp := (callBridge b .pipeCreate fate).2
        if resp.err ≠ 0 then .nothing else .pipe pid resp.val.toInt resp.r1.toInt resp.r2.toInt
    request := some .pipeCreate }

/-- Closing a descriptor with what it stands for. -/
def closeEffect (k : State) (pid : ℤ) (a : Int32) : Effect :=
  { touch := .drop pid a.toInt, closes := handleAt k (pid, a.toInt), request := hangUp k pid a }

/-- The effect of a syscall of a process. -/
def callEffect (k : State) (pid : ℤ) (p : Proc) (fate : Fate) : Call → Effect
  | .open path b c => openEffect k pid p path b c
  | .close a => closeEffect k pid a
  | .dup a => copyEffect k pid a p.nextFd
  | .dup2 a b => replaceEffect k pid a b none
  | .fcntl a b c =>
    if b = 0 ∨ b = 1030 then copyEffect k pid a (p.fdTable.firstFree c.toUInt32.toNat) else {}
  | .openat path c d => openEffect k pid p path c d
  | .dup3 a b _ => replaceEffect k pid a b (hangUp k pid b)
  | .fsOpen path b c => openEffect k pid p path b c
  | .fsClose a => { touch := .drop pid a.toInt, closes := some a.toInt }
  | .forkSpawn => forkEffect pid p (childPidOf k fate) (some .fork)
  | .forkExecSpawn a => forkEffect pid p a.toInt none
  | .pipeCreate => pipeEffect k pid fate
  | .pipeClose a => { touch := .drop pid a.toInt, request := hangUp k pid a }

/-- **The effect of an event.** -/
def effectOf (k : State) : Event → Effect
  | .call pid call fate =>
    match k.processTable.get? pid with
    | none => {}
    | some p => callEffect k pid p fate call
  | .registerWorker msgPid =>
    { touch := .register (if msgPid ≠ 0 then msgPid else k.nextPid) }
  | .registerMemory _ => {}
  | .unregisterWorker pid => { touch := .exit pid }
  | .workerExit pid => { touch := .exit pid }

theorem effectOf_call {k : State} {pid : ℤ} {p : Proc} (hp : k.processTable.get? pid = some p)
    (call : Call) (fate : Fate) :
    effectOf k (.call pid call fate) = callEffect k pid p fate call := by
  simp only [effectOf, hp]

theorem effectOf_noProc {k : State} {pid : ℤ} (hp : k.processTable.get? pid = none) (call : Call)
    (fate : Fate) : effectOf k (.call pid call fate) = {} := by
  simp only [effectOf, hp]

/-- The fate of the request that an event may send. -/
def fateOf : Event → Fate
  | .call _ _ fate => fate
  | _ => .answered

/-- The effects that events have. -/
inductive Shape (k : State) (fate : Fate) : Effect → Prop
  | nothing : Shape k fate {}
  | opened (pid vfsFd : ℤ) (isDir : Bool) : Shape k fate { touch := .open pid vfsFd isDir }
  | copied (pid i fd : ℤ) (kind : FdKind) (hi : kindAt k pid i = some kind) :
      Shape k fate { touch := .put pid fd kind }
  | replaced (pid i : ℤ) (b : Int32) (kind : FdKind) (request : Option Request)
      (hi : kindAt k pid i = some kind) (hrequest : request = none ∨ request = hangUp k pid b) :
      Shape k fate
        { touch := .put pid b.toInt kind, closes := handleAt k (pid, b.toInt), request }
  | closed (pid : ℤ) (a : Int32) : Shape k fate (closeEffect k pid a)
  | handleClosed (pid fd : ℤ) : Shape k fate { touch := .drop pid fd, closes := some fd }
  | pipeEndClosed (pid : ℤ) (a : Int32) :
      Shape k fate { touch := .drop pid a.toInt, request := hangUp k pid a }
  | forked (pid childPid : ℤ) (request : Option Request)
      (hrequest : request = none ∨ request = some .fork) :
      Shape k fate { touch := .fork pid childPid, request }
  | notForked (request : Option Request) (hrequest : request = none ∨ request = some .fork) :
      Shape k fate { request }
  | pipe (pid : ℤ) : Shape k fate (pipeEffect k pid fate)
  | registered (pid : ℤ) : Shape k fate { touch := .register pid }
  | exited (pid : ℤ) : Shape k fate { touch := .exit pid }

section Shapes

variable (k : State) (pid : ℤ) (p : Proc) (fate : Fate)

theorem shape_openEffect (path : Path) (flags mode : Int32) :
    Shape k fate (openEffect k pid p path flags mode) := by
  unfold openEffect
  dsimp only
  split_ifs
  · exact .opened _ _ _
  · exact .nothing

theorem shape_copyEffect (a : Int32) (fd : ℤ) : Shape k fate (copyEffect k pid a fd) := by
  unfold copyEffect
  cases hk : kindAt k pid a.toInt with
  | none => exact .nothing
  | some kind => exact .copied pid a.toInt fd kind hk

theorem shape_replaceEffect (a b : Int32) (request : Option Request)
    (hrequest : request = none ∨ request = hangUp k pid b) :
    Shape k fate (replaceEffect k pid a b request) := by
  unfold replaceEffect
  split_ifs
  · exact .nothing
  · cases hk : kindAt k pid a.toInt with
    | none => exact .nothing
    | some kind => exact .replaced pid a.toInt b kind request hk hrequest

theorem shape_forkEffect (childPid : ℤ) (request : Option Request)
    (hrequest : request = none ∨ request = some .fork) :
    Shape k fate (forkEffect pid p childPid request) := by
  unfold forkEffect
  split_ifs
  · exact .forked pid childPid request hrequest
  · exact .notForked request hrequest

theorem shape_callEffect (call : Call) : Shape k fate (callEffect k pid p fate call) := by
  cases call with
  | «open» path b c => exact shape_openEffect k pid p fate path b c
  | close a => exact .closed pid a
  | dup a => exact shape_copyEffect k pid fate a p.nextFd
  | dup2 a b => exact shape_replaceEffect k pid fate a b none (Or.inl rfl)
  | fcntl a b c =>
      simp only [callEffect]
      split_ifs
      · exact shape_copyEffect k pid fate a _
      · exact .nothing
  | openat path c d => exact shape_openEffect k pid p fate path c d
  | dup3 a b c => exact shape_replaceEffect k pid fate a b _ (Or.inr rfl)
  | fsOpen path b c => exact shape_openEffect k pid p fate path b c
  | fsClose a => exact .handleClosed pid a.toInt
  | forkSpawn => exact shape_forkEffect k pid p fate _ _ (Or.inr rfl)
  | forkExecSpawn a => exact shape_forkEffect k pid p fate a.toInt none (Or.inl rfl)
  | pipeCreate => exact .pipe pid
  | pipeClose a => exact .pipeEndClosed pid a

/-- **Every event has one of these effects.** -/
theorem shape_effectOf (ev : Event) : Shape k (fateOf ev) (effectOf k ev) := by
  cases ev with
  | call pid call fate =>
      cases hp : k.processTable.get? pid with
      | none =>
          rw [effectOf_noProc hp]
          exact .nothing
      | some p =>
          rw [effectOf_call hp]
          exact shape_callEffect k pid p fate call
  | registerWorker msgPid => exact .registered _
  | registerMemory pid => exact .nothing
  | unregisterWorker pid => exact .exited pid
  | workerExit pid => exact .exited pid

end Shapes

/-! ### The kernel has the effect -/

/-- What closing a description does to the table of open files. -/
def ClosesHandle (closes : Option ℤ) (v v' : Vfs) : Prop :=
  v'.nextFd = v.nextFd ∧
    v'.openFiles =
      match closes with
      | none => v.openFiles
      | some handle => v.openFiles.delete handle

/-- The change of the table of open files in an effect. -/
def Effect.VfsStep (e : Effect) (v v' : Vfs) : Prop :=
  match e.touch with
  | .open _ vfsFd _ =>
    vfsFd = v.nextFd ∧ v'.nextFd = v.nextFd + 1 ∧ ∃ file, v'.openFiles = v.openFiles.set v.nextFd file
  | _ => ClosesHandle e.closes v v'

/-- What a request does to the bridge. -/
def Requests (request : Option Request) (fate : Fate) (b b' : Option Bridge.State) : Prop :=
  b' =
    match request with
    | none => b
    | some req => b.map fun b => (callBridge b req fate).1

/-- The kernel went from `k` to `k'` with the effect `e`. -/
structure Took (k : State) (e : Effect) (fate : Fate) (k' : State) : Prop where
  kindAt : ∀ q i, kindAt k' q i = e.touch.lookup k q i
  vfs : e.VfsStep k.vfs k'.vfs
  bridge : Requests e.request fate k.bridge k'.bridge

theorem took_nothing (k : State) (fate : Fate) : Took k {} fate k :=
  ⟨fun _ _ => rfl, ⟨rfl, rfl⟩, rfl⟩

section Updates

variable {k k₁ : State} {pid fd : ℤ} {closes : Option ℤ} {request : Option Request} {fate : Fate}

/-- A descriptor is removed, after other things were done that left the tables alone. -/
theorem took_drop (htab : ∀ q i, kindAt k₁ q i = kindAt k q i)
    (hvfs : ClosesHandle closes k.vfs k₁.vfs)
    (hbridge : Requests request fate k.bridge k₁.bridge) :
    Took k { touch := .drop pid fd, closes, request } fate (dropFd k₁ pid fd) := by
  refine ⟨?_, ?_, ?_⟩
  · intro q i
    rw [kindAt_dropFd, htab]
    rfl
  · rw [vfs_dropFd]
    exact hvfs
  · rw [bridge_dropFd]
    exact hbridge

/-- Removing a descriptor that a process does not have. -/
theorem took_missing (h : kindAt k pid fd = none) (fate : Fate) :
    Took k { touch := .drop pid fd } fate k := by
  refine ⟨?_, ⟨rfl, rfl⟩, rfl⟩
  intro q i
  rw [Touch.lookup]
  split_ifs with hqi
  · rw [hqi.1, hqi.2, h]
  · rfl

/-- A descriptor is written, after other things were done that left all other descriptors alone. -/
theorem took_put (kind : FdKind) (cloexec : Bool) (hp : k₁.processTable.has pid = true)
    (htab : ∀ q i, ¬ (q = pid ∧ i = fd) → kindAt k₁ q i = kindAt k q i)
    (hvfs : ClosesHandle closes k.vfs k₁.vfs)
    (hbridge : Requests request fate k.bridge k₁.bridge) :
    Took k { touch := .put pid fd kind, closes, request } fate
      (bumpFd (putFd k₁ pid fd kind cloexec) pid fd) := by
  refine ⟨?_, ?_, ?_⟩
  · intro q i
    rw [kindAt_bumpFd, kindAt_putFd hp]
    by_cases hqi : q = pid ∧ i = fd
    · rw [if_pos hqi, Touch.lookup, if_pos hqi]
    · rw [if_neg hqi, Touch.lookup, if_neg hqi, htab q i hqi]
  · rw [vfs_bumpFd, vfs_putFd]
    exact hvfs
  · rw [bridge_bumpFd, bridge_putFd]
    exact hbridge

/-- A descriptor is replaced. -/
theorem took_replace (kind : FdKind) (cloexec : Bool) (hp : k₁.processTable.has pid = true)
    (htab : ∀ q i, kindAt k₁ q i = kindAt k q i)
    (hvfs : ClosesHandle closes k.vfs k₁.vfs) (hbridge : Requests request fate k.bridge k₁.bridge) :
    Took k { touch := .put pid fd kind, closes, request } fate
      (bumpFd (putFd (dropFd k₁ pid fd) pid fd kind cloexec) pid fd) := by
  refine took_put kind cloexec ?_ ?_ ?_ ?_
  · rw [has_dropFd, hp]
  · intro q i hqi
    rw [kindAt_dropFd, if_neg hqi, htab]
  · rw [vfs_dropFd]
    exact hvfs
  · rw [bridge_dropFd]
    exact hbridge

end Updates

section Syscalls

theorem took_sysFsClose (k : State) (pid : ℤ) (a : Int32) (fate : Fate) :
    Took k { touch := .drop pid a.toInt, closes := some a.toInt } fate (sysFsClose k pid a).kernel :=
  took_drop (fun _ _ => rfl) ⟨rfl, rfl⟩ rfl

variable {k : State} {pid : ℤ} {p : Proc} (hp : k.processTable.get? pid = some p)

include hp

theorem took_openPath (hn : 0 ≤ k.vfs.nextFd) (path : Path) (flags mode : Int32) (fate : Fate) :
    Took k (openEffect k pid p path flags mode) fate (openPath k pid p path flags mode).kernel := by
  have hhas : k.processTable.has pid = true := JsMap.has_iff.2 ⟨p, hp⟩
  have hcases := openFile_cases k.vfs (readCString p path) flags mode
  unfold openEffect openPath
  generalize openFile k.vfs (readCString p path) flags mode = r at hcases ⊢
  obtain ⟨v, vfsFd⟩ := r
  rcases hcases with ⟨hneg, htable⟩ | ⟨file, hres, hnext, hopen⟩
  · have hneg : ¬ 0 ≤ vfsFd := by
      rcases hneg with h | h <;> simp only at h <;> omega
    simp only [if_neg hneg]
    exact ⟨fun _ _ => rfl, htable, rfl⟩
  · have hpos : 0 ≤ vfsFd := Int.le_trans hn (Int.le_of_eq hres.symm)
    simp only [if_pos hpos]
    generalize Option.any OpenFile.isDir (v.openFiles.get? vfsFd) = isDir
    refine ⟨?_, ?_, ?_⟩
    · intro q i
      rw [kindAt_bumpFd]
      exact @kindAt_putFd { k with vfs := v } pid hhas vfsFd (openKind vfsFd isDir) false q i
    · rw [vfs_bumpFd, vfs_putFd]
      exact ⟨hres, hnext, file, hopen⟩
    · rw [bridge_bumpFd, bridge_putFd]
      rfl

theorem took_sysClose (a : Int32) (fate : Fate) :
    Took k (closeEffect k pid a) fate (sysClose k pid p a fate).kernel := by
  unfold closeEffect hangUp handleAt pipeAt refs
  cases he : p.fdTable.get? a.toInt with
  | none =>
      simp only [sysClose, he, kindAt_noEntry hp he]
      exact took_missing (kindAt_noEntry hp he) fate
  | some entry =>
      obtain ⟨kind, cell⟩ := entry
      rw [kindAt_entry hp he]
      cases kind with
      | special name =>
          simp only [sysClose, he]
          exact took_drop (fun _ _ => rfl) ⟨rfl, rfl⟩ rfl
      | file vfsFd =>
          simp only [sysClose, he]
          exact took_drop (fun _ _ => rfl) ⟨rfl, rfl⟩ rfl
      | dir vfsFd =>
          simp only [sysClose, he]
          exact took_drop (fun _ _ => rfl) ⟨rfl, rfl⟩ rfl
      | pipe fdEnd ringOffset =>
          simp only [sysClose, he]
          refine took_drop (kindAt_request k _ fate) ?_
            (bridge_request k _ fate)
          rw [vfs_request]
          exact ⟨rfl, rfl⟩

theorem took_sysPipeClose (a : Int32) (fate : Fate) :
    Took k { touch := .drop pid a.toInt, request := hangUp k pid a } fate
      (sysPipeClose k pid p a fate).kernel := by
  unfold hangUp pipeAt refs
  cases he : p.fdTable.get? a.toInt with
  | none =>
      simp only [sysPipeClose, he, kindAt_noEntry hp he]
      exact took_missing (kindAt_noEntry hp he) fate
  | some entry =>
      obtain ⟨kind, cell⟩ := entry
      rw [kindAt_entry hp he]
      simp only [sysPipeClose, he]
      cases kind with
      | special name => exact took_drop (fun _ _ => rfl) ⟨rfl, rfl⟩ rfl
      | file vfsFd => exact took_drop (fun _ _ => rfl) ⟨rfl, rfl⟩ rfl
      | dir vfsFd => exact took_drop (fun _ _ => rfl) ⟨rfl, rfl⟩ rfl
      | pipe fdEnd ringOffset =>
          refine took_drop (kindAt_request k _ fate) ?_
            (bridge_request k _ fate)
          rw [vfs_request]
          exact ⟨rfl, rfl⟩

theorem took_sysDup (a : Int32) (fate : Fate) :
    Took k (copyEffect k pid a p.nextFd) fate (sysDup k pid p a).kernel := by
  unfold copyEffect sysDup
  cases he : p.fdTable.get? a.toInt with
  | none =>
      simp only [kindAt_noEntry hp he]
      exact took_nothing k fate
  | some entry =>
      simp only [kindAt_entry hp he]
      exact took_put entry.kind false (JsMap.has_iff.2 ⟨p, hp⟩) (fun _ _ _ => rfl)
        ⟨rfl, rfl⟩ rfl

theorem took_sysFcntl (a b c : Int32) (fate : Fate) :
    Took k (callEffect k pid p fate (.fcntl a b c)) fate (sysFcntl k pid p a b c).kernel := by
  unfold callEffect copyEffect sysFcntl
  cases he : p.fdTable.get? a.toInt with
  | none =>
      simp only [kindAt_noEntry hp he]
      split_ifs <;> exact took_nothing k fate
  | some entry =>
      simp only [kindAt_entry hp he]
      split_ifs
      · exact took_put entry.kind _ (JsMap.has_iff.2 ⟨p, hp⟩) (fun _ _ _ => rfl) ⟨rfl, rfl⟩ rfl
      · exact took_nothing k fate
      · exact took_nothing k fate
      · exact ⟨fun _ _ => rfl, ⟨rfl, rfl⟩, rfl⟩
      · split <;> exact took_nothing k fate
      · exact took_nothing k fate

theorem took_sysDup2 (a b : Int32) (fate : Fate) :
    Took k (replaceEffect k pid a b none) fate (sysDup2 k pid p a b).kernel := by
  have hhas : k.processTable.has pid = true := JsMap.has_iff.2 ⟨p, hp⟩
  unfold replaceEffect sysDup2 handleAt refs
  split_ifs
  · exact took_nothing k fate
  · cases he : p.fdTable.get? a.toInt with
    | none =>
        simp only [kindAt_noEntry hp he]
        exact took_nothing k fate
    | some entry =>
        simp only [kindAt_entry hp he]
        cases hb : p.fdTable.get? b.toInt with
        | none =>
            rw [kindAt_noEntry hp hb]
            exact took_put entry.kind false hhas (fun _ _ _ => rfl) ⟨rfl, rfl⟩ rfl
        | some existing =>
            obtain ⟨kind, cell⟩ := existing
            rw [kindAt_entry hp hb]
            cases kind with
            | special name =>
                exact took_replace entry.kind false hhas (fun _ _ => rfl) ⟨rfl, rfl⟩ rfl
            | file vfsFd =>
                exact took_replace entry.kind false hhas (fun _ _ => rfl) ⟨rfl, rfl⟩ rfl
            | dir vfsFd =>
                exact took_replace entry.kind false hhas (fun _ _ => rfl) ⟨rfl, rfl⟩ rfl
            | pipe fdEnd ringOffset =>
                exact took_replace entry.kind false hhas (fun _ _ => rfl) ⟨rfl, rfl⟩ rfl

theorem took_sysDup3 (a b c : Int32) (fate : Fate) :
    Took k (replaceEffect k pid a b (hangUp k pid b)) fate (sysDup3 k pid p a b c fate).kernel := by
  have hhas : k.processTable.has pid = true := JsMap.has_iff.2 ⟨p, hp⟩
  unfold replaceEffect sysDup3 handleAt hangUp pipeAt refs
  split_ifs
  · exact took_nothing k fate
  · cases he : p.fdTable.get? a.toInt with
    | none =>
        simp only [kindAt_noEntry hp he]
        exact took_nothing k fate
    | some entry =>
        simp only [kindAt_entry hp he]
        cases hb : p.fdTable.get? b.toInt with
        | none =>
            rw [kindAt_noEntry hp hb]
            exact took_put entry.kind _ hhas (fun _ _ _ => rfl) ⟨rfl, rfl⟩ rfl
        | some existing =>
            obtain ⟨kind, cell⟩ := existing
            rw [kindAt_entry hp hb]
            cases kind with
            | special name =>
                exact took_replace entry.kind _ hhas (fun _ _ => rfl) ⟨rfl, rfl⟩ rfl
            | file vfsFd =>
                exact took_replace entry.kind _ hhas (fun _ _ => rfl) ⟨rfl, rfl⟩ rfl
            | dir vfsFd =>
                exact took_replace entry.kind _ hhas (fun _ _ => rfl) ⟨rfl, rfl⟩ rfl
            | pipe fdEnd ringOffset =>
                refine took_replace entry.kind _ ?_ (kindAt_request k _ fate)
                  ?_ (bridge_request k _ fate)
                · rw [has_request, hhas]
                · rw [vfs_request]
                  exact ⟨rfl, rfl⟩

/-- The table of a process is copied, after other things were done that left all processes alone. -/
theorem took_forkProc (k₁ : State) {request : Option Request} {fate : Fate}
    (htab : k₁.processTable = k.processTable) (hvfs : k₁.vfs = k.vfs)
    (hbridge : Requests request fate k.bridge k₁.bridge) (childPid : ℤ) :
    Took k { touch := .fork pid childPid, request } fate (forkProc k₁ childPid p) := by
  have hp₁ : k₁.processTable.get? pid = some p := by rw [htab, hp]
  have hkind : ∀ q i, kindAt k₁ q i = kindAt k q i := kindAt_congr htab
  refine ⟨?_, ?_, hbridge⟩
  · intro q i
    rw [kindAt_forkProc hp₁, hkind, hkind]
    rfl
  · rw [← hvfs]
    exact ⟨rfl, rfl⟩

theorem took_sysForkSpawn (fate : Fate) :
    Took k (forkEffect pid p (childPidOf k fate) (some .fork)) fate (sysForkSpawn k pid p fate).kernel := by
  unfold forkEffect childPidOf sysForkSpawn request
  cases hb : k.bridge with
  | none =>
      dsimp only
      split_ifs
      · refine took_forkProc hp { k with nextPid := k.nextPid + 1 } rfl rfl ?_ k.nextPid
        rw [Requests, hb]
        rfl
      · exact ⟨fun _ _ => rfl, ⟨rfl, rfl⟩, by rw [hb]; rfl⟩
  | some b =>
      dsimp only
      split_ifs
      · refine took_forkProc hp { k with bridge := some (callBridge b .fork fate).1 } rfl rfl ?_ _
        rw [Requests, hb]
        rfl
      · exact ⟨fun _ _ => rfl, ⟨rfl, rfl⟩, by rw [hb]; rfl⟩

theorem took_sysForkExecSpawn (a : Int32) (fate : Fate) :
    Took k (forkEffect pid p a.toInt none) fate (sysForkExecSpawn k pid p a).kernel := by
  have hkeep : Requests none fate k.bridge k.bridge := rfl
  unfold forkEffect sysForkExecSpawn
  dsimp only
  split_ifs
  · exact took_forkProc hp { k with nextPid := a.toInt + 1 } rfl rfl hkeep _
  · exact took_forkProc hp k rfl rfl hkeep _
  · exact ⟨fun _ _ => rfl, ⟨rfl, rfl⟩, rfl⟩
  · exact took_nothing k fate

/-- The two descriptors of a pipe are written, after other things were done that left all processes
alone. -/
theorem took_putPipe (k₁ : State) {request : Option Request} {fate : Fate}
    (htab : k₁.processTable = k.processTable) (hvfs : k₁.vfs = k.vfs)
    (hbridge : Requests request fate k.bridge k₁.bridge) (readFd writeFd ringOffset : ℤ) :
    Took k { touch := .pipe pid readFd writeFd ringOffset, request } fate
      (putFd (putFd k₁ pid readFd (.pipe .read ringOffset) false) pid writeFd
        (.pipe .write ringOffset) false) := by
  have hhas : k₁.processTable.has pid = true := by
    rw [htab]
    exact JsMap.has_iff.2 ⟨p, hp⟩
  refine ⟨?_, ?_, ?_⟩
  · intro q i
    rw [kindAt_putFd (by rw [has_putFd]; exact hhas), kindAt_putFd hhas, kindAt_congr htab]
    rfl
  · rw [vfs_putFd, vfs_putFd, hvfs]
    exact ⟨rfl, rfl⟩
  · rw [bridge_putFd, bridge_putFd]
    exact hbridge

theorem took_sysPipeCreate (fate : Fate) :
    Took k (pipeEffect k pid fate) fate (sysPipeCreate k pid fate).kernel := by
  unfold pipeEffect sysPipeCreate request
  cases hb : k.bridge with
  | none => exact ⟨fun _ _ => rfl, ⟨rfl, rfl⟩, by rw [hb]; rfl⟩
  | some b =>
      dsimp only
      split_ifs
      · exact ⟨fun _ _ => rfl, ⟨rfl, rfl⟩, by rw [hb]; rfl⟩
      · refine took_putPipe hp { k with bridge := some (callBridge b .pipeCreate fate).1 } rfl rfl ?_
          _ _ _
        rw [Requests, hb]
        rfl

end Syscalls

/-- **Every syscall has its effect.** -/
theorem took_handleSyscall {k : State} (hn : 0 ≤ k.vfs.nextFd) (pid : ℤ) (call : Call) (fate : Fate) :
    Took k (effectOf k (.call pid call fate)) fate (handleSyscall k pid call fate).kernel := by
  cases hp : k.processTable.get? pid with
  | none =>
      rw [effectOf_noProc hp, handleSyscall, hp]
      exact took_nothing k fate
  | some p =>
      rw [effectOf_call hp, handleSyscall, hp]
      cases call with
      | «open» path b c => exact took_openPath hp hn path b c fate
      | close a => exact took_sysClose hp a fate
      | dup a => exact took_sysDup hp a fate
      | dup2 a b => exact took_sysDup2 hp a b fate
      | fcntl a b c => exact took_sysFcntl hp a b c fate
      | openat path c d => exact took_openPath hp hn path c d fate
      | dup3 a b c => exact took_sysDup3 hp a b c fate
      | fsOpen path b c => exact took_openPath hp hn path b c fate
      | fsClose a => exact took_sysFsClose k pid a fate
      | forkSpawn => exact took_sysForkSpawn hp fate
      | forkExecSpawn a => exact took_sysForkExecSpawn hp a fate
      | pipeCreate => exact took_sysPipeCreate hp fate
      | pipeClose a => exact took_sysPipeClose hp a fate

theorem took_registerProc (k : State) (pid : ℤ) (fate : Fate) :
    Took k { touch := .register pid } fate (registerProc k pid) := by
  unfold registerProc
  cases hp : k.processTable.get? pid with
  | none =>
      have hhas : k.processTable.has pid = false := JsMap.has_eq_false_iff.2 hp
      refine ⟨?_, ⟨rfl, rfl⟩, rfl⟩
      · intro q i
        simp only [kindAt, entryAt, JsMap.get?_set, Touch.lookup, hhas, and_true]
        split_ifs <;> rfl
  | some existing =>
      have hhas : k.processTable.has pid = true := JsMap.has_iff.2 ⟨existing, hp⟩
      refine ⟨?_, ⟨rfl, rfl⟩, rfl⟩
      · intro q i
        simp only [kindAt, entryAt, JsMap.get?_set, Touch.lookup, hhas, Bool.true_eq_false, and_false, if_false]
        by_cases hq : q = pid
        · rw [if_pos hq, hq, hp]
          rfl
        · rw [if_neg hq]

theorem took_registerWorker (k : State) (msgPid : ℤ) (fate : Fate) :
    Took k (effectOf k (.registerWorker msgPid)) fate (registerWorker k msgPid) := by
  have hcounter : ∀ n pid, Took k { touch := .register pid } fate
      (registerProc { k with nextPid := n } pid) := by
    intro n pid
    have h := took_registerProc { k with nextPid := n } pid fate
    exact ⟨h.kindAt, h.vfs, h.bridge⟩
  unfold effectOf registerWorker registerPid
  dsimp only
  split_ifs
  · exact hcounter _ _
  · exact took_registerProc k msgPid fate
  · exact hcounter _ _
  · exact hcounter _ _

/-- **Every event has its effect.** -/
theorem took_after {k : State} (hn : 0 ≤ k.vfs.nextFd) (ev : Event) :
    Took k (effectOf k ev) (fateOf ev) (after k ev) := by
  cases ev with
  | call pid call fate => exact took_handleSyscall hn pid call fate
  | registerWorker pid => exact took_registerWorker k pid _
  | registerMemory pid =>
      refine ⟨?_, ?_, ?_⟩
      · intro q i
        let f : Proc → Proc := fun p => { p with wasmMemory := true }
        have hf : ∀ p, (f p).fdTable = p.fdTable := fun _ => rfl
        exact congrArg (Option.map FdEntry.kind) (entryAt_updateProc hf q i)
      · rw [after, registerMemory, vfs_updateProc]
        exact ⟨rfl, rfl⟩
      · rw [after, registerMemory, bridge_updateProc]
        rfl
  | unregisterWorker pid =>
      exact ⟨kindAt_removeProc k pid, ⟨rfl, rfl⟩, rfl⟩
  | workerExit pid =>
      exact ⟨kindAt_removeProc k pid, ⟨rfl, rfl⟩, rfl⟩

/-! ### What every event keeps -/

/-- The filesystem hands out new numbers, and the slots of the bridge lie in its memory. -/
structure Wf (k : State) : Prop where
  numbered : Numbered k.vfs
  bridge : ∀ b, k.bridge = some b → Bridge.Wf b

theorem Wf.nextFd_nonneg {k : State} (hw : Wf k) : 0 ≤ k.vfs.nextFd := by
  have hpos := hw.numbered.pos
  omega

theorem Fresh.wf {b : Bridge.State} (h : Fresh b) : Bridge.Wf b where
  byteLength_le := h.byteLength_le
  slots := by
    intro _ slot hslot
    rw [h.nextPipeSlot] at hslot
    exact absurd hslot (Nat.not_lt_zero slot)

theorem wf_of_starts {k : State} (hk : Starts k) : Wf k where
  numbered := numbered_newVfs.of_subset hk.table.1 (by rw [hk.table.2]; exact fun _ h => h)
  bridge := fun b hb => (hk.bridge b hb).wf

/-- The table of open files after an effect that opens nothing. -/
theorem Took.closesHandle {k k' : State} {e : Effect} {fate : Fate} (h : Took k e fate k')
    (hopen : ∀ pid vfsFd isDir, e.touch ≠ .open pid vfsFd isDir) :
    ClosesHandle e.closes k.vfs k'.vfs := by
  have hvfs := h.vfs
  unfold Effect.VfsStep at hvfs
  split at hvfs
  · next pid vfsFd isDir ht => exact absurd ht (hopen pid vfsFd isDir)
  · exact hvfs

/-- The table of open files after an effect that opens a description. -/
theorem Took.opens {k k' : State} {e : Effect} {fate : Fate} (h : Took k e fate k') {pid vfsFd : ℤ}
    {isDir : Bool} (ht : e.touch = .open pid vfsFd isDir) :
    vfsFd = k.vfs.nextFd ∧ k'.vfs.nextFd = k.vfs.nextFd + 1 ∧
      ∃ file, k'.vfs.openFiles = k.vfs.openFiles.set k.vfs.nextFd file := by
  have hvfs := h.vfs
  unfold Effect.VfsStep at hvfs
  rw [ht] at hvfs
  exact hvfs

theorem ClosesHandle.has {closes : Option ℤ} {v v' : Vfs} (h : ClosesHandle closes v v') (fd : ℤ) :
    v'.openFiles.has fd = true ↔ v.openFiles.has fd = true ∧ closes ≠ some fd := by
  rw [JsMap.has_iff, JsMap.has_iff, h.2]
  cases closes with
  | none => simp
  | some c =>
      simp only [JsMap.get?_delete, ne_eq, Option.some.injEq]
      by_cases hc : fd = c
      · simp [hc]
      · simp [hc, Ne.symm hc]

/-- **Every event keeps this.** -/
theorem wf_after {k : State} (hw : Wf k) (ev : Event) : Wf (after k ev) := by
  have h := took_after hw.nextFd_nonneg ev
  refine ⟨?_, ?_⟩
  · by_cases hopen : ∃ pid vfsFd isDir, (effectOf k ev).touch = .open pid vfsFd isDir
    · obtain ⟨pid, vfsFd, isDir, ht⟩ := hopen
      obtain ⟨-, hn, file, ho⟩ := h.opens ht
      exact hw.numbered.of_set hn ho
    · have hcloses := h.closesHandle fun pid vfsFd isDir ht => hopen ⟨pid, vfsFd, isDir, ht⟩
      exact hw.numbered.of_subset hcloses.1 fun fd hfd => ((hcloses.has fd).1 hfd).1
  · intro b hb
    have hreq := h.bridge
    unfold Requests at hreq
    rw [hb] at hreq
    cases hr : (effectOf k ev).request with
    | none =>
        rw [hr] at hreq
        exact hw.bridge b hreq.symm
    | some req =>
        rw [hr] at hreq
        obtain ⟨b₀, hb₀, rfl⟩ := Option.map_eq_some_iff.1 hreq.symm
        exact wf_callBridge (hw.bridge b₀ hb₀) req _

/-! ### References -/

section References

variable {k k' : State} {e : Effect} {fate : Fate} {H : Type} {f : FdKind → Option H}

/-- The standard descriptors refer to nothing. -/
theorem standardFds_refs (hf : ∀ name, f (.special name) = none) (cell : ℕ) (i : ℤ) :
    (((standardFds cell).get? i).map FdEntry.kind).bind f = none := by
  simp only [standardFds, JsMap.get?_set, JsMap.get?_empty]
  split_ifs <;> simp [hf]

/-- **Outside of its slots, an effect changes no reference.** -/
theorem refs_outside (hf : ∀ name, f (.special name) = none) (h : Took k e fate k') (s : ℤ × ℤ)
    (hs : ¬ e.touch.slots k s) : refs f k' s = refs f k s := by
  obtain ⟨q, i⟩ := s
  have hk := h.kindAt q i
  unfold refs
  rw [hk]
  cases ht : e.touch with
  | nothing => rfl
  | register pid =>
      rw [Touch.lookup]
      split_ifs with hq
      · have hnone : kindAt k q i = none :=
          kindAt_of_noProc (by rw [hq.1]; exact JsMap.has_eq_false_iff.1 hq.2) i
        rw [standardFds_refs hf, hnone]
        rfl
      · rfl
  | «open» pid vfsFd isDir =>
      rw [ht, Touch.slots, Prod.mk.injEq] at hs
      rw [Touch.lookup, if_neg hs]
  | put pid fd kind =>
      rw [ht, Touch.slots, Prod.mk.injEq] at hs
      rw [Touch.lookup]
      split_ifs with hq
      · -- a slot that is not touched has got what it had
        have hsame : kindAt k pid fd = some kind := by
          by_contra hne
          exact hs ⟨hq, hne⟩
        rw [hq.1, hq.2, hsame]
      · rfl
  | pipe pid readFd writeFd ringOffset =>
      rw [ht, Touch.slots, Prod.mk.injEq, Prod.mk.injEq, not_or] at hs
      rw [Touch.lookup, if_neg hs.2, if_neg hs.1]
  | drop pid fd =>
      rw [ht, Touch.slots, Prod.mk.injEq] at hs
      rw [Touch.lookup, if_neg hs]
  | fork pid childPid =>
      rw [ht, Touch.slots] at hs
      rw [Touch.lookup]
      split_ifs with hq
      · have hself : childPid = pid := by
          by_contra hne
          exact hs ⟨hq, hne⟩
        rw [hq, hself]
      · rfl
  | exit pid =>
      rw [ht, Touch.slots] at hs
      rw [Touch.lookup, if_neg hs]

/-- What a call writes to a descriptor, it read from a descriptor of the process. -/
theorem Shape.put_source (hshape : Shape k fate e) {pid fd : ℤ} {kind : FdKind}
    (ht : e.touch = .put pid fd kind) : ∃ i, kindAt k pid i = some kind := by
  cases hshape with
  | copied q i j kind' hi => cases ht; exact ⟨i, hi⟩
  | replaced q i b kind' request hi hrequest => cases ht; exact ⟨i, hi⟩
  | pipe q =>
      simp only [pipeEffect] at ht
      split at ht
      · cases ht
      · split_ifs at ht
  | _ => cases ht

/-- Only the creation of a pipe asks the bridge for one. -/
theorem Shape.of_pipeCreate (hshape : Shape k fate e) (hr : e.request = some .pipeCreate) :
    ∃ pid, e = pipeEffect k pid fate := by
  have hhang : ∀ pid a, hangUp k pid a ≠ some .pipeCreate := by
    intro pid a h
    obtain ⟨x, -, hx⟩ := Option.map_eq_some_iff.1 h
    cases hx
  cases hshape with
  | pipe pid => exact ⟨pid, rfl⟩
  | closed pid a => exact absurd hr (hhang pid a)
  | pipeEndClosed pid a => exact absurd hr (hhang pid a)
  | replaced pid i b kind request hi hrequest =>
      rcases hrequest with rfl | rfl
      · cases hr
      · exact absurd hr (hhang pid b)
  | forked pid childPid request hrequest => rcases hrequest with rfl | rfl <;> cases hr
  | notForked request hrequest => rcases hrequest with rfl | rfl <;> cases hr
  | _ => cases hr

/-- Only the creation of a pipe writes the descriptors of one. -/
theorem Shape.of_pipe (hshape : Shape k fate e) {pid readFd writeFd ringOffset : ℤ}
    (ht : e.touch = .pipe pid readFd writeFd ringOffset) : e = pipeEffect k pid fate := by
  cases hshape with
  | pipe q =>
      have hq : q = pid := by
        simp only [pipeEffect] at ht
        split at ht
        · cases ht
        · split_ifs at ht
          injection ht
      rw [hq]
  | _ => cases ht

/-- The descriptors that a new pipe gets, if it is made and the kernel hears of it. -/
theorem pipeEffect_touch (hw : Wf k) {b : Bridge.State} (hb : k.bridge = some b) (pid : ℤ) :
    (pipeEffect k pid fate).touch =
      if Creates b fate then
        .pipe pid (fdOf b.nextPipeSlot .read) (fdOf b.nextPipeSlot .write) (ringOffset b.nextPipeSlot)
      else .nothing := by
  have hwf := hw.bridge b hb
  have hreply := reply_pipeCreate hwf fate
  simp only [pipeEffect, hb, hreply]
  by_cases hc : Creates b fate
  · obtain ⟨hval, hr1, hr2⟩ := pipeCreate_numbers (hc.le hwf)
    have herr : ¬ (pipeCreate b).2.err ≠ 0 := fun h => h rfl
    rw [if_pos hc, if_pos hc, if_neg herr, hval, hr1, hr2]
  · have herr : timedOut.err ≠ 0 := by decide
    rw [if_neg hc, if_neg hc, if_pos herr]

/-- A call that opens a description closes none. -/
theorem Shape.closes_of_open (hshape : Shape k fate e) {pid vfsFd : ℤ} {isDir : Bool}
    (ht : e.touch = .open pid vfsFd isDir) : e.closes = none := by
  cases hshape with
  | closed q a => cases ht
  | handleClosed q fd => cases ht
  | replaced q i b kind request hi hrequest => cases ht
  | _ => rfl

/-- **In its slots, an effect that makes no new reference copies from outside of them.** -/
theorem refs_copied (h : Took k e fate k') (hshape : Shape k fate e)
    (hopen : ∀ pid vfsFd isDir, e.touch = .open pid vfsFd isDir → f (openKind vfsFd isDir) = none)
    (hpipe : ∀ pid readFd writeFd ringOffset, e.touch = .pipe pid readFd writeFd ringOffset →
      ∀ fdEnd, f (.pipe fdEnd ringOffset) = none)
    (s : ℤ × ℤ) (r : H) (hs : e.touch.slots k s) (hr : refs f k' s = some r) :
    SharedRefs.HeldOutside (refs f k) (e.touch.slots k) r := by
  obtain ⟨q, i⟩ := s
  unfold refs at hr
  rw [h.kindAt q i] at hr
  cases ht : e.touch with
  | nothing => rw [ht] at hs; exact hs.elim
  | register pid => rw [ht] at hs; exact hs.elim
  | «open» pid vfsFd isDir =>
      rw [ht, Touch.slots, Prod.mk.injEq] at hs
      rw [ht, Touch.lookup, if_pos hs, Option.bind_some, hopen pid vfsFd isDir ht] at hr
      cases hr
  | put pid fd kind =>
      -- what is put was read from a slot that stays as it is
      obtain ⟨j, hj⟩ := hshape.put_source ht
      rw [ht, Touch.slots, Prod.mk.injEq] at hs
      rw [ht, Touch.lookup, if_pos hs.1] at hr
      refine ⟨(pid, j), ?_, ?_⟩
      · rintro ⟨hslot, hne⟩
        rw [(Prod.mk.inj hslot).2] at hj
        exact hne hj
      · rw [refs, hj, hr]
  | pipe pid readFd writeFd ringOffset =>
      have hnone := hpipe pid readFd writeFd ringOffset ht
      rw [ht, Touch.slots, Prod.mk.injEq, Prod.mk.injEq] at hs
      rw [ht, Touch.lookup] at hr
      split_ifs at hr with hw hrd
      · rw [Option.bind_some, hnone] at hr
        cases hr
      · rw [Option.bind_some, hnone] at hr
        cases hr
      · exact (hs.elim hrd hw).elim
  | drop pid fd =>
      rw [ht, Touch.slots, Prod.mk.injEq] at hs
      rw [ht, Touch.lookup, if_pos hs] at hr
      cases hr
  | fork pid childPid =>
      rw [ht, Touch.slots] at hs
      rw [ht, Touch.lookup, if_pos hs.1] at hr
      refine ⟨(pid, i), ?_, hr⟩
      rintro ⟨hslot, -⟩
      exact hs.2 hslot.symm
  | exit pid =>
      rw [ht, Touch.slots] at hs
      rw [ht, Touch.lookup, if_pos hs] at hr
      cases hr

end References

end Kernel
