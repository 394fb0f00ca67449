/-
**What a process can reach of the others.**

The table of open files is one for all processes.  Most calls reach it through the caller's descriptors, but
some take a number for a handle, as it is: reading, writing and closing by handle, the file behind a mapping,
the written file of a `sendfile`, and the links under `/proc/self/fd`.  Through these a process gets at files
that others have open.  Two more calls get at the descriptors of others: a fork whose child has the number of
a process that is there replaces its table, and `F_SETFD` writes the flag in an entry that a fork has shared.

What a call leaves alone is proved by putting something else in its place: a call that does not name a
description does the same whatever the description is, so it neither changes it nor takes anything from it.

Main definitions:

* `Isolation.Foreign` — the descriptions that a process has no descriptor for;
* `Isolation.Isolated` — what a call leaves alone, and what it does not take from;
* `Isolation.Owns` — the condition on a call.

Main results:

* `Isolation.kept_handleSyscall` — the tables after a call on descriptors;
* `Isolation.unseen_body` — the other calls do not see foreign descriptions;
* `Isolation.isolates_of_careful` — **every call of a run that meets the condition is isolated**.
-/

import AtuaComputer.HiddenFiles
import AtuaComputer.Runs

set_option relaxedAutoImplicit false
set_option autoImplicit false

namespace Isolation

open VirtualFs Kernel Bridge FileIo Syscalls Blindness HiddenFiles Runs

/-! ### Isolation -/

/-- An open description that no descriptor of the process refers to. -/
def Foreign (s : Syscalls.State) (pid h : ℤ) : Prop :=
  s.io.kernel.vfs.openFiles.has h = true ∧
    ∀ p ∈ s.io.kernel.processTable.get? pid, ∀ d ∈ p.fdTable.entries, d.2.kind.handle? ≠ some h

instance (s : Syscalls.State) (pid h : ℤ) : Decidable (Foreign s pid h) :=
  inferInstanceAs (Decidable (_ ∧ ∀ p ∈ s.io.kernel.processTable.get? pid, _))

/-- The state with something else as the description `h`, and as its listing. -/
def withFile (s : Syscalls.State) (h : ℤ) (file : OpenFile) (cursor : Option Cursor) : Syscalls.State :=
  { s with
    io :=
      { s.io with
        kernel :=
          { s.io.kernel with
            vfs :=
              { s.io.kernel.vfs with
                openFiles := s.io.kernel.vfs.openFiles.alter h fun _ => some file } }
        cursors := s.io.cursors.alter h fun _ => cursor } }

/-- The child of a fork. -/
def forkChild (k : Kernel.State) (p : Proc) (call : Kernel.Call) (fate : Fate) : Option ℤ :=
  match call with
  | .forkSpawn => if p.wasmMemory then some (childPidOf k fate) else none
  | .forkExecSpawn a => if p.wasmMemory then some a.toInt else none
  | _ => none

/-- The child of a call, if it is a fork. -/
def childOf (s : Syscalls.State) (pid : ℤ) : Syscall → Option ℤ
  | .kernel call fate => (s.io.kernel.processTable.get? pid).bind fun p => forkChild s.io.kernel p call fate
  | _ => none

/-- **A call of `pid` leaves the others alone.** -/
structure Isolated (s : Syscalls.State) (pid : ℤ) (call : Syscall) (s' : Syscalls.State) : Prop where
  /-- The tables of the other processes stay, and a new one is that of a child. -/
  tables : ∀ q, q ≠ pid → s'.io.kernel.processTable.get? q = s.io.kernel.processTable.get? q ∨
    s.io.kernel.processTable.get? q = none ∧ childOf s pid call = some q
  /-- The flags in the entries of the other processes stay. -/
  flags : ∀ q, q ≠ pid → ∀ fd, ∀ entry ∈ entryAt s.io.kernel q fd,
    s'.io.kernel.cloexec[entry.cell]? = s.io.kernel.cloexec[entry.cell]?
  /-- Foreign descriptions stay, with their listings. -/
  files : ∀ h, Foreign s pid h →
    s'.io.kernel.vfs.openFiles.get? h = s.io.kernel.vfs.openFiles.get? h ∧
      s'.io.cursors.get? h = s.io.cursors.get? h
  /-- What is in the memory of the process does not depend on any of them. -/
  memory : ∀ h, Foreign s pid h → ∀ file cursor,
    (Syscalls.handleSyscall (withFile s h file cursor) pid call).1.io.memory pid = s'.io.memory pid

/-- The step of a run is isolated, if it is a call. -/
def Isolates (s : Syscalls.State) (ev : Syscalls.Event) (s' : Syscalls.State) : Prop :=
  match ev with
  | .syscall pid call => Isolated s pid call s'
  | _ => True

/-- The step relation. -/
def Step (s : Syscalls.State) (ev : Syscalls.Event) (s' : Syscalls.State) : Prop := s' = Syscalls.after s ev

/-! ### The condition -/

/-- The flag of an entry is in no entry of another process. -/
def Alone (k : Kernel.State) (pid : ℤ) (entry : FdEntry) : Prop :=
  ∀ q, q ≠ pid → ∀ fd, ∀ entry' ∈ entryAt k q fd, entry'.cell ≠ entry.cell

/-- The condition on a call on descriptors: a handle to close is not foreign, a flag that is changed is not
shared, and the number of a child is no other process. -/
def OwnsKernel (s : Syscalls.State) (pid : ℤ) (p : Proc) (fate : Fate) : Kernel.Call → Prop
  | .fsClose a => ¬ Foreign s pid a.toInt
  | .fcntl a b c =>
    b = 2 → ∀ entry ∈ p.fdTable.get? a.toInt,
      s.io.kernel.cloexec[entry.cell]? = some (hasFlag c 1) ∨ Alone s.io.kernel pid entry
  | .forkSpawn =>
    p.wasmMemory = true → childPidOf s.io.kernel fate = pid ∨
      s.io.kernel.processTable.get? (childPidOf s.io.kernel fate) = none
  | .forkExecSpawn a =>
    p.wasmMemory = true → a.toInt = pid ∨ s.io.kernel.processTable.get? a.toInt = none
  | _ => True

/-- The condition on a call: handles that it is given as numbers are not foreign.  `SYS_FS_FSTAT` may be given
any. -/
def Owns (s : Syscalls.State) (pid : ℤ) (p : Proc) : Syscall → Prop
  | .kernel call fate => OwnsKernel s pid p fate call
  | .other (.fsFstat _) => True
  | .other call => Names (fun h => ¬ Foreign s pid h) p call
  | _ => True

/-- **The condition** on an event. -/
def Careful (s : Syscalls.State) : Syscalls.Event → Prop
  | .syscall pid call => ∀ p ∈ s.io.kernel.processTable.get? pid, Owns s pid p call
  | _ => True

/-! ### The tables after a call on descriptors -/

/-- Every entry has a flag. -/
def Stored (k : Kernel.State) : Prop :=
  ∀ q fd, ∀ entry ∈ entryAt k q fd, entry.cell < k.cloexec.length

/-- The processes outside of `own` have their tables, and there are only new flags. -/
structure Kept (own : ℤ → Prop) (k k' : Kernel.State) : Prop where
  table : ∀ q, ¬ own q → k'.processTable.get? q = k.processTable.get? q
  flags : k.cloexec <+: k'.cloexec
  stored : Stored k → Stored k'

theorem Stored.of_entries {k k' : Kernel.State} (h : Stored k) (hflags : k.cloexec <+: k'.cloexec)
    (hentry : ∀ q fd, ∀ entry ∈ entryAt k' q fd,
      entry.cell < k'.cloexec.length ∨ ∃ q' fd', entryAt k q' fd' = some entry) : Stored k' := by
  intro q fd entry he
  rcases hentry q fd entry he with hlt | ⟨q', fd', he'⟩
  · exact hlt
  · exact Nat.lt_of_lt_of_le (h q' fd' entry he') hflags.length_le

section Kept

variable {own : ℤ → Prop} {k k₁ k₂ : Kernel.State}

theorem Kept.refl (own : ℤ → Prop) (k : Kernel.State) : Kept own k k :=
  ⟨fun _ _ => rfl, List.prefix_refl _, id⟩

theorem Kept.trans (h : Kept own k k₁) (h' : Kept own k₁ k₂) : Kept own k k₂ where
  table := fun q hq => (h'.table q hq).trans (h.table q hq)
  flags := h.flags.trans h'.flags
  stored := fun hs => h'.stored (h.stored hs)

/-- A change of anything but the tables and flags. -/
theorem kept_congr (htable : k₁.processTable = k.processTable) (hflags : k₁.cloexec = k.cloexec) :
    Kept own k k₁ where
  table := fun q _ => by rw [htable]
  flags := ⟨[], by rw [List.append_nil, hflags]⟩
  stored := by
    intro hs q fd entry he
    rw [hflags]
    refine hs q fd entry ?_
    rw [entryAt, ← htable]
    exact he

theorem kept_closeHandle (handle : ℤ) : Kept own k (closeHandle k handle) := kept_congr rfl rfl

theorem kept_request (req : Request) (fate : Fate) : Kept own k (request k req fate).1 := by
  unfold request
  split
  · exact Kept.refl own k
  · exact kept_congr rfl rfl

theorem kept_closeExisting (existing : FdEntry) : Kept own k (closeExisting k existing) := by
  unfold closeExisting
  split
  · exact kept_closeHandle _
  · exact kept_closeHandle _
  · exact Kept.refl own k

variable {pid : ℤ}

/-- A change of the object of a process that makes no entries. -/
theorem kept_updateProc (hown : own pid) {f : Proc → Proc}
    (hf : ∀ p fd entry, (f p).fdTable.get? fd = some entry → p.fdTable.get? fd = some entry) :
    Kept own k (updateProc k pid f) where
  table := by
    intro q hq
    rw [get?_updateProc, if_neg]
    rintro rfl
    exact hq hown
  flags := ⟨[], by rw [List.append_nil, cloexec_updateProc]⟩
  stored := by
    intro hs q fd entry he
    rw [cloexec_updateProc]
    obtain ⟨p, hp, hfd⟩ := Option.bind_eq_some_iff.1 he
    rw [get?_updateProc] at hp
    split at hp
    · next hq =>
        obtain ⟨p₀, hp₀, rfl⟩ := Option.map_eq_some_iff.1 hp
        exact hs pid fd entry (by rw [entryAt_eq hp₀]; exact hf p₀ fd entry hfd)
    · exact hs q fd entry (by rw [entryAt_eq hp]; exact hfd)

theorem kept_bumpFd (hown : own pid) (fd : ℤ) : Kept own k (bumpFd k pid fd) := by
  refine kept_updateProc hown fun p i entry h => ?_
  split at h
  · exact h
  · exact h

theorem kept_dropFd (hown : own pid) (fd : ℤ) : Kept own k (dropFd k pid fd) := by
  refine kept_updateProc hown fun p i entry h => ?_
  rw [JsMap.get?_delete] at h
  split at h
  · cases h
  · exact h

theorem kept_putFd (hown : own pid) (fd : ℤ) (kind : FdKind) (flag : Bool) :
    Kept own k (putFd k pid fd kind flag) := by
  have hflags : k.cloexec <+: (putFd k pid fd kind flag).cloexec := by
    rw [cloexec_putFd]
    exact List.prefix_append _ _
  refine ⟨?_, hflags, fun hs => ?_⟩
  · intro q hq
    have hne : q ≠ pid := fun h => hq (h ▸ hown)
    unfold putFd
    rw [get?_updateProc, if_neg hne]
  · refine hs.of_entries hflags fun q i entry he => ?_
    unfold putFd entryAt at he
    obtain ⟨p, hp, hfd⟩ := Option.bind_eq_some_iff.1 he
    rw [get?_updateProc] at hp
    split at hp
    · next hq =>
        obtain ⟨p₀, hp₀, rfl⟩ := Option.map_eq_some_iff.1 hp
        rw [JsMap.get?_set] at hfd
        split at hfd
        · left
          cases hfd
          rw [cloexec_putFd, List.length_append]
          exact Nat.lt_succ_self _
        · exact .inr ⟨pid, i, by rw [entryAt_eq hp₀]; exact hfd⟩
    · exact .inr ⟨q, i, by rw [entryAt_eq hp]; exact hfd⟩

/-- A new descriptor with a number of its own. -/
theorem kept_install (hown : own pid) (fd : ℤ) (kind : FdKind) (flag : Bool) :
    Kept own k (bumpFd (putFd k pid fd kind flag) pid fd) :=
  (kept_putFd hown fd kind flag).trans (kept_bumpFd hown fd)

theorem kept_forkProc {childPid : ℤ} {p : Proc} (hp : k.processTable.get? pid = some p)
    (hown : own childPid) : Kept own k (forkProc k childPid p) where
  table := by
    intro q hq
    have hne : q ≠ childPid := fun h => hq (h ▸ hown)
    unfold forkProc
    rw [JsMap.get?_set, if_neg hne]
  flags := List.prefix_refl _
  stored := by
    intro hs q fd entry he
    unfold forkProc entryAt at he
    obtain ⟨p', hp', hfd⟩ := Option.bind_eq_some_iff.1 he
    rw [JsMap.get?_set] at hp'
    split at hp'
    · cases hp'
      exact hs pid fd entry (by rw [entryAt_eq hp]; exact hfd)
    · exact hs q fd entry (by rw [entryAt_eq hp']; exact hfd)

end Kept

section Calls

variable {k : Kernel.State} {pid : ℤ} {p : Proc} (hp : k.processTable.get? pid = some p)

/-- The processes whose tables a call may change. -/
def Own (k : Kernel.State) (pid : ℤ) (p : Proc) (call : Kernel.Call) (fate : Fate) (q : ℤ) : Prop :=
  q = pid ∨ forkChild k p call fate = some q

theorem kept_openPath (path : Path) (flags mode : Int32) {own : ℤ → Prop} (hown : own pid) :
    Kept own k (openPath k pid p path flags mode).kernel := by
  unfold openPath
  dsimp only
  split
  · have hvfs : Kept own k { k with vfs := (openFile k.vfs (readCString p path) flags mode).1 } :=
      kept_congr rfl rfl
    exact hvfs.trans (kept_install hown _ _ _)
  · exact kept_congr rfl rfl

theorem kept_sysClose (a : Int32) (fate : Fate) {own : ℤ → Prop} (hown : own pid) :
    Kept own k (sysClose k pid p a fate).kernel := by
  unfold sysClose
  split
  · exact Kept.refl own k
  · split
    · exact (kept_closeHandle _).trans (kept_dropFd hown _)
    · exact (kept_closeHandle _).trans (kept_dropFd hown _)
    · exact (kept_request _ _).trans (kept_dropFd hown _)
    · exact kept_dropFd hown _

theorem kept_sysDup (a : Int32) {own : ℤ → Prop} (hown : own pid) :
    Kept own k (sysDup k pid p a).kernel := by
  unfold sysDup
  split
  · exact Kept.refl own k
  · exact kept_install hown _ _ _

theorem kept_sysDup2 (a b : Int32) {own : ℤ → Prop} (hown : own pid) :
    Kept own k (sysDup2 k pid p a b).kernel := by
  unfold sysDup2
  split
  · exact Kept.refl own k
  · split
    · exact Kept.refl own k
    · refine Kept.trans ?_ (kept_install hown _ _ _)
      split
      · exact Kept.refl own k
      · exact (kept_closeExisting _).trans (kept_dropFd hown _)

theorem kept_sysDup3 (a b c : Int32) (fate : Fate) {own : ℤ → Prop} (hown : own pid) :
    Kept own k (sysDup3 k pid p a b c fate).kernel := by
  unfold sysDup3
  split
  · exact Kept.refl own k
  · split
    · exact Kept.refl own k
    · refine Kept.trans ?_ (kept_install hown _ _ _)
      split
      · exact Kept.refl own k
      · split
        · exact (kept_request _ _).trans (kept_dropFd hown _)
        · exact (kept_closeExisting _).trans (kept_dropFd hown _)

/-- All of `fcntl` but `F_SETFD`. -/
theorem kept_sysFcntl (a b c : Int32) (hb : b ≠ 2) {own : ℤ → Prop} (hown : own pid) :
    Kept own k (sysFcntl k pid p a b c).kernel := by
  unfold sysFcntl
  split
  · exact Kept.refl own k
  · split
    · exact kept_install hown _ _ _
    · split
      · exact Kept.refl own k
      · split
        · split
          · exact Kept.refl own k
          · exact Kept.refl own k
        · exact Kept.refl own k

theorem kept_sysPipeCreate (fate : Fate) {own : ℤ → Prop} (hown : own pid) :
    Kept own k (sysPipeCreate k pid fate).kernel := by
  have hreq : Kept own k (request k .pipeCreate fate).1 := kept_request _ _
  unfold sysPipeCreate
  revert hreq
  obtain ⟨k₁, reply⟩ := request k .pipeCreate fate
  intro hreq
  cases reply with
  | none => exact hreq
  | some resp =>
      dsimp only
      split
      · exact hreq
      · exact (hreq.trans (kept_putFd hown _ _ _)).trans (kept_putFd hown _ _ _)

theorem kept_sysPipeClose (a : Int32) (fate : Fate) {own : ℤ → Prop} (hown : own pid) :
    Kept own k (sysPipeClose k pid p a fate).kernel := by
  unfold sysPipeClose
  split
  · exact Kept.refl own k
  · split
    · exact (kept_request _ _).trans (kept_dropFd hown _)
    · exact kept_dropFd hown _

include hp

theorem kept_sysForkSpawn (fate : Fate) :
    Kept (Own k pid p .forkSpawn fate) k (sysForkSpawn k pid p fate).kernel := by
  have hchild : ∀ k₁ : Kernel.State, k₁.processTable = k.processTable → k₁.cloexec = k.cloexec →
      p.wasmMemory = true → Kept (Own k pid p .forkSpawn fate) k (forkProc k₁ (childPidOf k fate) p) := by
    intro k₁ htable hflags hmem
    have hp₁ : k₁.processTable.get? pid = some p := by rw [htable, hp]
    exact (kept_congr htable hflags).trans (kept_forkProc hp₁ (Or.inr (if_pos hmem)))
  unfold sysForkSpawn request
  cases hb : k.bridge with
  | none =>
      dsimp only
      split
      · next hmem =>
          have hpid : childPidOf k fate = k.nextPid := by rw [childPidOf, hb]
          have h := hchild { k with nextPid := k.nextPid + 1 } rfl rfl hmem
          rw [hpid] at h
          exact h
      · exact kept_congr rfl rfl
  | some b =>
      dsimp only
      split
      · next hmem =>
          have hpid : childPidOf k fate = (callBridge b .fork fate).2.val.toInt := by rw [childPidOf, hb]
          have h := hchild { k with bridge := some (callBridge b .fork fate).1 } rfl rfl hmem
          rw [hpid] at h
          exact h
      · exact kept_congr rfl rfl

theorem kept_sysForkExecSpawn (a : Int32) (fate : Fate) :
    Kept (Own k pid p (.forkExecSpawn a) fate) k (sysForkExecSpawn k pid p a).kernel := by
  have hcounter : ∀ k₁ : Kernel.State, k₁.processTable = k.processTable → k₁.cloexec = k.cloexec →
      p.wasmMemory = true → Kept (Own k pid p (.forkExecSpawn a) fate) k (forkProc k₁ a.toInt p) := by
    intro k₁ htable hflags hmem
    have hp₁ : k₁.processTable.get? pid = some p := by rw [htable, hp]
    exact (kept_congr htable hflags).trans (kept_forkProc hp₁ (Or.inr (if_pos hmem)))
  unfold sysForkExecSpawn
  dsimp only
  split
  · next hmem =>
      refine hcounter _ ?_ ?_ hmem
      · split <;> rfl
      · split <;> rfl
  · refine kept_congr ?_ ?_
    · split <;> rfl
    · split <;> rfl

/-- **The tables after a call on descriptors** that is not `F_SETFD`. -/
theorem kept_handleSyscall (call : Kernel.Call) (fate : Fate)
    (hcall : ∀ a c, call ≠ .fcntl a 2 c) :
    Kept (Own k pid p call fate) k (Kernel.handleSyscall k pid call fate).kernel := by
  have hown : Own k pid p call fate pid := Or.inl rfl
  unfold Kernel.handleSyscall
  rw [hp]
  cases call with
  | «open» path b c => exact kept_openPath path b c hown
  | close a => exact kept_sysClose a fate hown
  | dup a => exact kept_sysDup a hown
  | dup2 a b => exact kept_sysDup2 a b hown
  | fcntl a b c => exact kept_sysFcntl a b c (fun hb => hcall a c (hb ▸ rfl)) hown
  | openat path c d => exact kept_openPath path c d hown
  | dup3 a b c => exact kept_sysDup3 a b c fate hown
  | fsOpen path b c => exact kept_openPath path b c hown
  | fsClose a => exact (kept_closeHandle _).trans (kept_dropFd hown _)
  | forkSpawn => exact kept_sysForkSpawn hp fate
  | forkExecSpawn a => exact kept_sysForkExecSpawn hp a fate
  | pipeCreate => exact kept_sysPipeCreate fate hown
  | pipeClose a => exact kept_sysPipeClose a fate hown

end Calls

/-! ### The other calls -/

/-- What a call that is none on descriptors does to the state of the handlers. -/
def body (s : Syscalls.State) (pid : ℤ) (p : Proc) : Syscall → Io ℤ
  | .file a call => fileHandler pid p a call
  | .other call => handler s.bootTime pid p call
  | .getcwd a b =>
    let cwd := if (s.locals pid).cwd = [] then ['/'] else (s.locals pid).cwd
    do
      if b.toInt < (encode cwd).length + 1 then return -34
      storeCString pid p (unsigned a) cwd
      return a.toInt
  | .fsGetcwd a => do
    storeCString pid p (unsigned a) (s.locals pid).cwd
    return (encode (s.locals pid).cwd).length
  | .procWait a b =>
    match if 0 < a.toInt then s.exitCodes.get? a.toInt else none with
    | some code => do
      if b ≠ 0 ∧ p.wasmMemory then storeWord pid p 4 (unsigned b) (code % 256 * 256)
      return a.toInt
    | none => return 0
  | _ => return 0

theorem io_attempt (s : Syscalls.State) (x : Io ℤ) : (attempt s x).1.io = (x.run.run s.io).2 := by
  unfold attempt
  obtain ⟨r, io⟩ := x.run.run s.io
  cases r <;> rfl

theorem io_handleSyscall {s : Syscalls.State} {pid : ℤ} {p : Proc}
    (hp : s.io.kernel.processTable.get? pid = some p) {call : Syscall} (hcall : ∀ c fate, call ≠ .kernel c fate) :
    (Syscalls.handleSyscall s pid call).1.io = ((body s pid p call).run.run s.io).2 := by
  unfold Syscalls.handleSyscall
  rw [hp]
  cases call with
  | kernel c fate => exact absurd rfl (hcall c fate)
  | file a call =>
      unfold body handleFileCall
      simp only [hp]
      obtain ⟨r, io⟩ := (fileHandler pid p a call).run.run s.io
      cases r <;> rfl
  | other call => exact io_attempt s _
  | brk a =>
      unfold sysBrk body
      dsimp only
      split <;> rfl
  | getcwd a b => exact io_attempt s _
  | fsGetcwd a => exact io_attempt s _
  | fsChdir path => rfl
  | procWait a b =>
      unfold sysProcWait body
      dsimp only
      cases (if 0 < a.toInt then s.exitCodes.get? a.toInt else none) with
      | none => rfl
      | some code => exact io_attempt _ _
  | socketOpen => rfl
  | plain n => rfl

/-- The handles that a call is given as numbers are seen. -/
def Given (seen : ℤ → Prop) (p : Proc) : Syscall → Prop
  | .other call => Names seen p call
  | _ => True

/-- **The other calls see the handles of their process and those that they are given.** -/
theorem unseen_body {mask : Mask} {cond : Cond} {seen : ℤ → Prop} (hh : Hides mask cond seen)
    (s : Syscalls.State) (pid : ℤ) {p : Proc} (hsees : Sees seen p) {call : Syscall}
    (hgiven : Given seen p call) : Unseen mask cond (body s pid p call) := by
  cases call with
  | kernel c fate => exact blind_pure _
  | file a call => exact unseen_fileHandler hh hsees pid a call
  | other call => exact unseen_handler hh hsees s.bootTime pid hgiven
  | brk a => exact blind_pure _
  | getcwd a b =>
      refine blind_ite (blind_pure _) ?_
      exact blind_bind (unseen_storeCString pid p _ _) fun _ => blind_pure _
  | fsGetcwd a => exact blind_bind (unseen_storeCString pid p _ _) fun _ => blind_pure _
  | fsChdir path => exact blind_pure _
  | procWait a b =>
      unfold body
      dsimp only
      cases (if 0 < a.toInt then s.exitCodes.get? a.toInt else none) with
      | none => exact blind_pure _
      | some code =>
          refine blind_ite ?_ (blind_pure _)
          exact blind_bind (unseen_storeWord pid p 4 _ _) fun _ => blind_pure _
  | socketOpen => exact blind_pure _
  | plain n => exact blind_pure _

/-! ### A description in the place of another -/

/-- Another description for `h`, if there is one, and another listing; around the filesystem is `k`. -/
def maskAt (h : ℤ) (file : Option OpenFile) (cursor : Option Cursor) (k : Kernel.State) : Mask where
  change := fun m => m.alter h fun _ => file
  turn := fun m => m.alter h fun _ => cursor
  rest := k

/-- The counter is past all handles, `h` is open, and it has a listing if it had one. -/
def condAt (h : ℤ) (listed : Bool) : Cond where
  table := fun n m => (2 < n ∧ ∀ fd, m.has fd = true → fd < n) ∧ m.has h = true
  cursors := fun m => m.has h = listed

theorem has_set_of_has {V : Type} {m : JsMap ℤ V} {fd : ℤ} (hfd : m.has fd = true) (v : V) (i : ℤ) :
    (m.set fd v).has i = m.has i := by
  unfold JsMap.has at hfd ⊢
  rw [JsMap.get?_set]
  split
  · next hi =>
      rw [hi, hfd]
      rfl
  · rfl

theorem hides_maskAt (h : ℤ) (file : Option OpenFile) (cursor : Option Cursor) (k : Kernel.State)
    (listed : Bool) : Hides (maskAt h file cursor k) (condAt h listed) (· ≠ h) where
  get? := fun _ _ hfd => JsMap.get?_alter_ne hfd
  set := by
    rintro n m fd v ⟨⟨hpos, hlt⟩, hhas⟩ hne hfd
    refine ⟨JsMap.alter_set hne v, ⟨hpos, fun i hi => ?_⟩, ?_⟩
    · rw [has_set_of_has hfd] at hi
      exact hlt i hi
    · rw [has_set_of_has hfd]
      exact hhas
  cursor? := fun _ _ hfd => JsMap.get?_alter_ne hfd
  setCursor := by
    intro m fd v hm hne
    refine ⟨JsMap.alter_set hne v, ?_⟩
    show (m.set fd v).has h = listed
    rw [← hm, JsMap.has, JsMap.get?_set_ne (Ne.symm hne), JsMap.has]

/-- Nothing in the place of anything. -/
def noMask (k : Kernel.State) : Mask := ⟨fun m => m, fun m => m, k⟩

/-- The counter is past all handles. -/
def numbered : Cond where
  table := fun n m => 2 < n ∧ ∀ fd, m.has fd = true → fd < n
  cursors := fun _ => True

theorem hides_noMask (k : Kernel.State) : Hides (noMask k) numbered fun _ => True where
  get? := fun _ _ _ => rfl
  set := by
    rintro n m fd v ⟨hpos, hlt⟩ _ hfd
    refine ⟨rfl, hpos, fun i hi => ?_⟩
    rw [has_set_of_has hfd] at hi
    exact hlt i hi
  cursor? := fun _ _ _ => rfl
  setCursor := fun _ _ _ _ _ => ⟨rfl, trivial⟩

theorem names_true (p : Proc) (call : Syscalls.Call) : Names (fun _ => True) p call := by
  cases call <;> simp [Names]

theorem given_true (p : Proc) (call : Syscall) : Given (fun _ => True) p call := by
  cases call with
  | other call => exact names_true p call
  | _ => trivial

section Bodies

variable {s : Syscalls.State} {pid : ℤ} {p : Proc} (hp : s.io.kernel.processTable.get? pid = some p)
  {call : Syscall} (hcall : ∀ c fate, call ≠ .kernel c fate)
include hp hcall

/-- **The other calls change the filesystem only**, and keep the counter past all handles. -/
theorem kernel_of_body (hn : Numbered s.io.kernel.vfs) :
    (∃ v, (Syscalls.handleSyscall s pid call).1.io.kernel = { s.io.kernel with vfs := v }) ∧
      Numbered (Syscalls.handleSyscall s pid call).1.io.kernel.vfs := by
  rw [io_handleSyscall hp hcall]
  have hunseen := unseen_body (hides_noMask s.io.kernel) s pid (fun _ _ _ _ _ => trivial) (given_true p call)
  obtain ⟨hrun, hcond⟩ := hunseen s.io ⟨⟨hn.pos, hn.lt⟩, trivial⟩
  have hself : hide (noMask s.io.kernel) s.io = s.io := rfl
  rw [hself] at hrun
  have hstate := congrArg (fun r => r.2.kernel) hrun
  exact ⟨⟨_, hstate⟩, ⟨hcond.1.1, hcond.1.2⟩⟩

variable {h : ℤ} (hf : Foreign s pid h) (hgiven : Given (fun fd => ¬ Foreign s pid fd) p call)
  (hn : Numbered s.io.kernel.vfs)

omit hcall in
theorem sees_of_foreign (hf : Foreign s pid h) : Sees (· ≠ h) p := by
  rintro fd entry vfsFd he hv rfl
  exact hf.2 p hp (fd, entry) (JsMap.mem_entries.2 he) hv

omit hp hcall in
theorem names_mono {seen seen' : ℤ → Prop} (hmono : ∀ fd, seen fd → seen' fd) {call : Syscalls.Call}
    (hnames : Names seen p call) : Names seen' p call := by
  cases call with
  | mmap a b d e f => exact fun hd => hmono _ (hnames hd)
  | sendfile a b c d => exact hmono _ hnames
  | readlinkat a path c d => exact fun n hn => hmono _ (hnames n hn)
  | fsRead a b c d e => exact hmono _ hnames
  | fsWrite a b c d e => exact hmono _ hnames
  | fsFstat a => exact hmono _ hnames
  | _ => trivial

omit hp hcall in
theorem given_of_foreign (hf : Foreign s pid h) (hgiven : Given (fun fd => ¬ Foreign s pid fd) p call) :
    Given (· ≠ h) p call := by
  cases call with
  | other call =>
      have hnames : Names (fun fd => ¬ Foreign s pid fd) p call := hgiven
      have hne : ∀ fd, ¬ Foreign s pid fd → fd ≠ h := by
        rintro fd hfd rfl
        exact hfd hf
      exact names_mono hne hnames
  | _ => trivial

include hf hgiven hn

omit hcall in
/-- With a foreign description masked, a call does what it does. -/
theorem masked_body (file : Option OpenFile) (cursor : Option Cursor) :
    Alike (hide (maskAt h file cursor s.io.kernel)) (Holds (condAt h (s.io.cursors.has h)))
      (body s pid p call) (body s pid p call) s.io :=
  unseen_body (hides_maskAt h file cursor s.io.kernel (s.io.cursors.has h)) s pid
    (sees_of_foreign hp hf) (given_of_foreign hf hgiven) s.io ⟨⟨⟨hn.pos, hn.lt⟩, hf.1⟩, rfl⟩

/-- **A foreign description stays**, with its listing. -/
theorem files_of_body :
    (Syscalls.handleSyscall s pid call).1.io.kernel.vfs.openFiles.get? h =
        s.io.kernel.vfs.openFiles.get? h ∧
      (Syscalls.handleSyscall s pid call).1.io.cursors.get? h = s.io.cursors.get? h := by
  -- put what is there in the place of itself
  obtain ⟨hrun, ⟨-, hhas⟩, hlisted⟩ := masked_body hp hf hgiven hn
    (s.io.kernel.vfs.openFiles.get? h) (s.io.cursors.get? h)
  have hself : hide (maskAt h (s.io.kernel.vfs.openFiles.get? h) (s.io.cursors.get? h) s.io.kernel) s.io =
      s.io := by
    unfold hide maskAt onTable
    simp only [JsMap.alter_self]
  rw [hself] at hrun
  rw [io_handleSyscall hp hcall]
  generalize ((body s pid p call).run.run s.io) = r at hrun hhas hlisted ⊢
  have hfile := congrArg (fun r => r.2.kernel.vfs.openFiles.get? h) hrun
  have hcursor := congrArg (fun r => r.2.cursors.get? h) hrun
  refine ⟨?_, ?_⟩
  · obtain ⟨file, hget⟩ := JsMap.has_iff.1 hhas
    refine hfile.trans ((JsMap.get?_alter_self _ _ _).trans ?_)
    rw [hget]
    rfl
  · refine hcursor.trans ((JsMap.get?_alter_self _ _ _).trans ?_)
    have hsame : (r.2.cursors.get? h).isSome = (s.io.cursors.get? h).isSome := hlisted
    cases hget : r.2.cursors.get? h with
    | some cursor => rfl
    | none =>
        rw [hget] at hsame
        exact (Option.isNone_iff_eq_none.1 (by rw [← Option.not_isSome, ← hsame]; rfl)).symm

/-- **Nothing of a foreign description comes into the memory.** -/
theorem memory_of_body (file : OpenFile) (cursor : Option Cursor) :
    (Syscalls.handleSyscall (withFile s h file cursor) pid call).1.io.memory =
      (Syscalls.handleSyscall s pid call).1.io.memory := by
  have hp' : (withFile s h file cursor).io.kernel.processTable.get? pid = some p := hp
  rw [io_handleSyscall hp hcall, io_handleSyscall hp' hcall]
  obtain ⟨hrun, -⟩ := masked_body hp hf hgiven hn (some file) cursor
  exact congrArg (fun r => r.2.memory) hrun

end Bodies

/-! ### Calls on descriptors -/

/-- A call closes a description behind a descriptor of its process, or one that it is given. -/
theorem closes_own {k : Kernel.State} {pid : ℤ} {p : Proc} {fate : Fate} {call : Kernel.Call} {h : ℤ}
    (hcloses : (callEffect k pid p fate call).closes = some h) :
    (∃ fd, handleAt k (pid, fd) = some h) ∨ ∃ a : Int32, call = .fsClose a ∧ a.toInt = h := by
  have hreplace : ∀ (a b : Int32) request, (replaceEffect k pid a b request).closes = some h →
      ∃ fd, handleAt k (pid, fd) = some h := by
    intro a b request hc
    unfold replaceEffect at hc
    split at hc
    · cases hc
    · split at hc
      · cases hc
      · exact ⟨b.toInt, hc⟩
  have hcopy : ∀ (a : Int32) fd, (copyEffect k pid a fd).closes = none := by
    intro a fd
    unfold copyEffect
    split <;> rfl
  have hopen : ∀ path flags mode, (openEffect k pid p path flags mode).closes = none := by
    intro path flags mode
    unfold openEffect
    dsimp only
    split <;> rfl
  cases call with
  | close a => exact .inl ⟨a.toInt, hcloses⟩
  | dup2 a b => exact .inl (hreplace a b none hcloses)
  | dup3 a b c => exact .inl (hreplace a b _ hcloses)
  | fsClose a => exact .inr ⟨a, rfl, Option.some_inj.1 hcloses⟩
  | dup a => simp only [callEffect, hcopy] at hcloses; cases hcloses
  | fcntl a b c =>
      unfold callEffect at hcloses
      dsimp only at hcloses
      split at hcloses
      · rw [hcopy] at hcloses
        cases hcloses
      · cases hcloses
  | «open» path b c => simp only [callEffect, hopen] at hcloses; cases hcloses
  | openat path c d => simp only [callEffect, hopen] at hcloses; cases hcloses
  | fsOpen path b c => simp only [callEffect, hopen] at hcloses; cases hcloses
  | forkSpawn => cases hcloses
  | forkExecSpawn a => cases hcloses
  | pipeCreate => cases hcloses
  | pipeClose a => cases hcloses

section Kernels

variable {s : Syscalls.State} {pid : ℤ} {p : Proc} (hp : s.io.kernel.processTable.get? pid = some p)

/-- The description behind a descriptor is not foreign. -/
theorem not_foreign_of_handleAt {fd h : ℤ} (hh : handleAt s.io.kernel (pid, fd) = some h) :
    ¬ Foreign s pid h := by
  intro hf
  obtain ⟨kind, hkind, hhandle⟩ := Option.bind_eq_some_iff.1 hh
  obtain ⟨entry, hentry, rfl⟩ := Option.map_eq_some_iff.1 hkind
  obtain ⟨p, hp, hfd⟩ := Option.bind_eq_some_iff.1 hentry
  exact hf.2 p hp (fd, entry) (JsMap.mem_entries.2 hfd) hhandle

include hp

/-- **A foreign description stays**, in a call on descriptors. -/
theorem files_of_kernel (hw : Wf s.io.kernel) {call : Kernel.Call} {fate : Fate}
    (howns : OwnsKernel s pid p fate call) {h : ℤ} (hf : Foreign s pid h) :
    (Kernel.handleSyscall s.io.kernel pid call fate).kernel.vfs.openFiles.get? h =
      s.io.kernel.vfs.openFiles.get? h := by
  have htook := took_handleSyscall hw.nextFd_nonneg pid call fate
  rw [effectOf_call hp] at htook
  by_cases hopen : ∃ q vfsFd isDir, (callEffect s.io.kernel pid p fate call).touch = .open q vfsFd isDir
  · obtain ⟨q, vfsFd, isDir, ht⟩ := hopen
    obtain ⟨-, -, file, hset⟩ := htook.opens ht
    have hlt : h < s.io.kernel.vfs.nextFd := hw.numbered.lt h hf.1
    rw [hset, JsMap.get?_set_ne (by omega)]
  · have hcloses := (htook.closesHandle fun q vfsFd isDir ht => hopen ⟨q, vfsFd, isDir, ht⟩).2
    rw [hcloses]
    cases hc : (callEffect s.io.kernel pid p fate call).closes with
    | none => rfl
    | some handle =>
        refine JsMap.get?_delete_ne ?_
        rintro rfl
        rcases closes_own hc with ⟨fd, hfd⟩ | ⟨a, rfl, rfl⟩
        · exact not_foreign_of_handleAt hfd hf
        · exact howns hf

/-- `F_SETFD` writes one flag. -/
theorem kernel_setFlag (a c : Int32) (fate : Fate) :
    (Kernel.handleSyscall s.io.kernel pid (.fcntl a 2 c) fate).kernel =
      match p.fdTable.get? a.toInt with
      | none => s.io.kernel
      | some entry => { s.io.kernel with cloexec := s.io.kernel.cloexec.set entry.cell (hasFlag c 1) } := by
  unfold Kernel.handleSyscall sysFcntl
  rw [hp]
  cases he : p.fdTable.get? a.toInt with
  | none => simp only [he]
  | some entry =>
      simp only [he]
      rfl

theorem flags_of_kernel (hs : Stored s.io.kernel) {call : Kernel.Call} {fate : Fate}
    (howns : OwnsKernel s pid p fate call) {q : ℤ} (hq : q ≠ pid) {fd : ℤ} {entry : FdEntry}
    (he : entryAt s.io.kernel q fd = some entry) :
    (Kernel.handleSyscall s.io.kernel pid call fate).kernel.cloexec[entry.cell]? =
      s.io.kernel.cloexec[entry.cell]? := by
  by_cases hset : ∃ a c, call = .fcntl a 2 c
  · obtain ⟨a, c, rfl⟩ := hset
    rw [kernel_setFlag hp]
    cases ha : p.fdTable.get? a.toInt with
    | none => rfl
    | some own =>
        dsimp only
        rw [List.getElem?_set]
        split
        · next hcell =>
            -- the flag that is written is that of the entry
            rcases howns rfl own ha with hsame | halone
            · rw [← hcell, hsame, if_pos (List.getElem?_eq_some_iff.1 hsame).1]
            · exact absurd hcell.symm (halone q hq fd entry he)
        · rfl
  · have hkept := kept_handleSyscall hp call fate fun a c h => hset ⟨a, c, h⟩
    obtain ⟨new, hnew⟩ := hkept.flags
    rw [← hnew, List.getElem?_append_left (hs q fd entry he)]

/-- The tables of the other processes after a call on descriptors. -/
theorem tables_of_kernel {call : Kernel.Call} {fate : Fate} (howns : OwnsKernel s pid p fate call) {q : ℤ}
    (hq : q ≠ pid) :
    (Kernel.handleSyscall s.io.kernel pid call fate).kernel.processTable.get? q =
        s.io.kernel.processTable.get? q ∨
      s.io.kernel.processTable.get? q = none ∧ childOf s pid (.kernel call fate) = some q := by
  by_cases hset : ∃ a c, call = .fcntl a 2 c
  · obtain ⟨a, c, rfl⟩ := hset
    rw [kernel_setFlag hp]
    left
    cases p.fdTable.get? a.toInt <;> rfl
  · have hkept := kept_handleSyscall hp call fate fun a c h => hset ⟨a, c, h⟩
    by_cases hown : Own s.io.kernel pid p call fate q
    · right
      have hchild : forkChild s.io.kernel p call fate = some q := hown.resolve_left hq
      have hfound : childOf s pid (.kernel call fate) = some q := by
        unfold childOf
        rw [hp]
        exact hchild
      refine ⟨?_, hfound⟩
      cases call with
      | forkSpawn =>
          unfold forkChild at hchild
          dsimp only at hchild
          split at hchild
          · next hmem =>
              obtain rfl := Option.some_inj.1 hchild
              exact (howns hmem).resolve_left hq
          · cases hchild
      | forkExecSpawn a =>
          unfold forkChild at hchild
          dsimp only at hchild
          split at hchild
          · next hmem =>
              obtain rfl := Option.some_inj.1 hchild
              exact (howns hmem).resolve_left hq
          · cases hchild
      | _ => cases hchild
    · exact .inl (hkept.table q hown)

end Kernels

theorem io_forkLocals (s : Syscalls.State) (pid : ℤ) (p : Proc) (call : Kernel.Call) (childPid : ℤ) :
    (forkLocals s pid p call childPid).io = s.io := by
  unfold forkLocals
  split
  · split <;> rfl
  · split <;> rfl
  · rfl

theorem io_kernelCall {s : Syscalls.State} {pid : ℤ} {p : Proc}
    (hp : s.io.kernel.processTable.get? pid = some p) (call : Kernel.Call) (fate : Fate) :
    (Syscalls.handleSyscall s pid (.kernel call fate)).1.io =
      { s.io with kernel := (Kernel.handleSyscall s.io.kernel pid call fate).kernel } := by
  unfold Syscalls.handleSyscall
  rw [hp]
  exact io_forkLocals _ _ _ _ _

/-! ### One call -/

/-- The numbers of descriptions are new ones, and every entry has a flag. -/
structure Inv (s : Syscalls.State) : Prop where
  wf : Wf s.io.kernel
  stored : Stored s.io.kernel

section Call

variable {s : Syscalls.State} (hi : Inv s) {pid : ℤ}

/-- A process that is not there does nothing. -/
theorem handleSyscall_noProc (hp : s.io.kernel.processTable.get? pid = none) (call : Syscall) :
    Syscalls.handleSyscall s pid call = (s, some (-1)) := by
  unfold Syscalls.handleSyscall
  rw [hp]

/-- A call that leaves the handlers' state alone, whatever it is, is isolated. -/
theorem isolated_of_idle {call : Syscall}
    (hidle : ∀ s : Syscalls.State, (Syscalls.handleSyscall s pid call).1.io = s.io) :
    Isolated s pid call (Syscalls.handleSyscall s pid call).1 where
  tables := fun q _ => .inl (by rw [hidle])
  flags := fun q _ fd entry _ => by rw [hidle]
  files := fun h _ => by rw [hidle]; exact ⟨rfl, rfl⟩
  memory := fun h _ file cursor => by
    rw [hidle, hidle]
    rfl

theorem io_fsFstat (s : Syscalls.State) (pid : ℤ) (a : Int32) :
    (Syscalls.handleSyscall s pid (.other (.fsFstat a))).1.io = s.io := by
  cases hp : s.io.kernel.processTable.get? pid with
  | none => rw [handleSyscall_noProc hp]
  | some p =>
      rw [io_handleSyscall hp fun c fate h => by cases h]
      show ((sysFsFstat a).run.run s.io).2 = s.io
      unfold sysFsFstat
      have hget : (getFile a.toInt).run.run s.io =
          (Except.ok (s.io.kernel.vfs.openFiles.get? a.toInt), s.io) := rfl
      rw [ExceptT.run_bind, StateT.run_bind, hget]
      cases s.io.kernel.vfs.openFiles.get? a.toInt with
      | none => rfl
      | some file => rfl

include hi

theorem isolated_of_kernel {p : Proc} (hp : s.io.kernel.processTable.get? pid = some p) {call : Kernel.Call}
    {fate : Fate} (howns : OwnsKernel s pid p fate call) :
    Isolated s pid (.kernel call fate) (Syscalls.handleSyscall s pid (.kernel call fate)).1 where
  tables := by
    intro q hq
    rw [io_kernelCall hp]
    exact tables_of_kernel hp howns hq
  flags := by
    intro q hq fd entry he
    rw [io_kernelCall hp]
    exact flags_of_kernel hp hi.stored howns hq he
  files := by
    intro h hf
    rw [io_kernelCall hp]
    exact ⟨files_of_kernel hp hi.wf howns hf, rfl⟩
  memory := by
    intro h hf file cursor
    have hp' : (withFile s h file cursor).io.kernel.processTable.get? pid = some p := hp
    rw [io_kernelCall hp, io_kernelCall hp']
    rfl

theorem isolated_of_body {p : Proc} (hp : s.io.kernel.processTable.get? pid = some p) {call : Syscall}
    (hcall : ∀ c fate, call ≠ .kernel c fate) (hgiven : Given (fun fd => ¬ Foreign s pid fd) p call) :
    Isolated s pid call (Syscalls.handleSyscall s pid call).1 where
  tables := by
    intro q hq
    obtain ⟨⟨v, hv⟩, -⟩ := kernel_of_body hp hcall hi.wf.numbered
    rw [hv]
    exact .inl rfl
  flags := by
    intro q hq fd entry he
    obtain ⟨⟨v, hv⟩, -⟩ := kernel_of_body hp hcall hi.wf.numbered
    rw [hv]
  files := fun h hf => files_of_body hp hcall hf hgiven hi.wf.numbered
  memory := fun h hf file cursor => by
    rw [memory_of_body hp hcall hf hgiven hi.wf.numbered file cursor]

/-- **A call that meets the condition is isolated.** -/
theorem isolated_of_owns {call : Syscall} (hcare : Careful s (.syscall pid call)) :
    Isolated s pid call (Syscalls.handleSyscall s pid call).1 := by
  cases hp : s.io.kernel.processTable.get? pid with
  | none =>
      rw [handleSyscall_noProc hp]
      refine ⟨fun q _ => .inl rfl, fun q _ fd entry _ => rfl, fun h _ => ⟨rfl, rfl⟩, fun h _ file cursor => ?_⟩
      have hp' : (withFile s h file cursor).io.kernel.processTable.get? pid = none := hp
      rw [handleSyscall_noProc hp']
      rfl
  | some p =>
      have howns := hcare p hp
      cases call with
      | kernel call fate => exact isolated_of_kernel hi hp howns
      | other call =>
          by_cases hstat : ∃ a, call = .fsFstat a
          · obtain ⟨a, rfl⟩ := hstat
            exact isolated_of_idle fun s => io_fsFstat s pid a
          · refine isolated_of_body hi hp (fun c fate h => by cases h) ?_
            cases call with
            | fsFstat a => exact absurd ⟨a, rfl⟩ hstat
            | _ => exact howns
      | _ => exact isolated_of_body hi hp (fun c fate h => by cases h) trivial

end Call

/-! ### Runs -/

section Events

variable {k : Kernel.State} (hs : Stored k)
include hs

theorem stored_handleSyscall (pid : ℤ) (call : Kernel.Call) (fate : Fate) :
    Stored (Kernel.handleSyscall k pid call fate).kernel := by
  cases hp : k.processTable.get? pid with
  | none =>
      unfold Kernel.handleSyscall
      rw [hp]
      exact hs
  | some p =>
      by_cases hset : ∃ a c, call = .fcntl a 2 c
      · obtain ⟨a, c, rfl⟩ := hset
        have hset : Stored (match p.fdTable.get? a.toInt with
            | none => k
            | some entry => { k with cloexec := k.cloexec.set entry.cell (hasFlag c 1) }) := by
          split
          · exact hs
          · intro q fd entry' he
            rw [List.length_set]
            exact hs q fd entry' he
        unfold Kernel.handleSyscall sysFcntl
        rw [hp]
        cases he : p.fdTable.get? a.toInt with
        | none => simpa only [he] using hs
        | some entry =>
            simp only [he] at hset ⊢
            exact hset
      · exact (kept_handleSyscall hp call fate fun a c h => hset ⟨a, c, h⟩).stored hs

theorem stored_removeProc (pid : ℤ) : Stored (removeProc k pid) := by
  intro q fd entry he
  obtain ⟨p, hp, hfd⟩ := Option.bind_eq_some_iff.1 he
  unfold removeProc at hp
  rw [JsMap.get?_delete] at hp
  split at hp
  · cases hp
  · exact hs q fd entry (by rw [entryAt_eq hp]; exact hfd)

theorem stored_registerMemory (pid : ℤ) : Stored (Kernel.registerMemory k pid) :=
  (@kept_updateProc (fun q => q = pid) k pid rfl (fun p => { p with wasmMemory := true })
    fun _ _ _ h => h).stored hs

theorem stored_registerProc (pid : ℤ) : Stored (registerProc k pid) := by
  unfold registerProc
  cases hp : k.processTable.get? pid with
  | some existing =>
      intro q fd entry he
      obtain ⟨p, hp', hfd⟩ := Option.bind_eq_some_iff.1 he
      dsimp only at hp'
      rw [JsMap.get?_set] at hp'
      split at hp'
      · cases hp'
        exact hs pid fd entry (by rw [entryAt_eq hp]; exact hfd)
      · exact hs q fd entry (by rw [entryAt_eq hp']; exact hfd)
  | none =>
      intro q fd entry he
      obtain ⟨p, hp', hfd⟩ := Option.bind_eq_some_iff.1 he
      dsimp only at hp' ⊢
      rw [JsMap.get?_set] at hp'
      rw [List.length_append, List.length_cons, List.length_cons, List.length_cons, List.length_nil]
      split at hp'
      · cases hp'
        simp only [standardFds, JsMap.get?_set, JsMap.get?_empty] at hfd
        split at hfd
        · cases hfd
          show k.cloexec.length + 2 < _
          omega
        · split at hfd
          · cases hfd
            show k.cloexec.length + 1 < _
            omega
          · split at hfd
            · cases hfd
              show k.cloexec.length < _
              omega
            · cases hfd
      · have hlt := hs q fd entry (by rw [entryAt_eq hp']; exact hfd)
        omega

theorem stored_registerWorker (msgPid : ℤ) : Stored (Kernel.registerWorker k msgPid) := by
  have hkept : Kept (fun _ => False) k (registerPid k msgPid).1 := by
    refine kept_congr ?_ ?_
    · unfold registerPid
      dsimp only
      split_ifs <;> rfl
    · unfold registerPid
      dsimp only
      split_ifs <;> rfl
  exact stored_registerProc (hkept.stored hs) _

end Events

theorem kernel_wake (s : Syscalls.State) (pid code : ℤ) : (wake s pid code).io.kernel = s.io.kernel := by
  unfold wake
  split
  · rfl
  · dsimp only
    split
    · rfl
    · split <;> rfl

/-- The step: **every event keeps this**. -/
theorem inv_after {s : Syscalls.State} (hi : Inv s) (ev : Syscalls.Event) : Inv (Syscalls.after s ev) := by
  have hremove : ∀ pid, Inv { s with io := { s.io with kernel := removeProc s.io.kernel pid } } := fun pid =>
    ⟨wf_after hi.wf (.unregisterWorker pid), stored_removeProc hi.stored pid⟩
  cases ev with
  | syscall pid call =>
      show Inv (Syscalls.handleSyscall s pid call).1
      cases hp : s.io.kernel.processTable.get? pid with
      | none =>
          rw [handleSyscall_noProc hp]
          exact hi
      | some p =>
          by_cases hcall : ∃ c fate, call = .kernel c fate
          · obtain ⟨c, fate, rfl⟩ := hcall
            have hio := io_kernelCall hp c fate
            refine ⟨?_, ?_⟩
            · rw [hio]
              exact wf_after hi.wf (.call pid c fate)
            · rw [hio]
              exact stored_handleSyscall hi.stored pid c fate
          · obtain ⟨⟨v, hv⟩, hn⟩ := kernel_of_body hp (fun c fate h => hcall ⟨c, fate, h⟩) hi.wf.numbered
            refine ⟨⟨hn, ?_⟩, ?_⟩
            · rw [hv]
              exact hi.wf.bridge
            · rw [hv]
              exact hi.stored
  | registerWorker pid cwd =>
      exact ⟨wf_after hi.wf (.registerWorker pid), stored_registerWorker hi.stored pid⟩
  | registerMemory pid memory =>
      exact ⟨wf_after hi.wf (.registerMemory pid), stored_registerMemory hi.stored pid⟩
  | unregisterWorker pid => exact hremove pid
  | workerExit pid code =>
      have h := hremove pid
      show Inv (workerExit s pid code)
      unfold workerExit
      refine ⟨?_, ?_⟩
      · rw [kernel_wake]
        exact h.wf
      · rw [kernel_wake]
        exact h.stored
  | guest pid memory => exact ⟨hi.wf, hi.stored⟩

theorem inv_of_starts {s : Syscalls.State} (hs : Syscalls.Starts s) : Inv s where
  wf := wf_of_starts hs.kernel
  stored := by
    intro q fd entry he
    obtain ⟨p, hp, -⟩ := Option.bind_eq_some_iff.1 he
    rw [hs.kernel.noProc q] at hp
    cases hp

/-- **Isolation.**  In every run, every call that meets the condition leaves the tables of the other processes
and the descriptions that its process has no descriptor for as they are, and takes nothing from them. -/
theorem isolates_of_careful {s : Syscalls.State} {tr : List (Syscalls.Event × Syscalls.State)}
    (hs : Syscalls.Starts s) (hrun : IsRun Step s tr) :
    EachStep (fun s ev s' => Careful s ev → Isolates s ev s') s tr := by
  refine eachStep_of_isRun ?_ (inv_of_starts hs) hrun
  rintro s ev s' hi rfl
  refine ⟨inv_after hi ev, fun hcare => ?_⟩
  cases ev with
  | syscall pid call => exact isolated_of_owns hi hcare
  | _ => trivial

/-- Process 1 with a file open, as descriptor and handle 4, and process 2 without any. -/
def opening : List Syscalls.Event :=
  [.registerWorker 1 [],
    .registerMemory 1 ("/f".toList.flatMap String.utf8EncodeChar ++ List.replicate 14 0),
    .syscall 1 (.kernel (.open "/f".toList oCreat 0) .answered), .registerWorker 2 []]

/-- The state after these. -/
def opened : Syscalls.State := opening.foldl Syscalls.after Syscalls.booted

/-- Process 1 has written two bytes to its file, and process 2 has another file open, as handle 5. -/
def sharing : List Syscalls.Event :=
  opening ++
    [.syscall 1 (.other (.fsWrite 4 0 2 0 0)), .registerMemory 2 (List.replicate 16 0),
      .syscall 2 (.kernel (.open "/g".toList oCreat 0) .answered)]

/-- The state after these. -/
def shared : Syscalls.State := sharing.foldl Syscalls.after Syscalls.booted

/-- Process 1 reads its own file by its handle. -/
def readOwn : Syscalls.Event := .syscall 1 (.other (.fsRead 4 8 2 0 0))

theorem isolates_of_careful_readOwn : Isolates shared readOwn (Syscalls.after shared readOwn) := by
  have hcare : Careful shared readOwn := by
    intro p hp
    show ¬ Foreign shared 1 4
    decide +kernel
  have hsteps := isolates_of_careful Syscalls.starts_booted
    (isRun_trace Syscalls.after Syscalls.booted (sharing ++ [readOwn]))
  exact hsteps.2.2.2.2.2.2.2.1 hcare

/-- It gets the two bytes, and the handle of process 2 is foreign to it. -/
example : ((Syscalls.after shared readOwn).io.memory 1).drop 8 = "/f".toList.flatMap String.utf8EncodeChar ++
    List.replicate 6 0 ∧ Foreign shared 1 5 := by
  decide +kernel

/-- Process 2 closes the file by its handle. -/
def closeForeign : Syscalls.Event := .syscall 2 (.kernel (.fsClose 4) .answered)

/-- **A process can close what another has open.** -/
theorem not_isolates_closeForeign :
    ¬ ∀ s tr, Syscalls.Starts s → IsRun Step s tr → EachStep Isolates s tr := by
  intro h
  have hsteps := h _ _ Syscalls.starts_booted
    (isRun_trace Syscalls.after Syscalls.booted (opening ++ [closeForeign]))
  have hisolated : Isolates opened closeForeign (Syscalls.after opened closeForeign) := hsteps.2.2.2.2.1
  have hforeign : Foreign opened 2 4 := by decide +kernel
  have hsame := congrArg Option.isSome (hisolated.files 4 hforeign).1
  have hbefore : (opened.io.kernel.vfs.openFiles.get? 4).isSome = true := by decide +kernel
  have hafter : ((Syscalls.after opened closeForeign).io.kernel.vfs.openFiles.get? 4).isSome = false := by
    decide +kernel
  rw [hbefore, hafter] at hsame
  cases hsame

end Isolation
