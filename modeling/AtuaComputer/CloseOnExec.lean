/-
**Close-on-exec.**

The flag of a descriptor lives in its entry.  Seven calls set it, `F_GETFD` reads it, and a fork-exec is
what it is for: the child should start with those descriptors of its parent whose flag is clear.  Next to
the kernel this module keeps the flags as the calls have asked for them, one for each descriptor of each
process, and compares.

Three things go wrong in the kernel.  An open with `O_CLOEXEC` leaves the flag to the filesystem, and the
entry has none; a fork shares the entries, so that `F_SETFD` in one process sets the flag in the other; and
a fork-exec copies the table as it is.

Main definitions:

* `CloseOnExec.Flags`, `CloseOnExec.Flags.after` — the flags, and what an event sets;
* `CloseOnExec.Answers`, `CloseOnExec.Installs` — what `F_GETFD` returns, and what a fork-exec child starts
  with;
* `CloseOnExec.Careful` — the condition.

Main results:

* `CloseOnExec.call_other` — a process sets the flags of its own descriptors and of its child;
* `CloseOnExec.tracks_after` — what an event that meets the condition keeps;
* `CloseOnExec.law_of_meets` — **so the law holds throughout a run**.
-/

import AtuaComputer.Descriptors
import AtuaComputer.Runs

set_option relaxedAutoImplicit false
set_option autoImplicit false

namespace CloseOnExec

open Runs Kernel VirtualFs Bridge

/-! ### The flags -/

/-- The flag of each descriptor of each process, as it was last set. -/
abbrev Flags := ℤ → ℤ → Bool

namespace Flags

/-- The flag of one descriptor is set. -/
def put (φ : Flags) (pid fd : ℤ) (flag : Bool) : Flags := fun q i =>
  if q = pid ∧ i = fd then flag else φ q i

/-- A child has the flags of its parent. -/
def forked (φ : Flags) (pid childPid : ℤ) : Flags := fun q => if q = childPid then φ pid else φ q

/-- What an open sets, if it opens anything. -/
def opened (φ : Flags) (k : Kernel.State) (pid : ℤ) (p : Proc) (path : Path) (flags mode : Int32) : Flags :=
  let vfsFd := (openFile k.vfs (readCString p path) flags mode).2
  if 0 ≤ vfsFd then φ.put pid vfsFd (hasFlag flags oCloexec) else φ

/-- What a call sets that copies the descriptor `a`, if there is one, to `fd`. -/
def copied (φ : Flags) (pid : ℤ) (p : Proc) (a : Int32) (fd : ℤ) (flag : Bool) : Flags :=
  if p.fdTable.has a.toInt then φ.put pid fd flag else φ

/-- What a call sets. -/
def call (φ : Flags) (k : Kernel.State) (pid : ℤ) (p : Proc) (fate : Fate) : Call → Flags
  | .open path b c | .fsOpen path b c => φ.opened k pid p path b c
  | .openat path c d => φ.opened k pid p path c d
  | .dup a => φ.copied pid p a p.nextFd false
  | .dup2 a b => if a = b then φ else φ.copied pid p a b.toInt false
  | .dup3 a b c => if a = b then φ else φ.copied pid p a b.toInt (hasFlag c oCloexec)
  | .fcntl a b c =>
    if b = 0 ∨ b = 1030 then φ.copied pid p a (p.fdTable.firstFree c.toUInt32.toNat) (b = 1030)
    else if b = 2 then φ.copied pid p a a.toInt (hasFlag c 1)
    else φ
  | .forkSpawn => if p.wasmMemory then φ.forked pid (childPidOf k fate) else φ
  | .forkExecSpawn a => if p.wasmMemory then φ.forked pid a.toInt else φ
  | .pipeCreate =>
    match (request k .pipeCreate fate).2 with
    | none => φ
    | some resp =>
      if resp.err ≠ 0 then φ else (φ.put pid resp.val.toInt false).put pid resp.r1.toInt false
  | .close _ | .fsClose _ | .pipeClose _ => φ

/-- **What an event sets.**  A process that is registered anew starts with clear flags. -/
def after (φ : Flags) (k : Kernel.State) : Event → Flags
  | .call pid c fate =>
    match k.processTable.get? pid with
    | none => φ
    | some p => φ.call k pid p fate c
  | .registerWorker msgPid =>
    let pid := if msgPid ≠ 0 then msgPid else k.nextPid
    if k.processTable.has pid then φ else fun q => if q = pid then fun _ => false else φ q
  | _ => φ

end Flags

/-- The kernel, with the flags as they were last set. -/
structure State where
  kernel : Kernel.State
  flags : Flags

/-- The state after an event. -/
def after (s : State) (ev : Event) : State := ⟨Kernel.after s.kernel ev, s.flags.after s.kernel ev⟩

/-- The step relation. -/
def Step (s : State) (ev : Event) (s' : State) : Prop := s' = after s ev

/-! ### The law -/

/-- `F_GETFD` returns the flag last set for the descriptor in the process. -/
def Answers (s : State) : Prop :=
  ∀ (pid : ℤ) (a c : Int32) (fate : Fate), kindAt s.kernel pid a.toInt ≠ none →
    (handleSyscall s.kernel pid (.fcntl a 1 c) fate).result = if s.flags pid a.toInt then 1 else 0

/-- The table that a fork-exec installs has exactly the parent's descriptors with a clear flag. -/
def Installs (s : State) : Event → State → Prop
  | .call pid (.forkExecSpawn a) _, s' =>
    (s.kernel.processTable.get? pid).any Proc.wasmMemory = true →
      ∀ fd, kindAt s'.kernel a.toInt fd = if s.flags pid fd then none else kindAt s.kernel pid fd
  | _, _ => True

/-- The entry of the descriptor `fd` of `pid` is in no other table and at no other number. -/
def Unshared (k : Kernel.State) (pid fd : ℤ) : Prop :=
  ∀ entry ∈ entryAt k pid fd, ∀ p ∈ k.processTable.entries, ∀ d ∈ p.2.fdTable.entries,
    d.2.cell = entry.cell → (p.1, d.1) = (pid, fd)

/-- The condition on an open: it does not ask for the flag, or opens nothing. -/
def OpensCarefully (k : Kernel.State) (p : Proc) (path : Path) (flags mode : Int32) : Prop :=
  hasFlag flags oCloexec = true → (openFile k.vfs (readCString p path) flags mode).2 < 0

/-- The condition on a call. -/
def CallsCarefully (s : State) (pid : ℤ) (p : Proc) : Call → Prop
  | .open path b c | .fsOpen path b c => OpensCarefully s.kernel p path b c
  | .openat path c d => OpensCarefully s.kernel p path c d
  | .fcntl a b c => b = 2 → s.flags pid a.toInt = hasFlag c 1 ∨ Unshared s.kernel pid a.toInt
  | .forkExecSpawn _ => p.wasmMemory = true → ∀ d ∈ p.fdTable.entries, s.flags pid d.1 = false
  | _ => True

/-- **The condition** on an event: an open does not ask for the flag, `F_SETFD` changes no flag that lives
in a shared entry, and a process that fork-execs has no descriptor with the flag. -/
def Careful (s : State) : Event → Prop
  | .call pid c _ => ∀ p ∈ s.kernel.processTable.get? pid, CallsCarefully s pid p c
  | _ => True

instance (k : Kernel.State) (pid fd : ℤ) : Decidable (Unshared k pid fd) :=
  inferInstanceAs (Decidable (∀ entry ∈ entryAt k pid fd, _))

instance (k : Kernel.State) (p : Proc) (path : Path) (flags mode : Int32) :
    Decidable (OpensCarefully k p path flags mode) :=
  inferInstanceAs (Decidable (_ → _))

instance (s : State) (pid : ℤ) (p : Proc) : (c : Call) → Decidable (CallsCarefully s pid p c)
  | .open path b c | .fsOpen path b c => inferInstanceAs (Decidable (OpensCarefully s.kernel p path b c))
  | .openat path c d => inferInstanceAs (Decidable (OpensCarefully s.kernel p path c d))
  | .fcntl a b c =>
    inferInstanceAs (Decidable (b = 2 → s.flags pid a.toInt = hasFlag c 1 ∨ Unshared s.kernel pid a.toInt))
  | .forkExecSpawn _ =>
    inferInstanceAs (Decidable (p.wasmMemory = true → ∀ d ∈ p.fdTable.entries, s.flags pid d.1 = false))
  | .close _ | .dup _ | .dup2 _ _ | .dup3 _ _ _ | .fsClose _ | .forkSpawn | .pipeCreate | .pipeClose _ =>
    isTrue trivial

instance (s : State) : (ev : Event) → Decidable (Careful s ev)
  | .call pid c _ =>
    inferInstanceAs (Decidable (∀ p ∈ s.kernel.processTable.get? pid, CallsCarefully s pid p c))
  | .registerWorker _ | .registerMemory _ | .unregisterWorker _ | .workerExit _ => isTrue trivial

/-! ### Entries and their flags -/

/-- Every entry has the flag that was last set for its descriptor. -/
def Tracks (k : Kernel.State) (φ : Flags) : Prop :=
  ∀ pid fd, ∀ entry ∈ entryAt k pid fd, k.cloexec[entry.cell]? = some (φ pid fd)

section
variable {k k₁ : Kernel.State} {φ : Flags}

theorem tracks_congr (h : Tracks k φ) (hentry : ∀ q i, entryAt k₁ q i = entryAt k q i)
    (hflags : k₁.cloexec = k.cloexec) : Tracks k₁ φ := by
  intro q i entry he
  rw [hentry] at he
  rw [hflags]
  exact h q i entry he

theorem tracks_closeHandle (h : Tracks k φ) (handle : ℤ) : Tracks (closeHandle k handle) φ :=
  tracks_congr h (fun _ _ => rfl) rfl

theorem tracks_request (h : Tracks k φ) (req : Request) (fate : Fate) :
    Tracks (request k req fate).1 φ := by
  unfold request
  split
  · exact h
  · exact tracks_congr h (fun _ _ => rfl) rfl

theorem tracks_bumpFd (h : Tracks k φ) (pid fd : ℤ) : Tracks (bumpFd k pid fd) φ :=
  tracks_congr h (fun q i => entryAt_bumpFd k pid fd q i) (cloexec_bumpFd k pid fd)

/-- The entries after a removal. -/
theorem entryAt_dropFd (k : Kernel.State) (pid fd q i : ℤ) :
    entryAt (dropFd k pid fd) q i = if q = pid ∧ i = fd then none else entryAt k q i := by
  unfold entryAt dropFd
  rw [get?_updateProc]
  by_cases hq : q = pid
  · subst hq
    rw [if_pos rfl]
    cases k.processTable.get? q with
    | none => simp
    | some p => simp only [true_and, Option.map_some, Option.bind_some, JsMap.get?_delete]
  · simp only [hq, false_and, if_false]

theorem tracks_dropFd (h : Tracks k φ) (pid fd : ℤ) : Tracks (dropFd k pid fd) φ := by
  intro q i entry he
  have hflags : (dropFd k pid fd).cloexec = k.cloexec := cloexec_updateProc k pid _
  rw [entryAt_dropFd] at he
  rw [hflags]
  split at he
  · cases he
  · exact h q i entry he

/-- A new entry has the flag it was made with, and a cell of its own. -/
theorem tracks_putFd (h : Tracks k φ) {pid : ℤ} (hp : k.processTable.has pid = true) (fd : ℤ)
    (kind : FdKind) (flag : Bool) : Tracks (putFd k pid fd kind flag) (φ.put pid fd flag) := by
  intro q i entry he
  rw [entryAt_putFd hp] at he
  rw [cloexec_putFd, Flags.put]
  split at he
  · next hnew =>
      cases he
      rw [if_pos hnew]
      exact List.getElem?_concat_length
  · next hold =>
      rw [if_neg hold]
      have hflag := h q i entry he
      rw [List.getElem?_append_left (List.getElem?_eq_some_iff.1 hflag).1]
      exact hflag

/-- The entries after a fork. -/
theorem entryAt_forkProc {pid : ℤ} {p : Proc} (hp : k.processTable.get? pid = some p) (childPid q i : ℤ) :
    entryAt (forkProc k childPid p) q i = if q = childPid then entryAt k pid i else entryAt k q i := by
  unfold forkProc
  rw [entryAt_eq hp]
  unfold entryAt
  simp only [JsMap.get?_set]
  split <;> rfl

theorem tracks_forkProc (h : Tracks k φ) {pid : ℤ} {p : Proc} (hp : k.processTable.get? pid = some p)
    (childPid : ℤ) : Tracks (forkProc k childPid p) (φ.forked pid childPid) := by
  intro q i entry he
  rw [entryAt_forkProc hp] at he
  unfold Flags.forked
  split at he
  · next hq =>
      rw [if_pos hq]
      exact h pid i entry he
  · next hq =>
      rw [if_neg hq]
      exact h q i entry he

theorem tracks_removeProc (h : Tracks k φ) (pid : ℤ) : Tracks (removeProc k pid) φ := by
  intro q i entry he
  unfold removeProc entryAt at he
  simp only [JsMap.get?_delete] at he
  split at he
  · cases he
  · exact h q i entry he

theorem entryAt_eq_some {pid fd : ℤ} {entry : FdEntry} (h : entryAt k pid fd = some entry) :
    ∃ p, k.processTable.get? pid = some p ∧ p.fdTable.get? fd = some entry :=
  Option.bind_eq_some_iff.1 h

/-- A descriptor with the cell of an unshared one is that descriptor. -/
theorem eq_of_unshared {pid fd q i : ℤ} {entry entry' : FdEntry} (hu : Unshared k pid fd)
    (he : entryAt k pid fd = some entry) (he' : entryAt k q i = some entry')
    (hcell : entry'.cell = entry.cell) : q = pid ∧ i = fd := by
  obtain ⟨p, hp, hfd⟩ := entryAt_eq_some he'
  have heq := hu entry he (q, p) (JsMap.mem_entries.2 hp) (i, entry') (JsMap.mem_entries.2 hfd) hcell
  exact Prod.mk.inj heq

/-- An entry that is in no other table and at no other number gets the flag that is set. -/
theorem tracks_setFlag (h : Tracks k φ) {pid fd : ℤ} {entry : FdEntry} (he : entryAt k pid fd = some entry)
    (flag : Bool) (hcare : φ pid fd = flag ∨ Unshared k pid fd) :
    Tracks { k with cloexec := k.cloexec.set entry.cell flag } (φ.put pid fd flag) := by
  intro q i entry' hentry'
  have he' : entryAt k q i = some entry' := hentry'
  have hflag : k.cloexec[entry'.cell]? = some (φ q i) := h q i entry' he'
  have hlt := (List.getElem?_eq_some_iff.1 hflag).1
  show (k.cloexec.set entry.cell flag)[entry'.cell]? = some ((φ.put pid fd flag) q i)
  unfold Flags.put
  rw [List.getElem?_set]
  by_cases hcell : entry.cell = entry'.cell
  · -- the cell that is written
    rw [if_pos hcell, if_pos (hcell ▸ hlt)]
    rcases hcare with hsame | halone
    · have hown := h pid fd entry he
      rw [hcell, hflag, hsame] at hown
      split
      · rfl
      · exact hown.symm
    · rw [if_pos (eq_of_unshared halone he he' hcell.symm)]
  · rw [if_neg hcell, hflag]
    split
    · next hq =>
        rw [hq.1, hq.2, he] at he'
        cases he'
        exact absurd rfl hcell
    · rfl

theorem tracks_registerPid (h : Tracks k φ) (msgPid : ℤ) : Tracks (registerPid k msgPid).1 φ := by
  refine tracks_congr h (fun q i => ?_) ?_
  · unfold registerPid
    dsimp only
    split_ifs <;> rfl
  · unfold registerPid
    dsimp only
    split_ifs <;> rfl

/-- The three standard descriptors have clear flags. -/
theorem clear_standardFds (flags : List Bool) {i : ℤ} {entry : FdEntry}
    (he : (standardFds flags.length).get? i = some entry) :
    (flags ++ [false, false, false])[entry.cell]? = some false := by
  have hcell : entry.cell = flags.length ∨ entry.cell = flags.length + 1 ∨ entry.cell = flags.length + 2 := by
    unfold standardFds at he
    simp only [JsMap.get?_set, JsMap.get?_empty] at he
    split_ifs at he <;> cases he <;> simp
  rcases hcell with hcell | hcell | hcell <;> rw [hcell, List.getElem?_append_right (by omega)] <;> simp

/-- A process that is registered anew has clear flags; one that was there keeps its own. -/
theorem tracks_registerProc (h : Tracks k φ) (pid : ℤ) :
    Tracks (registerProc k pid)
      (if k.processTable.has pid then φ else fun q => if q = pid then fun _ => false else φ q) := by
  unfold registerProc
  cases hp : k.processTable.get? pid with
  | some existing =>
      rw [if_pos (JsMap.has_iff.2 ⟨existing, hp⟩)]
      refine tracks_congr h (fun q i => ?_) rfl
      unfold entryAt
      simp only [JsMap.get?_set]
      split
      · next hq => rw [hq, hp]; rfl
      · rfl
  | none =>
      rw [if_neg (by rw [JsMap.has_eq_false_iff.2 hp]; decide)]
      intro q i entry he
      unfold entryAt at he
      simp only [JsMap.get?_set] at he ⊢
      split at he
      · next hq =>
          rw [if_pos hq]
          exact clear_standardFds k.cloexec he
      · next hq =>
          rw [if_neg hq]
          have hflag := h q i entry he
          rw [List.getElem?_append_left (List.getElem?_eq_some_iff.1 hflag).1]
          exact hflag

end

/-! ### One call -/

section
variable {k : Kernel.State} {φ : Flags} {pid : ℤ} {p : Proc}

theorem has_of_get? (hp : k.processTable.get? pid = some p) : k.processTable.has pid = true :=
  JsMap.has_iff.2 ⟨p, hp⟩

theorem tracks_openPath (h : Tracks k φ) (hp : k.processTable.get? pid = some p) {path : Path}
    {flags mode : Int32} (hcare : OpensCarefully k p path flags mode) :
    Tracks (openPath k pid p path flags mode).kernel (φ.opened k pid p path flags mode) := by
  unfold openPath Flags.opened
  have hopened (v : Vfs) : Tracks { k with vfs := v } φ := tracks_congr h (fun _ _ => rfl) rfl
  dsimp only
  by_cases hfd : 0 ≤ (openFile k.vfs (readCString p path) flags mode).2
  · -- the flag was not asked for
    have hflag : hasFlag flags oCloexec = false := by
      by_contra hne
      exact absurd hfd (Int.not_le.2 (hcare (by simpa using hne)))
    rw [if_pos hfd, if_pos hfd, hflag]
    refine tracks_bumpFd (tracks_putFd ?_ ?_ _ _ _) _ _
    · exact hopened _
    · exact has_of_get? hp
  · rw [if_neg hfd, if_neg hfd]
    exact hopened _

theorem tracks_sysClose (h : Tracks k φ) (a : Int32) (fate : Fate) :
    Tracks (sysClose k pid p a fate).kernel φ := by
  unfold sysClose
  split
  · exact h
  · next entry he =>
      split
      · exact tracks_dropFd (tracks_closeHandle h _) _ _
      · exact tracks_dropFd (tracks_closeHandle h _) _ _
      · exact tracks_dropFd (tracks_request h _ _) _ _
      · exact tracks_dropFd h _ _

theorem tracks_sysPipeClose (h : Tracks k φ) (a : Int32) (fate : Fate) :
    Tracks (sysPipeClose k pid p a fate).kernel φ := by
  unfold sysPipeClose
  split
  · exact h
  · next entry he =>
      split
      · exact tracks_dropFd (tracks_request h _ _) _ _
      · exact tracks_dropFd h _ _

/-- A copy of a descriptor to a number. -/
theorem tracks_copy (h : Tracks k φ) (hp : k.processTable.has pid = true) (kind : FdKind) (fd : ℤ)
    (flag : Bool) : Tracks (bumpFd (putFd k pid fd kind flag) pid fd) (φ.put pid fd flag) :=
  tracks_bumpFd (tracks_putFd h hp fd kind flag) pid fd

theorem copied_of_some {a : Int32} {entry : FdEntry} (he : p.fdTable.get? a.toInt = some entry) (fd : ℤ)
    (flag : Bool) : φ.copied pid p a fd flag = φ.put pid fd flag :=
  if_pos (JsMap.has_iff.2 ⟨entry, he⟩)

theorem copied_of_none {a : Int32} (he : p.fdTable.get? a.toInt = none) (fd : ℤ) (flag : Bool) :
    φ.copied pid p a fd flag = φ :=
  if_neg (by rw [JsMap.has_eq_false_iff.2 he]; decide)

theorem tracks_sysDup (h : Tracks k φ) (hp : k.processTable.get? pid = some p) (a : Int32) :
    Tracks (sysDup k pid p a).kernel (φ.copied pid p a p.nextFd false) := by
  unfold sysDup
  cases he : p.fdTable.get? a.toInt with
  | none =>
      rw [copied_of_none he]
      exact h
  | some entry =>
      rw [copied_of_some he]
      exact tracks_copy h (has_of_get? hp) _ _ _

theorem tracks_closeExisting (h : Tracks k φ) (existing : FdEntry) : Tracks (closeExisting k existing) φ := by
  unfold closeExisting
  split
  · exact tracks_closeHandle h _
  · exact tracks_closeHandle h _
  · exact h

theorem has_closeExisting (k : Kernel.State) (existing : FdEntry) (q : ℤ) :
    (closeExisting k existing).processTable.has q = k.processTable.has q := by
  unfold closeExisting
  split <;> rfl

theorem tracks_sysDup2 (h : Tracks k φ) (hp : k.processTable.get? pid = some p) (a b : Int32) :
    Tracks (sysDup2 k pid p a b).kernel (if a = b then φ else φ.copied pid p a b.toInt false) := by
  unfold sysDup2
  by_cases hab : a = b
  · rw [if_pos hab, if_pos hab]
    exact h
  · rw [if_neg hab, if_neg hab]
    cases he : p.fdTable.get? a.toInt with
    | none =>
        rw [copied_of_none he]
        exact h
    | some entry =>
        rw [copied_of_some he]
        refine tracks_copy ?_ ?_ _ _ _
        · split
          · exact h
          · exact tracks_dropFd (tracks_closeExisting h _) _ _
        · split
          · exact has_of_get? hp
          · rw [has_dropFd, has_closeExisting]
            exact has_of_get? hp

theorem tracks_sysDup3 (h : Tracks k φ) (hp : k.processTable.get? pid = some p) (a b c : Int32)
    (fate : Fate) :
    Tracks (sysDup3 k pid p a b c fate).kernel
      (if a = b then φ else φ.copied pid p a b.toInt (hasFlag c oCloexec)) := by
  unfold sysDup3
  by_cases hab : a = b
  · rw [if_pos hab, if_pos hab]
    exact h
  · rw [if_neg hab, if_neg hab]
    cases he : p.fdTable.get? a.toInt with
    | none =>
        rw [copied_of_none he]
        exact h
    | some entry =>
        rw [copied_of_some he]
        refine tracks_copy ?_ ?_ _ _ _
        · split
          · exact h
          · split
            · exact tracks_dropFd (tracks_request h _ _) _ _
            · exact tracks_dropFd (tracks_closeExisting h _) _ _
        · split
          · exact has_of_get? hp
          · split
            · rw [has_dropFd, has_request]
              exact has_of_get? hp
            · rw [has_dropFd, has_closeExisting]
              exact has_of_get? hp

theorem tracks_sysFcntl (h : Tracks k φ) (hp : k.processTable.get? pid = some p) {a b c : Int32}
    (hcare : b = 2 → φ pid a.toInt = hasFlag c 1 ∨ Unshared k pid a.toInt) (fate : Fate) :
    Tracks (sysFcntl k pid p a b c).kernel (φ.call k pid p fate (.fcntl a b c)) := by
  unfold sysFcntl Flags.call
  dsimp only
  cases he : p.fdTable.get? a.toInt with
  | none =>
      simp only [copied_of_none he]
      split_ifs <;> exact h
  | some entry =>
      simp only [copied_of_some he]
      by_cases hdup : b = 0 ∨ b = 1030
      · rw [if_pos hdup, if_pos hdup]
        exact tracks_copy h (has_of_get? hp) _ _ _
      · rw [if_neg hdup, if_neg hdup]
        by_cases hget : b = 1
        · have hset : ¬ b = 2 := by
            rw [hget]
            decide
          rw [if_pos hget, if_neg hset]
          exact h
        · rw [if_neg hget]
          by_cases hset : b = 2
          · rw [if_pos hset, if_pos hset]
            exact tracks_setFlag h (by rw [entryAt_eq hp, he]) _ (hcare hset)
          · rw [if_neg hset, if_neg hset]
            split
            · split <;> exact h
            · exact h

theorem tracks_sysForkSpawn (h : Tracks k φ) (hp : k.processTable.get? pid = some p) (fate : Fate) :
    Tracks (sysForkSpawn k pid p fate).kernel (φ.call k pid p fate .forkSpawn) := by
  unfold sysForkSpawn Flags.call request childPidOf
  cases k.bridge with
  | none =>
      dsimp only
      split
      · refine tracks_forkProc ?_ ?_ _
        · exact tracks_congr h (fun _ _ => rfl) rfl
        · exact hp
      · exact tracks_congr h (fun _ _ => rfl) rfl
  | some b =>
      dsimp only
      split
      · refine tracks_forkProc ?_ ?_ _
        · exact tracks_congr h (fun _ _ => rfl) rfl
        · exact hp
      · exact tracks_congr h (fun _ _ => rfl) rfl

theorem tracks_sysForkExecSpawn (h : Tracks k φ) (hp : k.processTable.get? pid = some p) (a : Int32)
    (fate : Fate) :
    Tracks (sysForkExecSpawn k pid p a).kernel (φ.call k pid p fate (.forkExecSpawn a)) := by
  have hcount (n : ℤ) : Tracks (if k.nextPid ≤ n then { k with nextPid := n + 1 } else k) φ := by
    split
    · exact tracks_congr h (fun _ _ => rfl) rfl
    · exact h
  have hproc (n : ℤ) :
      (if k.nextPid ≤ n then { k with nextPid := n + 1 } else k).processTable.get? pid = some p := by
    split <;> exact hp
  unfold sysForkExecSpawn Flags.call
  dsimp only
  split
  · exact tracks_forkProc (hcount _) (hproc _) _
  · exact hcount _

theorem tracks_sysPipeCreate (h : Tracks k φ) (hp : k.processTable.get? pid = some p) (fate : Fate) :
    Tracks (sysPipeCreate k pid fate).kernel (φ.call k pid p fate .pipeCreate) := by
  have hreq := tracks_request h .pipeCreate fate
  have hhas := has_request k .pipeCreate fate pid
  unfold sysPipeCreate Flags.call
  revert hreq hhas
  generalize request k .pipeCreate fate = out
  obtain ⟨k', reply⟩ := out
  intro hreq hhas
  have hp' : k'.processTable.has pid = true := hhas.trans (has_of_get? hp)
  cases reply with
  | none => exact hreq
  | some resp =>
      dsimp only
      split
      · exact hreq
      · refine tracks_putFd (tracks_putFd hreq hp' _ _ _) ?_ _ _ _
        rw [has_putFd]
        exact hp'

/-- **A call that meets the condition** leaves every entry with the flag that was last set. -/
theorem tracks_handleSyscall (h : Tracks k φ) (hp : k.processTable.get? pid = some p) (c : Call) (fate : Fate)
    (hcare : CallsCarefully ⟨k, φ⟩ pid p c) :
    Tracks (handleSyscall k pid c fate).kernel (φ.call k pid p fate c) := by
  unfold handleSyscall
  rw [hp]
  cases c with
  | «open» path b c => exact tracks_openPath h hp hcare
  | close a => exact tracks_sysClose h a fate
  | dup a => exact tracks_sysDup h hp a
  | dup2 a b => exact tracks_sysDup2 h hp a b
  | fcntl a b c => exact tracks_sysFcntl h hp hcare fate
  | openat path c d => exact tracks_openPath h hp hcare
  | dup3 a b c => exact tracks_sysDup3 h hp a b c fate
  | fsOpen path b c => exact tracks_openPath h hp hcare
  | fsClose a => exact tracks_dropFd (tracks_closeHandle h _) _ _
  | forkSpawn => exact tracks_sysForkSpawn h hp fate
  | forkExecSpawn a => exact tracks_sysForkExecSpawn h hp a fate
  | pipeCreate => exact tracks_sysPipeCreate h hp fate
  | pipeClose a => exact tracks_sysPipeClose h a fate

end

/-- A call of one process sets no flag of another, but for a child that it forks. -/
theorem call_other (φ : Flags) (k : Kernel.State) {pid q : ℤ} (p : Proc) (fate : Fate) (c : Call)
    (hq : q ≠ pid) :
    φ.call k pid p fate c q = φ q ∨ c = .forkSpawn ∧ q = childPidOf k fate ∨
      ∃ a, c = .forkExecSpawn a ∧ q = a.toInt := by
  have hput (φ : Flags) (fd : ℤ) (flag : Bool) : φ.put pid fd flag q = φ q := by
    funext i
    exact if_neg fun h => hq h.1
  have hcopied (a : Int32) (fd : ℤ) (flag : Bool) : φ.copied pid p a fd flag q = φ q := by
    unfold Flags.copied
    split
    · exact hput _ _ _
    · rfl
  have hopened (path : Path) (flags mode : Int32) : φ.opened k pid p path flags mode q = φ q := by
    unfold Flags.opened
    split
    · exact hput _ _ _
    · rfl
  cases c with
  | «open» path b c => exact .inl (hopened path b c)
  | close a => exact .inl rfl
  | dup a => exact .inl (hcopied _ _ _)
  | dup2 a b =>
      unfold Flags.call
      dsimp only
      split
      · exact .inl rfl
      · exact .inl (hcopied _ _ _)
  | fcntl a b c =>
      unfold Flags.call
      dsimp only
      split
      · exact .inl (hcopied _ _ _)
      · split
        · exact .inl (hcopied _ _ _)
        · exact .inl rfl
  | openat path c d => exact .inl (hopened path c d)
  | dup3 a b c =>
      unfold Flags.call
      dsimp only
      split
      · exact .inl rfl
      · exact .inl (hcopied _ _ _)
  | fsOpen path b c => exact .inl (hopened path b c)
  | fsClose a => exact .inl rfl
  | forkSpawn =>
      by_cases hchild : q = childPidOf k fate
      · exact .inr (.inl ⟨rfl, hchild⟩)
      · unfold Flags.call
        dsimp only
        split
        · exact .inl (if_neg hchild)
        · exact .inl rfl
  | forkExecSpawn a =>
      by_cases hchild : q = a.toInt
      · exact .inr (.inr ⟨a, rfl, hchild⟩)
      · unfold Flags.call
        dsimp only
        split
        · exact .inl (if_neg hchild)
        · exact .inl rfl
  | pipeCreate =>
      unfold Flags.call
      dsimp only
      cases (request k .pipeCreate fate).2 with
      | none => exact .inl rfl
      | some resp =>
          dsimp only
          split
          · exact .inl rfl
          · exact .inl (by rw [hput, hput])
  | pipeClose a => exact .inl rfl

/-! ### Runs -/

/-- The step: **an event that meets the condition** leaves every entry with the flag that was last set. -/
theorem tracks_after {s : State} (h : Tracks s.kernel s.flags) {ev : Event} (hcare : Careful s ev) :
    Tracks (after s ev).kernel (after s ev).flags := by
  cases ev with
  | call pid c fate =>
      unfold after Kernel.after Flags.after
      dsimp only
      cases hp : s.kernel.processTable.get? pid with
      | none =>
          unfold handleSyscall
          rw [hp]
          exact h
      | some p => exact tracks_handleSyscall h hp c fate (hcare p hp)
  | registerWorker msgPid =>
      have hpid := tracks_registerProc (tracks_registerPid h msgPid) (registerPid s.kernel msgPid).2
      have hhas : (registerPid s.kernel msgPid).1.processTable = s.kernel.processTable := by
        unfold registerPid
        dsimp only
        split_ifs <;> rfl
      rw [hhas] at hpid
      exact hpid
  | registerMemory pid =>
      exact tracks_congr h
        (entryAt_updateProc (f := fun p => { p with wasmMemory := true }) fun _ => rfl)
        (cloexec_updateProc _ _ _)
  | unregisterWorker pid => exact tracks_removeProc h pid
  | workerExit pid => exact tracks_removeProc h pid

theorem answers_of_tracks {s : State} (h : Tracks s.kernel s.flags) : Answers s := by
  intro pid a c fate hkind
  obtain ⟨entry, he⟩ : ∃ entry, entryAt s.kernel pid a.toInt = some entry := by
    cases hentry : entryAt s.kernel pid a.toInt with
    | none => exact absurd (by rw [kindAt, hentry]; rfl) hkind
    | some entry => exact ⟨entry, rfl⟩
  obtain ⟨p, hp, hfd⟩ := entryAt_eq_some he
  have hflag : s.kernel.cloexec.getD entry.cell false = s.flags pid a.toInt := by
    rw [List.getD_eq_getElem?_getD, h pid a.toInt entry he]
    rfl
  have hresult : (handleSyscall s.kernel pid (.fcntl a 1 c) fate).result =
      if s.kernel.cloexec.getD entry.cell false then 1 else 0 := by
    unfold handleSyscall sysFcntl
    rw [hp]
    simp only [hfd]
    rfl
  rw [hresult, hflag]

/-- A parent without flags passes on its whole table. -/
theorem installs_after {s : State} {ev : Event} (hcare : Careful s ev) : Installs s ev (after s ev) := by
  unfold Installs
  split
  · next pid a fate =>
      intro hmem fd
      obtain ⟨p, hp, hwasm⟩ := (Option.any_eq_true _ _).1 hmem
      have hclear := hcare p hp hwasm
      have hkind : kindAt (after s (.call pid (.forkExecSpawn a) fate)).kernel a.toInt fd =
          kindAt s.kernel pid fd := by
        unfold after Kernel.after handleSyscall sysForkExecSpawn
        simp only [hp, hwasm, if_true]
        split
        · have hp' : { s.kernel with nextPid := a.toInt + 1 }.processTable.get? pid = some p := hp
          rw [kindAt_forkProc hp', if_pos rfl]
          rfl
        · rw [kindAt_forkProc hp, if_pos rfl]
      rw [hkind]
      cases hfd : p.fdTable.get? fd with
      | none => rw [kindAt_noEntry hp hfd, ite_self]
      | some entry =>
          have hflag : s.flags pid fd = false := hclear (fd, entry) (JsMap.mem_entries.2 hfd)
          rw [hflag]
          rfl
  · trivial

theorem tracks_of_starts {k : Kernel.State} (hk : Starts k) (φ : Flags) : Tracks k φ := by
  intro pid fd entry he
  obtain ⟨p, hp, _⟩ := entryAt_eq_some he
  rw [hk.noProc pid] at hp
  cases hp

/-- **The close-on-exec law.**  In a run whose events all meet the condition, `F_GETFD` returns the flag
last set for the descriptor in its process in every state, and every fork-exec installs exactly the
descriptors whose flag is clear. -/
theorem law_of_meets {k : Kernel.State} (φ : Flags) {tr : List (Event × State)} (hk : Starts k)
    (hrun : IsRun Step ⟨k, φ⟩ tr) (hcare : Meets Careful ⟨k, φ⟩ tr) :
    Throughout Answers ⟨k, φ⟩ tr ∧ EachStep Installs ⟨k, φ⟩ tr := by
  have hstart : Tracks k φ := tracks_of_starts hk φ
  have htracks : Throughout (fun s : State => Tracks s.kernel s.flags) ⟨k, φ⟩ tr := by
    refine throughout_of_meets ?_ hstart hrun hcare
    rintro s ev s' hs hG rfl
    exact tracks_after hs hG
  refine ⟨htracks.mono fun s hs => answers_of_tracks hs, ?_⟩
  refine eachStep_of_meets (I := fun s : State => Tracks s.kernel s.flags) ?_ hstart hrun hcare
  rintro s ev s' hs hG rfl
  exact ⟨tracks_after hs hG, installs_after hG⟩

/-- A process marks a descriptor, copies it, marks the copy and unmarks it again, closes the marked one, and
fork-execs. -/
def markedAndClosed : List Event :=
  [.registerWorker 1, .registerMemory 1, .call 1 (.open "/dev/null".toList 0 0) .answered,
    .call 1 (.fcntl 4 2 1) .answered, .call 1 (.dup3 4 9 0x80000) .answered,
    .call 1 (.fcntl 9 2 0) .answered, .call 1 (.close 4) .answered, .call 1 (.forkExecSpawn 2) .answered]

/-- No process has a flag yet. -/
def noFlags : Flags := fun _ _ => false

theorem law_of_meets_markedAndClosed :
    Throughout Answers ⟨booted, noFlags⟩ (trace after ⟨booted, noFlags⟩ markedAndClosed) ∧
      EachStep Installs ⟨booted, noFlags⟩ (trace after ⟨booted, noFlags⟩ markedAndClosed) :=
  law_of_meets noFlags starts_booted (isRun_trace after ⟨booted, noFlags⟩ markedAndClosed) (by decide)

/-- A process marks its standard output and fork-execs. -/
def markedPassedOn : List Event :=
  [.registerWorker 1, .registerMemory 1, .call 1 (.fcntl 1 2 1) .answered,
    .call 1 (.forkExecSpawn 2) .answered]

/-- Not so: the child starts with the marked descriptor. -/
theorem not_law_markedPassedOn :
    ¬ ∀ (k : Kernel.State) (φ : Flags) (tr : List (Event × State)), Starts k → IsRun Step ⟨k, φ⟩ tr →
      Throughout Answers ⟨k, φ⟩ tr ∧ EachStep Installs ⟨k, φ⟩ tr := by
  intro h
  have hlaw := h booted noFlags _ starts_booted (isRun_trace after ⟨booted, noFlags⟩ markedPassedOn)
  obtain ⟨-, -, -, hlast, -⟩ := hlaw.2
  have hfd := hlast (by decide) 1
  exact absurd hfd (by decide)

end CloseOnExec
