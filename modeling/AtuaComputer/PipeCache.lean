/-
**The worker's cache of pipe descriptors.**

A worker reads and writes pipes without the kernel, through the views it keeps in `localPipeFds`.  The
cache follows the kernel's table of descriptors in two ways: `host_syscall` updates it before some of the
calls it passes on, and the kernel announces some of its changes, in messages that reach the worker when it
has left the guest.  Neither covers all calls that change the table, and a message may arrive after the
table has changed again.

The cache of a process agrees with the table throughout a run in exactly the runs in which every call
concerns pipes only where both sides follow it, and every message is still true when it is received.

Main definitions:

* `PipeCache.viewAt` — the pipe and the end of a cached view;
* `PipeCache.Coherent` — the cache agrees with the table;
* `PipeCache.Own` — what a process does, and the messages on their way;
* `PipeCache.Follows` — the condition.

Main results:

* `PipeCache.coherent_call_iff` — one call;
* `PipeCache.coherent_receive_iff` — one message;
* `PipeCache.coherent_iff_follows` — the runs in which the cache agrees throughout.
-/

import AtuaComputer.PipeNames

set_option relaxedAutoImplicit false
set_option autoImplicit false

namespace PipeCache

open Kernel Bridge Runs PipeNames

/-! ### The cache -/

/-- The ring and the end that a cached view is for. -/
def ringOf (view : View) : ℤ × End := (view.offset, view.fdEnd)

/-- What a cache holds for a descriptor. -/
def cachedAt (cache : JsMap ℤ View) (fd : ℤ) : Option (ℤ × End) := (cache.get? fd).map ringOf

/-- What the worker of a process holds for a descriptor. -/
def viewAt (w : World) (pid fd : ℤ) : Option (ℤ × End) :=
  (w.executionWorkers.get? pid).bind fun u => cachedAt u.localPipeFds fd

/-- The cache has a view for a descriptor exactly if the kernel's entry is a pipe, of the same ring and for
the same end. -/
def Coherent (pid : ℤ) (w : World) : Prop := ∀ fd, viewAt w pid fd = pipeAt w.kernel (pid, fd)

/-! ### Runs of one process -/

/-- What the process `pid` does with its descriptors, and the ways of the messages. -/
def Own (pid : ℤ) : PipeNames.Event → Prop
  | .host q call _ => q = pid ∧ isHost call = true
  | .read q _ | .write q _ | .workerReceives q _ => q = pid
  | .mainReceives => True
  | _ => False

/-- The step relation of these events. -/
def OwnStep (pid : ℤ) (w : World) (ev : PipeNames.Event) (w' : World) : Prop := Own pid ev ∧ Step w ev w'

/-- An announcement is of new views or of removed ones. -/
def Announces (updates : List PipeView) (removes : List ℤ) : Prop :=
  updates = [] ∨ removes = [] ∧ (updates.map PipeView.fd).Nodup

/-- A message of the kernel that announces. -/
def AnnouncesPost : Post → Prop
  | .pipeFdCache _ updates removes => Announces updates removes
  | .forkRequest _ _ _ _ => False

/-- A message to a worker that announces. -/
def AnnouncesMessage : WorkerMessage → Prop
  | .pipeFdCache updates removes => Announces updates removes
  | _ => False

/-- What every event of a process keeps: it has a worker, and all messages on their way announce. -/
structure Inv (pid : ℤ) (w : World) : Prop where
  wf : Kernel.Wf w.kernel
  worker : w.executionWorkers.has pid = true
  posted : ∀ msg ∈ w.posted, AnnouncesPost msg.post
  inbox : ∀ u, w.executionWorkers.get? pid = some u → ∀ msg ∈ u.inbox, AnnouncesMessage msg

/-! ### The condition -/

/-- A copy of the descriptor `a` under the number `fd` leaves the pipes of the table as they are. -/
def CopyFollows (k : Kernel.State) (pid a fd : ℤ) : Prop :=
  kindAt k pid a ≠ none → pipeAt k (pid, fd) = pipeAt k (pid, a)

/-- A call on descriptors that changes the pipes of the table only as the worker does.  `dup` and `F_DUPFD`
make no descriptor for a pipe, and `dup` and `open` put nothing in a pipe's place; `dup2` and `dup3` put only
a pipe in a pipe's place; and `fs_close` closes no pipe. -/
def CallFollows (k : Kernel.State) (pid : ℤ) : Call → Prop
  | .open path b c | .openat path b c | .fsOpen path b c =>
    ∀ p, k.processTable.get? pid = some p → 0 ≤ (VirtualFs.openFile k.vfs (readCString p path) b c).2 →
      pipeAt k (pid, k.vfs.nextFd) = none
  | .dup a => ∀ p, k.processTable.get? pid = some p → CopyFollows k pid a.toInt p.nextFd
  | .fcntl a b _ => b = 0 ∨ b = 1030 → pipeAt k (pid, a.toInt) = none
  | .dup2 a b | .dup3 a b _ =>
    kindAt k pid a.toInt ≠ none → pipeAt k (pid, b.toInt) ≠ none → pipeAt k (pid, a.toInt) ≠ none
  | .fsClose a => pipeAt k (pid, a.toInt) = none
  | _ => True

/-- An announcement that is still true of the table. -/
def StillTrue (k : Kernel.State) (pid : ℤ) (updates : List PipeView) (removes : List ℤ) : Prop :=
  (∀ v ∈ updates, pipeAt k (pid, v.fd) = some (v.ringOffset, v.fdEnd)) ∧
    ∀ fd ∈ removes, pipeAt k (pid, fd) = none

/-- The condition: a call that both sides follow, or a message that is still true when it is received. -/
def Follows (pid : ℤ) (w : World) : PipeNames.Event → Prop
  | .host _ call _ => CallFollows w.kernel pid call
  | .workerReceives _ _ =>
    ∀ u, w.executionWorkers.get? pid = some u → ∀ updates removes inbox,
      u.inbox = .pipeFdCache updates removes :: inbox → StillTrue w.kernel pid updates removes
  | _ => True

/-! ### Calls -/

/-- A table that agrees with itself after one entry is written had that entry. -/
theorem forall_eq_update_iff {V : Type} (table : ℤ → Option V) (n : ℤ) (x : Option V) :
    (∀ fd, table fd = if fd = n then x else table fd) ↔ table n = x := by
  constructor
  · intro h
    simpa using h n
  · intro h fd
    split_ifs with hfd
    · rw [hfd, h]
    · rfl

/-- The cache after a call that copies a number. -/
theorem cacheSyscall_copy (cache : JsMap ℤ View) {call : Call} {a b : Int32}
    (hcall : call = .dup2 a b ∨ ∃ c, call = .dup3 a b c) :
    cacheSyscall cache call =
      match cache.get? a.toInt with
      | none => cache
      | some view => cache.set b.toInt view := by
  rcases hcall with rfl | ⟨c, rfl⟩ <;> rfl

/-- A copy has what the number that is copied had, if that is in the cache. -/
theorem cachedAt_cacheSyscall_copy (cache : JsMap ℤ View) {call : Call} {a b : Int32}
    (hcall : call = .dup2 a b ∨ ∃ c, call = .dup3 a b c) (fd : ℤ) :
    cachedAt (cacheSyscall cache call) fd =
      if fd = b.toInt ∧ cachedAt cache a.toInt ≠ none then cachedAt cache a.toInt
      else cachedAt cache fd := by
  rw [cacheSyscall_copy cache hcall]
  cases ha : cache.get? a.toInt with
  | none => simp [cachedAt, ha]
  | some view =>
      simp only [cachedAt, ha, JsMap.get?_set, Option.map_some, ne_eq, reduceCtorEq, not_false_eq_true,
        and_true]
      split_ifs <;> rfl

theorem cachedAt_cacheSyscall_close (cache : JsMap ℤ View) (a : Int32) (fd : ℤ) :
    cachedAt (cacheSyscall cache (.close a)) fd = if fd = a.toInt then none else cachedAt cache fd := by
  simp only [cacheSyscall, cachedAt, JsMap.get?_delete]
  split_ifs <;> rfl

/-- The pipes after an effect. -/
theorem pipeAt_took {k k' : Kernel.State} {e : Effect} {fate : Fate} (h : Took k e fate k') (q i : ℤ) :
    pipeAt k' (q, i) = (e.touch.lookup k q i).bind FdKind.pipe? := by
  rw [pipeAt, refs, h.kindAt]

theorem pipeAt_put {k k' : Kernel.State} {e : Effect} {fate : Fate} (h : Took k e fate k') {pid n : ℤ}
    {kind : FdKind} (he : e.touch = .put pid n kind) (fd : ℤ) :
    pipeAt k' (pid, fd) = if fd = n then kind.pipe? else pipeAt k (pid, fd) := by
  rw [pipeAt_took h, he, Touch.lookup, pipeAt, refs]
  simp only [true_and]
  split_ifs <;> rfl

theorem pipeAt_drop {k k' : Kernel.State} {e : Effect} {fate : Fate} (h : Took k e fate k') {pid n : ℤ}
    (he : e.touch = .drop pid n) (fd : ℤ) :
    pipeAt k' (pid, fd) = if fd = n then none else pipeAt k (pid, fd) := by
  rw [pipeAt_took h, he, Touch.lookup, pipeAt, refs]
  simp only [true_and]
  split_ifs <;> rfl

theorem pipeAt_unchanged {k k' : Kernel.State} {e : Effect} {fate : Fate} (h : Took k e fate k')
    (he : e.touch = .nothing) (s : ℤ × ℤ) : pipeAt k' s = pipeAt k s := by
  rw [pipeAt_took h, he]
  rfl

theorem pipeAt_of_kind {k : Kernel.State} {pid i : ℤ} {kind : FdKind} (h : kindAt k pid i = some kind) :
    pipeAt k (pid, i) = kind.pipe? := by
  rw [pipeAt, refs, h]
  rfl

theorem pipeAt_of_noKind {k : Kernel.State} {pid i : ℤ} (h : kindAt k pid i = none) :
    pipeAt k (pid, i) = none := by
  rw [pipeAt, refs, h]
  rfl

section Call

variable {k k' : Kernel.State} {pid : ℤ} {fate : Fate}

/-- Copying under a new number, where the worker does nothing. -/
theorem copy_iff {a : Int32} {n : ℤ} (h : Took k (copyEffect k pid a n) fate k') :
    (∀ fd, pipeAt k (pid, fd) = pipeAt k' (pid, fd)) ↔ CopyFollows k pid a.toInt n := by
  unfold CopyFollows
  cases hkind : kindAt k pid a.toInt with
  | none =>
      rw [copyEffect, hkind] at h
      refine iff_of_true (fun fd => (pipeAt_unchanged h rfl (pid, fd)).symm) ?_
      intro hne
      exact absurd rfl hne
  | some kind =>
      rw [copyEffect, hkind] at h
      simp only [pipeAt_put h rfl, pipeAt_of_kind hkind]
      rw [forall_eq_update_iff fun fd => pipeAt k (pid, fd)]
      simp

/-- A copy under a free number leaves the pipes as they are exactly if it is no copy of a pipe. -/
theorem copyFollows_firstFree {p : Proc} (hp : k.processTable.get? pid = some p) (a i : ℤ) :
    CopyFollows k pid a (p.fdTable.firstFree i) ↔ pipeAt k (pid, a) = none := by
  have hfree : pipeAt k (pid, p.fdTable.firstFree i) = none :=
    pipeAt_of_noKind (kindAt_noEntry hp (JsMap.has_eq_false_iff.1 (JsMap.has_firstFree p.fdTable i)))
  unfold CopyFollows
  rw [hfree]
  constructor
  · intro h
    by_cases ha : kindAt k pid a = none
    · exact pipeAt_of_noKind ha
    · exact (h ha).symm
  · exact fun h _ => h.symm

/-- Copying over a descriptor, where the worker copies its view. -/
theorem replace_iff {a b : Int32} {request : Option Request}
    (h : Took k (replaceEffect k pid a b request) fate k') :
    (∀ fd, (if fd = b.toInt ∧ pipeAt k (pid, a.toInt) ≠ none then pipeAt k (pid, a.toInt)
        else pipeAt k (pid, fd)) = pipeAt k' (pid, fd)) ↔
      (kindAt k pid a.toInt ≠ none → pipeAt k (pid, b.toInt) ≠ none → pipeAt k (pid, a.toInt) ≠ none) := by
  unfold replaceEffect at h
  by_cases hab : a = b
  · subst hab
    rw [if_pos rfl] at h
    refine iff_of_true ?_ fun _ hb => hb
    intro fd
    rw [pipeAt_unchanged h rfl]
    split_ifs with hfd
    · rw [hfd.1]
    · rfl
  · rw [if_neg hab] at h
    cases hkind : kindAt k pid a.toInt with
    | none =>
        rw [hkind] at h
        have hnone := pipeAt_of_noKind hkind
        refine iff_of_true ?_ fun hne => absurd rfl hne
        intro fd
        rw [pipeAt_unchanged h rfl, if_neg fun hfd => hfd.2 hnone]
    | some kind =>
        rw [hkind] at h
        have hput := pipeAt_put h rfl
        rw [← pipeAt_of_kind hkind] at hput
        simp only [hput]
        by_cases ha : pipeAt k (pid, a.toInt) = none
        · simp only [ha, ne_eq, not_true_eq_false, and_false, if_false]
          rw [forall_eq_update_iff fun fd => pipeAt k (pid, fd)]
          simp
        · simp [ha]

theorem pipe?_openKind (vfsFd : ℤ) (isDir : Bool) : (openKind vfsFd isDir).pipe? = none := by
  unfold openKind
  split_ifs <;> rfl

/-- Opening: the worker does nothing, and a descriptor for a file is written. -/
theorem open_iff {p : Proc} {path : VirtualFs.Path} {b c : Int32}
    (h : Took k (openEffect k pid p path b c) fate k') :
    (∀ fd, pipeAt k (pid, fd) = pipeAt k' (pid, fd)) ↔
      (0 ≤ (VirtualFs.openFile k.vfs (readCString p path) b c).2 →
        pipeAt k (pid, k.vfs.nextFd) = none) := by
  have hcases := VirtualFs.openFile_cases k.vfs (readCString p path) b c
  unfold openEffect at h
  generalize VirtualFs.openFile k.vfs (readCString p path) b c = r at h hcases
  obtain ⟨v, vfsFd⟩ := r
  dsimp only at h ⊢
  by_cases hpos : 0 ≤ vfsFd
  · rw [if_pos hpos] at h
    have hfd : vfsFd = k.vfs.nextFd := by
      rcases hcases with ⟨hneg, -⟩ | ⟨file, hres, -⟩
      · simp only at hneg
        omega
      · exact hres
    have hput : ∀ fd, pipeAt k' (pid, fd) = if fd = vfsFd then none else pipeAt k (pid, fd) := by
      intro fd
      rw [pipeAt_took h, Touch.lookup, pipeAt, refs]
      simp only [true_and]
      split_ifs
      · exact pipe?_openKind _ _
      · rfl
    simp only [hput]
    rw [forall_eq_update_iff fun fd => pipeAt k (pid, fd), ← hfd]
    simp [hpos]
  · rw [if_neg hpos] at h
    exact iff_of_true (fun fd => (pipeAt_unchanged h rfl (pid, fd)).symm) fun h => absurd h hpos

end Call

/-- **One call.**  What the worker does to a cache that agrees with the table, and what the kernel does to
the table, agree exactly if the call follows. -/
theorem call_iff {k : Kernel.State} (hn : 0 ≤ k.vfs.nextFd) {cache : JsMap ℤ View} {pid : ℤ}
    (hcache : ∀ fd, cachedAt cache fd = pipeAt k (pid, fd)) {call : Call} (hcall : isHost call = true)
    (fate : Fate) :
    (∀ fd, cachedAt (cacheSyscall cache call) fd =
        pipeAt (handleSyscall k pid call fate).kernel (pid, fd)) ↔ CallFollows k pid call := by
  have h := took_handleSyscall hn pid call fate
  cases hp : k.processTable.get? pid with
  | none =>
      -- a process that is not there has no descriptors, and so its cache is empty
      have hkind : ∀ fd, kindAt k pid fd = none := kindAt_of_noProc hp
      have hempty : ∀ fd, cache.get? fd = none := by
        intro fd
        have hfd := hcache fd
        rw [pipeAt_of_noKind (hkind fd)] at hfd
        exact Option.map_eq_none_iff.1 hfd
      refine iff_of_true ?_ ?_
      · intro fd
        simp only [handleSyscall, hp]
        rw [pipeAt_of_noKind (hkind fd), cachedAt, cacheSyscall_empty hempty]
        rfl
      · cases call <;> simp [CallFollows, hp, hkind, pipeAt_of_noKind]
  | some p =>
      rw [effectOf_call hp] at h
      cases call with
      | «open» path b c => simpa [CallFollows, cacheSyscall, hcache, hp] using open_iff h
      | openat path c d => simpa [CallFollows, cacheSyscall, hcache, hp] using open_iff h
      | fsOpen path b c => simpa [CallFollows, cacheSyscall, hcache, hp] using open_iff h
      | close a =>
          simp only [cachedAt_cacheSyscall_close, hcache, CallFollows, iff_true]
          intro fd
          exact (pipeAt_drop h rfl fd).symm
      | dup a => simpa [CallFollows, cacheSyscall, hcache, hp] using copy_iff h
      | dup2 a b =>
          simp only [cachedAt_cacheSyscall_copy cache (Or.inl rfl), hcache, CallFollows]
          exact replace_iff h
      | dup3 a b c =>
          simp only [cachedAt_cacheSyscall_copy cache (Or.inr ⟨c, rfl⟩), hcache, CallFollows]
          exact replace_iff h
      | fcntl a b c =>
          simp only [cacheSyscall, hcache, CallFollows]
          rw [callEffect] at h
          split_ifs at h with hb
          · rw [copy_iff h, forall_prop_of_true hb]
            exact copyFollows_firstFree hp a.toInt _
          · exact iff_of_true (fun fd => (pipeAt_unchanged h rfl (pid, fd)).symm) fun h => absurd h hb
      | fsClose a =>
          simp only [cacheSyscall, hcache, CallFollows]
          rw [← forall_eq_update_iff fun fd => pipeAt k (pid, fd)]
          simp only [pipeAt_drop h rfl]
      | forkSpawn => cases hcall
      | forkExecSpawn a => cases hcall
      | pipeCreate => cases hcall
      | pipeClose a => cases hcall

/-! ### Messages -/

/-- New views in a cache: each descriptor gets the view that is announced for it. -/
theorem cachedAt_setViews {updates : List PipeView} (hnd : (updates.map PipeView.fd).Nodup)
    (cache : JsMap ℤ View) (fd : ℤ) :
    cachedAt (setViews PipeView.ringOffset cache updates) fd =
      ((updates.find? fun v => v.fd = fd).map fun v => (v.ringOffset, v.fdEnd)).or (cachedAt cache fd) := by
  induction updates generalizing cache with
  | nil => rfl
  | cons v updates ih =>
      rw [List.map_cons, List.nodup_cons] at hnd
      have hstep : setViews PipeView.ringOffset cache (v :: updates) =
          setViews PipeView.ringOffset (cache.set v.fd ⟨v.ringOffset, v.ringOffset, v.fdEnd⟩) updates := rfl
      rw [hstep, ih hnd.2, List.find?_cons]
      by_cases hfd : v.fd = fd
      · have hlast : updates.find? (fun v => v.fd = fd) = none := by
          rw [List.find?_eq_none]
          intro v' hv' heq
          exact hnd.1 (List.mem_map.2 ⟨v', hv', by simpa [hfd] using heq⟩)
        simp [hfd, hlast, cachedAt, ringOf]
      · simp [hfd, cachedAt, JsMap.get?_set_ne (Ne.symm hfd)]

theorem cachedAt_deletes (removes : List ℤ) (cache : JsMap ℤ View) (fd : ℤ) :
    cachedAt (removes.foldl JsMap.delete cache) fd = if fd ∈ removes then none else cachedAt cache fd := by
  induction removes generalizing cache with
  | nil => simp
  | cons i removes ih =>
      rw [List.foldl_cons, ih, cachedAt, JsMap.get?_delete]
      by_cases hi : fd = i
      · simp [hi]
      · simp [hi, cachedAt]

/-- **One message.**  A cache that agrees with a table still does after an announcement exactly if the
announcement is true of the table. -/
theorem receive_iff {k : Kernel.State} {pid : ℤ} {cache : JsMap ℤ View}
    (hcache : ∀ fd, cachedAt cache fd = pipeAt k (pid, fd)) {updates : List PipeView} {removes : List ℤ}
    (h : Announces updates removes) :
    (∀ fd, cachedAt (removes.foldl JsMap.delete (setViews PipeView.ringOffset cache updates)) fd =
        pipeAt k (pid, fd)) ↔ StillTrue k pid updates removes := by
  rcases h with rfl | ⟨rfl, hnd⟩
  · simp only [cachedAt_deletes, setViews, List.foldl_nil, hcache, StillTrue, List.not_mem_nil,
      false_implies, implies_true, true_and]
    constructor
    · intro h fd hfd
      rw [← h fd, if_pos hfd]
    · intro h fd
      split_ifs with hfd
      · exact (h fd hfd).symm
      · rfl
  · simp only [List.foldl_nil, cachedAt_setViews hnd, hcache, StillTrue, List.not_mem_nil,
      false_implies, implies_true, and_true]
    constructor
    · intro h v hv
      have hfind : updates.find? (fun v' => v'.fd = v.fd) = some v := by
        have hsome : (updates.find? fun v' => v'.fd = v.fd).isSome := List.find?_isSome.2 ⟨v, hv, by simp⟩
        obtain ⟨v', hv'⟩ := Option.isSome_iff_exists.1 hsome
        have heq : v'.fd = v.fd := by simpa using List.find?_some hv'
        rw [hv', List.inj_on_of_nodup_map hnd (List.mem_of_find?_eq_some hv') hv heq]
      rw [← h v.fd, hfind]
      rfl
    · intro h fd
      cases hfind : updates.find? (fun v => v.fd = fd) with
      | none => rfl
      | some v =>
          have hfd : v.fd = fd := by simpa using List.find?_some hfind
          rw [← hfd, h v (List.mem_of_find?_eq_some hfind)]
          rfl

/-- The kernel posts announcements about the calls on descriptors. -/
theorem announces_handleSyscall {k : Kernel.State} {pid : ℤ} {call : Call} (hcall : isHost call = true)
    (fate : Fate) : ∀ post ∈ (handleSyscall k pid call fate).posts, AnnouncesPost post := by
  unfold handleSyscall
  cases k.processTable.get? pid with
  | none => simp
  | some p =>
      have hopen : ∀ path flags mode, (openPath k pid p path flags mode).posts = [] := by
        intro path flags mode
        simp only [openPath]
        split_ifs <;> rfl
      cases call with
      | «open» path b c => simp [hopen]
      | openat path c d => simp [hopen]
      | fsOpen path b c => simp [hopen]
      | close a =>
          simp only [Kernel.sysClose]
          split
          · simp
          · split <;> simp [AnnouncesPost, Announces]
      | dup a =>
          simp only [sysDup]
          split <;> simp
      | dup2 a b =>
          simp only [sysDup2]
          split_ifs
          · simp
          · split
            · simp
            · dsimp only
              split <;> simp [AnnouncesPost, Announces]
      | fcntl a b c =>
          simp only [sysFcntl, dupFrom]
          split
          · simp
          · split_ifs <;> first | simp | (split <;> simp)
      | dup3 a b c =>
          simp only [sysDup3]
          split_ifs
          · simp
          · split <;> simp
      | fsClose a => simp [sysFsClose]
      | forkSpawn => cases hcall
      | forkExecSpawn a => cases hcall
      | pipeCreate => cases hcall
      | pipeClose a => cases hcall

/-! ### Events -/

theorem viewAt_eq {w : World} {pid : ℤ} {u : Worker} (hu : w.executionWorkers.get? pid = some u) (fd : ℤ) :
    viewAt w pid fd = cachedAt u.localPipeFds fd := by
  rw [viewAt, hu]
  rfl

/-- The worker of a process after a change of its own. -/
theorem viewAt_updateWorker {w : World} {pid : ℤ} {u : Worker}
    (hu : w.executionWorkers.get? pid = some u) (f : Worker → Worker) (fd : ℤ) :
    viewAt (updateWorker w pid f) pid fd = cachedAt (f u).localPipeFds fd := by
  rw [viewAt, executionWorkers_updateWorker, if_pos rfl, hu]
  rfl

/-- A call of the process: the worker's cache, and the kernel. -/
theorem after_host {w : World} {pid : ℤ} (hw : w.executionWorkers.has pid = true) {call : Call}
    (hcall : isHost call = true) (fate : Fate) :
    after w (.host pid call fate) = hostSyscall w pid call fate := if_pos ⟨hw, hcall⟩

theorem kernel_hostSyscall (w : World) (pid : ℤ) (call : Call) (fate : Fate) :
    (hostSyscall w pid call fate).kernel = (handleSyscall w.kernel pid call fate).kernel := by
  simp only [hostSyscall, trapToKernel, kernel_updateWorker]

theorem coherent_call_iff {pid : ℤ} {w : World} (hi : Inv pid w) (hc : Coherent pid w) {call : Call}
    (hcall : isHost call = true) (fate : Fate) :
    Coherent pid (after w (.host pid call fate)) ↔ Follows pid w (.host pid call fate) := by
  obtain ⟨u, hu⟩ := JsMap.has_iff.1 hi.worker
  have hcache : ∀ fd, cachedAt u.localPipeFds fd = pipeAt w.kernel (pid, fd) := by
    intro fd
    rw [← viewAt_eq hu]
    exact hc fd
  rw [after_host hi.worker hcall, Follows, ← call_iff hi.wf.nextFd_nonneg hcache hcall fate]
  unfold Coherent
  rw [kernel_hostSyscall]
  refine forall_congr' fun fd => ?_
  have hview : viewAt (hostSyscall w pid call fate) pid fd =
      cachedAt (cacheSyscall u.localPipeFds call) fd := viewAt_updateWorker hu _ fd
  rw [hview]

theorem coherent_receive_iff {pid : ℤ} {w : World} (hi : Inv pid w) (hc : Coherent pid w)
    (hostFlags : Int32 → Option Int32) :
    Coherent pid (after w (.workerReceives pid hostFlags)) ↔ Follows pid w (.workerReceives pid hostFlags) := by
  obtain ⟨u, hu⟩ := JsMap.has_iff.1 hi.worker
  have hcache : ∀ fd, cachedAt u.localPipeFds fd = pipeAt w.kernel (pid, fd) := by
    intro fd
    rw [← viewAt_eq hu]
    exact hc fd
  have hafter : Coherent pid (after w (.workerReceives pid hostFlags)) ↔
      ∀ fd, cachedAt (receive hostFlags u).localPipeFds fd = pipeAt w.kernel (pid, fd) := by
    unfold Coherent
    rw [PipeNames.after, kernel_updateWorker]
    exact forall_congr' fun fd => by rw [viewAt_updateWorker hu]
  rw [hafter, Follows]
  cases hbox : u.inbox with
  | nil =>
      refine iff_of_true ?_ ?_
      · intro fd
        rw [receive, hbox]
        exact hcache fd
      · intro u' hu' updates removes inbox hinbox
        obtain rfl := Option.some_inj.1 (hu.symm.trans hu')
        rw [hbox] at hinbox
        cases hinbox
  | cons msg inbox =>
      have hmsg := hi.inbox u hu msg (hbox ▸ List.mem_cons_self)
      cases msg with
      | boot => cases hmsg
      | restoreFork fds forkState => cases hmsg
      | forkExec fds => cases hmsg
      | pipeFdCache updates removes =>
          have hreceive : (receive hostFlags u).localPipeFds =
              removes.foldl JsMap.delete (setViews PipeView.ringOffset u.localPipeFds updates) := by
            rw [receive, hbox]
          rw [hreceive, receive_iff hcache hmsg]
          constructor
          · intro h u' hu' updates' removes' inbox' hinbox
            obtain rfl := Option.some_inj.1 (hu.symm.trans hu')
            rw [hbox] at hinbox
            cases hinbox
            exact h
          · exact fun h => h u hu updates removes inbox hbox

/-- What the main thread does: nothing, or it passes an announcement on. -/
theorem mainReceives_cases {w : World} (hposted : ∀ msg ∈ w.posted, AnnouncesPost msg.post) :
    PipeNames.after w .mainReceives = w ∨
      ∃ q updates removes posted, Announces updates removes ∧ (∀ msg ∈ posted, msg ∈ w.posted) ∧
        PipeNames.after w .mainReceives =
          updateWorker { w with posted } q fun u =>
            { u with inbox := u.inbox ++ [.pipeFdCache updates removes] } := by
  cases hmsgs : w.posted with
  | nil =>
      refine Or.inl ?_
      simp only [PipeNames.after, hmsgs]
  | cons msg posted =>
      have hmsg := hposted msg (hmsgs ▸ List.mem_cons_self)
      obtain ⟨post, forkState⟩ := msg
      cases post with
      | forkRequest _ _ _ _ => cases hmsg
      | pipeFdCache q updates removes =>
          refine Or.inr ⟨q, updates, removes, posted, hmsg, fun m hm => List.mem_cons_of_mem _ hm, ?_⟩
          simp only [PipeNames.after, hmsgs, handleKernelMessage]

@[simp] theorem posted_updateWorker (w : World) (pid : ℤ) (f : Worker → Worker) :
    (updateWorker w pid f).posted = w.posted := by
  unfold updateWorker
  split <;> rfl

/-- A change of a worker that leaves the cache alone. -/
theorem viewAt_congr {w : World} {q : ℤ} {f : Worker → Worker}
    (hf : ∀ u, (f u).localPipeFds = u.localPipeFds) (pid fd : ℤ) :
    viewAt (updateWorker w q f) pid fd = viewAt w pid fd := by
  rw [viewAt, executionWorkers_updateWorker, viewAt]
  by_cases hq : pid = q
  · subst hq
    rw [if_pos rfl]
    cases w.executionWorkers.get? pid with
    | none => rfl
    | some u => simp [cachedAt, hf]
  · rw [if_neg hq]

/-- The invariant after a change of a worker whose messages announce. -/
theorem Inv.updateWorker {pid : ℤ} {w : World} (hi : Inv pid w) {q : ℤ} {f : Worker → Worker}
    (hf : ∀ u, (∀ msg ∈ u.inbox, AnnouncesMessage msg) → ∀ msg ∈ (f u).inbox, AnnouncesMessage msg) :
    Inv pid (updateWorker w q f) := by
  obtain ⟨u, hu⟩ := JsMap.has_iff.1 hi.worker
  have hget := executionWorkers_updateWorker w q f pid
  refine ⟨by simpa using hi.wf, ?_, by simpa using hi.posted, ?_⟩
  · rw [JsMap.has_iff, hget]
    split_ifs with hq
    · rw [← hq, hu]
      exact ⟨_, rfl⟩
    · exact ⟨u, hu⟩
  · intro u' hu'
    rw [hget] at hu'
    split_ifs at hu' with hq
    · rw [← hq, hu] at hu'
      obtain rfl := Option.some_inj.1 hu'
      exact hf u (hi.inbox u hu)
    · exact hi.inbox u' hu'

/-- **Every event of the process keeps this.** -/
theorem inv_after {pid : ℤ} {w : World} (hi : Inv pid w) {ev : PipeNames.Event} (hev : Own pid ev) :
    Inv pid (PipeNames.after w ev) := by
  cases ev with
  | host q call fate =>
      obtain ⟨rfl, hcall⟩ := hev
      rw [after_host hi.worker hcall]
      have hcached : Inv q (PipeNames.updateWorker w q fun u =>
          { u with localPipeFds := cacheSyscall u.localPipeFds call }) :=
        hi.updateWorker fun u h => h
      refine ⟨?_, hcached.worker, ?_, hcached.inbox⟩
      · rw [kernel_hostSyscall]
        exact wf_after hi.wf (.call q call fate)
      · intro msg hmsg
        simp only [hostSyscall, trapToKernel, posted_updateWorker, kernel_updateWorker] at hmsg
        rcases List.mem_append.1 hmsg with h | h
        · exact hi.posted msg h
        · obtain ⟨post, hpost, rfl⟩ := List.mem_map.1 h
          exact announces_handleSyscall hcall fate post hpost
  | mainReceives =>
      rcases mainReceives_cases hi.posted with h | ⟨q, updates, removes, posted, hann, hsub, h⟩
      · rw [h]
        exact hi
      · rw [h]
        have hrest : Inv pid { w with posted } :=
          ⟨hi.wf, hi.worker, fun msg hmsg => hi.posted msg (hsub msg hmsg), hi.inbox⟩
        refine hrest.updateWorker fun u hu msg hmsg => ?_
        rcases List.mem_append.1 hmsg with hmsg | hmsg
        · exact hu msg hmsg
        · rw [List.mem_singleton.1 hmsg]
          exact hann
  | read q fildes => exact hi
  | write q fildes => exact hi
  | workerReceives q hostFlags =>
      refine hi.updateWorker fun u hu msg hmsg => hu msg ?_
      unfold receive at hmsg
      split at hmsg
      · exact hmsg
      all_goals
        next hbox =>
          rw [hbox]
          exact List.mem_cons_of_mem _ hmsg
  | _ => cases hev

/-- **One event.**  It keeps the cache in agreement with the table exactly if it follows. -/
theorem coherent_after_iff {pid : ℤ} {w : World} (hi : Inv pid w) (hc : Coherent pid w)
    {ev : PipeNames.Event} (hev : Own pid ev) :
    Coherent pid (PipeNames.after w ev) ↔ Follows pid w ev := by
  cases ev with
  | host q call fate =>
      obtain ⟨rfl, hcall⟩ := hev
      exact coherent_call_iff hi hc hcall fate
  | mainReceives =>
      refine iff_of_true ?_ trivial
      rcases mainReceives_cases hi.posted with h | ⟨q, updates, removes, posted, -, -, h⟩
      · rw [h]
        exact hc
      · rw [h]
        intro fd
        rw [kernel_updateWorker]
        refine (viewAt_congr ?_ pid fd).trans (hc fd)
        exact fun u => rfl
  | read q fildes => exact iff_of_true hc trivial
  | write q fildes => exact iff_of_true hc trivial
  | workerReceives q hostFlags =>
      obtain rfl := hev
      exact coherent_receive_iff hi hc hostFlags
  | _ => cases hev

/-- **The cache of a process agrees with the table throughout a run in exactly the runs in which it does at
the start, every call is followed by both sides, and every message is still true when it is received.** -/
theorem coherent_iff_follows {pid : ℤ} {w : World} {tr : List (PipeNames.Event × World)} (hi : Inv pid w)
    (hrun : IsRun (OwnStep pid) w tr) :
    Throughout (Coherent pid) w tr ↔ Coherent pid w ∧ Meets (Follows pid) w tr := by
  have hkeep : ∀ s ev s', Inv pid s → OwnStep pid s ev s' → Inv pid s' := by
    rintro s ev s' hs ⟨hev, rfl⟩
    exact inv_after hs hev
  have hone : ∀ s ev s', Inv pid s ∧ Coherent pid s → OwnStep pid s ev s' →
      (Inv pid s' ∧ Coherent pid s' ↔ Follows pid s ev) := by
    rintro s ev s' ⟨hs, hc⟩ ⟨hev, rfl⟩
    rw [coherent_after_iff hs hc hev]
    exact and_iff_right (inv_after hs hev)
  rw [throughout_and_iff (throughout_of_isRun hkeep hi hrun)]
  constructor
  · intro h
    exact ⟨h.start.2, (throughout_iff_meets hone h.start hrun).1 h⟩
  · rintro ⟨hc, hG⟩
    exact (throughout_iff_meets hone ⟨hi, hc⟩ hrun).2 hG

/-! ### A run -/

/-- The first process makes a pipe, receives the announcement of its descriptors, and closes the numbers of
the views that were made beside them. -/
def pipeOpening : List PipeNames.Event :=
  [.boot, .message (.registerWorker 1), .workerReceives 1 fun _ => none, .message (.registerMemory 1),
    .pipe2 1 0 .answered, .mainReceives, .workerReceives 1 fun _ => none,
    .host 1 (.close 200) .answered, .host 1 (.close 201) .answered]

/-- The world after that. -/
def pipeOpened : World := pipeOpening.foldl PipeNames.after started

/-- The ring of the first pipe. -/
def firstRing : ℤ := 1116176

theorem cache_pipeOpened : (pipeOpened.executionWorkers.get? 1).map Worker.localPipeFds =
    some ((JsMap.empty.set 100 ⟨firstRing, firstRing, .read⟩).set 101 ⟨firstRing, firstRing, .write⟩) := by
  rfl

theorem table_pipeOpened : (pipeOpened.kernel.processTable.get? 1).map Proc.fdTable =
    some (((standardFds 0).set 100 ⟨.pipe .read firstRing, 3⟩).set 101 ⟨.pipe .write firstRing, 4⟩) := by
  rfl

theorem coherent_pipeOpened : Coherent 1 pipeOpened := by
  intro fd
  obtain ⟨u, hu, hcache⟩ := Option.map_eq_some_iff.1 cache_pipeOpened
  obtain ⟨p, hp, htable⟩ := Option.map_eq_some_iff.1 table_pipeOpened
  rw [viewAt_eq hu, hcache, pipeAt, refs, kindAt_eq hp, htable]
  simp only [cachedAt, JsMap.get?_set, JsMap.get?_empty, standardFds]
  split_ifs <;> rfl

/-- Events keep what every event of the kernel keeps. -/
theorem wf_foldl (evs : List PipeNames.Event) {w : World} (hw : Kernel.Wf w.kernel) :
    Kernel.Wf (evs.foldl PipeNames.after w).kernel := by
  induction evs generalizing w with
  | nil => exact hw
  | cons ev evs ih =>
      refine ih ?_
      rcases kernel_after w ev with h | ⟨kev, h⟩
      · exact h ▸ hw
      · exact h ▸ wf_after hw kev

theorem inv_pipeOpened : Inv 1 pipeOpened where
  wf := wf_foldl pipeOpening (wf_of_starts starts_started.kernel)
  worker := by decide
  posted := by
    have hposted : pipeOpened.posted = [] := rfl
    rw [hposted]
    simp
  inbox := by
    intro u hu
    have hinbox : (pipeOpened.executionWorkers.get? 1).map Worker.inbox = some [] := rfl
    rw [hu] at hinbox
    rw [Option.some_inj.1 hinbox]
    simp

/-- The process copies the read end with `dup`. -/
def duplicating : List (PipeNames.Event × World) :=
  trace PipeNames.after pipeOpened [.host 1 (.dup 100) .answered]

theorem isRun_duplicating : IsRun (OwnStep 1) pipeOpened duplicating := ⟨⟨⟨rfl, rfl⟩, rfl⟩, trivial⟩

/-- The copy has the number 3, a pipe for the kernel and nothing for the worker. -/
theorem not_coherent_duplicating : ¬ Throughout (Coherent 1) pipeOpened duplicating := by
  intro h
  have hview : viewAt (PipeNames.after pipeOpened (.host 1 (.dup 100) .answered)) 1 3 = none := by decide
  have hpipe : pipeAt (PipeNames.after pipeOpened (.host 1 (.dup 100) .answered)).kernel (1, 3) ≠ none := by
    decide
  exact hpipe ((h.2 3).symm.trans hview)

theorem not_coherent : ¬ ∀ (pid : ℤ) (w : World) (tr : List (PipeNames.Event × World)), Inv pid w →
    Coherent pid w → IsRun (OwnStep pid) w tr → Throughout (Coherent pid) w tr :=
  fun h => not_coherent_duplicating
    (h 1 pipeOpened duplicating inv_pipeOpened coherent_pipeOpened isRun_duplicating)

/-- The process copies the read end with `dup2`, and the announcement arrives. -/
def replacing : List (PipeNames.Event × World) :=
  trace PipeNames.after pipeOpened
    [.host 1 (.dup2 100 5) .answered, .mainReceives, .workerReceives 1 fun _ => none]

theorem isRun_replacing : IsRun (OwnStep 1) pipeOpened replacing :=
  ⟨⟨⟨rfl, rfl⟩, rfl⟩, ⟨trivial, rfl⟩, ⟨rfl, rfl⟩, trivial⟩

theorem follows_replacing : Meets (Follows 1) pipeOpened replacing := by
  refine ⟨?_, trivial, ?_, trivial⟩
  · intro _ _
    decide
  · intro u hu updates removes inbox hbox
    have hinbox : ((PipeNames.after (PipeNames.after pipeOpened (.host 1 (.dup2 100 5) .answered))
        .mainReceives).executionWorkers.get? 1).map Worker.inbox =
          some [.pipeFdCache [⟨5, .read, firstRing⟩] []] := rfl
    rw [hu, Option.map_some, Option.some_inj, hbox] at hinbox
    cases hinbox
    refine ⟨?_, by simp⟩
    intro v hv
    rw [List.mem_singleton.1 hv]
    decide

theorem coherent_replacing : Throughout (Coherent 1) pipeOpened replacing :=
  (coherent_iff_follows inv_pipeOpened isRun_replacing).2 ⟨coherent_pipeOpened, follows_replacing⟩

end PipeCache
