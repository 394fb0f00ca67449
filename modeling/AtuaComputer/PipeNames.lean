/-
**The names of pipes in the layers.**

A pipe has a slot in the bridge, two numbers in the descriptor table of the kernel, two numbers that Blink
gives to the guest, and in each worker a cache (`localPipeFds`) of views of the ring, through which the
worker reads and writes without the kernel.  Each layer computes its numbers with a formula of its own:
the bridge and the kernel count from 100, the worker and Blink from 200; the kernel's syscall for closing
takes a descriptor where the worker passes the number of the pipe; and a child that is booted with the
pipes of its parent looks for each ring at the start of the bridge's memory.

This module puts the kernel, the main thread, the workers and Blink's descriptor lists together, with the
messages between them, and says when their names agree.

Main definitions:

* `PipeNames.World` — the kernel, the main thread's mailbox, and the workers;
* `PipeNames.sysPipe2`, `PipeNames.sysClose`, `PipeNames.receive`, … — what the workers do;
* `PipeNames.Agree`, `PipeNames.ClosesOwn` — agreement of the names;
* `PipeNames.MakesNoPipe` — the condition.

Main results:

* `PipeNames.not_agree_pipe2` — the names disagree as soon as there is a pipe;
* `PipeNames.agree_iff_noPipe` — they agree in exactly the runs without one.
-/

import AtuaComputer.PipeEnds
import AtuaComputer.ForkState

set_option relaxedAutoImplicit false
set_option autoImplicit false

namespace PipeNames

open Kernel Bridge Blink Runs

/-! ### State -/

/-- An entry of `localPipeFds`: the offset of the ring of the pipe it was made for, and the offset at which
its arrays lie in the bridge's memory. -/
structure View where
  own : ℤ
  offset : ℤ
  fdEnd : End
deriving DecidableEq

/-- What the main thread posts to a worker.  A fork comes with the descriptors in the fork state. -/
inductive WorkerMessage where
  | boot
  | restoreFork (pipeFds : List PipeView) (forkState : List Fd)
  | forkExec (pipeFds : List PipeView)
  | pipeFdCache (updates : List PipeView) (removes : List ℤ)

/-- An execution worker with the descriptor list of the Blink in it. -/
structure Worker where
  inbox : List WorkerMessage
  localPipeFds : JsMap ℤ View
  fds : List Fd

/-- A worker from the pool, with its first message. -/
def Worker.spawned (msg : WorkerMessage) : Worker := ⟨[msg], JsMap.empty, []⟩

/-- What the kernel posts to the main thread, with the descriptors in the fork state. -/
structure KernelMessage where
  post : Post
  forkState : List Fd

/-- The kernel, its messages that the main thread has not handled, and the workers of the processes. -/
structure World where
  kernel : Kernel.State
  posted : List KernelMessage
  executionWorkers : JsMap ℤ Worker

/-- A change of the worker of a process. -/
def updateWorker (w : World) (pid : ℤ) (f : Worker → Worker) : World :=
  match w.executionWorkers.get? pid with
  | none => w
  | some u => { w with executionWorkers := w.executionWorkers.set pid (f u) }

/-- The descriptors of the guest of a process. -/
def guestFds (w : World) (pid : ℤ) : List Fd :=
  match w.executionWorkers.get? pid with
  | none => []
  | some u => u.fds

/-! ### The worker's imports -/

/-- `trapToKernel`, with what the kernel posts. -/
def trapToKernel (w : World) (pid : ℤ) (call : Call) (fate : Fate) : World × Outcome :=
  let out := handleSyscall w.kernel pid call fate
  ({ w with
      kernel := out.kernel
      posted := w.posted ++ out.posts.map fun post => ⟨post, guestFds w pid⟩ }, out)

/-- `200 + pipe_id * 2` and `200 + pipe_id * 2 + 1` -/
def pipeFd (pipeId : Int32) : End → Int32
  | .read => 200 + pipeId * 2
  | .write => 200 + pipeId * 2 + 1

/-- `pipe_create`: the views of the caller lie at the offset in `control[9]`.  Every worker has the
bridge's memory if the kernel has it. -/
def pipeCreate (w : World) (pid : ℤ) (fate : Fate) : World × Int32 :=
  let (w, out) := trapToKernel w pid .pipeCreate fate
  let pipeId := Int32.ofInt out.result
  if pipeId < 0 then (w, pipeId)
  else
    let ringOffset := (out.high.getD 0).toInt
    (updateWorker w pid fun u =>
        if w.kernel.bridge.isSome ∧ 0 < ringOffset then
          { u with
            localPipeFds :=
              (u.localPipeFds.set (pipeFd pipeId .read).toInt ⟨ringOffset, ringOffset, .read⟩).set
                (pipeFd pipeId .write).toInt ⟨ringOffset, ringOffset, .write⟩ }
        else u,
      pipeId)

/-- `pipe_close`: the kernel gets the number of the pipe where it expects a descriptor, and ignores the
end. -/
def pipeClose (w : World) (pid : ℤ) (pipeId : Int32) (fate : Fate) : World :=
  (trapToKernel w pid (.pipeClose pipeId) fate).1

/-- What `host_syscall` does to the cache before it traps. -/
def cacheSyscall (cache : JsMap ℤ View) : Call → JsMap ℤ View
  | .dup2 a b | .dup3 a b _ =>
    match cache.get? a.toInt with
    | none => cache
    | some view => cache.set b.toInt view
  | .close a => cache.delete a.toInt
  | _ => cache

/-- `host_syscall` for descriptors, and the imports `fs_open` and `fs_close`. -/
def hostSyscall (w : World) (pid : ℤ) (call : Call) (fate : Fate) : World :=
  (trapToKernel (updateWorker w pid fun u => { u with localPipeFds := cacheSyscall u.localPipeFds call })
    pid call fate).1

/-! ### Blink -/

/-- `O_CLOEXEC_LINUX` and `O_NDELAY_LINUX`, which the host C library has at the same bits. -/
def pipeOflags (flags : Int32) : Int32 := flags &&& 0x80800

/-- The descriptor of an end of a pipe: its handle is its number. -/
def newPipeFd (pipeId flags : Int32) (fdEnd : End) : Fd where
  fildes := pipeFd pipeId fdEnd
  oflags := (match fdEnd with | .read => oRdonly | .write => oWronly) ||| pipeOflags flags
  atuaType := atuaFdPipe
  atuaHostHandle := pipeFd pipeId fdEnd

/-- `SysPipe2` -/
def sysPipe2 (w : World) (pid : ℤ) (flags : Int32) (fate : Fate) : World :=
  let (w, pipeId) := pipeCreate w pid fate
  if pipeId < 0 then w
  else
    updateWorker w pid fun u =>
      { u with fds := addFd (addFd u.fds (newPipeFd pipeId flags .read)) (newPipeFd pipeId flags .write) }

/-- The number of the pipe in a handle: `(handle - 200) / 2` -/
def pipeIdOf (handle : Int32) : Int32 := (handle - 200) / 2

/-- The end in a handle: `(handle - 200) % 2` -/
def endOf (handle : Int32) : End := if (handle - 200) % 2 = 0 then .read else .write

/-- `SysClose`: the descriptor leaves the list, and a pipe is closed by its handle.  The host's `close` does
nothing in this build. -/
def sysClose (w : World) (pid : ℤ) (fildes : Int32) (fate : Fate) : World :=
  match getFd (guestFds w pid) fildes with
  | none => w
  | some fd =>
    let w := updateWorker w pid fun u => { u with fds := u.fds.eraseP fun fd => fd.fildes = fildes }
    if fd.atuaType = atuaFdPipe ∧ 0 ≤ fd.atuaHostHandle then
      pipeClose w pid (pipeIdOf fd.atuaHostHandle) fate
    else w

/-! ### Messages -/

/-- `_spawnChildWorker` -/
def spawnChildWorker (w : World) (parentPid childPid : ℤ) (msg : WorkerMessage) : World :=
  let pid := if childPid ≠ 0 then childPid else parentPid + 1
  { w with executionWorkers := w.executionWorkers.set pid (Worker.spawned msg) }

/-- `_handleKernelMessage` -/
def handleKernelMessage (w : World) (msg : KernelMessage) : World :=
  match msg.post with
  | .pipeFdCache pid updates removes =>
    updateWorker w pid fun u => { u with inbox := u.inbox ++ [.pipeFdCache updates removes] }
  | .forkRequest pid childPid .restoreFork pipeFds =>
    spawnChildWorker w pid childPid (.restoreFork pipeFds msg.forkState)
  | .forkRequest pid childPid .forkExec pipeFds => spawnChildWorker w pid childPid (.forkExec pipeFds)

/-- `for (const u of updates) localPipeFds.set(u.fd, …)`, with the views at the offsets that `offset`
gives. -/
def setViews (offset : PipeView → ℤ) (cache : JsMap ℤ View) (updates : List PipeView) : JsMap ℤ View :=
  updates.foldl (fun cache u => cache.set u.fd ⟨u.ringOffset, offset u, u.fdEnd⟩) cache

/-- The `onmessage` of a worker.  Both ways to boot a child make views at offset 0. -/
def receive (hostFlags : Int32 → Option Int32) (u : Worker) : Worker :=
  match u.inbox with
  | [] => u
  | .boot :: inbox => { u with inbox, fds := addStdFds hostFlags }
  | .restoreFork pipeFds forkState :: inbox =>
    { inbox
      localPipeFds := setViews (fun _ => 0) u.localPipeFds pipeFds
      fds := forkState.foldl addFd (addStdFds hostFlags) }
  | .forkExec pipeFds :: inbox =>
    { inbox
      localPipeFds := setViews (fun _ => 0) u.localPipeFds pipeFds
      fds := addStdFds hostFlags }
  | .pipeFdCache updates removes :: inbox =>
    { u with
      inbox
      localPipeFds := removes.foldl JsMap.delete (setViews PipeView.ringOffset u.localPipeFds updates) }

/-! ### Runs -/

/-- What happens: a message reaches the kernel, a guest or its worker makes a call, the main thread boots
the first process, handles the next message of the kernel or takes a worker that has exited away, or a
worker handles its next message. -/
inductive Event where
  | message (ev : Kernel.Event)
  | host (pid : ℤ) (call : Call) (fate : Fate)
  | pipe2 (pid : ℤ) (flags : Int32) (fate : Fate)
  | read (pid : ℤ) (fildes : Int32)
  | write (pid : ℤ) (fildes : Int32)
  | close (pid : ℤ) (fildes : Int32) (fate : Fate)
  | fork (pid : ℤ) (fate : Fate)
  | forkExec (pid : ℤ) (childPid : Int32)
  | boot
  | mainReceives
  | workerReceives (pid : ℤ) (hostFlags : Int32 → Option Int32)
  | workerExits (pid : ℤ)

/-- The calls that `host_syscall`, `fs_open` and `fs_close` make. -/
def isHost : Call → Bool
  | .forkSpawn | .forkExecSpawn _ | .pipeCreate | .pipeClose _ => false
  | _ => true

/-- The events that are messages to the kernel. -/
def isMessage : Kernel.Event → Bool
  | .call _ _ _ => false
  | _ => true

/-- The world after an event.  A process without a worker does nothing. -/
def after (w : World) : Event → World
  | .message ev => if isMessage ev then { w with kernel := Kernel.after w.kernel ev } else w
  | .host pid call fate =>
    if w.executionWorkers.has pid ∧ isHost call then hostSyscall w pid call fate else w
  | .pipe2 pid flags fate => if w.executionWorkers.has pid then sysPipe2 w pid flags fate else w
  | .read _ _ => w
  | .write _ _ => w
  | .close pid fildes fate => sysClose w pid fildes fate
  | .fork pid fate => if w.executionWorkers.has pid then (trapToKernel w pid .forkSpawn fate).1 else w
  | .forkExec pid childPid =>
    if w.executionWorkers.has pid then (trapToKernel w pid (.forkExecSpawn childPid) .answered).1 else w
  | .boot => { w with executionWorkers := w.executionWorkers.set 1 (Worker.spawned .boot) }
  | .mainReceives =>
    match w.posted with
    | [] => w
    | msg :: posted => handleKernelMessage { w with posted } msg
  | .workerReceives pid hostFlags => updateWorker w pid (receive hostFlags)
  | .workerExits pid => { w with executionWorkers := w.executionWorkers.delete pid }

/-- The step relation. -/
def Step (w : World) (ev : Event) (w' : World) : Prop := w' = after w ev

/-- The world before the first worker is booted. -/
structure Starts (w : World) : Prop where
  kernel : Kernel.Starts w.kernel
  posted : w.posted = []
  noWorker : ∀ pid, w.executionWorkers.get? pid = none

/-! ### Agreement -/

/-- The pipe and the end that a handle of Blink names. -/
def named (handle : Int32) : ℤ × End := PipeEnds.pipe (pipeIdOf handle).toInt.toNat (endOf handle)

/-- A number that Blink gives the guest for a pipe is a descriptor of the process for that pipe and end, and
every cached view lies at the offset of its own pipe. -/
structure Agree (w : World) : Prop where
  numbers : ∀ pid fildes fd, getFd (guestFds w pid) fildes = some fd → fd.atuaType = atuaFdPipe →
    pipeAt w.kernel (pid, fildes.toInt) = some (named fd.atuaHostHandle)
  views : ∀ pid u, w.executionWorkers.get? pid = some u → ∀ fd view, u.localPipeFds.get? fd = some view →
    view.offset = view.own

/-- Closing a pipe removes the descriptors of the process for that pipe and end, and no others. -/
def ClosesOwn (w : World) : Event → World → Prop
  | .close pid fildes _, w' =>
    ∀ fd, getFd (guestFds w pid) fildes = some fd → fd.atuaType = atuaFdPipe → 0 ≤ fd.atuaHostHandle →
      ∀ q i, kindAt w'.kernel q i =
        if q = pid ∧ pipeAt w.kernel (q, i) = some (named fd.atuaHostHandle) then none
        else kindAt w.kernel q i
  | _, _ => True

/-- A call of `pipe2` makes no pipe: its caller has no worker or is no process of the kernel, or the
bridge is missing, does not answer, or has no memory for another pipe. -/
def MakesNoPipe (w : World) : Event → Prop
  | .pipe2 pid _ fate =>
    w.executionWorkers.has pid = true → w.kernel.processTable.has pid = true →
      ∀ b, w.kernel.bridge = some b → ¬ Creates b fate
  | _ => True

/-! ### The kernel without pipes -/

/-- Only a call for a pipe writes the descriptors of one. -/
theorem call_of_pipe {k : Kernel.State} {pid : ℤ} {p : Proc} {fate : Fate} {call : Call}
    {q readFd writeFd ring : ℤ} (ht : (callEffect k pid p fate call).touch = .pipe q readFd writeFd ring) :
    call = .pipeCreate := by
  have hopen : ∀ path flags mode, (openEffect k pid p path flags mode).touch ≠ .pipe q readFd writeFd ring := by
    intro path flags mode h
    simp only [openEffect] at h
    split_ifs at h
  have hcopy : ∀ a fd, (copyEffect k pid a fd).touch ≠ .pipe q readFd writeFd ring := by
    intro a fd h
    unfold copyEffect at h
    split at h <;> cases h
  have hreplace : ∀ a b request, (replaceEffect k pid a b request).touch ≠ .pipe q readFd writeFd ring := by
    intro a b request h
    unfold replaceEffect at h
    split_ifs at h
    split at h <;> cases h
  have hfork : ∀ childPid request, (forkEffect pid p childPid request).touch ≠ .pipe q readFd writeFd ring := by
    intro childPid request h
    simp only [forkEffect] at h
    split_ifs at h
  cases call with
  | pipeCreate => rfl
  | «open» path b c => exact absurd ht (hopen path b c)
  | openat path c d => exact absurd ht (hopen path c d)
  | fsOpen path b c => exact absurd ht (hopen path b c)
  | dup a => exact absurd ht (hcopy a _)
  | fcntl a b c =>
      simp only [callEffect] at ht
      split_ifs at ht
      exact absurd ht (hcopy a _)
  | dup2 a b => exact absurd ht (hreplace a b _)
  | dup3 a b c => exact absurd ht (hreplace a b _)
  | forkSpawn => exact absurd ht (hfork _ _)
  | forkExecSpawn a => exact absurd ht (hfork _ _)
  | _ => cases ht

/-- No call of a process makes a pipe that the kernel hears of. -/
def CallMakesNoPipe (k : Kernel.State) (pid : ℤ) (call : Call) (fate : Fate) : Prop :=
  call = .pipeCreate → k.processTable.has pid = true → ∀ b, k.bridge = some b → ¬ Creates b fate

/-- A call that makes no pipe writes the descriptors of none. -/
theorem touch_ne_pipe {k : Kernel.State} (hw : Kernel.Wf k) {pid : ℤ} {call : Call} {fate : Fate}
    (hcall : CallMakesNoPipe k pid call fate) (q readFd writeFd ring : ℤ) :
    (effectOf k (.call pid call fate)).touch ≠ .pipe q readFd writeFd ring := by
  intro ht
  cases hp : k.processTable.get? pid with
  | none =>
      rw [effectOf_noProc hp] at ht
      cases ht
  | some p =>
      rw [effectOf_call hp] at ht
      obtain rfl := call_of_pipe ht
      cases hb : k.bridge with
      | none =>
          simp only [callEffect, pipeEffect, hb] at ht
          cases ht
      | some b =>
          have hno := hcall rfl (JsMap.has_iff.2 ⟨p, hp⟩) b hb
          rw [callEffect, pipeEffect_touch hw hb, if_neg hno] at ht
          cases ht

/-- Without pipes, an event that writes no new one leads to no descriptor of one. -/
theorem pipeAt_after_eq_none {k : Kernel.State} (hw : Kernel.Wf k) (hnone : ∀ s, pipeAt k s = none)
    {ev : Kernel.Event} (hpipe : ∀ q readFd writeFd ring, (effectOf k ev).touch ≠ .pipe q readFd writeFd ring)
    (s : ℤ × ℤ) : pipeAt (Kernel.after k ev) s = none := by
  by_cases hs : (effectOf k ev).touch.slots k s
  · rw [Option.eq_none_iff_forall_ne_some]
    intro x hx
    obtain ⟨s', hs'⟩ := (PipeEnds.pipe_copied hw ev hpipe s x hs hx).held
    rw [hnone s'] at hs'
    cases hs'
  · rw [PipeEnds.pipeAt_untouched hw ev s hs, hnone]

/-- A message of the kernel that shows no pipe. -/
def Bare : Post → Prop
  | .pipeFdCache _ updates _ => updates = []
  | .forkRequest _ _ _ pipeFds => pipeFds = []

theorem kind_ne_pipe {k : Kernel.State} (hnone : ∀ s, pipeAt k s = none) {pid fd : ℤ} {p : Proc}
    (hp : k.processTable.get? pid = some p) {entry : FdEntry} (he : p.fdTable.get? fd = some entry)
    (fdEnd : End) (ringOffset : ℤ) : entry.kind ≠ .pipe fdEnd ringOffset := by
  intro hkind
  have h := hnone (pid, fd)
  rw [pipeAt, refs, kindAt_entry hp he, hkind] at h
  cases h

theorem pipeFds_eq_nil {k : Kernel.State} (hnone : ∀ s, pipeAt k s = none) {pid : ℤ} {p : Proc}
    (hp : k.processTable.get? pid = some p) : pipeFds p.fdTable = [] := by
  rw [pipeFds, List.filterMap_eq_nil_iff]
  rintro ⟨fd, entry⟩ he
  have hkind := kind_ne_pipe hnone hp (JsMap.mem_entries.1 he)
  split
  · next fdEnd ringOffset h => exact absurd h (hkind fdEnd ringOffset)
  · rfl

/-- The outcome of a call for a pipe that is not made. -/
theorem sysPipeCreate_fails {k : Kernel.State} (hw : Kernel.Wf k) (pid : ℤ) {fate : Fate}
    (hno : ∀ b, k.bridge = some b → ¬ Creates b fate) :
    (sysPipeCreate k pid fate).posts = [] ∧ Int32.ofInt (sysPipeCreate k pid fate).result < 0 := by
  unfold sysPipeCreate request
  have hnosys : Int32.ofInt (-38) < 0 := by decide
  have htimedOut : Int32.ofInt (-timedOut.err.toInt) < 0 := by decide
  cases hb : k.bridge with
  | none => exact ⟨rfl, hnosys⟩
  | some b =>
      have hreply := reply_pipeCreate (hw.bridge b hb) fate
      rw [if_neg (hno b hb)] at hreply
      simp only [hreply]
      exact ⟨rfl, htimedOut⟩

/-- Without pipes, a call that makes none posts no view of one. -/
theorem bare_handleSyscall {k : Kernel.State} (hw : Kernel.Wf k) (hnone : ∀ s, pipeAt k s = none) {pid : ℤ}
    {call : Call} {fate : Fate} (hcall : CallMakesNoPipe k pid call fate) :
    ∀ post ∈ (handleSyscall k pid call fate).posts, Bare post := by
  unfold handleSyscall
  cases hp : k.processTable.get? pid with
  | none => simp
  | some p =>
      have hkind := @kind_ne_pipe k hnone pid
      have hopen : ∀ path flags mode, (openPath k pid p path flags mode).posts = [] := by
        intro path flags mode
        simp only [openPath]
        split_ifs <;> rfl
      cases call with
      | «open» path b c => simp [hopen]
      | openat path c d => simp [hopen]
      | fsOpen path b c => simp [hopen]
      | close a =>
          intro post hpost
          simp only [Kernel.sysClose] at hpost
          split at hpost
          · cases hpost
          · next entry he =>
              split at hpost
              · cases hpost
              · cases hpost
              · next fdEnd ring hk => exact absurd hk (hkind hp he fdEnd ring)
              · cases hpost
      | dup a =>
          simp only [sysDup]
          split <;> simp
      | dup2 a b =>
          simp only [sysDup2]
          split_ifs with hab
          · simp
          · cases he : p.fdTable.get? a.toInt with
            | none => simp
            | some entry =>
                cases hk : entry.kind with
                | pipe fdEnd ring => exact absurd hk (hkind hp he fdEnd ring)
                | _ => simp [hk]
      | fcntl a b c =>
          simp only [sysFcntl, dupFrom]
          cases p.fdTable.get? a.toInt with
          | none => simp
          | some entry =>
              simp only
              split_ifs <;> first | simp | (split <;> simp)
      | dup3 a b c =>
          simp only [sysDup3]
          split_ifs
          · simp
          · split <;> simp
      | fsClose a => simp [sysFsClose]
      | forkSpawn =>
          simp only [sysForkSpawn]
          split_ifs <;> simp [Bare, pipeFds_eq_nil hnone hp]
      | forkExecSpawn a =>
          simp only [sysForkExecSpawn]
          split_ifs <;> simp [Bare, pipeFds_eq_nil hnone hp]
      | pipeCreate =>
          have hfail := sysPipeCreate_fails hw pid (hcall rfl (JsMap.has_iff.2 ⟨p, hp⟩))
          simp [hfail.1]
      | pipeClose a =>
          simp only [sysPipeClose]
          split
          · simp
          · split <;> simp

/-! ### The world without pipes -/

/-- A message to a worker that shows no pipe. -/
def WorkerMessage.Bare : WorkerMessage → Prop
  | .boot => True
  | .restoreFork pipeFds forkState => pipeFds = [] ∧ ∀ fd ∈ forkState, fd.atuaType ≠ atuaFdPipe
  | .forkExec pipeFds => pipeFds = []
  | .pipeFdCache updates _ => updates = []

/-- A worker that knows of no pipe. -/
structure Worker.Bare (u : Worker) : Prop where
  inbox : ∀ msg ∈ u.inbox, msg.Bare
  localPipeFds : ∀ fd, u.localPipeFds.get? fd = none
  fds : ∀ fd ∈ u.fds, fd.atuaType ≠ atuaFdPipe

/-- Nobody knows of a pipe. -/
structure NoPipes (w : World) : Prop where
  kernel : ∀ s, pipeAt w.kernel s = none
  posted : ∀ msg ∈ w.posted, Bare msg.post ∧ ∀ fd ∈ msg.forkState, fd.atuaType ≠ atuaFdPipe
  workers : ∀ pid u, w.executionWorkers.get? pid = some u → u.Bare

theorem bare_spawned {msg : WorkerMessage} (h : msg.Bare) : (Worker.spawned msg).Bare where
  inbox := by
    intro msg' hmsg'
    rw [List.mem_singleton.1 hmsg']
    exact h
  localPipeFds := fun _ => rfl
  fds := by
    intro fd hfd
    cases hfd

@[simp] theorem kernel_updateWorker (w : World) (pid : ℤ) (f : Worker → Worker) :
    (updateWorker w pid f).kernel = w.kernel := by
  unfold updateWorker
  split <;> rfl

@[simp] theorem posted_updateWorker (w : World) (pid : ℤ) (f : Worker → Worker) :
    (updateWorker w pid f).posted = w.posted := by
  unfold updateWorker
  split <;> rfl

theorem executionWorkers_updateWorker (w : World) (pid : ℤ) (f : Worker → Worker) (q : ℤ) :
    (updateWorker w pid f).executionWorkers.get? q =
      if q = pid then (w.executionWorkers.get? pid).map f else w.executionWorkers.get? q := by
  unfold updateWorker
  cases hu : w.executionWorkers.get? pid with
  | none =>
      split_ifs with hq
      · rw [hq, hu]
        rfl
      · rfl
  | some u => exact JsMap.get?_set _ _ _ _

theorem NoPipes.updateWorker {w : World} (h : NoPipes w) {f : Worker → Worker}
    (hf : ∀ u : Worker, u.Bare → (f u).Bare) (pid : ℤ) : NoPipes (updateWorker w pid f) where
  kernel := by
    intro s
    rw [kernel_updateWorker]
    exact h.kernel s
  posted := by
    rw [posted_updateWorker]
    exact h.posted
  workers := by
    intro q u hu
    rw [executionWorkers_updateWorker] at hu
    split_ifs at hu with hq
    · obtain ⟨u₀, hu₀, rfl⟩ := Option.map_eq_some_iff.1 hu
      exact hf u₀ (h.workers pid u₀ hu₀)
    · exact h.workers q u hu

theorem NoPipes.guestFds {w : World} (h : NoPipes w) (pid : ℤ) :
    ∀ fd ∈ guestFds w pid, fd.atuaType ≠ atuaFdPipe := by
  intro fd hfd
  unfold PipeNames.guestFds at hfd
  split at hfd
  · cases hfd
  · next u hu => exact (h.workers pid u hu).fds fd hfd

/-- A new worker with a message that shows no pipe. -/
theorem NoPipes.spawn {w : World} (h : NoPipes w) (pid : ℤ) {msg : WorkerMessage} (hmsg : msg.Bare) :
    NoPipes { w with executionWorkers := w.executionWorkers.set pid (Worker.spawned msg) } where
  kernel := h.kernel
  posted := h.posted
  workers := by
    intro q u hu
    rw [JsMap.get?_set] at hu
    split_ifs at hu
    · rw [← Option.some_inj.1 hu]
      exact bare_spawned hmsg
    · exact h.workers q u hu

/-- A call that makes no pipe, after whatever it did to the worker. -/
theorem NoPipes.trapToKernel {w : World} (h : NoPipes w) (hw : Kernel.Wf w.kernel) {pid : ℤ} {call : Call}
    {fate : Fate} (hcall : CallMakesNoPipe w.kernel pid call fate) :
    NoPipes (trapToKernel w pid call fate).1 where
  kernel := by
    have hafter := pipeAt_after_eq_none hw h.kernel (touch_ne_pipe hw hcall)
    exact hafter
  posted := by
    intro msg hmsg
    rcases List.mem_append.1 hmsg with hold | hnew
    · exact h.posted msg hold
    · obtain ⟨post, hpost, rfl⟩ := List.mem_map.1 hnew
      exact ⟨bare_handleSyscall hw h.kernel hcall post hpost, h.guestFds pid⟩
  workers := h.workers

/-- The descriptors a process starts with are no pipes. -/
theorem addStdFds_ne_pipe (hostFlags : Int32 → Option Int32) :
    ∀ fd ∈ addStdFds hostFlags, fd.atuaType ≠ atuaFdPipe := by
  have hadd : ∀ fd (fds : List Fd), fd.atuaType ≠ atuaFdPipe → (∀ g ∈ fds, g.atuaType ≠ atuaFdPipe) →
      ∀ g ∈ addFd fds fd, g.atuaType ≠ atuaFdPipe := by
    intro fd fds hfd hfds g hg
    unfold addFd at hg
    split_ifs at hg
    · rcases List.mem_cons.1 hg with rfl | hg
      · exact hfd
      · exact hfds g hg
    · exact hfds g hg
  unfold addStdFds
  generalize ([0, 1, 2, 3, 4, 5, 6, 7, 8, 9] : List Int32) = is
  suffices hall : ∀ fds : List Fd, (∀ g ∈ fds, g.atuaType ≠ atuaFdPipe) →
      ∀ g ∈ is.foldl (addStdFd hostFlags) fds, g.atuaType ≠ atuaFdPipe from hall [] (by simp)
  induction is with
  | nil => exact fun fds hfds => hfds
  | cons i is ih =>
      intro fds hfds
      refine ih _ ?_
      unfold addStdFd
      split
      · refine hadd _ fds ?_ hfds
        simp only
        split_ifs <;> decide
      · have hother : (0 : Int32) ≠ atuaFdPipe := by decide
        split
        · exact hadd _ fds hother hfds
        · exact hfds

/-- Restoring descriptors that are no pipes gives none. -/
theorem foldl_addFd_ne_pipe {fds₀ fds : List Fd} (h₀ : ∀ fd ∈ fds₀, fd.atuaType ≠ atuaFdPipe)
    (h : ∀ fd ∈ fds, fd.atuaType ≠ atuaFdPipe) : ∀ fd ∈ fds.foldl addFd fds₀, fd.atuaType ≠ atuaFdPipe := by
  intro fd hfd
  rw [ForkState.foldl_addFd, List.mem_append, List.mem_reverse, List.mem_filter] at hfd
  rcases hfd with hfd | hfd
  · exact h fd hfd.1
  · exact h₀ fd hfd

theorem get?_foldl_delete {cache : JsMap ℤ View} (h : ∀ fd, cache.get? fd = none) (removes : List ℤ) (fd : ℤ) :
    (removes.foldl JsMap.delete cache).get? fd = none := by
  induction removes generalizing cache with
  | nil => exact h fd
  | cons r removes ih =>
      refine ih fun fd => ?_
      rw [JsMap.get?_delete]
      split_ifs
      · rfl
      · exact h fd

/-- A worker that knows of no pipe learns of none from a message that shows none. -/
theorem Worker.Bare.receive {u : Worker} (h : u.Bare) (hostFlags : Int32 → Option Int32) :
    (receive hostFlags u).Bare := by
  unfold PipeNames.receive
  have hinbox := h.inbox
  split
  · exact h
  · next inbox hmsgs =>
      rw [hmsgs] at hinbox
      exact ⟨fun msg hmsg => hinbox msg (List.mem_cons_of_mem _ hmsg), h.localPipeFds,
        addStdFds_ne_pipe hostFlags⟩
  · next pipeFds forkState inbox hmsgs =>
      rw [hmsgs] at hinbox
      obtain ⟨rfl, hfork⟩ := hinbox _ List.mem_cons_self
      exact ⟨fun msg hmsg => hinbox msg (List.mem_cons_of_mem _ hmsg), h.localPipeFds,
        foldl_addFd_ne_pipe (addStdFds_ne_pipe hostFlags) hfork⟩
  · next pipeFds inbox hmsgs =>
      rw [hmsgs] at hinbox
      obtain rfl : pipeFds = [] := hinbox _ List.mem_cons_self
      exact ⟨fun msg hmsg => hinbox msg (List.mem_cons_of_mem _ hmsg), h.localPipeFds,
        addStdFds_ne_pipe hostFlags⟩
  · next updates removes inbox hmsgs =>
      rw [hmsgs] at hinbox
      obtain rfl : updates = [] := hinbox _ List.mem_cons_self
      exact ⟨fun msg hmsg => hinbox msg (List.mem_cons_of_mem _ hmsg),
        get?_foldl_delete h.localPipeFds removes, h.fds⟩

theorem NoPipes.handleKernelMessage {w : World} (h : NoPipes w) {msg : KernelMessage} (hpost : Bare msg.post)
    (hfork : ∀ fd ∈ msg.forkState, fd.atuaType ≠ atuaFdPipe) : NoPipes (handleKernelMessage w msg) := by
  unfold PipeNames.handleKernelMessage
  split
  · next pid updates removes heq =>
      rw [heq] at hpost
      refine h.updateWorker ?_ pid
      intro u hu
      refine ⟨?_, hu.localPipeFds, hu.fds⟩
      intro msg' hmsg'
      rcases List.mem_append.1 hmsg' with hold | hnew
      · exact hu.inbox msg' hold
      · rw [List.mem_singleton.1 hnew]
        exact hpost
  · next pid childPid pipeFds heq =>
      rw [heq] at hpost
      exact h.spawn _ ⟨hpost, hfork⟩
  · next pid childPid pipeFds heq =>
      rw [heq] at hpost
      exact h.spawn _ hpost

/-- Only a call for a pipe can make one. -/
theorem callMakesNoPipe_of_ne {k : Kernel.State} {pid : ℤ} {call : Call} {fate : Fate}
    (h : call ≠ .pipeCreate) : CallMakesNoPipe k pid call fate :=
  fun hcall => absurd hcall h

/-- A pipe that is not made leaves everything as it is. -/
theorem sysPipe2_fails {w : World} (hw : Kernel.Wf w.kernel) {pid : ℤ} {fate : Fate} (flags : Int32)
    (hcall : CallMakesNoPipe w.kernel pid .pipeCreate fate) :
    sysPipe2 w pid flags fate = (trapToKernel w pid .pipeCreate fate).1 := by
  have hneg : Int32.ofInt (handleSyscall w.kernel pid .pipeCreate fate).result < 0 := by
    unfold handleSyscall
    cases hp : w.kernel.processTable.get? pid with
    | none =>
        have hnoProc : Int32.ofInt (-1) < 0 := by decide
        exact hnoProc
    | some p => exact (sysPipeCreate_fails hw pid (hcall rfl (JsMap.has_iff.2 ⟨p, hp⟩))).2
  have hcreate : pipeCreate w pid fate =
      ((trapToKernel w pid .pipeCreate fate).1,
        Int32.ofInt (handleSyscall w.kernel pid .pipeCreate fate).result) := if_pos hneg
  rw [sysPipe2, hcreate]
  exact if_pos hneg

/-- Closing a descriptor that is no pipe. -/
theorem sysClose_ne_pipe {w : World} (h : NoPipes w) (pid : ℤ) (fildes : Int32) (fate : Fate) :
    sysClose w pid fildes fate = w ∨ sysClose w pid fildes fate =
      updateWorker w pid fun u => { u with fds := u.fds.eraseP fun fd => fd.fildes = fildes } := by
  unfold sysClose
  cases hfd : getFd (guestFds w pid) fildes with
  | none => exact Or.inl rfl
  | some fd =>
      have hne := h.guestFds pid fd (List.mem_of_find?_eq_some hfd)
      exact Or.inr (if_neg fun hpipe => hne hpipe.1)

/-- What a syscall does to the cache of a worker that knows of no pipe. -/
theorem cacheSyscall_empty {cache : JsMap ℤ View} (h : ∀ fd, cache.get? fd = none) (call : Call) (fd : ℤ) :
    (cacheSyscall cache call).get? fd = none := by
  unfold cacheSyscall
  split
  · next a b => rw [h a.toInt]; exact h fd
  · next a b c => rw [h a.toInt]; exact h fd
  · rw [JsMap.get?_delete]
    split_ifs
    · rfl
    · exact h fd
  · exact h fd

theorem ne_pipeCreate_of_isHost {call : Call} (h : isHost call = true) : call ≠ .pipeCreate := by
  rintro rfl
  cases h

/-- **An event that makes no pipe leaves a world without pipes.** -/
theorem noPipes_after {w : World} (hw : Kernel.Wf w.kernel) (h : NoPipes w) {ev : Event}
    (hev : MakesNoPipe w ev) : NoPipes (after w ev) := by
  have htrap : ∀ {pid call fate}, call ≠ .pipeCreate → NoPipes (trapToKernel w pid call fate).1 :=
    fun hne => h.trapToKernel hw (callMakesNoPipe_of_ne hne)
  cases ev with
  | message kev =>
      simp only [after]
      split_ifs with hm
      · refine ⟨pipeAt_after_eq_none hw h.kernel ?_, h.posted, h.workers⟩
        intro q readFd writeFd ring ht
        cases kev with
        | call pid call fate => cases hm
        | _ => cases ht
      · exact h
  | host pid call fate =>
      simp only [after]
      split_ifs with hc
      · have hne := ne_pipeCreate_of_isHost hc.2
        refine NoPipes.trapToKernel (h.updateWorker ?_ pid) ?_ (callMakesNoPipe_of_ne hne)
        · intro u hu
          exact ⟨hu.inbox, cacheSyscall_empty hu.localPipeFds call, hu.fds⟩
        · rw [kernel_updateWorker]
          exact hw
      · exact h
  | pipe2 pid flags fate =>
      simp only [after]
      split_ifs with hu
      · -- the call of the kernel fails, so nothing is put into the tables
        have hcall : CallMakesNoPipe w.kernel pid .pipeCreate fate := fun _ => hev hu
        rw [sysPipe2_fails hw flags hcall]
        exact h.trapToKernel hw hcall
      · exact h
  | read pid fildes => exact h
  | write pid fildes => exact h
  | close pid fildes fate =>
      rcases sysClose_ne_pipe h pid fildes fate with hclose | hclose
      · rw [after, hclose]
        exact h
      · rw [after, hclose]
        refine h.updateWorker ?_ pid
        intro u hu
        exact ⟨hu.inbox, hu.localPipeFds, fun fd hfd => hu.fds fd (List.mem_of_mem_eraseP hfd)⟩
  | fork pid fate =>
      simp only [after]
      split_ifs
      · exact htrap (by intro hc; cases hc)
      · exact h
  | forkExec pid childPid =>
      simp only [after]
      split_ifs
      · exact htrap (by intro hc; cases hc)
      · exact h
  | boot => exact h.spawn 1 trivial
  | mainReceives =>
      simp only [after]
      split
      · exact h
      · next msg posted hposted =>
          -- a message that was posted carries no pipe either
          have hmsg := h.posted
          rw [hposted] at hmsg
          obtain ⟨hpost, hfork⟩ := hmsg msg List.mem_cons_self
          have hrest : NoPipes { w with posted } :=
            ⟨h.kernel, fun m hm => hmsg m (List.mem_cons_of_mem _ hm), h.workers⟩
          exact hrest.handleKernelMessage hpost hfork
  | workerReceives pid hostFlags =>
      exact h.updateWorker (fun u hu => hu.receive hostFlags) pid
  | workerExits pid =>
      refine ⟨h.kernel, h.posted, ?_⟩
      intro q u hu
      simp only [after, JsMap.get?_delete] at hu
      split_ifs at hu
      exact h.workers q u hu

/-- Without pipes all names agree. -/
theorem NoPipes.agree {w : World} (h : NoPipes w) : Agree w where
  numbers := by
    intro pid fildes fd hfd hpipe
    exact absurd hpipe (h.guestFds pid fd (List.mem_of_find?_eq_some hfd))
  views := by
    intro pid u hu fd view hview
    rw [(h.workers pid u hu).localPipeFds fd] at hview
    cases hview

/-- Without pipes none is closed. -/
theorem NoPipes.closesOwn {w : World} (h : NoPipes w) (ev : Event) (w' : World) : ClosesOwn w ev w' := by
  cases ev with
  | close pid fildes fate =>
      intro fd hfd hpipe
      exact absurd hpipe (h.guestFds pid fd (List.mem_of_find?_eq_some hfd))
  | _ => trivial

/-! ### A pipe -/

/-- The numbers of Blink for a pipe in one of the first 257 slots. -/
theorem pipeFd_numbers {slot : ℕ} (h : slot < 257) :
    ¬ Int32.ofInt slot < 0 ∧ 0 ≤ pipeFd (Int32.ofInt slot) .read ∧ 0 ≤ pipeFd (Int32.ofInt slot) .write ∧
      (pipeFd (Int32.ofInt slot) .write).toInt = 201 + 2 * slot ∧
      pipeIdOf (pipeFd (Int32.ofInt slot) .write) = Int32.ofInt slot ∧
      (Int32.ofInt slot).toInt.toNat = slot ∧ endOf (pipeFd (Int32.ofInt slot) .write) = .write := by
  revert slot
  decide +kernel

/-- What the kernel answers about a new pipe. -/
theorem handleSyscall_creates {k : Kernel.State} (hw : Kernel.Wf k) {pid : ℤ} {fate : Fate}
    (hp : k.processTable.has pid = true) {b : Bridge.State} (hb : k.bridge = some b)
    (hc : Creates b fate) :
    (handleSyscall k pid .pipeCreate fate).result = b.nextPipeSlot := by
  obtain ⟨p, hp⟩ := JsMap.has_iff.1 hp
  have hreply := reply_pipeCreate (hw.bridge b hb) fate
  rw [if_pos hc] at hreply
  obtain ⟨hval, -, -⟩ := pipeCreate_numbers (hc.le (hw.bridge b hb))
  have herr : ¬ (Bridge.pipeCreate b).2.err ≠ 0 := fun h => h rfl
  simp only [handleSyscall, hp, sysPipeCreate, request, hb, hreply, if_neg herr, hval, fdOf]
  omega

/-- The kernel serves one call for a pipe. -/
theorem kernel_sysPipe2 (w : World) (pid : ℤ) (flags : Int32) (fate : Fate) :
    (sysPipe2 w pid flags fate).kernel = Kernel.after w.kernel (.call pid .pipeCreate fate) := by
  have hcreate : (pipeCreate w pid fate).1.kernel = Kernel.after w.kernel (.call pid .pipeCreate fate) := by
    by_cases hneg : Int32.ofInt (handleSyscall w.kernel pid .pipeCreate fate).result < 0
    · rw [show pipeCreate w pid fate = _ from if_pos hneg]
      rfl
    · rw [show pipeCreate w pid fate = _ from if_neg hneg]
      exact kernel_updateWorker _ _ _
  unfold sysPipe2
  generalize pipeCreate w pid fate = r at hcreate
  by_cases hneg : r.2 < 0
  · simp only [if_pos hneg]
    exact hcreate
  · simp only [if_neg hneg, kernel_updateWorker]
    exact hcreate

/-- A new descriptor is the one its number stands for. -/
theorem getFd_newPipeFd (fds : List Fd) {pipeId : Int32} (flags : Int32) {fdEnd : End}
    (h : 0 ≤ pipeFd pipeId fdEnd) :
    getFd (addFd fds (newPipeFd pipeId flags fdEnd)) (pipeFd pipeId fdEnd) =
      some (newPipeFd pipeId flags fdEnd) :=
  getFd_addFd h

/-- The list of the caller's descriptors starts with the two of the new pipe. -/
theorem guestFds_sysPipe2 {w : World} {pid : ℤ} (hu : w.executionWorkers.has pid = true) (flags : Int32)
    {fate : Fate} {slot : ℕ} (hslot : slot < 257)
    (hresult : (handleSyscall w.kernel pid .pipeCreate fate).result = slot) :
    ∃ fds, guestFds (sysPipe2 w pid flags fate) pid =
      addFd fds (newPipeFd (Int32.ofInt slot) flags .write) := by
  have hneg := (pipeFd_numbers hslot).1
  obtain ⟨u, hu⟩ := JsMap.has_iff.1 hu
  simp only [sysPipe2, pipeCreate, trapToKernel, hresult, if_neg hneg]
  unfold guestFds
  simp only [executionWorkers_updateWorker, if_true, hu, Option.map_some]
  exact ⟨_, rfl⟩

/-- **As soon as there is a pipe the names disagree**: the number of its write end is no descriptor for
it. -/
theorem not_agree_pipe2 {w : World} (hw : Kernel.Wf w.kernel) (hk : PipeEnds.Known w.kernel) {pid : ℤ}
    {flags : Int32} {fate : Fate} (hmakes : ¬ MakesNoPipe w (.pipe2 pid flags fate)) :
    ¬ Agree (after w (.pipe2 pid flags fate)) := by
  simp only [MakesNoPipe, not_forall, not_not] at hmakes
  obtain ⟨hu, hp, b, hb, hc⟩ := hmakes
  have hslot : b.nextPipeSlot < 257 := Nat.lt_succ_of_le (hc.le (hw.bridge b hb))
  obtain ⟨-, -, hwrite, hnumber, hid, hnat, hend⟩ := pipeFd_numbers hslot
  obtain ⟨fds, hfds⟩ := guestFds_sysPipe2 hu flags hslot (handleSyscall_creates hw hp hb hc)
  have hafter : after w (.pipe2 pid flags fate) = sysPipe2 w pid flags fate := if_pos hu
  rw [hafter]
  intro hagree
  have hget : getFd (guestFds (sysPipe2 w pid flags fate) pid)
      (pipeFd (Int32.ofInt b.nextPipeSlot) .write) =
        some (newPipeFd (Int32.ofInt b.nextPipeSlot) flags .write) := by
    rw [hfds]
    exact getFd_newPipeFd fds flags hwrite
  have hnamed : named (pipeFd (Int32.ofInt b.nextPipeSlot) .write) = PipeEnds.pipe b.nextPipeSlot .write := by
    rw [named, hid, hnat, hend]
  have hnumbers : pipeAt (sysPipe2 w pid flags fate).kernel
      (pid, (pipeFd (Int32.ofInt b.nextPipeSlot) .write).toInt) =
        some (named (pipeFd (Int32.ofInt b.nextPipeSlot) .write)) :=
    hagree.numbers pid _ (newPipeFd (Int32.ofInt b.nextPipeSlot) flags .write) hget rfl
  have hpipe : pipeAt (Kernel.after w.kernel (.call pid .pipeCreate fate)) (pid, 201 + 2 * b.nextPipeSlot) =
      some (PipeEnds.pipe b.nextPipeSlot .write) := by
    rw [← kernel_sysPipe2 w pid flags fate, ← hnumber, ← hnamed]
    exact hnumbers
  -- the kernel wrote the descriptors from 100 on, and no other stands for the new pipe
  have heffect : effectOf w.kernel (.call pid .pipeCreate fate) = pipeEffect w.kernel pid fate := by
    obtain ⟨p, hp⟩ := JsMap.has_iff.1 hp
    exact effectOf_call hp .pipeCreate fate
  have hmade : PipeEnds.made w.kernel (.call pid .pipeCreate fate) = some b.nextPipeSlot := by
    have hreq : (effectOf w.kernel (.call pid .pipeCreate fate)).request = some .pipeCreate := by
      rw [heffect]
      rfl
    have hexecutes : Executes b (fateOf (.call pid .pipeCreate fate)) := ⟨hc.1, by rw [fateOf, hc.2.1]; decide⟩
    have hx : PipeEnds.executed w.kernel (.call pid .pipeCreate fate) = some (b, .pipeCreate) := by
      simp only [PipeEnds.executed, hb, hreq, if_pos hexecutes]
    simp only [PipeEnds.made, hx, if_pos hc.2.2]
  have hout : ¬ (effectOf w.kernel (.call pid .pipeCreate fate)).touch.slots w.kernel
      (pid, 201 + 2 * b.nextPipeSlot) := by
    rw [heffect, pipeEffect_touch hw hb, if_pos hc]
    simp only [Touch.slots, fdOf, Prod.mk.injEq, true_and]
    omega
  rw [PipeEnds.pipeAt_untouched hw _ _ hout] at hpipe
  exact PipeEnds.not_known_made _ hk hmade _ _ hpipe

/-! ### Runs -/

/-- Every event changes the kernel by one of its own, or not at all. -/
theorem kernel_after (w : World) (ev : Event) :
    (after w ev).kernel = w.kernel ∨ ∃ kev, (after w ev).kernel = Kernel.after w.kernel kev := by
  cases ev with
  | message kev =>
      simp only [after]
      split_ifs
      · exact Or.inr ⟨kev, rfl⟩
      · exact Or.inl rfl
  | host pid call fate =>
      simp only [after]
      split_ifs
      · refine Or.inr ⟨.call pid call fate, ?_⟩
        simp only [hostSyscall, trapToKernel, kernel_updateWorker]
        rfl
      · exact Or.inl rfl
  | pipe2 pid flags fate =>
      simp only [after]
      split_ifs
      · exact Or.inr ⟨.call pid .pipeCreate fate, kernel_sysPipe2 w pid flags fate⟩
      · exact Or.inl rfl
  | read pid fildes => exact Or.inl rfl
  | write pid fildes => exact Or.inl rfl
  | close pid fildes fate =>
      simp only [after, sysClose]
      split
      · exact Or.inl rfl
      · next fd hfd =>
          split_ifs
          · refine Or.inr ⟨.call pid (.pipeClose (pipeIdOf fd.atuaHostHandle)) fate, ?_⟩
            simp only [pipeClose, trapToKernel, kernel_updateWorker]
            rfl
          · exact Or.inl (kernel_updateWorker _ _ _)
  | fork pid fate =>
      simp only [after]
      split_ifs
      · exact Or.inr ⟨.call pid .forkSpawn fate, rfl⟩
      · exact Or.inl rfl
  | forkExec pid childPid =>
      simp only [after]
      split_ifs
      · exact Or.inr ⟨.call pid (.forkExecSpawn childPid) .answered, rfl⟩
      · exact Or.inl rfl
  | boot => exact Or.inl rfl
  | mainReceives =>
      refine Or.inl ?_
      simp only [after]
      split
      · rfl
      · unfold handleKernelMessage
        split
        · rw [kernel_updateWorker]
        · rfl
        · rfl
  | workerReceives pid hostFlags => exact Or.inl (kernel_updateWorker _ _ _)
  | workerExits pid => exact Or.inl rfl

/-- What every event keeps, and that there are no pipes. -/
structure Inv (w : World) : Prop where
  wf : Kernel.Wf w.kernel
  known : PipeEnds.Known w.kernel
  noPipes : NoPipes w

theorem inv_of_starts {w : World} (h : Starts w) : Inv w where
  wf := wf_of_starts h.kernel
  known := PipeEnds.known_of_starts h.kernel
  noPipes :=
    { kernel := by
        intro s
        rw [pipeAt, refs, kindAt_of_noProc (h.kernel.noProc s.1)]
        rfl
      posted := by
        intro msg hmsg
        rw [h.posted] at hmsg
        cases hmsg
      workers := by
        intro pid u hu
        rw [h.noWorker pid] at hu
        cases hu }

theorem inv_after {w : World} (h : Inv w) {ev : Event} (hev : MakesNoPipe w ev) : Inv (after w ev) := by
  have hnone := noPipes_after h.wf h.noPipes hev
  rcases kernel_after w ev with heq | ⟨kev, heq⟩
  · exact ⟨heq ▸ h.wf, heq ▸ h.known, hnone⟩
  · exact ⟨heq ▸ wf_after h.wf kev, heq ▸ PipeEnds.known_after h.wf kev h.known, hnone⟩

/-- An event after which the names agree has made no pipe. -/
theorem makesNoPipe_of_agree {w : World} (h : Inv w) {ev : Event} (hagree : Agree (after w ev)) :
    MakesNoPipe w ev := by
  by_contra hmakes
  cases ev with
  | pipe2 pid flags fate => exact not_agree_pipe2 h.wf h.known hmakes hagree
  | _ => exact hmakes trivial

/-- **The names of the layers agree throughout a run, and every close of a pipe keeps to its own
descriptor, in exactly the runs in which no pipe is made.** -/
theorem agree_iff_noPipe {w : World} {tr : List (Event × World)} (hw : Starts w) (hrun : IsRun Step w tr) :
    Throughout Agree w tr ∧ EachStep ClosesOwn w tr ↔ Meets MakesNoPipe w tr := by
  have hstep : ∀ s ev s', Inv s → MakesNoPipe s ev → Step s ev s' → Inv s' := by
    rintro s ev s' hs hG rfl
    exact inv_after hs hG
  have hforced : ∀ s ev s', Inv s → Step s ev s' → Agree s' → Inv s' ∧ MakesNoPipe s ev := by
    rintro s ev s' hs rfl hagree
    have hG := makesNoPipe_of_agree hs hagree
    exact ⟨inv_after hs hG, hG⟩
  have hcloses : ∀ s ev s', Inv s → MakesNoPipe s ev → Step s ev s' → Inv s' ∧ ClosesOwn s ev s' := by
    intro s ev s' hs hG hev
    exact ⟨hstep s ev s' hs hG hev, hs.noPipes.closesOwn ev s'⟩
  constructor
  · rintro ⟨hagree, -⟩
    exact meets_of_throughout hforced (inv_of_starts hw) hrun hagree
  · intro hG
    have hinv := throughout_of_meets hstep (inv_of_starts hw) hrun hG
    exact ⟨hinv.mono fun s hs => hs.noPipes.agree, eachStep_of_meets hcloses (inv_of_starts hw) hrun hG⟩

/-- The world with a bridge, before the first worker is booted. -/
def started : World := ⟨bootedWithBridge, [], JsMap.empty⟩

theorem starts_started : Starts started where
  kernel := starts_bootedWithBridge
  posted := rfl
  noWorker := fun _ => rfl

/-- The first process is booted and makes a pipe. -/
def firstPipe : List Event :=
  [.boot, .message (.registerWorker 1), .workerReceives 1 fun _ => none, .message (.registerMemory 1),
    .pipe2 1 0 .answered]

/-- The guest got 201 for the write end, which is no descriptor of the process. -/
theorem not_agree_firstPipe : ¬ Throughout Agree started (trace after started firstPipe) := by
  intro h
  have hend := h.final
  rw [final_trace] at hend
  have hget : getFd (guestFds (firstPipe.foldl after started) 1) 201 = some (newPipeFd 0 0 .write) := by
    decide
  have hnone : pipeAt (firstPipe.foldl after started).kernel (1, 201) = none := by
    decide
  have hpipe := hend.numbers 1 201 _ hget rfl
  rw [show ((201 : Int32).toInt) = 201 from rfl, hnone] at hpipe
  cases hpipe

theorem not_makesNoPipe_firstPipe : ¬ Meets MakesNoPipe started (trace after started firstPipe) :=
  fun h => not_agree_firstPipe ((agree_iff_noPipe starts_started (isRun_trace after started firstPipe)).2 h).1

theorem not_agree : ¬ ∀ (w : World) (tr : List (Event × World)), Starts w → IsRun Step w tr →
    Throughout Agree w tr ∧ EachStep ClosesOwn w tr :=
  fun h => not_agree_firstPipe (h started _ starts_started (isRun_trace after started firstPipe)).1

end PipeNames
