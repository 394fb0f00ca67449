/-
**Workers that are used again.**

A worker whose program has ended is sent a reset and goes back into the pool.  What a worker keeps is
scattered over variables of its script and properties of `self` that its imports make when they first need
them; the reset clears some of them, and the next boot sets some.  Whatever is neither cleared nor set
belongs to the program before.

The engine is a parameter: a function from all it has seen to its next move, so that two workers that
answer its imports in the same way run it in the same way.

Main definitions:

* `WorkerReset.Globals`, `WorkerReset.reset` — what a worker keeps, and the reset;
* `WorkerReset.perform` — the imports;
* `WorkerReset.receive`, `WorkerReset.advance` — the messages, and the moves of the engine;
* `WorkerReset.LikeFresh` — a message to a recycled worker has the effect it has on a new one;
* `WorkerReset.Clean` — the condition.

Main results:

* `WorkerReset.agree_perform`, `WorkerReset.alike_advance` — workers that look alike behave alike;
* `WorkerReset.likeFresh_iff_clean` — **when a recycled worker is as good as a new one**.
-/

import AtuaComputer.Bridge
import AtuaComputer.JsMap
import AtuaComputer.ParentPages
import AtuaComputer.WorkerMemory

set_option relaxedAutoImplicit false
set_option autoImplicit false

namespace WorkerReset

open WorkerMemory

/-! ### What a worker keeps -/

/-- A shared buffer. -/
abbrev Sab := ℕ

/-- An entry of `localPipeFds`: the ring lies at `offset` in the buffer. -/
structure PipeEntry where
  sab : Sab
  offset : ℕ
  fdEnd : Bridge.End
deriving DecidableEq

/-- The variables of the script and the properties of `self`.  `sleepSab` and `growSab` say whether there is
such a buffer; `brk` and `ppfLog` are 0 while they are undefined. -/
structure Globals where
  memory : Option LinearMemory
  controlSab : Option Sab
  wakeChannel : Option Sab
  bridgeSab : Option Sab
  guestPagesSab : Option Sab
  parentPageAddrs : Option (List UInt32)
  sleepSab : Bool
  growSab : Bool
  brk : ℕ
  ppfLog : ℕ
  localPipeFds : JsMap ℤ PipeEntry

/-- A new worker. -/
def fresh : Globals where
  memory := none
  controlSab := none
  wakeChannel := none
  bridgeSab := none
  guestPagesSab := none
  parentPageAddrs := none
  sleepSab := false
  growSab := false
  brk := 0
  ppfLog := 0
  localPipeFds := JsMap.empty

/-- `resetWorkerState(); localPipeFds.clear()` -/
def reset (g : Globals) : Globals :=
  { g with
    memory := none
    controlSab := none
    wakeChannel := none
    guestPagesSab := none
    sleepSab := false
    localPipeFds := JsMap.empty }

/-! ### The outside -/

/-- What an import does outside the worker: a trap to the kernel, an access to the ring of a pipe, a copy of
a page of the parent, a growth of the memory, or what an import does that keeps nothing on the worker. -/
inductive Access where
  | trap (controlSab : Option Sab) (n a b c d e f : ℤ)
  | pipe (entry : PipeEntry) (n bufPtr count : ℤ)
  | guestPages (sab : Sab) (addr : UInt32) (destPtr : ℤ)
  | grow
  | other (controlSab : Option Sab) (name : String) (args : List ℤ)

/-- What comes back: `control[8]` or the result, `control[9]`, whether a growth is granted, and the memory
afterwards. -/
structure Reply where
  result : ℤ
  second : ℤ
  granted : Bool
  memory : LinearMemory

/-- What a worker does, as it is seen from outside: the accesses with the memory they meet, the lengths it
posts with `memory-ready`, what its imports return to the engine (`none` when they throw) with the memory
the engine then finds, and the exit code. -/
inductive Event where
  | access (a : Access) (memory : Option LinearMemory)
  | memoryReady (length : ℕ)
  | returned (result : Option ℤ) (memory : Option LinearMemory)
  | exit (code : ℤ)

/-- The kernel, the other workers and the host: the reply to an access depends on all that has been seen of
the worker. -/
abbrev World := List Event → Reply

/-- A worker at work, and what has been seen of it since its message. -/
structure Run where
  globals : Globals
  log : List Event

/-- The memory of the instance. -/
def memoryOf (g : Globals) : LinearMemory := g.memory.getD ⟨0, fun _ => 0⟩

/-- An access. -/
def consult (world : World) (r : Run) (a : Access) : Reply × Run :=
  let log := r.log ++ [.access a r.globals.memory]
  (world log, { r with log })

/-- An access that may change the memory. -/
def ask (world : World) (r : Run) (a : Access) : Reply × Run :=
  let (reply, r) := consult world r a
  (reply, { r with globals := { r.globals with memory := some reply.memory } })

/-- `trapToKernel` -/
def trapToKernel (world : World) (r : Run) (n a b c d e f : ℤ) : Reply × Run :=
  ask world r (.trap r.globals.controlSab n a b c d e f)

/-! ### Imports -/

/-- The imports that read or write what the worker keeps; `trap` stands for those that only trap, and
`other` for the remaining ones. -/
inductive Import where
  | hostSyscall (n a b c d e f : ℤ)
  | pagePoolFault (pageIndex destPtr : ℤ)
  | pipeCreate
  | pipeRead (pipeId bufPtr len : ℤ)
  | pipeWrite (pipeId bufPtr len : ℤ)
  | sleepMs (ms : ℤ)
  | trap (n a b c d e f : ℤ)
  | other (name : String) (args : List ℤ)

/-- `localPipeRead`, `localPipeWrite` and their vector forms, told apart by the number of the syscall. -/
def localPipe (world : World) (r : Run) (fdEnd : Bridge.End) (n fd bufPtr count : ℤ) : ℤ × Run :=
  match r.globals.localPipeFds.get? fd with
  | none => (-9, r)
  | some entry =>
    if entry.fdEnd ≠ fdEnd then (-9, r)
    else
      let (reply, r) := ask world r (.pipe entry n bufPtr count)
      (reply.result, r)

/-- What `brk` and `mmap` leave behind. -/
def putWorker (r : Run) (w : WorkerMemory.Worker) : Run where
  globals :=
    { r.globals with
      memory := some w.memory
      brk := w.brk
      growSab := r.globals.growSab || !w.memoryReady.isEmpty }
  log := r.log ++ w.memoryReady.map .memoryReady

/-- What `brk` and `mmap` look at. -/
def workerOf (g : Globals) : WorkerMemory.Worker where
  memory := memoryOf g
  brk := g.brk
  memoryReady := []

/-- `host_syscall` 12 -/
def hostBrk (world : World) (r : Run) (a : ℤ) : ℤ × Run :=
  let (reply, r) := consult world r .grow
  let (value, w) := brk (workerOf r.globals) (UInt32.ofInt a) reply.granted
  (value, putWorker r w)

/-- `host_syscall` 9 -/
def hostMmap (world : World) (r : Run) (b : ℤ) : ℤ × Run :=
  let (reply, r) := consult world r .grow
  let (value, w) := mmap (workerOf r.globals) (UInt32.ofInt b) reply.granted
  (value, putWorker r w)

/-- What `dup2`, `dup3` and `close` do to the cache before they trap. -/
def cacheSyscall (cache : JsMap ℤ PipeEntry) (n a b : ℤ) : JsMap ℤ PipeEntry :=
  if n = 33 ∨ n = 292 then
    match cache.get? a with
    | none => cache
    | some entry => cache.set b entry
  else if n = 3 then cache.delete a
  else cache

/-- `host_syscall`; `none` when it throws. -/
def hostSyscall (world : World) (r : Run) (n a b c d e f : ℤ) : Option ℤ × Run :=
  let piped := r.globals.localPipeFds.has a
  let answer := fun (out : ℤ × Run) => (some out.1, out.2)
  if n = 60 ∨ n = 231 ∨ n = 62 ∨ n = 200 ∨ n = 234 then (none, r)
  else if n = 12 then answer (hostBrk world r a)
  else if n = 9 then answer (hostMmap world r b)
  else if n = 10 ∨ n = 11 then (some 0, r)
  else if n = 25 then (some (-38), r)
  else if n = 0 ∧ piped then answer (localPipe world r .read 0 a b c)
  else if n = 1 ∧ piped then answer (localPipe world r .write 1 a b c)
  else if n = 19 ∧ piped then answer (localPipe world r .read 19 a b c)
  else if n = 20 ∧ piped then answer (localPipe world r .write 20 a b c)
  else
    let localPipeFds := cacheSyscall r.globals.localPipeFds n a b
    let (reply, r) :=
      trapToKernel world { r with globals := { r.globals with localPipeFds } } n a b c d e f
    (some reply.result, r)

/-- The page of the parent that a fault is served from, if any. -/
def servedFrom (g : Globals) (pageIndex : ℤ) : Option (Sab × UInt32) :=
  match g.guestPagesSab, g.parentPageAddrs with
  | some sab, some addrs =>
    match if 0 ≤ pageIndex then addrs[pageIndex.toNat]? else none with
    | some addr => if 0 < addr then some (sab, addr) else none
    | none => none
  | _, _ => none

/-- `page_pool_fault` -/
def pagePoolFault (world : World) (r : Run) (pageIndex destPtr : ℤ) : ℤ × Run :=
  let ppfLog := if r.globals.ppfLog < 5 then r.globals.ppfLog + 1 else r.globals.ppfLog
  let r := { r with globals := { r.globals with ppfLog } }
  match servedFrom r.globals pageIndex with
  | some (sab, addr) =>
    let (_, r) := ask world r (.guestPages sab addr destPtr)
    (0, r)
  | none =>
    let (_, r) := trapToKernel world r 1007 pageIndex destPtr 0 0 0 0
    (0, r)

/-- `pipe_create` -/
def pipeCreate (world : World) (r : Run) : ℤ × Run :=
  let (reply, r) := trapToKernel world r 1012 0 0 0 0 0 0
  let pipeId := reply.result
  if pipeId < 0 then (pipeId, r)
  else
    match r.globals.bridgeSab with
    | none => (pipeId, r)
    | some sab =>
      if 0 < reply.second then
        let offset := reply.second.toNat
        let localPipeFds :=
          (r.globals.localPipeFds.set (200 + pipeId * 2) ⟨sab, offset, .read⟩).set
            (200 + pipeId * 2 + 1) ⟨sab, offset, .write⟩
        (pipeId, { r with globals := { r.globals with localPipeFds } })
      else (pipeId, r)

/-- `pipe_read` -/
def pipeRead (world : World) (r : Run) (pipeId bufPtr len : ℤ) : ℤ × Run :=
  let readFd := 200 + pipeId * 2
  if r.globals.localPipeFds.has readFd then localPipe world r .read 0 readFd bufPtr len
  else
    let (reply, r) := trapToKernel world r 1013 pipeId bufPtr len 0 0 0
    (reply.result, r)

/-- `pipe_write` -/
def pipeWrite (world : World) (r : Run) (pipeId bufPtr len : ℤ) : ℤ × Run :=
  let writeFd := 200 + pipeId * 2 + 1
  if r.globals.localPipeFds.has writeFd then localPipe world r .write 1 writeFd bufPtr len
  else
    let (reply, r) := trapToKernel world r 1014 pipeId bufPtr len 0 0 0
    (reply.result, r)

/-- `sleep_ms`, which makes the buffer it waits on. -/
def sleepMs (world : World) (r : Run) (ms : ℤ) : ℤ × Run :=
  let r := { r with globals := { r.globals with sleepSab := true } }
  let (_, r) := consult world r (.other r.globals.controlSab "sleep_ms" [ms])
  (0, r)

/-- An import, with what it returns to the engine. -/
def perform (world : World) (r : Run) : Import → Option ℤ × Run
  | .hostSyscall n a b c d e f => hostSyscall world r n a b c d e f
  | .pagePoolFault pageIndex destPtr =>
    let (value, r) := pagePoolFault world r pageIndex destPtr
    (some value, r)
  | .pipeCreate =>
    let (value, r) := pipeCreate world r
    (some value, r)
  | .pipeRead pipeId bufPtr len =>
    let (value, r) := pipeRead world r pipeId bufPtr len
    (some value, r)
  | .pipeWrite pipeId bufPtr len =>
    let (value, r) := pipeWrite world r pipeId bufPtr len
    (some value, r)
  | .sleepMs ms =>
    let (value, r) := sleepMs world r ms
    (some value, r)
  | .trap n a b c d e f =>
    let (reply, r) := trapToKernel world r n a b c d e f
    (some reply.result, r)
  | .other name args =>
    let (reply, r) := ask world r (.other r.globals.controlSab name args)
    (some reply.result, r)

/-! ### Messages -/

/-- What the exports of the engine are called with. -/
inductive Export where
  | start
  | initForFork
  | malloc (size : ℕ)
  | restoreFork (statePtr forkStateLen : ℤ)
  | getExitCode

/-- What the engine sees: that it is called, and what its imports return. -/
inductive Seen where
  | entered (e : Export) (memory : LinearMemory)
  | returned (result : Option ℤ) (memory : LinearMemory)

/-- What the engine does next, with the memory as it has written it: it calls an import, or it returns from
the export that was called (`none` when it throws). -/
inductive Move where
  | call (i : Import) (memory : LinearMemory)
  | done (value : Option ℤ) (memory : LinearMemory)

/-- The instance of the engine, with the arguments and the environment it was made for. -/
abbrev Engine := List Seen → Move

/-- An element of `pipeFds`. -/
structure PipeFd where
  fd : ℤ
  sab : Sab
  fdEnd : Bridge.End

/-- The buffers that every message brings. -/
structure Buffers where
  controlSab : Sab
  wakeChannel : Sab
  bridgeSab : Option Sab

/-- The messages that start a program. -/
inductive Message where
  | boot (buffers : Buffers)
  | restoreFork (buffers : Buffers) (forkState : List UInt8) (forkStateLen : ℤ)
      (guestPagesSab : Option Sab) (pipeFds : List PipeFd)
  | forkExec (buffers : Buffers) (pipeFds : List PipeFd)

/-- Where the handler of the message waits for the engine. -/
inductive Phase where
  | starting
  | initializing (forkState : List UInt8) (forkStateLen : ℤ)
  | allocating (forkState : List UInt8) (forkStateLen : ℤ)
  | restoring
  | exiting

/-- A handler that waits, and all the engine has seen. -/
structure Process where
  phase : Phase
  seen : List Seen

/-- A worker, what has been seen of it since its last message, and the handler that runs, if one does. -/
structure State where
  globals : Globals
  log : List Event
  process : Option Process

/-- `new WebAssembly.Memory({ initial: 4096, … })` -/
def newMemory : LinearMemory := ⟨initialPages, fun _ => 0⟩

/-- The entries that a message puts into the cache. -/
def cachePipes (pipeFds : List PipeFd) (g : Globals) : Globals :=
  { g with
    localPipeFds :=
      pipeFds.foldl (fun cache u => cache.set u.fd ⟨u.sab, 0, u.fdEnd⟩) g.localPipeFds }

/-- The buffers and the memory, which all messages set in this way. -/
def install (b : Buffers) (g : Globals) : Globals :=
  { g with
    controlSab := some b.controlSab
    wakeChannel := some b.wakeChannel
    bridgeSab := b.bridgeSab.or g.bridgeSab
    memory := some newMemory }

/-- The call of an export. -/
def enter (s : State) (phase : Phase) (seen : List Seen) (e : Export) : State :=
  { s with process := some ⟨phase, seen ++ [.entered e (memoryOf s.globals)]⟩ }

/-- The handler is over without an exit. -/
def stop (s : State) : State := { s with process := none }

/-- A worker whose instance has been made. -/
def instantiated (globals : Globals) : State := ⟨globals, [.memoryReady newMemory.byteLength], none⟩

/-- `bootEngine` -/
def bootEngine (g : Globals) (b : Buffers) : State :=
  enter (instantiated (install b g)) .starting [] .start

/-- `restoreFork`, up to the call of `init_for_fork` -/
def restoreFork (g : Globals) (b : Buffers) (forkState : List UInt8) (forkStateLen : ℤ)
    (guestPagesSab : Option Sab) (pipeFds : List PipeFd) : State :=
  let globals := { install b (cachePipes pipeFds g) with guestPagesSab }
  enter (instantiated globals) (.initializing forkState forkStateLen) [] .initForFork

/-- `forkExec` -/
def forkExec (g : Globals) (b : Buffers) (pipeFds : List PipeFd) : State :=
  enter (instantiated (install b (cachePipes pipeFds g))) .starting [] .start

/-- A message that starts a program. -/
def receive (g : Globals) : Message → State
  | .boot b => bootEngine g b
  | .restoreFork b forkState forkStateLen guestPagesSab pipeFds =>
    restoreFork g b forkState forkStateLen guestPagesSab pipeFds
  | .forkExec b pipeFds => forkExec g b pipeFds

/-- `new Uint8Array(memory.buffer, ptr, bs.length).set(bs)` -/
def put (m : LinearMemory) (ptr : ℕ) (bs : List UInt8) : LinearMemory :=
  { m with bytes := fun i => if ptr ≤ i then bs[i - ptr]?.getD (m.bytes i) else m.bytes i }

/-- `restoreFork` once there is a place for the state of the parent. -/
def putForkState (s : State) (seen : List Seen) (forkState : List UInt8) (forkStateLen statePtr : ℤ) :
    State :=
  let memory := memoryOf s.globals
  if 0 ≤ statePtr ∧ statePtr.toNat + forkState.length ≤ memory.byteLength then
    let globals :=
      { s.globals with
        memory := some (put memory statePtr.toNat forkState)
        parentPageAddrs := some (ParentPages.parseParentPageAddrs forkState) }
    enter { s with globals } .restoring seen (.restoreFork statePtr forkStateLen)
  else stop s

/-- What the handler does when an export has returned.  `_start` and `restore_fork` may throw, which is how a
program exits. -/
def leave (s : State) (p : Process) (value : Option ℤ) : State :=
  match p.phase, value with
  | .starting, _ => enter s .exiting p.seen .getExitCode
  | .initializing _ _, none => stop s
  | .initializing forkState forkStateLen, some _ =>
    enter s (.allocating forkState forkStateLen) p.seen (.malloc forkState.length)
  | .allocating _ _, none => stop s
  | .allocating forkState forkStateLen, some statePtr =>
    putForkState s p.seen forkState forkStateLen statePtr
  | .restoring, _ => enter s .exiting p.seen .getExitCode
  | .exiting, _ => stop { s with log := s.log ++ [.exit (value.getD 0)] }

/-- The memory as the engine has written it. -/
def State.written (s : State) (memory : LinearMemory) : State :=
  { s with globals := { s.globals with memory := some memory } }

/-- An import, and its return to the engine. -/
def answer (world : World) (s : State) (p : Process) (i : Import) : State :=
  let (result, r) := perform world ⟨s.globals, s.log⟩ i
  { globals := r.globals
    log := r.log ++ [.returned result r.globals.memory]
    process := some { p with seen := p.seen ++ [.returned result (memoryOf r.globals)] } }

/-- A move of the engine, if one runs. -/
def advance (world : World) (engine : Engine) (s : State) : State :=
  match s.process with
  | none => s
  | some p =>
    match engine p.seen with
    | .call i memory => answer world (s.written memory) p i
    | .done value memory => leave (s.written memory) p value

/-- What is seen of the worker in the first `n` moves. -/
def observe (world : World) (engine : Engine) (s : State) (n : ℕ) : List Event :=
  ((advance world engine)^[n] s).log

/-- An update of `pipe-fd-cache`, at its `ringOffset`. -/
structure PipeUpdate where
  fd : ℤ
  sab : Sab
  ringOffset : ℕ
  fdEnd : Bridge.End

/-- `pipe-fd-cache` -/
def pipeFdCache (updates : List PipeUpdate) (removes : List ℤ) (g : Globals) : Globals :=
  let updated :=
    updates.foldl (fun cache u => cache.set u.fd ⟨u.sab, u.ringOffset, u.fdEnd⟩) g.localPipeFds
  { g with localPipeFds := removes.foldl JsMap.delete updated }

/-- What a worker can come to keep: programs run on it for any number of moves, with any kernel and any
engine, the kernel fills its cache, and it is reset. -/
inductive Used : Globals → Prop where
  | fresh : Used fresh
  | ran {g : Globals} (m : Message) (world : World) (engine : Engine) (n : ℕ) (h : Used g) :
      Used ((advance world engine)^[n] (receive g m)).globals
  | cached {g : Globals} (updates : List PipeUpdate) (removes : List ℤ) (h : Used g) :
      Used (pipeFdCache updates removes g)
  | reset {g : Globals} (h : Used g) : Used (reset g)

/-- **A reset worker is as good as a new one** for a message: with the same engine and the same replies, the
same is seen of both, however long they run. -/
def LikeFresh (g : Globals) (m : Message) : Prop :=
  ∀ (world : World) (engine : Engine) (n : ℕ),
    observe world engine (receive (reset g) m) n = observe world engine (receive fresh m) n

/-! ### Workers that look alike -/

/-- Two workers whose imports cannot tell which of the two they are on. -/
structure Alike (g h : Globals) : Prop where
  memory : g.memory = h.memory
  controlSab : g.controlSab = h.controlSab
  bridgeSab : g.bridgeSab = h.bridgeSab
  guestPagesSab : g.guestPagesSab = h.guestPagesSab
  brk : g.brk = h.brk
  localPipeFds : g.localPipeFds = h.localPipeFds
  served : ∀ pageIndex, servedFrom g pageIndex = servedFrom h pageIndex

/-- Two runs on such workers of which the same has been seen. -/
structure AlikeRun (r s : Run) : Prop where
  globals : Alike r.globals s.globals
  log : r.log = s.log

/-- Two outcomes that look alike. -/
def Agree {α : Type} (out out' : α × Run) : Prop := out.1 = out'.1 ∧ AlikeRun out.2 out'.2

theorem Alike.memoryOf_eq {g h : Globals} (a : Alike g h) : memoryOf g = memoryOf h := by
  unfold memoryOf
  rw [a.memory]

theorem Alike.setMemory {g h : Globals} (a : Alike g h) (m : Option LinearMemory) :
    Alike { g with memory := m } { h with memory := m } :=
  ⟨rfl, a.controlSab, a.bridgeSab, a.guestPagesSab, a.brk, a.localPipeFds, a.served⟩

theorem Alike.setCache {g h : Globals} (a : Alike g h) (cache : JsMap ℤ PipeEntry) :
    Alike { g with localPipeFds := cache } { h with localPipeFds := cache } :=
  ⟨a.memory, a.controlSab, a.bridgeSab, a.guestPagesSab, a.brk, rfl, a.served⟩

section
variable {r s : Run} (world : World)

theorem agree_consult (h : AlikeRun r s) (a : Access) : Agree (consult world r a) (consult world s a) := by
  have hlog : r.log ++ [.access a r.globals.memory] = s.log ++ [.access a s.globals.memory] := by
    rw [h.log, h.globals.memory]
  exact ⟨congrArg world hlog, h.globals, hlog⟩

theorem agree_ask (h : AlikeRun r s) (a : Access) : Agree (ask world r a) (ask world s a) := by
  obtain ⟨hreply, hrun⟩ := agree_consult world h a
  have hglobals := hrun.globals.setMemory (some (consult world r a).1.memory)
  exact ⟨hreply, by simpa [ask, hreply] using hglobals, hrun.log⟩

theorem agree_trapToKernel (h : AlikeRun r s) (n a b c d e f : ℤ) :
    Agree (trapToKernel world r n a b c d e f) (trapToKernel world s n a b c d e f) := by
  unfold trapToKernel
  rw [h.globals.controlSab]
  exact agree_ask world h _

/-- The result alone agrees, too. -/
theorem Agree.result {out out' : Reply × Run} (h : Agree out out') :
    Agree (out.1.result, out.2) (out'.1.result, out'.2) :=
  ⟨congrArg Reply.result h.1, h.2⟩

theorem Agree.some {α : Type} {out out' : α × Run} (h : Agree out out') :
    Agree (Option.some out.1, out.2) (Option.some out'.1, out'.2) :=
  ⟨congrArg Option.some h.1, h.2⟩

theorem Agree.ite {α : Type} {p : Prop} [Decidable p] {out out' alt alt' : α × Run} (h : Agree out out')
    (halt : Agree alt alt') : Agree (if p then out else alt) (if p then out' else alt') := by
  split
  · exact h
  · exact halt

theorem agree_localPipe (h : AlikeRun r s) (fdEnd : Bridge.End) (n fd bufPtr count : ℤ) :
    Agree (localPipe world r fdEnd n fd bufPtr count) (localPipe world s fdEnd n fd bufPtr count) := by
  unfold localPipe
  rw [h.globals.localPipeFds]
  cases s.globals.localPipeFds.get? fd with
  | none => exact ⟨rfl, h⟩
  | some entry =>
      dsimp only
      split
      · exact ⟨rfl, h⟩
      · exact (agree_ask world h (.pipe entry n bufPtr count)).result

theorem alike_putWorker (h : AlikeRun r s) (w : WorkerMemory.Worker) :
    AlikeRun (putWorker r w) (putWorker s w) where
  globals := ⟨rfl, h.globals.controlSab, h.globals.bridgeSab, h.globals.guestPagesSab, rfl,
    h.globals.localPipeFds, h.globals.served⟩
  log := congrArg (· ++ _) h.log

theorem Alike.workerOf_eq {g h : Globals} (a : Alike g h) : workerOf g = workerOf h := by
  unfold workerOf
  rw [a.memoryOf_eq, a.brk]

theorem agree_hostBrk (h : AlikeRun r s) (a : ℤ) : Agree (hostBrk world r a) (hostBrk world s a) := by
  obtain ⟨hreply, hrun⟩ := agree_consult world h .grow
  unfold hostBrk
  simp only [hreply, hrun.globals.workerOf_eq]
  exact ⟨rfl, alike_putWorker hrun _⟩

theorem agree_hostMmap (h : AlikeRun r s) (b : ℤ) : Agree (hostMmap world r b) (hostMmap world s b) := by
  obtain ⟨hreply, hrun⟩ := agree_consult world h .grow
  unfold hostMmap
  simp only [hreply, hrun.globals.workerOf_eq]
  exact ⟨rfl, alike_putWorker hrun _⟩

theorem agree_hostSyscall (h : AlikeRun r s) (n a b c d e f : ℤ) :
    Agree (hostSyscall world r n a b c d e f) (hostSyscall world s n a b c d e f) := by
  have htrap (cache : JsMap ℤ PipeEntry) :=
    (agree_trapToKernel world (r := ⟨{ r.globals with localPipeFds := cache }, r.log⟩)
      (s := ⟨{ s.globals with localPipeFds := cache }, s.log⟩) ⟨h.globals.setCache cache, h.log⟩
      n a b c d e f).result.some
  unfold hostSyscall
  simp only [h.globals.localPipeFds]
  -- one line for each branch, in the order of the source
  refine Agree.ite ⟨rfl, h⟩ ?_
  refine Agree.ite (agree_hostBrk world h a).some ?_
  refine Agree.ite (agree_hostMmap world h b).some ?_
  refine Agree.ite ⟨rfl, h⟩ ?_
  refine Agree.ite ⟨rfl, h⟩ ?_
  refine Agree.ite (agree_localPipe world h .read 0 a b c).some ?_
  refine Agree.ite (agree_localPipe world h .write 1 a b c).some ?_
  refine Agree.ite (agree_localPipe world h .read 19 a b c).some ?_
  refine Agree.ite (agree_localPipe world h .write 20 a b c).some ?_
  exact htrap _

theorem alike_ppfLog (h : AlikeRun r s) (i j : ℕ) :
    AlikeRun ⟨{ r.globals with ppfLog := i }, r.log⟩ ⟨{ s.globals with ppfLog := j }, s.log⟩ where
  globals := ⟨h.globals.memory, h.globals.controlSab, h.globals.bridgeSab, h.globals.guestPagesSab,
    h.globals.brk, h.globals.localPipeFds, h.globals.served⟩
  log := h.log

theorem agree_pagePoolFault (h : AlikeRun r s) (pageIndex destPtr : ℤ) :
    Agree (pagePoolFault world r pageIndex destPtr) (pagePoolFault world s pageIndex destPtr) := by
  have hserved := h.globals.served pageIndex
  unfold pagePoolFault
  extract_lets i g r' j g' s'
  have h' : AlikeRun r' s' := alike_ppfLog h i j
  have hr : servedFrom r'.globals pageIndex = servedFrom s.globals pageIndex := hserved
  have hs : servedFrom s'.globals pageIndex = servedFrom s.globals pageIndex := rfl
  rw [hr, hs]
  cases servedFrom s.globals pageIndex with
  | none => exact ⟨rfl, (agree_trapToKernel world h' 1007 pageIndex destPtr 0 0 0 0).2⟩
  | some page => exact ⟨rfl, (agree_ask world h' (.guestPages page.1 page.2 destPtr)).2⟩

theorem agree_pipeCreate (h : AlikeRun r s) : Agree (pipeCreate world r) (pipeCreate world s) := by
  have htrap := agree_trapToKernel world h 1012 0 0 0 0 0 0
  revert htrap
  unfold pipeCreate
  generalize trapToKernel world r 1012 0 0 0 0 0 0 = out
  generalize trapToKernel world s 1012 0 0 0 0 0 0 = out'
  obtain ⟨reply, r'⟩ := out
  obtain ⟨reply', s'⟩ := out'
  rintro ⟨hreply, h'⟩
  obtain rfl : reply = reply' := hreply
  dsimp only
  refine Agree.ite ⟨rfl, h'⟩ ?_
  have hbridge : r'.globals.bridgeSab = s'.globals.bridgeSab := h'.globals.bridgeSab
  have hlocal : r'.globals.localPipeFds = s'.globals.localPipeFds := h'.globals.localPipeFds
  cases hsab : s'.globals.bridgeSab with
  | none =>
      rw [hsab] at hbridge
      simp only [hbridge]
      exact ⟨rfl, h'⟩
  | some sab =>
      rw [hsab] at hbridge
      simp only [hbridge, hlocal]
      have hcached := h'.globals
      exact Agree.ite ⟨rfl, ⟨hcached.memory, hcached.controlSab, rfl, hcached.guestPagesSab, hcached.brk,
        rfl, hcached.served⟩, h'.log⟩ ⟨rfl, h'⟩

theorem agree_pipeRead (h : AlikeRun r s) (pipeId bufPtr len : ℤ) :
    Agree (pipeRead world r pipeId bufPtr len) (pipeRead world s pipeId bufPtr len) := by
  unfold pipeRead
  rw [h.globals.localPipeFds]
  exact Agree.ite (agree_localPipe world h _ _ _ _ _) (agree_trapToKernel world h _ _ _ _ _ _ _).result

theorem agree_pipeWrite (h : AlikeRun r s) (pipeId bufPtr len : ℤ) :
    Agree (pipeWrite world r pipeId bufPtr len) (pipeWrite world s pipeId bufPtr len) := by
  unfold pipeWrite
  rw [h.globals.localPipeFds]
  exact Agree.ite (agree_localPipe world h _ _ _ _ _) (agree_trapToKernel world h _ _ _ _ _ _ _).result

theorem agree_sleepMs (h : AlikeRun r s) (ms : ℤ) : Agree (sleepMs world r ms) (sleepMs world s ms) := by
  have h' : AlikeRun ⟨{ r.globals with sleepSab := true }, r.log⟩
      ⟨{ s.globals with sleepSab := true }, s.log⟩ :=
    ⟨⟨h.globals.memory, h.globals.controlSab, h.globals.bridgeSab, h.globals.guestPagesSab,
      h.globals.brk, h.globals.localPipeFds, h.globals.served⟩, h.log⟩
  have haccess : Access.other r.globals.controlSab "sleep_ms" [ms] =
      .other s.globals.controlSab "sleep_ms" [ms] := by rw [h.globals.controlSab]
  have hconsult := agree_consult world h' (.other s.globals.controlSab "sleep_ms" [ms])
  refine ⟨rfl, ?_⟩
  unfold sleepMs
  dsimp only
  rw [haccess]
  exact hconsult.2

/-- **No import tells the two apart**: it returns the same, does the same outside, and leaves workers that
look alike. -/
theorem agree_perform (h : AlikeRun r s) (i : Import) : Agree (perform world r i) (perform world s i) := by
  cases i with
  | hostSyscall n a b c d e f => exact agree_hostSyscall world h n a b c d e f
  | pagePoolFault pageIndex destPtr => exact (agree_pagePoolFault world h pageIndex destPtr).some
  | pipeCreate => exact (agree_pipeCreate world h).some
  | pipeRead pipeId bufPtr len => exact (agree_pipeRead world h pipeId bufPtr len).some
  | pipeWrite pipeId bufPtr len => exact (agree_pipeWrite world h pipeId bufPtr len).some
  | sleepMs ms => exact (agree_sleepMs world h ms).some
  | trap n a b c d e f => exact (agree_trapToKernel world h n a b c d e f).result.some
  | other name args =>
      unfold perform
      rw [h.globals.controlSab]
      exact (agree_ask world h _).result.some

end

/-! ### Runs that look alike -/

/-- Two workers that look alike, in the same place of the same handler. -/
structure AlikeState (s t : State) : Prop where
  globals : Alike s.globals t.globals
  log : s.log = t.log
  process : s.process = t.process

theorem alike_stop {s t : State} (h : AlikeState s t) : AlikeState (stop s) (stop t) :=
  ⟨h.globals, h.log, rfl⟩

theorem alike_enter {s t : State} (h : AlikeState s t) (phase : Phase) (seen : List Seen) (e : Export) :
    AlikeState (enter s phase seen e) (enter t phase seen e) where
  globals := h.globals
  log := h.log
  process := by
    unfold enter
    rw [h.globals.memoryOf_eq]

/-- The addresses of the pages are replaced on both workers. -/
theorem Alike.setAddrs {g h : Globals} (a : Alike g h) (m : Option LinearMemory) (addrs : List UInt32) :
    Alike { g with memory := m, parentPageAddrs := some addrs }
      { h with memory := m, parentPageAddrs := some addrs } where
  memory := rfl
  controlSab := a.controlSab
  bridgeSab := a.bridgeSab
  guestPagesSab := a.guestPagesSab
  brk := a.brk
  localPipeFds := a.localPipeFds
  served pageIndex := by
    unfold servedFrom
    rw [a.guestPagesSab]

theorem alike_putForkState {s t : State} (h : AlikeState s t) (seen : List Seen) (forkState : List UInt8)
    (forkStateLen statePtr : ℤ) :
    AlikeState (putForkState s seen forkState forkStateLen statePtr)
      (putForkState t seen forkState forkStateLen statePtr) := by
  unfold putForkState
  rw [h.globals.memoryOf_eq]
  dsimp only
  split
  · exact alike_enter (s := { s with globals := _ }) (t := { t with globals := _ })
      ⟨h.globals.setAddrs _ _, h.log, h.process⟩ _ _ _
  · exact alike_stop h

theorem alike_leave {s t : State} (h : AlikeState s t) (p : Process) (value : Option ℤ) :
    AlikeState (leave s p value) (leave t p value) := by
  have hexit : AlikeState { s with log := s.log ++ [.exit (value.getD 0)] }
      { t with log := t.log ++ [.exit (value.getD 0)] } :=
    ⟨h.globals, congrArg (· ++ _) h.log, h.process⟩
  unfold leave
  split
  · exact alike_enter h _ _ _
  · exact alike_stop h
  · exact alike_enter h _ _ _
  · exact alike_stop h
  · exact alike_putForkState h _ _ _ _
  · exact alike_enter h _ _ _
  · exact alike_stop hexit

theorem alike_written {s t : State} (h : AlikeState s t) (memory : LinearMemory) :
    AlikeState (s.written memory) (t.written memory) :=
  ⟨h.globals.setMemory _, h.log, h.process⟩

section
variable (world : World) (engine : Engine)

theorem alike_answer {s t : State} (h : AlikeState s t) (p : Process) (i : Import) :
    AlikeState (answer world s p i) (answer world t p i) := by
  have hperform : Agree (perform world ⟨s.globals, s.log⟩ i) (perform world ⟨t.globals, t.log⟩ i) :=
    agree_perform world ⟨h.globals, h.log⟩ i
  unfold answer
  revert hperform
  generalize perform world ⟨s.globals, s.log⟩ i = out
  generalize perform world ⟨t.globals, t.log⟩ i = out'
  obtain ⟨result, r⟩ := out
  obtain ⟨result', r'⟩ := out'
  rintro ⟨hresult, hglobals, hlog⟩
  obtain rfl : result = result' := hresult
  have hmemory : r.globals.memory = r'.globals.memory := hglobals.memory
  refine ⟨hglobals, ?_, ?_⟩
  · have hlog' : r.log = r'.log := hlog
    simp only [hlog', hmemory]
  · have hmem : memoryOf r.globals = memoryOf r'.globals := hglobals.memoryOf_eq
    simp only [hmem]

/-- The step: the engine makes the same move on both, and the import keeps them alike. -/
theorem alike_advance {s t : State} (h : AlikeState s t) :
    AlikeState (advance world engine s) (advance world engine t) := by
  unfold advance
  rw [h.process]
  cases t.process with
  | none => exact h
  | some p =>
      dsimp only
      cases engine p.seen with
      | call i memory => exact alike_answer world (alike_written h memory) p i
      | done value memory => exact alike_leave (alike_written h memory) p value

/-- The run. -/
theorem alike_iterate (n : ℕ) {s t : State} (h : AlikeState s t) :
    AlikeState ((advance world engine)^[n] s) ((advance world engine)^[n] t) := by
  induction n generalizing s t with
  | zero => exact h
  | succ n ih => exact ih (alike_advance world engine h)

theorem observe_eq {s t : State} (h : AlikeState s t) (n : ℕ) :
    observe world engine s n = observe world engine t n :=
  (alike_iterate world engine n h).log

end

/-! ### What a reset leaves behind -/

/-- The buffers of a message. -/
def Message.buffers : Message → Buffers
  | .boot b => b
  | .restoreFork b _ _ _ _ => b
  | .forkExec b _ => b

/-- The pages of the parent that come with a message. -/
def Message.guestPagesSab : Message → Option Sab
  | .restoreFork _ _ _ guestPagesSab _ => guestPagesSab
  | _ => none

/-- The pipes that come with a message. -/
def Message.pipeFds : Message → List PipeFd
  | .boot _ => []
  | .restoreFork _ _ _ _ pipeFds => pipeFds
  | .forkExec _ pipeFds => pipeFds

/-- **When a worker is clean** for a message: its break was never asked for; it has no bridge, or the
message brings one; and it has no page addresses, or none that the pages of the message are read at. -/
structure Clean (g : Globals) (m : Message) : Prop where
  brk : g.brk = 0
  bridgeSab : g.bridgeSab = none ∨ m.buffers.bridgeSab ≠ none
  parentPageAddrs : m.guestPagesSab = none ∨ ∀ addrs, g.parentPageAddrs = some addrs → ∀ a ∈ addrs, a = 0

/-- The variables of a worker that was reset, or is new, when the engine starts. -/
theorem globals_receive {g : Globals} (hpages : g.guestPagesSab = none) (m : Message) :
    (receive g m).globals =
      { install m.buffers (cachePipes m.pipeFds g) with guestPagesSab := m.guestPagesSab } := by
  cases m with
  | boot b => exact congrArg (fun o => { install b g with guestPagesSab := o }) hpages
  | restoreFork b forkState forkStateLen guestPagesSab pipeFds => rfl
  | forkExec b pipeFds =>
      exact congrArg (fun o => { install b (cachePipes pipeFds g) with guestPagesSab := o }) hpages

theorem servedFrom_fresh {g : Globals} (h : g.parentPageAddrs = none) (pageIndex : ℤ) :
    servedFrom g pageIndex = none := by
  unfold servedFrom
  rw [h]
  cases g.guestPagesSab <;> rfl

/-- Addresses that are all 0 serve no page. -/
theorem servedFrom_zeros {g : Globals} {addrs : List UInt32} (h : g.parentPageAddrs = some addrs)
    (hzero : ∀ a ∈ addrs, a = 0) (pageIndex : ℤ) : servedFrom g pageIndex = none := by
  unfold servedFrom
  rw [h]
  cases g.guestPagesSab with
  | none => rfl
  | some sab =>
      dsimp only
      split
      · next addr haddr =>
          have hmem : addr ∈ addrs := by
            split at haddr
            · exact List.mem_of_getElem? haddr
            · cases haddr
          simp [hzero addr hmem]
      · rfl

theorem servedFrom_noPages {g : Globals} (h : g.guestPagesSab = none) (pageIndex : ℤ) :
    servedFrom g pageIndex = none := by
  unfold servedFrom
  rw [h]

/-- A clean worker looks like a new one when the engine starts. -/
theorem alike_receive {g : Globals} {m : Message} (h : Clean g m) :
    AlikeState (receive (reset g) m) (receive fresh m) := by
  have hg : (receive (reset g) m).globals =
      { install m.buffers (cachePipes m.pipeFds (reset g)) with guestPagesSab := m.guestPagesSab } :=
    globals_receive rfl m
  have hf : (receive fresh m).globals =
      { install m.buffers (cachePipes m.pipeFds fresh) with guestPagesSab := m.guestPagesSab } :=
    globals_receive rfl m
  have hprocess : (receive (reset g) m).process = (receive fresh m).process := by
    cases m <;> rfl
  refine ⟨?_, by cases m <;> rfl, hprocess⟩
  rw [hg, hf]
  refine ⟨rfl, rfl, ?_, rfl, h.brk, rfl, fun pageIndex => ?_⟩
  · show m.buffers.bridgeSab.or g.bridgeSab = m.buffers.bridgeSab.or none
    rcases h.bridgeSab with hbridge | hbridge
    · rw [hbridge]
    · obtain ⟨sab, hsab⟩ := Option.ne_none_iff_exists'.1 hbridge
      rw [hsab]
      rfl
  · rw [servedFrom_fresh (g := { install m.buffers (cachePipes m.pipeFds fresh) with
      guestPagesSab := m.guestPagesSab }) rfl]
    rcases h.parentPageAddrs with hpages | hzero
    · exact servedFrom_noPages hpages pageIndex
    · cases haddrs : g.parentPageAddrs with
      | none =>
          refine servedFrom_fresh ?_ pageIndex
          exact haddrs
      | some addrs =>
          refine servedFrom_zeros ?_ (hzero addrs haddrs) pageIndex
          exact haddrs

/-! ### What gives a used worker away -/

/-- An engine that calls the imports one after the other, with the same memory every time. -/
def script (is : List Import) (memory : LinearMemory) : Engine := fun seen =>
  match is[seen.length - 1]? with
  | some i => .call i memory
  | none => .done (some 0) memory

/-- A kernel that always replies the same. -/
def constantly (reply : Reply) : World := fun _ => reply

/-- The worker on which the first import of a script runs. -/
def readied (g : Globals) (m : Message) (memory : LinearMemory) : Run :=
  ⟨{ (receive g m).globals with memory := some memory }, (receive g m).log⟩

theorem observe_one (world : World) (g : Globals) (m : Message) (i : Import) (memory : LinearMemory) :
    observe world (script [i] memory) (receive g m) 1 =
      (perform world (readied g m memory) i).2.log ++
        [.returned (perform world (readied g m memory) i).1
          (perform world (readied g m memory) i).2.globals.memory] := by
  cases m <;> rfl

/-- A second import runs on what the first has left. -/
theorem observe_two (world : World) (g : Globals) (m : Message) (i j : Import) (memory : LinearMemory)
    {r : Run} {result : Option ℤ} (h : perform world (readied g m memory) i = (result, r)) :
    observe world (script [i, j] memory) (receive g m) 2 =
      let r' : Run := ⟨{ r.globals with memory := some memory }, r.log ++ [.returned result r.globals.memory]⟩
      (perform world r' j).2.log ++ [.returned (perform world r' j).1 (perform world r' j).2.globals.memory] := by
  obtain rfl : (perform world (readied g m memory) i).1 = result := by rw [h]
  obtain rfl : (perform world (readied g m memory) i).2 = r := by rw [h]
  cases m <;> rfl

theorem log_readied (g h : Globals) (m : Message) (memory : LinearMemory) :
    (readied g m memory).log = (readied h m memory).log := by
  cases m <;> rfl

theorem brk_readied (g : Globals) (m : Message) (memory : LinearMemory) :
    (readied g m memory).globals.brk = g.brk := by
  cases m <;> rfl

/-- A break that was never asked for is where the memory ends. -/
theorem brk_zero (w : WorkerMemory.Worker) (granted : Bool) :
    (brk w 0 granted).1 = if w.brk = 0 then w.memory.byteLength else w.brk := by
  unfold brk startBrk
  simp only [if_true]
  split <;> rfl

/-- A break of 0 sets nothing, so the memory stays. -/
theorem memory_brk_zero (w : WorkerMemory.Worker) (granted : Bool) : (brk w 0 granted).2.memory = w.memory := by
  unfold brk startBrk
  simp only [if_true]
  split <;> rfl

/-- The answer to a question for the break. -/
theorem observe_brk (reply : Reply) (g : Globals) (m : Message) (memory : LinearMemory) :
    (observe (constantly reply) (script [.hostSyscall 12 0 0 0 0 0 0] memory) (receive g m) 1).getLast? =
      some (.returned (some (if g.brk = 0 then memory.byteLength else g.brk : ℕ)) (some memory)) := by
  have hperform (r : Run) : perform (constantly reply) r (.hostSyscall 12 0 0 0 0 0 0) =
      (some (hostBrk (constantly reply) r 0).1, (hostBrk (constantly reply) r 0).2) := rfl
  have hworker : workerOf (readied g m memory).globals = ⟨memory, g.brk, []⟩ := by
    unfold workerOf
    rw [brk_readied]
    rfl
  have hbrk : (hostBrk (constantly reply) (readied g m memory) 0).1 =
      ((if g.brk = 0 then memory.byteLength else g.brk : ℕ) : ℤ) := by
    have hvalue : (hostBrk (constantly reply) (readied g m memory) 0).1 =
        ((brk (workerOf (readied g m memory).globals) 0 reply.granted).1 : ℤ) := rfl
    rw [hvalue, hworker, brk_zero]
  have hmemory : (hostBrk (constantly reply) (readied g m memory) 0).2.globals.memory = some memory := by
    have hkept : (hostBrk (constantly reply) (readied g m memory) 0).2.globals.memory =
        some (brk (workerOf (readied g m memory).globals) 0 reply.granted).2.memory := rfl
    rw [hkept, hworker, memory_brk_zero]
  rw [observe_one, hperform, List.getLast?_concat, hbrk, hmemory]

/-- A reply for the workers below. -/
def plainReply : Reply := ⟨0, 16, true, newMemory⟩

/-- A break that was left behind is seen when the memory does not end there. -/
theorem brk_of_likeFresh {g : Globals} {m : Message} (h : LikeFresh g m) : g.brk = 0 := by
  by_contra hbrk
  -- a size of the memory that is not the old break
  obtain ⟨memory, hmemory⟩ : ∃ memory : LinearMemory, memory.byteLength ≠ g.brk := by
    by_cases hinit : newMemory.byteLength = g.brk
    · exact ⟨⟨initialPages + 1, fun _ => 0⟩, fun hnext => absurd (hnext.trans hinit.symm) (by decide)⟩
    · exact ⟨newMemory, hinit⟩
  have hlog := h (constantly plainReply) (script [.hostSyscall 12 0 0 0 0 0 0] memory) 1
  have hlast := congrArg List.getLast? hlog
  rw [observe_brk, observe_brk] at hlast
  have hreset : (reset g).brk = g.brk := rfl
  have hfresh : fresh.brk = 0 := rfl
  rw [hreset, hfresh, if_neg hbrk, if_pos rfl] at hlast
  simp only [Option.some.injEq, Event.returned.injEq, Nat.cast_inj, and_true] at hlast
  exact hmemory hlast.symm

/-- What a fault does outside. -/
theorem log_pagePoolFault (world : World) (r : Run) (pageIndex destPtr : ℤ) :
    (pagePoolFault world r pageIndex destPtr).2.log =
      r.log ++ [.access (match servedFrom r.globals pageIndex with
        | some (sab, addr) => .guestPages sab addr destPtr
        | none => .trap r.globals.controlSab 1007 pageIndex destPtr 0 0 0 0) r.globals.memory] := by
  have hserved (i : ℕ) : servedFrom { r.globals with ppfLog := i } pageIndex =
      servedFrom r.globals pageIndex := rfl
  unfold pagePoolFault
  dsimp only
  rw [hserved]
  cases servedFrom r.globals pageIndex <;> rfl

/-- Logs that agree have the same event before the last. -/
theorem access_eq {log : List Event} {a b c d : Event} (h : log ++ [a] ++ [b] = log ++ [c] ++ [d]) :
    a = c := by
  have hinit := congrArg List.dropLast h
  rw [List.dropLast_concat, List.dropLast_concat] at hinit
  simpa using hinit

/-- Addresses that were left behind are read at, before the new ones are there. -/
theorem addrs_of_likeFresh {g : Globals} {m : Message} (h : LikeFresh g m) {sab : Sab}
    (hsab : m.guestPagesSab = some sab) {addrs : List UInt32} (haddrs : g.parentPageAddrs = some addrs)
    {a : UInt32} (ha : a ∈ addrs) : a = 0 := by
  by_contra hne
  obtain ⟨k, hk⟩ := List.getElem?_of_mem ha
  have hpos : 0 < a := UInt32.pos_iff_ne_zero.2 hne
  have hlog := h (constantly plainReply) (script [.pagePoolFault k 0] newMemory) 1
  rw [observe_one, observe_one] at hlog
  have hused : servedFrom (readied (reset g) m newMemory).globals k = some (sab, a) := by
    have hpages : (readied (reset g) m newMemory).globals.guestPagesSab = some sab := by
      unfold readied
      rw [globals_receive rfl]
      exact hsab
    have hkept : (readied (reset g) m newMemory).globals.parentPageAddrs = some addrs := by
      cases m <;> exact haddrs
    unfold servedFrom
    rw [hpages, hkept]
    simp [hk, hpos]
  have hnew : servedFrom (readied fresh m newMemory).globals k = none := by
    refine servedFrom_fresh ?_ k
    cases m <;> rfl
  have hperform (r : Run) : (perform (constantly plainReply) r (.pagePoolFault k 0)).2 =
    (pagePoolFault (constantly plainReply) r k 0).2 := rfl
  rw [hperform, hperform, log_pagePoolFault, log_pagePoolFault, hused, hnew, log_readied (reset g) fresh] at hlog
  cases access_eq hlog

/-- The pipes that a message brings lie at the start of their buffers. -/
theorem offset_cachePipes (pipeFds : List PipeFd) {g : Globals}
    (hg : ∀ fd entry, g.localPipeFds.get? fd = some entry → entry.offset = 0) {fd : ℤ} {entry : PipeEntry}
    (h : (cachePipes pipeFds g).localPipeFds.get? fd = some entry) : entry.offset = 0 := by
  induction pipeFds generalizing g with
  | nil => exact hg fd entry h
  | cons u pipeFds ih =>
      refine ih (g := { g with localPipeFds := g.localPipeFds.set u.fd ⟨u.sab, 0, u.fdEnd⟩ }) ?_ h
      intro fd' entry' h'
      rw [JsMap.get?_set] at h'
      split at h'
      · cases h'
        rfl
      · exact hg fd' entry' h'

/-- What a worker keeps of the pipe 0, at the offset 16 of the bridge, if it has one. -/
def withPipe (g : Globals) : Globals :=
  match g.bridgeSab with
  | none => { g with memory := some newMemory }
  | some sab =>
    { g with
      memory := some newMemory
      localPipeFds := (g.localPipeFds.set 200 ⟨sab, 16, .read⟩).set 201 ⟨sab, 16, .write⟩ }

theorem pipeCreate_plainReply (r : Run) :
    pipeCreate (constantly plainReply) r =
      (0, ⟨withPipe r.globals,
        r.log ++ [.access (.trap r.globals.controlSab 1012 0 0 0 0 0 0) r.globals.memory]⟩) := by
  unfold pipeCreate withPipe
  have htrap : trapToKernel (constantly plainReply) r 1012 0 0 0 0 0 0 =
      (plainReply, ⟨{ r.globals with memory := some newMemory },
        r.log ++ [.access (.trap r.globals.controlSab 1012 0 0 0 0 0 0) r.globals.memory]⟩) := rfl
  rw [htrap]
  cases hsab : r.globals.bridgeSab with
  | none => simp [hsab, plainReply]
  | some sab => simp [hsab, plainReply]

/-- What a read from the pipe 0 does outside. -/
theorem log_pipeRead (world : World) (r : Run) :
    (pipeRead world r 0 0 0).2.log =
      r.log ++ match r.globals.localPipeFds.get? 200 with
        | none => [.access (.trap r.globals.controlSab 1013 0 0 0 0 0 0) r.globals.memory]
        | some entry =>
          if entry.fdEnd ≠ .read then [] else [.access (.pipe entry 0 0 0) r.globals.memory] := by
  unfold pipeRead localPipe JsMap.has
  simp only [Int.zero_mul, Int.add_zero]
  cases r.globals.localPipeFds.get? 200 with
  | none => rfl
  | some entry =>
      simp only [Option.isSome_some, if_true]
      split
      · exact (List.append_nil _).symm
      · rfl

/-- The accesses of a program that makes a pipe and reads from it. -/
theorem observe_pipe (g : Globals) (m : Message) :
    (observe (constantly plainReply) (script [.pipeCreate, .pipeRead 0 0 0] newMemory) (receive g m) 2).dropLast =
      (readied g m newMemory).log ++
        [.access (.trap (readied g m newMemory).globals.controlSab 1012 0 0 0 0 0 0) (some newMemory)] ++
        [.returned (some 0) (withPipe (readied g m newMemory).globals).memory] ++
        match (withPipe (readied g m newMemory).globals).localPipeFds.get? 200 with
        | none =>
          [.access (.trap (withPipe (readied g m newMemory).globals).controlSab 1013 0 0 0 0 0 0)
            (some newMemory)]
        | some entry =>
          if entry.fdEnd ≠ .read then [] else [.access (.pipe entry 0 0 0) (some newMemory)] := by
  have hcreate : perform (constantly plainReply) (readied g m newMemory) .pipeCreate = (some 0, _) :=
    congrArg (fun out : ℤ × Run => (some out.1, out.2)) (pipeCreate_plainReply (readied g m newMemory))
  have hperform (r : Run) : (perform (constantly plainReply) r (.pipeRead 0 0 0)).2 =
    (pipeRead (constantly plainReply) r 0 0 0).2 := rfl
  rw [observe_two (constantly plainReply) g m _ _ _ hcreate]
  dsimp only
  rw [List.dropLast_concat, hperform, log_pipeRead]
  rfl

/-- A bridge that was left behind serves pipes that a new worker has in the kernel. -/
theorem bridge_of_likeFresh {g : Globals} {m : Message} (h : LikeFresh g m)
    (hm : m.buffers.bridgeSab = none) : g.bridgeSab = none := by
  by_contra hne
  obtain ⟨sab, hsab⟩ := Option.ne_none_iff_exists'.1 hne
  have hlog := congrArg List.dropLast
    (h (constantly plainReply) (script [.pipeCreate, .pipeRead 0 0 0] newMemory) 2)
  have hused : (readied (reset g) m newMemory).globals.bridgeSab = some sab := by
    unfold readied
    rw [globals_receive rfl]
    show m.buffers.bridgeSab.or g.bridgeSab = some sab
    rw [hm, hsab]
    rfl
  have hnew : (readied fresh m newMemory).globals.bridgeSab = none := by
    unfold readied
    rw [globals_receive rfl]
    show m.buffers.bridgeSab.or none = none
    rw [hm]
    rfl
  have hcontrol : (readied (reset g) m newMemory).globals.controlSab =
      (readied fresh m newMemory).globals.controlSab := by
    cases m <;> rfl
  have hentry : (withPipe (readied (reset g) m newMemory).globals).localPipeFds.get? 200 =
      some ⟨sab, 16, .read⟩ := by
    unfold withPipe
    rw [hused]
    simp [JsMap.get?_set]
  have hmemUsed : (withPipe (readied (reset g) m newMemory).globals).memory = some newMemory := by
    unfold withPipe
    rw [hused]
  have hmemNew : (withPipe (readied fresh m newMemory).globals).memory = some newMemory := by
    unfold withPipe
    rw [hnew]
  rw [observe_pipe, observe_pipe, hentry, hcontrol, log_readied (reset g) fresh, hmemUsed, hmemNew] at hlog
  have htail := List.append_cancel_left hlog
  -- the entry of a new worker, if any, comes from the message
  cases hcached : (withPipe (readied fresh m newMemory).globals).localPipeFds.get? 200 with
  | none =>
      rw [hcached] at htail
      simp at htail
  | some entry =>
      rw [hcached] at htail
      have hoffset : entry.offset = 0 := by
        have hnone : ∀ fd entry, fresh.localPipeFds.get? fd = some entry → entry.offset = 0 := by
          intro fd entry h
          cases h
        have hkept : (withPipe (readied fresh m newMemory).globals).localPipeFds =
            (cachePipes m.pipeFds fresh).localPipeFds := by
          unfold withPipe
          rw [hnew]
          unfold readied
          rw [globals_receive rfl]
          rfl
        rw [hkept] at hcached
        exact offset_cachePipes m.pipeFds hnone hcached
      by_cases hend : entry.fdEnd = .read
      · simp [hend] at htail
        rw [← htail] at hoffset
        cases hoffset
      · simp [hend] at htail

/-- **A recycled worker is as good as a new one exactly when it is clean** for the message. -/
theorem likeFresh_iff_clean (g : Globals) (m : Message) : LikeFresh g m ↔ Clean g m := by
  constructor
  · intro h
    refine ⟨brk_of_likeFresh h, ?_, ?_⟩
    · by_cases hm : m.buffers.bridgeSab = none
      · exact .inl (bridge_of_likeFresh h hm)
      · exact .inr hm
    · cases hsab : m.guestPagesSab with
      | none => exact .inl rfl
      | some sab => exact .inr fun addrs haddrs a ha => addrs_of_likeFresh h hsab haddrs ha
  · intro h world engine n
    exact observe_eq world engine (alike_receive h) n

/-! ### A break that is left behind -/

/-- The messages of a computer with one bridge. -/
def bootMessage : Message := .boot ⟨1, 2, some 3⟩

/-- A program that asks for its break and exits. -/
def askBreak : Engine := script [.hostSyscall 12 0 0 0 0 0 0] newMemory

/-- A program that has asked for its break leaves it behind. -/
theorem used_afterBreak :
    Used ((advance (constantly plainReply) askBreak)^[3] (receive fresh bootMessage)).globals :=
  .ran bootMessage (constantly plainReply) askBreak 3 .fresh

/-- Not so: a program that asks for its break and exits leaves the break to the next program. -/
theorem not_likeFresh_afterBreak : ¬ ∀ g, Used g → ∀ m, LikeFresh g m := by
  intro h
  have hlike := h _ used_afterBreak bootMessage
  have hbrk := brk_of_likeFresh hlike
  exact absurd hbrk (by decide)

end WorkerReset
