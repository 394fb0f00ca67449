/-
**The trap of a worker to the kernel.**

A worker and the kernel share a block of words.  The worker stores the number and the arguments of a syscall,
sets the flag and sleeps until the flag is cleared; the kernel polls the flags of all workers, handles the
syscall, stores the result and clears the flag.  The kernel's loop awaits timers between finding a flag and
handling its syscall, and messages are handled at its awaits.  Three parts of the code write the words of one
block: the worker, the loop, and the message `worker-exit` for a process that waits for a child.

The loop clears the flag after every call, also when a `proc_wait` is to stay pending.  It clears the flag and
notifies in two steps: a worker that was not asleep yet can go on in between, sleep in its next trap, and be woken
by the notify of the one before.  And `fs_fstat` reads a second word, which the kernel only stores for an open
file.

Main definitions:

* `TrapProtocol.World` — the blocks of words, the workers, and the kernel between two of its accesses;
* `TrapProtocol.Sound` — the law of the trap: handled once, returned from and cleared only after that;
* `TrapProtocol.Guarded` — no wait stays pending, `fs_fstat` has an open file, and no worker falls asleep
  between the clearing of a flag and its notify.

Main results:

* `TrapProtocol.inv_after` — what a step keeps;
* `TrapProtocol.sound_of_meets` — **the runs in which the law holds**.
-/

import AtuaComputer.JsMap
import AtuaComputer.Runs
import AtuaComputer.WordTransfer
import Mathlib.Tactic.IntervalCases

set_option relaxedAutoImplicit false
set_option autoImplicit false

namespace TrapProtocol

open Runs WordTransfer

/-! ### Traps -/

/-- The number and the arguments of a syscall. -/
structure Request where
  n : Int32
  a : Int32
  b : Int32
  c : Int32
  d : Int32
  e : Int32
  f : Int32
deriving DecidableEq

/-- The words of a request in the order in which they are stored and loaded. -/
def Request.words (r : Request) : List Int32 := [r.n, r.a, r.b, r.c, r.d, r.e, r.f]

/-- Where they are: word 0 is the flag, word 8 the result, word 9 a second result. -/
def trapOffsets : List ℕ := [1, 2, 3, 4, 5, 6, 7]

/-- The request that the loaded words make. -/
def Request.ofWords : List Int32 → Request
  | [n, a, b, c, d, e, f] => ⟨n, a, b, c, d, e, f⟩
  | _ => ⟨0, 0, 0, 0, 0, 0, 0⟩

/-- The request that `SYS_HOST_SYSCALL` makes of its own. -/
def Request.shift (r : Request) : Request := ⟨r.a, r.b, r.c, r.d, r.e, r.f, 0⟩

/-- What a worker traps for.  The imports differ in whether they read the second result: `fs_fstat` and
`fd_filestat_get` always do, `pipe_create` if the first is no error. -/
inductive Import where
  | fsFstat (handle : Int32)
  | pipeCreate
  | plain (req : Request)
deriving DecidableEq

def Import.request : Import → Request
  | .fsFstat handle => ⟨1004, handle, 0, 0, 0, 0, 0⟩
  | .pipeCreate => ⟨1012, 0, 0, 0, 0, 0, 0⟩
  | .plain req => req

/-- Whether the second result is read after the first. -/
def Import.ReadsHigh : Import → Int32 → Prop
  | .fsFstat _, _ => True
  | .pipeCreate, low => 0 ≤ low
  | .plain _, _ => False

instance (call : Import) (low : Int32) : Decidable (call.ReadsHigh low) := by
  cases call <;> unfold Import.ReadsHigh <;> infer_instance

/-- Where a worker is in `trapToKernel` and the import around it. -/
inductive Worker where
  | idle
  | storing (call : Import) (stored : ℕ)
  | notifying (call : Import)
  | waiting (call : Import)
  | sleeping (call : Import)
  | returning (call : Import)
  | loadingHigh (call : Import) (low : Int32)
deriving DecidableEq

/-! ### The kernel -/

/-- An object of the process table. -/
structure Proc where
  control : Option ℕ
  wasmMemory : Bool

/-- A process that waits, with the trap that it waits in. -/
structure Waiter where
  pid : ℤ
  control : ℕ
  trap : ℕ
  statusPtr : Int32

/-- Where the kernel's loop is.  At `idle`, `unregistered` and `pausing` it awaits a timer. -/
inductive Loop where
  | idle
  | next (handled : Bool)
  | unregistered (pid : ℤ) (object control : ℕ) (handled : Bool)
  | pausing (pid : ℤ) (control : ℕ)
  | reading (pid : ℤ) (control : ℕ) (got : List Int32)
  | serving (pid : ℤ) (control : ℕ) (req : Request)
  | shifting (pid : ℤ) (control shifted : ℕ)
  | storing (control : ℕ) (stores : List (ℕ × Int32))
  | clearing (control : ℕ)
  | notifying (control : ℕ)
deriving DecidableEq

/-- Where the message `worker-exit` is in waking a waiter. -/
inductive Task where
  | none
  | storing (exitPid : ℤ) (control trap : ℕ)
  | clearing (control : ℕ)
  | notifying (control : ℕ)
deriving DecidableEq

/-- What has been done for the last trap of a block of words: how often it was handled, and what was stored as
its results. -/
structure Record where
  handlings : ℕ
  low : Option Int32
  high : Option Int32
deriving DecidableEq

/-- The reply to `callBridge(REQ_PIPE_CREATE)`.  The bridge's own reply is never an error, so that the only error
is the one of the timeout. -/
inductive PipeReply where
  | noBridge
  | timedOut
  | made (readFd ringOffset : Int32)

/-- The result of another syscall, with the child that it enters into the process table. -/
structure Other (β : Type) where
  rest : β
  child : Option ℤ
  result : Int32

/-- The rest of the kernel: the other cases of the switch, the two words of `fs_fstat` for an open file, the
bridge, and whether a status fits into the guest's memory. -/
structure Cases (β : Type) where
  other : β → ℤ → Request → Other β
  fstat : β → Int32 → Option (Int32 × Int32)
  pipe : β → ℤ → β × PipeReply
  statusFits : β → ℤ → Int32 → Bool

/-- The blocks of words, the workers and the kernel, and what has happened: for each block the number of its
traps, and what has been done for the last one. -/
structure World (β : Type) where
  words : ℕ → ℕ → Int32
  worker : ℕ → Worker
  objects : ℕ → Proc
  nextObject : ℕ
  table : JsMap ℤ ℕ
  /-- the keys that the iteration over the process table has not come to -/
  toVisit : List ℤ
  nextPid : ℤ
  exitCodes : JsMap ℤ ℤ
  pendingWaits : JsMap ℤ Waiter
  rest : β
  loop : Loop
  task : Task
  traps : ℕ → ℕ
  record : ℕ → Record

section Model

variable {β : Type} (cs : Cases β)

/-- A store of a word of a block. -/
def setWord (w : World β) (c off : ℕ) (v : Int32) : World β :=
  { w with words := Function.update w.words c (Function.update (w.words c) off v) }

def setWorker (w : World β) (c : ℕ) (st : Worker) : World β :=
  { w with worker := Function.update w.worker c st }

def setRecord (w : World β) (c : ℕ) (r : Record) : World β :=
  { w with record := Function.update w.record c r }

/-- `processTable.set`: an iteration comes to a new key. -/
def setProc (w : World β) (pid : ℤ) (p : Proc) : World β :=
  { w with
    objects := Function.update w.objects w.nextObject p
    nextObject := w.nextObject + 1
    table := w.table.set pid w.nextObject
    toVisit := if w.table.has pid then w.toVisit else w.toVisit ++ [pid] }

/-- `processTable.delete`: an iteration does not come to the key. -/
def removeProc (w : World β) (pid : ℤ) : World β :=
  { w with table := w.table.delete pid, toVisit := w.toVisit.filter (· ≠ pid) }

/-! ### The worker -/

/-- The start of `trapToKernel`. -/
def trap (w : World β) (c : ℕ) (call : Import) : World β :=
  match w.worker c with
  | .idle =>
    { setRecord (setWorker w c (.storing call 0)) c ⟨0, none, none⟩ with
      traps := Function.update w.traps c (w.traps c + 1) }
  | _ => w

/-- The next access of a worker.  Its own notify wakes nobody, since the kernel does not wait. -/
def workerStep (w : World β) (c : ℕ) : World β :=
  match w.worker c with
  | .idle | .sleeping _ => w
  | .storing call stored =>
    match (trapOffsets.zip call.request.words)[stored]? with
    | some (off, v) => setWorker (setWord w c off v) c (.storing call (stored + 1))
    | none => setWorker (setWord w c 0 1) c (.notifying call)
  | .notifying call => setWorker w c (.waiting call)
  | .waiting call => setWorker w c (if w.words c 0 = 1 then .sleeping call else .returning call)
  | .returning call =>
    setWorker w c (if call.ReadsHigh (w.words c 8) then .loadingHigh call (w.words c 8) else .idle)
  | .loadingHigh _ _ => setWorker w c .idle

/-- `Atomics.notify` -/
def wake (w : World β) (c : ℕ) : World β :=
  match w.worker c with
  | .sleeping call => setWorker w c (.returning call)
  | _ => w

/-! ### The syscalls -/

/-- The handler has computed what it stores: the second result, if there is one, before the first. -/
def answer (w : World β) (c : ℕ) (stores : List (ℕ × Int32)) : World β :=
  { setRecord w c { w.record c with handlings := (w.record c).handlings + 1 } with loop := .storing c stores }

/-- `SYS_PROC_WAIT` finds no exit code. -/
def Parks (w : World β) (req : Request) : Prop :=
  ¬ (0 < req.a.toInt ∧ w.exitCodes.has req.a.toInt = true)

instance (w : World β) (req : Request) : Decidable (Parks w req) := inferInstanceAs (Decidable (¬ _))

/-- `SYS_PROC_WAIT`.  A wait that is to stay pending stores no result. -/
def procWait (w : World β) (pid : ℤ) (c : ℕ) (req : Request) : World β :=
  if Parks w req then
    { setRecord w c { w.record c with handlings := (w.record c).handlings + 1 } with
      pendingWaits := w.pendingWaits.set (if req.a = 0 then pid else req.a.toInt) ⟨pid, c, w.traps c, req.b⟩
      loop := .clearing c }
  else
    answer { w with exitCodes := w.exitCodes.delete req.a.toInt } c
      [(8, if req.b = 0 ∨ cs.statusFits w.rest pid req.b = true then req.a else -1)]

/-- The stores of `SYS_FS_FSTAT`. -/
def fstatStores (w : World β) (handle : Int32) : List (ℕ × Int32) :=
  match cs.fstat w.rest handle with
  | none => [(8, if 2 < handle then -1 else 0)]
  | some (lo, hi) => [(9, hi), (8, lo)]

/-- The stores of `SYS_PIPE_CREATE`: the number of the pipe, and the offset of its ring as the second result. -/
def pipeStores : PipeReply → List (ℕ × Int32)
  | .noBridge => [(8, -38)]
  | .timedOut => [(8, -110)]
  | .made readFd ringOffset => [(9, ringOffset), (8, Int32.ofInt ((readFd.toInt - 100).tdiv 2))]

/-- A child without words and memory of its own. -/
def setChild (w : World β) : Option ℤ → World β
  | none => w
  | some pid => setProc w pid ⟨none, false⟩

/-- `handleSyscall`, with the words of the request. -/
def serve (w : World β) (pid : ℤ) (c : ℕ) (req : Request) : World β :=
  if w.table.has pid = false then answer w c [(8, -1)]
  else if req.n = 1024 then { w with loop := .shifting pid c 0 }
  else if req.n = 1011 then procWait cs w pid c req
  else if req.n = 1012 then answer { w with rest := (cs.pipe w.rest pid).1 } c (pipeStores (cs.pipe w.rest pid).2)
  else if req.n = 1004 then answer w c (fstatStores cs w req.a)
  else
    let o := cs.other w.rest pid req
    answer (setChild { w with rest := o.rest } o.child) c [(8, o.result)]

/-- What a store of the kernel is for the trap. -/
def Record.store (r : Record) (off : ℕ) (v : Int32) : Record :=
  if off = 8 then { r with low := some v } else if off = 9 then { r with high := some v } else r

/-- The next access of the loop. -/
def loopStep (w : World β) : World β :=
  match w.loop with
  | .idle => { w with toVisit := w.table.keys, loop := .next false }
  | .next handled =>
    match w.toVisit with
    | [] => if handled then { w with toVisit := w.table.keys, loop := .next false } else { w with loop := .idle }
    | pid :: toVisit =>
      match w.table.get? pid with
      | none => { w with toVisit }
      | some object =>
        match (w.objects object).control with
        | none => { w with toVisit }
        | some c =>
          if w.words c 0 = 1 then
            { w with
              toVisit
              loop := if (w.objects object).wasmMemory then .pausing pid c else .unregistered pid object c handled }
          else { w with toVisit }
  | .unregistered pid object c handled =>
    { w with loop := if (w.objects object).wasmMemory then .pausing pid c else .next handled }
  | .pausing pid c => { w with loop := .reading pid c [] }
  | .reading pid c got =>
    match trapOffsets[got.length]? with
    | some off => { w with loop := .reading pid c (got ++ [w.words c off]) }
    | none => { w with loop := .serving pid c (.ofWords got) }
  | .serving pid c req => serve cs w pid c req
  | .shifting pid c shifted =>
    -- `control[1] = control[2]` and so on, and then `control[7] = 0` and the call of itself
    if shifted < 6 then
      { setWord w c (shifted + 1) (w.words c (shifted + 2)) with loop := .shifting pid c (shifted + 1) }
    else { setWord w c 7 0 with loop := .reading pid c [] }
  | .storing c stores =>
    match stores with
    | [] => { w with loop := .clearing c }
    | (off, v) :: stores =>
      { setRecord (setWord w c off v) c ((w.record c).store off v) with loop := .storing c stores }
  | .clearing c => { setWord w c 0 0 with loop := .notifying c }
  | .notifying c => { wake w c with loop := .next true }

/-! ### Messages -/

/-- The loop awaits a timer. -/
def Loop.Awaits : Loop → Prop
  | .idle | .unregistered .. | .pausing .. => True
  | _ => False

instance (l : Loop) : Decidable l.Awaits := by
  cases l <;> unfold Loop.Awaits <;> infer_instance

/-- A message to the kernel. -/
inductive Message where
  | registerWorker (pid : ℤ) (control : ℕ)
  | registerMemory (pid : ℤ)
  | unregisterWorker (pid : ℤ)
  | workerExit (pid code : ℤ)

/-- `register-worker`: an object with the memory of the one before. -/
def registerWorker (w : World β) (msgPid : ℤ) (control : ℕ) : World β :=
  let pid := if msgPid ≠ 0 then msgPid else w.nextPid
  let wasmMemory := (w.table.get? pid).any fun object => (w.objects object).wasmMemory
  let w := { w with nextPid := if msgPid ≠ 0 then w.nextPid else w.nextPid + 1 }
  setProc { w with nextPid := if w.nextPid ≤ pid then pid + 1 else w.nextPid } pid ⟨some control, wasmMemory⟩

/-- `register-memory` -/
def registerMemory (w : World β) (pid : ℤ) : World β :=
  match w.table.get? pid with
  | none => w
  | some object =>
    { w with objects := Function.update w.objects object { w.objects object with wasmMemory := true } }

/-- `worker-exit`: who waits for the process, or for process 1, is woken, unless its status does not fit. -/
def workerExit (w : World β) (pid code : ℤ) : World β :=
  let w := { removeProc w pid with exitCodes := w.exitCodes.set pid code }
  match (w.pendingWaits.get? pid).or (w.pendingWaits.get? 1) with
  | none => w
  | some waiter =>
    { w with
      pendingWaits := (w.pendingWaits.delete pid).delete 1
      task :=
        if waiter.statusPtr = 0 ∨ cs.statusFits w.rest waiter.pid waiter.statusPtr = true then
          .storing pid waiter.control waiter.trap
        else .none }

/-- The next access of the message `worker-exit`.  Its result counts for the trap that the waiter waits in. -/
def taskStep (w : World β) : World β :=
  match w.task with
  | .none => w
  | .storing exitPid c trap =>
    let w' := { setWord w c 8 (Int32.ofInt exitPid) with task := .clearing c }
    if w.traps c = trap then setRecord w' c ((w.record c).store 8 (Int32.ofInt exitPid)) else w'
  | .clearing c => { setWord w c 0 0 with task := .notifying c }
  | .notifying c => { wake w c with task := .none }

def handleMessage (w : World β) : Message → World β
  | .registerWorker pid control => registerWorker w pid control
  | .registerMemory pid => registerMemory w pid
  | .unregisterWorker pid => removeProc w pid
  | .workerExit pid code => workerExit cs w pid code

/-- What happens: a worker begins a trap, a worker or the kernel takes its next step, or a message arrives. -/
inductive Event where
  | trap (control : ℕ) (call : Import)
  | worker (control : ℕ)
  | kernel
  | message (msg : Message)

/-- The state after an event.  A message that is being handled goes first, and one that arrives waits for the
loop to await. -/
def after (w : World β) : Event → World β
  | .trap c call => trap w c call
  | .worker c => workerStep w c
  | .kernel => if w.task = .none then loopStep cs w else taskStep w
  | .message msg => if w.task = .none ∧ w.loop.Awaits then handleMessage cs w msg else w

/-- The kernel begins its loop, and no worker has done anything. -/
structure Starts (w : World β) : Prop where
  words : ∀ c, w.words c 0 = 0
  worker : ∀ c, w.worker c = .idle
  pendingWaits : w.pendingWaits = JsMap.empty
  loop : w.loop = .next false
  task : w.task = .none

/-! ### The law -/

/-- A worker that is in a trap, and has set its flag. -/
def InTrap (w : World β) (c : ℕ) (call : Import) : Prop :=
  w.worker c = .notifying call ∨ w.worker c = .waiting call ∨ w.worker c = .sleeping call

/-- The syscall that a trap is for: the one behind each `SYS_HOST_SYSCALL`. -/
def IsFor (call : Import) (req : Request) : Prop := ∃ k, req = Request.shift^[k] call.request

/-- The next access of the kernel clears the flag of a block. -/
def Clears (w : World β) (c : ℕ) : Prop :=
  w.task = .clearing c ∨ w.task = .none ∧ w.loop = .clearing c

/-- **The law of the trap.**  A syscall that the kernel handles is the one of a worker in its trap, which has not
been handled before.  A trap that returns has been handled once, and its results are those that were stored for
it.  The flag is cleared only then. -/
structure Sound (w : World β) (ev : Event) (_ : World β) : Prop where
  handles : ∀ pid c req, ev = .kernel → w.task = .none → w.loop = .serving pid c req →
    (∃ call, InTrap w c call ∧ IsFor call req) ∧ (w.record c).handlings = 0
  returns : ∀ c call, ev = .worker c → w.worker c = .returning call →
    (w.record c).handlings = 1 ∧ (w.record c).low = some (w.words c 8)
  high : ∀ c call low, ev = .worker c → w.worker c = .loadingHigh call low →
    (w.record c).high = some (w.words c 9)
  clears : ∀ c, ev = .kernel → Clears w c → (w.record c).handlings = 1 ∧ (w.record c).low ≠ none

/-- A trap of `fs_fstat` has a process and an open file. -/
def HasFile (w : World β) (pid : ℤ) : Worker → Prop
  | .notifying (.fsFstat handle) | .waiting (.fsFstat handle) | .sleeping (.fsFstat handle) =>
    w.table.has pid = true ∧ (cs.fstat w.rest handle).isSome = true
  | _ => True

instance (w : World β) (pid : ℤ) (st : Worker) : Decidable (HasFile cs w pid st) := by
  unfold HasFile
  cases st with
  | notifying call => cases call <;> infer_instance
  | waiting call => cases call <;> infer_instance
  | sleeping call => cases call <;> infer_instance
  | _ => exact isTrue trivial

/-- The condition on a step of the loop: a wait that is handled finds the exit code of its child, and `fs_fstat` has
a process and an open file. -/
def LoopGuarded (w : World β) : Loop → Prop
  | .serving pid c req =>
    (w.table.has pid = true → req.n = 1011 → ¬ Parks w req) ∧ HasFile cs w pid (w.worker c)
  | _ => True

/-- The condition on a step of a worker: it does not fall asleep between the clearing of its flag for the trap before
and the notify. -/
def SleepGuarded (w : World β) (c : ℕ) : Worker → Prop
  | .waiting _ => w.words c 0 = 1 → w.loop ≠ .notifying c ∧ w.task ≠ .notifying c
  | _ => True

instance (w : World β) (l : Loop) : Decidable (LoopGuarded cs w l) := by
  cases l <;> unfold LoopGuarded <;> infer_instance

instance (w : World β) (c : ℕ) (st : Worker) : Decidable (SleepGuarded w c st) := by
  cases st <;> unfold SleepGuarded <;> infer_instance

/-- The condition on a step. -/
def Guarded (w : World β) : Event → Prop
  | .kernel => LoopGuarded cs w w.loop
  | .worker c => SleepGuarded w c (w.worker c)
  | .trap _ _ | .message _ => True

instance (w : World β) : (ev : Event) → Decidable (Guarded cs w ev)
  | .kernel => inferInstanceAs (Decidable (LoopGuarded cs w w.loop))
  | .worker c => inferInstanceAs (Decidable (SleepGuarded w c (w.worker c)))
  | .trap _ _ | .message _ => isTrue trivial

end Model

/-! ### The invariant -/

section Invariant

/-- Nothing has been done for a trap. -/
def fresh : Record := ⟨0, none, none⟩

/-- The results of a trap are stored. -/
def Answered (call : Import) (words : ℕ → Int32) (r : Record) : Prop :=
  r.handlings = 1 ∧ r.low = some (words 8) ∧ (call.ReadsHigh (words 8) → r.high = some (words 9))

/-- The words and the record when the stores are done. -/
def finish (words : ℕ → Int32) (r : Record) : List (ℕ × Int32) → (ℕ → Int32) × Record
  | [] => (words, r)
  | (off, v) :: stores => finish (Function.update words off v) (r.store off v) stores

/-- The request that the words stand for while a trap is handled: only `SYS_HOST_SYSCALL` changes them. -/
def Stands (call : Import) (req : Request) : Prop :=
  IsFor call req ∧ (call.request.n ≠ 1024 → req = call.request)

/-- The loop works on the trap of a block. -/
def Loop.At : Loop → ℕ → Prop
  | .unregistered _ _ c' _, c | .pausing _ c', c | .reading _ c' _, c | .serving _ c' _, c
  | .shifting _ c' _, c | .storing c' _, c | .clearing c', c => c' = c
  | .idle, _ | .next _, _ | .notifying _, _ => False

/-- How far the loop has come with a trap. -/
def Working (l : Loop) (call : Import) (words : ℕ → Int32) (r : Record) : Prop :=
  match l with
  | .unregistered .. | .pausing .. => r = fresh ∧ Holds words (trapOffsets.zip call.request.words)
  | .reading _ _ got =>
    r = fresh ∧ ∃ req, Stands call req ∧ Holds words (trapOffsets.zip req.words) ∧ got = req.words.take got.length
  | .serving _ _ req => r = fresh ∧ Stands call req ∧ Holds words (trapOffsets.zip req.words)
  | .shifting _ _ shifted =>
    r = fresh ∧ shifted ≤ 6 ∧ ∃ req, Stands call req ∧ req.n = 1024 ∧
      Holds words (trapOffsets.zip (req.shift.words.take shifted ++ req.words.drop shifted))
  | .storing _ stores =>
    Answered call (finish words r stores).1 (finish words r stores).2 ∧ ∀ store ∈ stores, store.1 ≠ 0
  | .clearing _ => Answered call words r
  | .idle | .next _ | .notifying _ => False

variable {β : Type}

/-- Where the worker of a block, its words and the loop are: no trap, one that is being written, one that waits for
the loop, one that the loop works on, and one whose results are stored. -/
inductive Good (w : World β) (c : ℕ) : Prop
  | free (hworker : w.worker c = .idle) (hflag : w.words c 0 = 0) (hloop : ¬ w.loop.At c)
  | filling (call : Import) (stored : ℕ) (hworker : w.worker c = .storing call stored) (hflag : w.words c 0 = 0)
      (hloop : ¬ w.loop.At c) (hrecord : w.record c = fresh)
      (hholds : Holds (w.words c) ((trapOffsets.zip call.request.words).take stored))
  | posted (call : Import) (hworker : InTrap w c call) (hflag : w.words c 0 = 1) (hloop : ¬ w.loop.At c)
      (hrecord : w.record c = fresh) (hholds : Holds (w.words c) (trapOffsets.zip call.request.words))
      (hawake : w.loop = .notifying c → w.worker c ≠ .sleeping call)
  | working (call : Import) (hworker : InTrap w c call) (hflag : w.words c 0 = 1) (hloop : w.loop.At c)
      (hworking : Working w.loop call (w.words c) (w.record c))
  | answered (call : Import)
      (hworker : InTrap w c call ∨ w.worker c = .returning call ∨
        ∃ low, w.worker c = .loadingHigh call low ∧ call.ReadsHigh (w.words c 8))
      (hflag : w.words c 0 = 0) (hloop : ¬ w.loop.At c) (hanswered : Answered call (w.words c) (w.record c))

/-- The invariant: no process waits for a child, and every block is in one of the five phases. -/
structure Inv (w : World β) : Prop where
  task : w.task = .none
  pendingWaits : w.pendingWaits = JsMap.empty
  good : ∀ c, Good w c

variable {cs : Cases β} {w w' : World β} {c : ℕ}

theorem Starts.inv (h : Starts w) : Inv w where
  task := h.task
  pendingWaits := h.pendingWaits
  good c := .free (h.worker c) (h.words c) (by rw [h.loop]; exact id)

/-- What is not of a block does not matter for it, if the loop does not come to it. -/
theorem Good.frame (h : Good w c) (hwords : w'.words c = w.words c) (hworker : w'.worker c = w.worker c)
    (hrecord : w'.record c = w.record c)
    (hloop : w'.loop = w.loop ∨ ¬ w.loop.At c ∧ ¬ w'.loop.At c ∧ w'.loop ≠ .notifying c) : Good w' c := by
  have htrap {call : Import} (hin : InTrap w c call) : InTrap w' c call := by rwa [InTrap, hworker]
  have haway (hat : ¬ w.loop.At c) : ¬ w'.loop.At c := by
    rcases hloop with heq | ⟨-, hat', -⟩
    · rwa [heq]
    · exact hat'
  cases h with
  | free hidle hflag hat => exact .free (hworker.trans hidle) (by rw [hwords, hflag]) (haway hat)
  | filling call stored hstoring hflag hat hfresh hholds =>
      exact .filling call stored (hworker.trans hstoring) (by rw [hwords, hflag]) (haway hat) (hrecord.trans hfresh)
        (by rwa [hwords])
  | posted call hin hflag hat hfresh hholds hawake =>
      refine .posted call (htrap hin) (by rw [hwords, hflag]) (haway hat) (hrecord.trans hfresh) (by rwa [hwords])
        fun hnotify => ?_
      rw [hworker]
      rcases hloop with heq | ⟨-, -, hne⟩
      · exact hawake (heq ▸ hnotify)
      · exact absurd hnotify hne
  | working call hin hflag hat hworking =>
      rcases hloop with heq | ⟨hnot, -, -⟩
      · exact .working call (htrap hin) (by rw [hwords, hflag]) (heq ▸ hat) (by rwa [heq, hwords, hrecord])
      · exact absurd hat hnot
  | answered call hin hflag hat hanswered =>
      refine .answered call ?_ (by rw [hwords, hflag]) (haway hat) (by rwa [hwords, hrecord])
      rw [hworker, hwords]
      exact hin.imp htrap id

/-- A change of one block only. -/
theorem Inv.update (h : Inv w) (c : ℕ) (htask : w'.task = w.task) (hwaits : w'.pendingWaits = w.pendingWaits)
    (hwords : ∀ i, i ≠ c → w'.words i = w.words i) (hworker : ∀ i, i ≠ c → w'.worker i = w.worker i)
    (hrecord : ∀ i, i ≠ c → w'.record i = w.record i)
    (hloop : ∀ i, i ≠ c → w'.loop = w.loop ∨ ¬ w.loop.At i ∧ ¬ w'.loop.At i ∧ w'.loop ≠ .notifying i)
    (hgood : Good w' c) : Inv w' where
  task := htask.trans h.task
  pendingWaits := hwaits.trans h.pendingWaits
  good i := by
    by_cases hi : i = c
    · rw [hi]
      exact hgood
    · exact (h.good i).frame (hwords i hi) (hworker i hi) (hrecord i hi) (hloop i hi)

/-- A change of what no block has. -/
theorem Inv.frame (h : Inv w) (htask : w'.task = w.task) (hwaits : w'.pendingWaits = w.pendingWaits)
    (hwords : w'.words = w.words) (hworker : w'.worker = w.worker) (hrecord : w'.record = w.record)
    (hloop : w'.loop = w.loop ∨ ∀ i, ¬ w.loop.At i ∧ ¬ w'.loop.At i ∧ w'.loop ≠ .notifying i) : Inv w' where
  task := htask.trans h.task
  pendingWaits := hwaits.trans h.pendingWaits
  good i := (h.good i).frame (congrFun hwords i) (congrFun hworker i) (congrFun hrecord i)
    (hloop.imp_right fun hall => hall i)

/-! ### The steps of a worker -/

theorem keys_stores (req : Request) : ((trapOffsets.zip req.words).map Prod.fst).Nodup := by
  show trapOffsets.Nodup
  decide

theorem zero_notMem (req : Request) : 0 ∉ (trapOffsets.zip req.words).map Prod.fst := by
  show 0 ∉ trapOffsets
  decide

@[simp] theorem setWord_words_self (w : World β) (c off : ℕ) (v : Int32) :
    (setWord w c off v).words c = Function.update (w.words c) off v := Function.update_self _ _ _

theorem setWord_words_of_ne {i : ℕ} (h : i ≠ c) (w : World β) (off : ℕ) (v : Int32) :
    (setWord w c off v).words i = w.words i := Function.update_of_ne h _ _

@[simp] theorem setWorker_worker_self (w : World β) (c : ℕ) (st : Worker) : (setWorker w c st).worker c = st :=
  Function.update_self _ _ _

theorem setWorker_worker_of_ne {i : ℕ} (h : i ≠ c) (w : World β) (st : Worker) :
    (setWorker w c st).worker i = w.worker i := Function.update_of_ne h _ _

@[simp] theorem setRecord_record_self (w : World β) (c : ℕ) (r : Record) : (setRecord w c r).record c = r :=
  Function.update_self _ _ _

theorem setRecord_record_of_ne {i : ℕ} (h : i ≠ c) (w : World β) (r : Record) :
    (setRecord w c r).record i = w.record i := Function.update_of_ne h _ _

/-- A worker goes on within its block. -/
theorem Inv.setWorker (h : Inv w) {st : Worker} (hgood : Good (setWorker w c st) c) : Inv (setWorker w c st) :=
  h.update c rfl rfl (fun _ _ => rfl) (fun _ hi => setWorker_worker_of_ne hi w st) (fun _ _ => rfl)
    (fun _ _ => Or.inl rfl) hgood

theorem Inv.setWord_setWorker (h : Inv w) {off : ℕ} {v : Int32} {st : Worker}
    (hgood : Good (TrapProtocol.setWorker (setWord w c off v) c st) c) :
    Inv (TrapProtocol.setWorker (setWord w c off v) c st) :=
  h.update c rfl rfl (fun _ hi => setWord_words_of_ne hi w off v) (fun _ hi => setWorker_worker_of_ne hi _ st)
    (fun _ _ => rfl) (fun _ _ => Or.inl rfl) hgood

theorem inv_trap (h : Inv w) (c : ℕ) (call : Import) : Inv (trap w c call) := by
  unfold trap
  cases hworker : w.worker c with
  | idle =>
      refine h.update c rfl rfl (fun _ _ => rfl) (fun _ hi => setWorker_worker_of_ne hi w _)
        (fun _ hi => setRecord_record_of_ne hi _ _) (fun _ _ => Or.inl rfl) ?_
      cases h.good c with
      | free _ hflag hat =>
          refine .filling call 0 (setWorker_worker_self w c _) hflag hat (setRecord_record_self _ c _) ?_
          exact holds_nil _
      | filling _ _ hstoring => simp [hworker] at hstoring
      | posted _ hin => simp [InTrap, hworker] at hin
      | working _ hin => simp [InTrap, hworker] at hin
      | answered _ hin => simp [InTrap, hworker] at hin
  | storing _ _ => exact h
  | notifying _ => exact h
  | waiting _ => exact h
  | sleeping _ => exact h
  | returning _ => exact h
  | loadingHigh _ _ => exact h

/-- A worker stores the next word of its request, or the flag when all are there. -/
theorem inv_storing (h : Inv w) {call : Import} {stored : ℕ} (hworker : w.worker c = .storing call stored) :
    Inv (workerStep w c) := by
  obtain ⟨hflag, hat, hfresh, hholds⟩ : w.words c 0 = 0 ∧ ¬ w.loop.At c ∧ w.record c = fresh ∧
      Holds (w.words c) ((trapOffsets.zip call.request.words).take stored) := by
    cases h.good c with
    | free hidle => simp [hworker] at hidle
    | filling call' stored' hstoring hflag hat hfresh hholds =>
        obtain ⟨rfl, rfl⟩ := Worker.storing.inj (hworker.symm.trans hstoring)
        exact ⟨hflag, hat, hfresh, hholds⟩
    | posted _ hin => simp [InTrap, hworker] at hin
    | working _ hin => simp [InTrap, hworker] at hin
    | answered _ hin => simp [InTrap, hworker] at hin
  unfold workerStep
  rw [hworker]
  dsimp only
  cases hnext : (trapOffsets.zip call.request.words)[stored]? with
  | some store =>
      obtain ⟨off, v⟩ := store
      have hoff : off ≠ 0 := by
        rintro rfl
        exact zero_notMem call.request (List.mem_map_of_mem (List.mem_of_getElem? hnext))
      refine h.setWord_setWorker (.filling call (stored + 1) (setWorker_worker_self _ c _) ?_ hat hfresh ?_)
      · show (setWord w c off v).words c 0 = 0
        rw [setWord_words_self, Function.update_of_ne hoff.symm, hflag]
      · show Holds ((setWord w c off v).words c) _
        rw [setWord_words_self]
        exact hholds.store (keys_stores call.request) hnext
  | none =>
      have hall : (trapOffsets.zip call.request.words).take stored = trapOffsets.zip call.request.words :=
        List.take_of_length_le (List.getElem?_eq_none_iff.1 hnext)
      rw [hall] at hholds
      refine h.setWord_setWorker
        (.posted call (Or.inl (setWorker_worker_self _ c _)) ?_ hat hfresh ?_ fun _ => ?_)
      · show (setWord w c 0 1).words c 0 = 1
        rw [setWord_words_self, Function.update_self]
      · show Holds ((setWord w c 0 1).words c) _
        rw [setWord_words_self]
        exact hholds.update (zero_notMem call.request) 1
      · rw [setWorker_worker_self]
        exact nofun

/-- A worker in its trap, before it sleeps, goes on in it. -/
theorem Good.inTrap (h : Good w c) {call : Import} {st : Worker} (hin : InTrap w c call)
    (hin' : st = .waiting call ∨ st = .sleeping call)
    (hawake : w.words c 0 = 1 → w.loop = .notifying c → st ≠ .sleeping call) : Good (setWorker w c st) c := by
  have htrap : InTrap (TrapProtocol.setWorker w c st) c call := by
    rw [InTrap, setWorker_worker_self]
    exact Or.inr hin'
  have hsame {call' : Import} (hin'' : InTrap w c call') : call = call' := by
    unfold InTrap at hin hin''
    rcases hin with heq | heq | heq <;> simpa [heq] using hin''
  cases h with
  | free hidle => simp [InTrap, hidle] at hin
  | filling _ _ hstoring => simp [InTrap, hstoring] at hin
  | posted call' hin'' hflag hat hfresh hholds _ =>
      obtain rfl := hsame hin''
      refine .posted call htrap hflag hat hfresh hholds fun hnotify => ?_
      rw [setWorker_worker_self]
      exact hawake hflag hnotify
  | working call' hin'' hflag hat hworking =>
      obtain rfl := hsame hin''
      exact .working call htrap hflag hat hworking
  | answered call' hin'' hflag hat hanswered =>
      rcases hin'' with hin'' | hret | ⟨low, hhigh, -⟩
      · obtain rfl := hsame hin''
        exact .answered call (Or.inl htrap) hflag hat hanswered
      · simp [InTrap, hret] at hin
      · simp [InTrap, hhigh] at hin

theorem Good.answered_of_returns (h : Good w c) {call : Import}
    (hworker : w.worker c = .returning call ∨ ∃ low, w.worker c = .loadingHigh call low) :
    w.words c 0 = 0 ∧ ¬ w.loop.At c ∧ Answered call (w.words c) (w.record c) ∧
      ((∃ low, w.worker c = .loadingHigh call low) → call.ReadsHigh (w.words c 8)) := by
  cases h with
  | free hidle => simp [hidle] at hworker
  | filling _ _ hstoring => simp [hstoring] at hworker
  | posted _ hin => rcases hin with heq | heq | heq <;> simp [heq] at hworker
  | working _ hin => rcases hin with heq | heq | heq <;> simp [heq] at hworker
  | answered call' hin hflag hat hanswered =>
      rcases hin with (heq | heq | heq) | hret | ⟨low, hhigh, hreads⟩
      · simp [heq] at hworker
      · simp [heq] at hworker
      · simp [heq] at hworker
      · obtain rfl : call' = call := by simpa [hret] using hworker
        refine ⟨hflag, hat, hanswered, ?_⟩
        rintro ⟨low, hhigh⟩
        simp [hret] at hhigh
      · obtain rfl : call' = call := by simpa [hhigh] using hworker
        exact ⟨hflag, hat, hanswered, fun _ => hreads⟩

theorem inv_workerStep (h : Inv w) (hguard : Guarded cs w (.worker c)) : Inv (workerStep w c) := by
  cases hworker : w.worker c with
  | idle => rwa [workerStep, hworker]
  | sleeping call => rwa [workerStep, hworker]
  | storing call stored => exact inv_storing h hworker
  | notifying call =>
      rw [workerStep, hworker]
      exact h.setWorker ((h.good c).inTrap (Or.inl hworker) (Or.inl rfl) fun _ _ => nofun)
  | waiting call =>
      rw [workerStep, hworker]
      dsimp only
      by_cases hflag : w.words c 0 = 1
      · rw [if_pos hflag]
        rw [Guarded, hworker] at hguard
        refine h.setWorker ((h.good c).inTrap (Or.inr (Or.inl hworker)) (Or.inr rfl) fun _ hnotify => ?_)
        exact absurd hnotify (hguard hflag).1
      · rw [if_neg hflag]
        refine h.setWorker ?_
        cases h.good c with
        | free hidle => simp [hworker] at hidle
        | filling _ _ hstoring => simp [hworker] at hstoring
        | posted _ _ hone => exact absurd hone hflag
        | working _ _ hone => exact absurd hone hflag
        | answered call' hin hzero hat hanswered =>
            obtain rfl : call = call' := by simpa [InTrap, hworker] using hin
            exact .answered call (Or.inr (Or.inl (setWorker_worker_self w c _))) hzero hat hanswered
  | returning call =>
      obtain ⟨hflag, hat, hanswered, -⟩ := (h.good c).answered_of_returns (Or.inl hworker)
      rw [workerStep, hworker]
      dsimp only
      refine h.setWorker ?_
      by_cases hreads : call.ReadsHigh (w.words c 8)
      · rw [if_pos hreads]
        exact .answered call (Or.inr (Or.inr ⟨_, setWorker_worker_self w c _, hreads⟩)) hflag hat hanswered
      · rw [if_neg hreads]
        exact .free (setWorker_worker_self w c _) hflag hat
  | loadingHigh call low =>
      obtain ⟨hflag, hat, -, -⟩ := (h.good c).answered_of_returns (Or.inr ⟨low, hworker⟩)
      rw [workerStep, hworker]
      exact h.setWorker (.free (setWorker_worker_self w c _) hflag hat)

/-! ### The steps of the loop -/

theorem Loop.At.unique {l : Loop} {i : ℕ} (h : l.At c) (h' : l.At i) : c = i := by
  cases l <;> simp only [Loop.At] at h h' <;> omega

theorem Loop.At.ne_notifying {l : Loop} (h : l.At c) (i : ℕ) : l ≠ .notifying i := by
  rintro rfl
  exact h

/-- The trap that the loop works on. -/
theorem Good.of_at (h : Good w c) (hat : w.loop.At c) :
    ∃ call, InTrap w c call ∧ w.words c 0 = 1 ∧ Working w.loop call (w.words c) (w.record c) := by
  cases h with
  | free _ _ hnot => exact absurd hat hnot
  | filling _ _ _ _ hnot => exact absurd hat hnot
  | posted _ _ _ hnot => exact absurd hat hnot
  | working call hin hflag _ hworking => exact ⟨call, hin, hflag, hworking⟩
  | answered _ _ _ hnot => exact absurd hat hnot

/-- The loop goes on with the trap that it works on. -/
theorem Inv.work (h : Inv w) (hat : w.loop.At c) (hat' : w'.loop.At c) (htask : w'.task = w.task)
    (hwaits : w'.pendingWaits = w.pendingWaits) (hwords : ∀ i, i ≠ c → w'.words i = w.words i)
    (hworker : w'.worker = w.worker) (hrecord : ∀ i, i ≠ c → w'.record i = w.record i)
    (hflag : w'.words c 0 = w.words c 0)
    (hworking : ∀ call, InTrap w c call → Working w.loop call (w.words c) (w.record c) →
      Working w'.loop call (w'.words c) (w'.record c)) : Inv w' := by
  obtain ⟨call, hin, hone, hold⟩ := (h.good c).of_at hat
  refine h.update c htask hwaits hwords (fun i _ => congrFun hworker i) hrecord (fun i hi => Or.inr ?_) ?_
  · refine ⟨fun hati => hi (hat.unique hati).symm, fun hati => hi (hat'.unique hati).symm, hat'.ne_notifying i⟩
  · exact .working call (by rwa [InTrap, hworker]) (hflag.trans hone) hat' (hworking call hin hold)

/-- The loop finds the flag of a trap. -/
theorem Inv.claim (h : Inv w) {l : Loop} (toVisit : List ℤ) (haway : ∀ i, ¬ w.loop.At i)
    (hflag : w.words c 0 = 1)
    (hl : (∃ pid, l = .pausing pid c) ∨ ∃ pid object handled, l = .unregistered pid object c handled) :
    Inv { w with toVisit, loop := l } := by
  have hat : l.At c := by
    obtain ⟨pid, rfl⟩ | ⟨pid, object, handled, rfl⟩ := hl
    · exact rfl
    · exact rfl
  refine h.update c rfl rfl (fun _ _ => rfl) (fun _ _ => rfl) (fun _ _ => rfl) (fun i hi => Or.inr ?_) ?_
  · exact ⟨haway i, fun hati => hi (hat.unique hati).symm, hat.ne_notifying i⟩
  · cases h.good c with
    | free _ hzero => simp [hzero] at hflag
    | filling _ _ _ hzero => simp [hzero] at hflag
    | posted call hin _ _ hfresh hholds _ =>
        refine .working call hin hflag hat ?_
        obtain ⟨pid, rfl⟩ | ⟨pid, object, handled, rfl⟩ := hl
        · exact ⟨hfresh, hholds⟩
        · exact ⟨hfresh, hholds⟩
    | working _ _ _ hnot => exact absurd hnot (haway c)
    | answered _ _ hzero => simp [hzero] at hflag

/-- The loop goes on to the next process without having begun with the trap. -/
theorem Inv.leave (h : Inv w) {pid : ℤ} {object : ℕ} {handled : Bool}
    (hloop : w.loop = .unregistered pid object c handled) : Inv { w with loop := .next handled } := by
  have hat : w.loop.At c := by rw [hloop]; exact rfl
  obtain ⟨call, hin, hflag, hworking⟩ := (h.good c).of_at hat
  rw [hloop] at hworking
  refine h.update c rfl rfl (fun _ _ => rfl) (fun _ _ => rfl) (fun _ _ => rfl) (fun i hi => Or.inr ?_) ?_
  · exact ⟨fun hati => hi (hat.unique hati).symm, id, nofun⟩
  · exact .posted call hin hflag id hworking.1 hworking.2 nofun

/-- The flag is cleared when the results are stored. -/
theorem inv_clearing (h : Inv w) (hloop : w.loop = .clearing c) :
    Inv { setWord w c 0 0 with loop := .notifying c } := by
  have hat : w.loop.At c := by rw [hloop]; exact rfl
  obtain ⟨call, hin, hflag, hworking⟩ := (h.good c).of_at hat
  rw [hloop] at hworking
  refine h.update c rfl rfl (fun _ hi => setWord_words_of_ne hi w 0 0) (fun _ _ => rfl) (fun _ _ => rfl)
    (fun i hi => Or.inr ⟨fun hati => hi (hat.unique hati).symm, id, ?_⟩) ?_
  · intro heq
    exact hi (Loop.notifying.inj heq).symm
  · refine .answered call (Or.inl hin) ?_ id ?_
    · show (setWord w c 0 0).words c 0 = 0
      rw [setWord_words_self, Function.update_self]
    · show Answered call ((setWord w c 0 0).words c) (w.record c)
      rw [setWord_words_self, Answered, Function.update_of_ne (by decide), Function.update_of_ne (by decide)]
      exact hworking

/-- The notify wakes only a worker whose trap is done with. -/
theorem inv_notifying (h : Inv w) (hloop : w.loop = .notifying c) : Inv { wake w c with loop := .next true } := by
  have haway (i : ℕ) : ¬ w.loop.At i := by rw [hloop]; exact id
  by_cases hsleep : ∃ call, w.worker c = .sleeping call
  · obtain ⟨call, hsleep⟩ := hsleep
    have hwake : wake w c = setWorker w c (.returning call) := by rw [wake, hsleep]
    rw [hwake]
    refine h.update c rfl rfl (fun _ _ => rfl) (fun _ hi => setWorker_worker_of_ne hi w _) (fun _ _ => rfl)
      (fun i _ => Or.inr ⟨haway i, id, nofun⟩) ?_
    cases h.good c with
    | free hidle => simp [hsleep] at hidle
    | filling _ _ hstoring => simp [hsleep] at hstoring
    | posted call' hin _ _ _ _ hawake =>
        obtain rfl : call = call' := by simpa [InTrap, hsleep] using hin
        exact absurd hsleep (hawake hloop)
    | working _ _ _ hat => exact absurd hat (haway c)
    | answered call' hin hflag _ hanswered =>
        obtain rfl : call = call' := by simpa [InTrap, hsleep] using hin
        exact .answered call (Or.inr (Or.inl (setWorker_worker_self w c _))) hflag id hanswered
  · have hwake : wake w c = w := by
      unfold wake
      split
      · next call heq => exact absurd ⟨call, heq⟩ hsleep
      · rfl
    rw [hwake]
    exact h.frame rfl rfl rfl rfl rfl (Or.inr fun i => ⟨haway i, id, nofun⟩)

/-! ### Handling a trap -/

/-- Two worlds that differ in what no trap has: the process table, the exit codes and the rest of the kernel. -/
structure Same (w w' : World β) : Prop where
  words : w'.words = w.words
  worker : w'.worker = w.worker
  record : w'.record = w.record
  loop : w'.loop = w.loop
  task : w'.task = w.task
  pendingWaits : w'.pendingWaits = w.pendingWaits

theorem Inv.same (h : Inv w) (hsame : Same w w') : Inv w' :=
  h.frame hsame.task hsame.pendingWaits hsame.words hsame.worker hsame.record (Or.inl hsame.loop)

theorem same_setChild (w : World β) (child : Option ℤ) : Same w (setChild w child) := by
  cases child <;> exact ⟨rfl, rfl, rfl, rfl, rfl, rfl⟩

/-- Only the two imports that read a second result read it. -/
theorem Stands.of_readsHigh {call : Import} {req : Request} (h : Stands call req) {low : Int32}
    (hreads : call.ReadsHigh low) :
    call = .fsFstat req.a ∧ req.n = 1004 ∨ call = .pipeCreate ∧ req.n = 1012 ∧ 0 ≤ low := by
  cases call with
  | fsFstat handle =>
      have hreq := h.2 (by simp [Import.request])
      subst hreq
      exact Or.inl ⟨rfl, rfl⟩
  | pipeCreate =>
      have hreq := h.2 (by decide)
      subst hreq
      exact Or.inr ⟨rfl, rfl, hreads⟩
  | plain _ => exact absurd hreads id

/-- A result that is stored alone. -/
theorem answered_low {call : Import} {v : Int32} (words : ℕ → Int32) (hnot : ¬ call.ReadsHigh v) :
    Answered call (finish words ⟨1, none, none⟩ [(8, v)]).1 (finish words ⟨1, none, none⟩ [(8, v)]).2 := by
  simp [Answered, finish, Record.store, hnot]

/-- Both results. -/
theorem answered_both (call : Import) (words : ℕ → Int32) (hi lo : Int32) :
    Answered call (finish words ⟨1, none, none⟩ [(9, hi), (8, lo)]).1
      (finish words ⟨1, none, none⟩ [(9, hi), (8, lo)]).2 := by
  simp [Answered, finish, Record.store]

/-- A handler has computed results that are enough for the import. -/
theorem Inv.answer (h : Inv w) {pid : ℤ} {req : Request} (hloop : w.loop = .serving pid c req) (hsame : Same w w')
    {stores : List (ℕ × Int32)} (hne : ∀ store ∈ stores, store.1 ≠ 0)
    (hresults : ∀ call, InTrap w c call → Stands call req →
      Answered call (finish (w.words c) ⟨1, none, none⟩ stores).1 (finish (w.words c) ⟨1, none, none⟩ stores).2) :
    Inv (answer w' c stores) := by
  have hat : w.loop.At c := by rw [hloop]; exact rfl
  refine h.work hat rfl hsame.task hsame.pendingWaits (fun i _ => congrFun hsame.words i) hsame.worker
    (fun i hi => ?_) ?_ fun call hin hworking => ⟨?_, hne⟩
  · show (setRecord w' c _).record i = w.record i
    rw [setRecord_record_of_ne hi, hsame.record]
  · show w'.words c 0 = w.words c 0
    rw [hsame.words]
  · rw [hloop] at hworking
    obtain ⟨hfresh, hstands, -⟩ := hworking
    have hrecord : (TrapProtocol.answer w' c stores).record c = ⟨1, none, none⟩ := by
      show (setRecord w' c _).record c = _
      rw [setRecord_record_self, hsame.record, hfresh]
      rfl
    have hwords : (TrapProtocol.answer w' c stores).words c = w.words c := congrFun hsame.words c
    rw [hrecord, hwords]
    exact hresults call hin hstands

theorem ne_zero_pipeStores (reply : PipeReply) : ∀ store ∈ pipeStores reply, store.1 ≠ 0 := by
  cases reply <;> simp [pipeStores]

/-- The reply of the bridge is an error, or has both results. -/
theorem answered_pipe (words : ℕ → Int32) {call : Import} (hlow : ∀ low, call.ReadsHigh low → 0 ≤ low)
    (reply : PipeReply) : Answered call (finish words ⟨1, none, none⟩ (pipeStores reply)).1
      (finish words ⟨1, none, none⟩ (pipeStores reply)).2 := by
  cases reply with
  | noBridge => exact answered_low words fun hreads => absurd (hlow _ hreads) (by decide)
  | timedOut => exact answered_low words fun hreads => absurd (hlow _ hreads) (by decide)
  | made readFd ringOffset => exact answered_both call words ringOffset _

theorem ne_zero_fstatStores (w : World β) (handle : Int32) : ∀ store ∈ fstatStores cs w handle, store.1 ≠ 0 := by
  unfold fstatStores
  cases cs.fstat w.rest handle <;> simp

theorem HasFile.of_inTrap {pid : ℤ} (h : HasFile cs w pid (w.worker c)) {handle : Int32}
    (hin : InTrap w c (.fsFstat handle)) : w.table.has pid = true ∧ (cs.fstat w.rest handle).isSome = true := by
  rcases hin with heq | heq | heq <;> rw [heq] at h <;> exact h

theorem inv_serve (h : Inv w) (hguard : Guarded cs w .kernel) {pid : ℤ} {req : Request}
    (hloop : w.loop = .serving pid c req) : Inv (serve cs w pid c req) := by
  rw [Guarded, hloop] at hguard
  obtain ⟨hparks, hfile⟩ := hguard
  replace hfile : ∀ handle, InTrap w c (.fsFstat handle) →
      w.table.has pid = true ∧ (cs.fstat w.rest handle).isSome = true := fun handle hin => hfile.of_inTrap hin
  have hone (v : Int32) : ∀ store ∈ [((8 : ℕ), v)], store.1 ≠ 0 := by simp
  unfold serve
  split_ifs with hproc hhost hwait hpipe hfstat
  · -- a process that is not there gets -1, and who reads two words is there, by the guard
    refine h.answer hloop ⟨rfl, rfl, rfl, rfl, rfl, rfl⟩ (hone _) fun call hin hstands => ?_
    refine answered_low _ fun hreads => ?_
    rcases hstands.of_readsHigh hreads with ⟨rfl, -⟩ | ⟨-, -, hle⟩
    · have hhas := (hfile _ hin).1
      rw [hproc] at hhas
      cases hhas
    · exact absurd hle (by decide)
  · have hat : w.loop.At c := by rw [hloop]; exact rfl
    refine h.work hat rfl rfl rfl (fun _ _ => rfl) rfl (fun _ _ => rfl) rfl fun call hin hworking => ?_
    rw [hloop] at hworking
    exact ⟨hworking.1, Nat.zero_le 6, req, hworking.2.1, hhost, hworking.2.2⟩
  · -- the guard: a wait that is served finds an exit code
    have hfound := hparks (Bool.eq_true_of_not_eq_false hproc) hwait
    have hsame : Same w { w with exitCodes := w.exitCodes.delete req.a.toInt } := ⟨rfl, rfl, rfl, rfl, rfl, rfl⟩
    rw [procWait, if_neg hfound]
    refine h.answer hloop hsame (hone _) fun call hin hstands => ?_
    refine answered_low _ fun hreads => ?_
    rcases hstands.of_readsHigh hreads with ⟨-, hn⟩ | ⟨-, hn, -⟩
    · rw [hwait] at hn
      exact absurd hn (by decide)
    · rw [hwait] at hn
      exact absurd hn (by decide)
  · have hsame : Same w { w with rest := (cs.pipe w.rest pid).1 } := ⟨rfl, rfl, rfl, rfl, rfl, rfl⟩
    refine h.answer hloop hsame (ne_zero_pipeStores _) fun call hin hstands => ?_
    refine answered_pipe _ (fun low hreads => ?_) _
    rcases hstands.of_readsHigh hreads with ⟨-, hn⟩ | ⟨-, -, hle⟩
    · rw [hpipe] at hn
      exact absurd hn (by decide)
    · exact hle
  · refine h.answer hloop ⟨rfl, rfl, rfl, rfl, rfl, rfl⟩ (ne_zero_fstatStores w req.a) fun call hin hstands => ?_
    unfold fstatStores
    cases hget : cs.fstat w.rest req.a with
    | some words =>
        obtain ⟨lo, hi⟩ := words
        exact answered_both call _ hi lo
    | none =>
        refine answered_low _ fun hreads => ?_
        rcases hstands.of_readsHigh hreads with ⟨rfl, -⟩ | ⟨-, hn, -⟩
        · -- the file is there, by the guard
          have hsome := (hfile _ hin).2
          rw [hget] at hsome
          cases hsome
        · rw [hfstat] at hn
          exact absurd hn (by decide)
  · have hsame :
        Same w (setChild { w with rest := (cs.other w.rest pid req).rest } (cs.other w.rest pid req).child) := by
      have hchild := same_setChild { w with rest := (cs.other w.rest pid req).rest } (cs.other w.rest pid req).child
      exact ⟨hchild.words, hchild.worker, hchild.record, hchild.loop, hchild.task, hchild.pendingWaits⟩
    refine h.answer hloop hsame (hone _) fun call hin hstands => ?_
    refine answered_low _ fun hreads => ?_
    rcases hstands.of_readsHigh hreads with ⟨-, hn⟩ | ⟨-, hn, -⟩
    · exact hfstat hn
    · exact hpipe hn

theorem ofWords_words (req : Request) : Request.ofWords req.words = req := rfl

/-- The words of a request, one by one. -/
theorem holds_iff {words : ℕ → Int32} {n a b c d e f : Int32} :
    Holds words (trapOffsets.zip [n, a, b, c, d, e, f]) ↔
      words 1 = n ∧ words 2 = a ∧ words 3 = b ∧ words 4 = c ∧ words 5 = d ∧ words 6 = e ∧ words 7 = f := by
  simp [Holds, trapOffsets]

/-- One more word is shifted. -/
theorem holds_shift {words : ℕ → Int32} {req : Request} {shifted : ℕ} (hlt : shifted < 6)
    (h : Holds words (trapOffsets.zip (req.shift.words.take shifted ++ req.words.drop shifted))) :
    Holds (Function.update words (shifted + 1) (words (shifted + 2)))
      (trapOffsets.zip (req.shift.words.take (shifted + 1) ++ req.words.drop (shifted + 1))) := by
  obtain ⟨n, a, b, c, d, e, f⟩ := req
  interval_cases shifted <;>
    simp only [Request.words, Request.shift, List.take_zero, List.take_succ_cons, List.drop_zero, List.drop_succ_cons,
      List.nil_append, List.cons_append, holds_iff] at h ⊢ <;>
    simp [h]

/-- The last word is cleared. -/
theorem holds_shift_last {words : ℕ → Int32} {req : Request} {shifted : ℕ} (hge : 6 ≤ shifted)
    (h : Holds words (trapOffsets.zip (req.shift.words.take shifted ++ req.words.drop shifted)))
    (hle : shifted ≤ 6) : Holds (Function.update words 7 0) (trapOffsets.zip req.shift.words) := by
  obtain rfl : shifted = 6 := by omega
  obtain ⟨n, a, b, c, d, e, f⟩ := req
  simp only [Request.words, Request.shift, List.take_zero, List.take_succ_cons, List.drop_zero, List.drop_succ_cons,
    List.nil_append, List.cons_append, holds_iff] at h ⊢
  simp [h]

theorem Stands.shift {call : Import} {req : Request} (h : Stands call req) (hhost : req.n = 1024) :
    Stands call req.shift := by
  obtain ⟨⟨k, hk⟩, hreq⟩ := h
  refine ⟨⟨k + 1, by rw [Function.iterate_succ_apply', ← hk]⟩, fun hne => ?_⟩
  rw [hreq hne] at hhost
  exact absurd hhost hne

theorem stands_request (call : Import) : Stands call call.request := ⟨⟨0, rfl⟩, fun _ => rfl⟩

/-- The loop loads the next word, or has all of them. -/
theorem inv_reading (h : Inv w) {pid : ℤ} {got : List Int32} (hloop : w.loop = .reading pid c got) :
    Inv (loopStep cs w) := by
  have hat : w.loop.At c := by rw [hloop]; exact rfl
  unfold loopStep
  rw [hloop]
  dsimp only
  cases hnext : trapOffsets[got.length]? with
  | some off =>
      refine h.work hat rfl rfl rfl (fun _ _ => rfl) rfl (fun _ _ => rfl) rfl fun call _ hworking => ?_
      rw [hloop] at hworking
      obtain ⟨hfresh, req, hstands, hholds, hgot⟩ := hworking
      exact ⟨hfresh, req, hstands, hholds, hholds.take_load rfl hgot hnext⟩
  | none =>
      refine h.work hat rfl rfl rfl (fun _ _ => rfl) rfl (fun _ _ => rfl) rfl fun call _ hworking => ?_
      rw [hloop] at hworking
      obtain ⟨hfresh, req, hstands, hholds, hgot⟩ := hworking
      have hall : got = req.words := @eq_of_take Int32 trapOffsets _ _ rfl hgot hnext
      rw [hall, ofWords_words]
      exact ⟨hfresh, hstands, hholds⟩

/-- The loop shifts the words of `SYS_HOST_SYSCALL`, and begins again with them. -/
theorem inv_shifting (h : Inv w) {pid : ℤ} {shifted : ℕ} (hloop : w.loop = .shifting pid c shifted) :
    Inv (loopStep cs w) := by
  have hat : w.loop.At c := by rw [hloop]; exact rfl
  unfold loopStep
  rw [hloop]
  dsimp only
  split_ifs with hlt
  · refine h.work hat rfl rfl rfl (fun _ hi => setWord_words_of_ne hi w _ _) rfl (fun _ _ => rfl) ?_
      fun call _ hworking => ?_
    · show (setWord w c (shifted + 1) _).words c 0 = w.words c 0
      rw [setWord_words_self, Function.update_of_ne (by omega)]
    · rw [hloop] at hworking
      obtain ⟨hfresh, -, req, hstands, hhost, hholds⟩ := hworking
      refine ⟨hfresh, hlt, req, hstands, hhost, ?_⟩
      show Holds ((setWord w c (shifted + 1) _).words c) _
      rw [setWord_words_self]
      exact holds_shift hlt hholds
  · refine h.work hat rfl rfl rfl (fun _ hi => setWord_words_of_ne hi w _ _) rfl (fun _ _ => rfl) ?_
      fun call _ hworking => ?_
    · show (setWord w c 7 0).words c 0 = w.words c 0
      rw [setWord_words_self, Function.update_of_ne (by decide)]
    · rw [hloop] at hworking
      obtain ⟨hfresh, hle, req, hstands, hhost, hholds⟩ := hworking
      refine ⟨hfresh, req.shift, hstands.shift hhost, ?_, rfl⟩
      show Holds ((setWord w c 7 0).words c) _
      rw [setWord_words_self]
      exact holds_shift_last (Nat.le_of_not_lt hlt) hholds hle

/-- The loop stores the next result, or has stored all. -/
theorem inv_storing_results (h : Inv w) {stores : List (ℕ × Int32)} (hloop : w.loop = .storing c stores) :
    Inv (loopStep cs w) := by
  have hat : w.loop.At c := by rw [hloop]; exact rfl
  unfold loopStep
  rw [hloop]
  cases stores with
  | nil =>
      refine h.work hat rfl rfl rfl (fun _ _ => rfl) rfl (fun _ _ => rfl) rfl fun call _ hworking => ?_
      rw [hloop] at hworking
      exact hworking.1
  | cons store stores =>
      obtain ⟨off, v⟩ := store
      have hne : ∀ store ∈ (off, v) :: stores, store.1 ≠ 0 := by
        obtain ⟨call, -, -, hworking⟩ := (h.good c).of_at hat
        rw [hloop] at hworking
        exact hworking.2
      refine h.work hat rfl rfl rfl (fun _ hi => setWord_words_of_ne hi w _ _) rfl
        (fun _ hi => setRecord_record_of_ne hi _ _) ?_ fun call _ hworking => ?_
      · show (setWord w c off v).words c 0 = w.words c 0
        rw [setWord_words_self, Function.update_of_ne (hne (off, v) List.mem_cons_self).symm]
      · rw [hloop] at hworking
        have hwords : (setRecord (setWord w c off v) c ((w.record c).store off v)).words c =
            Function.update (w.words c) off v := setWord_words_self w c off v
        have hrecord : (setRecord (setWord w c off v) c ((w.record c).store off v)).record c =
            (w.record c).store off v := setRecord_record_self _ c _
        show Working (.storing c stores) call ((setRecord (setWord w c off v) c ((w.record c).store off v)).words c)
          ((setRecord (setWord w c off v) c ((w.record c).store off v)).record c)
        rw [hwords, hrecord]
        exact ⟨hworking.1, fun store hstore => hworking.2 store (List.mem_cons_of_mem _ hstore)⟩

/-- The loop looks at the next process. -/
theorem inv_next (h : Inv w) {handled : Bool} (hloop : w.loop = .next handled) : Inv (loopStep cs w) := by
  have haway (i : ℕ) : ¬ w.loop.At i := by rw [hloop]; exact id
  unfold loopStep
  rw [hloop]
  cases w.toVisit with
  | nil =>
      cases handled with
      | true => exact h.frame rfl rfl rfl rfl rfl (Or.inr fun i => ⟨haway i, id, nofun⟩)
      | false => exact h.frame rfl rfl rfl rfl rfl (Or.inr fun i => ⟨haway i, id, nofun⟩)
  | cons pid toVisit =>
      dsimp only
      have hskip : Inv { w with toVisit, loop := .next handled } :=
        h.frame rfl rfl rfl rfl rfl (Or.inl hloop.symm)
      cases w.table.get? pid with
      | none => simpa only [hloop] using hskip
      | some object =>
          cases hcontrol : (w.objects object).control with
          | none => simpa only [hloop, hcontrol] using hskip
          | some c =>
              simp only [hcontrol]
              split_ifs with hflag hmemory
              · exact h.claim toVisit haway hflag (Or.inl ⟨pid, rfl⟩)
              · exact h.claim toVisit haway hflag (Or.inr ⟨pid, object, handled, rfl⟩)
              · simpa only [hloop] using hskip

theorem inv_loopStep (h : Inv w) (hguard : Guarded cs w .kernel) : Inv (loopStep cs w) := by
  cases hloop : w.loop with
  | idle =>
      rw [loopStep, hloop]
      exact h.frame rfl rfl rfl rfl rfl (Or.inr fun i => ⟨by rw [hloop]; exact id, id, nofun⟩)
  | next handled => exact inv_next h hloop
  | unregistered pid object c handled =>
      rw [loopStep, hloop]
      dsimp only
      split_ifs with hmemory
      · have hat : w.loop.At c := by rw [hloop]; exact rfl
        refine h.work hat rfl rfl rfl (fun _ _ => rfl) rfl (fun _ _ => rfl) rfl fun call _ hworking => ?_
        rwa [hloop] at hworking
      · exact h.leave hloop
  | pausing pid c =>
      have hat : w.loop.At c := by rw [hloop]; exact rfl
      rw [loopStep, hloop]
      refine h.work hat rfl rfl rfl (fun _ _ => rfl) rfl (fun _ _ => rfl) rfl fun call _ hworking => ?_
      rw [hloop] at hworking
      exact ⟨hworking.1, call.request, stands_request call, hworking.2, rfl⟩
  | reading pid c got => exact inv_reading h hloop
  | serving pid c req =>
      rw [loopStep, hloop]
      exact inv_serve h hguard hloop
  | shifting pid c shifted => exact inv_shifting h hloop
  | storing c stores => exact inv_storing_results h hloop
  | clearing c =>
      rw [loopStep, hloop]
      exact inv_clearing h hloop
  | notifying c =>
      rw [loopStep, hloop]
      exact inv_notifying h hloop

/-! ### Messages -/

theorem same_removeProc (w : World β) (pid : ℤ) : Same w (removeProc w pid) := ⟨rfl, rfl, rfl, rfl, rfl, rfl⟩

/-- No process waits, so that an exit wakes nobody. -/
theorem inv_handleMessage (h : Inv w) (msg : Message) : Inv (handleMessage cs w msg) := by
  cases msg with
  | registerWorker pid control => exact h.same ⟨rfl, rfl, rfl, rfl, rfl, rfl⟩
  | registerMemory pid =>
      show Inv (registerMemory w pid)
      unfold registerMemory
      cases w.table.get? pid with
      | none => exact h
      | some object => exact h.same ⟨rfl, rfl, rfl, rfl, rfl, rfl⟩
  | unregisterWorker pid => exact h.same (same_removeProc w pid)
  | workerExit pid code =>
      have hnone : (w.pendingWaits.get? pid).or (w.pendingWaits.get? 1) = none := by
        rw [h.pendingWaits]
        rfl
      have hexit : workerExit cs w pid code = { removeProc w pid with exitCodes := w.exitCodes.set pid code } := by
        unfold workerExit
        simp only [removeProc, hnone]
      show Inv (workerExit cs w pid code)
      rw [hexit]
      exact h.same ⟨rfl, rfl, rfl, rfl, rfl, rfl⟩

/-! ### Runs -/

/-- **What a step keeps**, if it meets the condition. -/
theorem inv_after (h : Inv w) {ev : Event} (hguard : Guarded cs w ev) : Inv (after cs w ev) := by
  cases ev with
  | trap c call => exact inv_trap h c call
  | worker c => exact inv_workerStep h hguard
  | kernel =>
      rw [after, if_pos h.task]
      exact inv_loopStep h hguard
  | message msg =>
      rw [after]
      split_ifs
      · exact inv_handleMessage h msg
      · exact h

/-- The law holds of every step from a state with the invariant. -/
theorem Inv.sound (h : Inv w) (ev : Event) (w' : World β) : Sound w ev w' where
  handles pid c req _ _ hloop := by
    have hat : w.loop.At c := by rw [hloop]; exact rfl
    obtain ⟨call, hin, -, hworking⟩ := (h.good c).of_at hat
    rw [hloop] at hworking
    exact ⟨⟨call, hin, hworking.2.1.1⟩, by rw [hworking.1]; rfl⟩
  returns c call _ hworker := by
    obtain ⟨-, -, hanswered, -⟩ := (h.good c).answered_of_returns (Or.inl hworker)
    exact ⟨hanswered.1, hanswered.2.1⟩
  high c call low _ hworker := by
    obtain ⟨-, -, hanswered, hreads⟩ := (h.good c).answered_of_returns (Or.inr ⟨low, hworker⟩)
    exact hanswered.2.2 (hreads ⟨low, hworker⟩)
  clears c _ hclears := by
    rcases hclears with htask | ⟨-, hloop⟩
    · rw [h.task] at htask
      cases htask
    · have hat : w.loop.At c := by rw [hloop]; exact rfl
      obtain ⟨call, -, -, hworking⟩ := (h.good c).of_at hat
      rw [hloop] at hworking
      exact ⟨hworking.1, by rw [hworking.2.1]; exact nofun⟩

end Invariant

/-! ### A wait that is to stay pending -/

/-- A kernel without files and without a bridge. -/
def cases : Cases Unit where
  other rest _ _ := ⟨rest, none, -38⟩
  fstat _ _ := none
  pipe rest _ := (rest, .noBridge)
  statusFits _ _ _ := true

/-- The loop begins. -/
def booted : World Unit where
  words _ _ := 0
  worker _ := .idle
  objects _ := ⟨none, false⟩
  nextObject := 0
  table := JsMap.empty
  toVisit := []
  nextPid := 1
  exitCodes := JsMap.empty
  pendingWaits := JsMap.empty
  rest := ()
  loop := .next false
  task := .none
  traps _ := 0
  record _ := ⟨0, none, none⟩

theorem starts_booted : Starts booted := ⟨fun _ => rfl, fun _ => rfl, rfl, rfl, rfl⟩

/-- Process 1 is registered and sleeps in a wait for process 7, whose words the loop has loaded. -/
def waits : List Event :=
  [.kernel, .message (.registerWorker 1 0), .message (.registerMemory 1), .trap 0 (.plain ⟨1011, 7, 0, 0, 0, 0, 0⟩)] ++
    List.replicate 10 (.worker 0) ++ List.replicate 11 .kernel

/-- The same after the exit of process 7, up to the return of the trap. -/
def returns : List Event :=
  [.kernel, .message (.workerExit 7 0), .kernel] ++ waits ++ List.replicate 5 .kernel ++ [.worker 0]

end TrapProtocol
