/-
**The vfork window.**

In the browser build a fork does not make a process.  `SysFork` reserves a pid, saves the instruction
pointer and the general registers, and returns 0, so that the child side runs on in the parent's
machine until it calls `execve`, which spawns a worker for it, or `_exit`.  A system call that is not
on a list of safe ones ends the window too: the state is shipped to a new worker as a full fork.  All
three ways put the saved registers back and let the parent return from its fork.

Main definitions:

* `Vfork.sysFork` — `SysFork` of the browser build;
* `Vfork.windowSyscall` — `OpSyscall` while the child side runs;
* `Vfork.step` — one step of the child side;
* `Vfork.ForkPoint`, `Vfork.Isolated` — a fork, and what its parent may rely on when it resumes.

Main results:

* `Vfork.step_closed` — every way out of the window restores the saved registers and nothing else;
* `Vfork.inWindow_of_isRun` — what is saved, and the descriptors, last through the window;
* `Vfork.isolated_iff` — exactly when the parent is isolated from the child side.
-/

import AtuaComputer.BlinkMachine
import AtuaComputer.Runs

set_option relaxedAutoImplicit false
set_option autoImplicit false

namespace Vfork

open Blink Runs

/-! ### Registers -/

/-- The general register with the given number. -/
def getReg (beg : Block 128) (i : ℕ) : UInt64 := (Codec.u64.read (beg.bytes.drop (8 * i))).1

/-- The numbers of the registers a system call reads. -/
def rax : ℕ := 0
def rdx : ℕ := 2
def rsp : ℕ := 4
def rsi : ℕ := 6
def rdi : ℕ := 7
def r10 : ℕ := 10

/-- The register file after `Put64(m->ax, v)`. -/
def putAx (beg : Block 128) (v : UInt64) : Block 128 :=
  ⟨Codec.u64.enc v ++ beg.bytes.drop 8, by simp [beg.length_eq]⟩

@[simp] theorem getReg_putAx (beg : Block 128) (v : UInt64) : getReg (putAx beg v) rax = v := by
  rw [getReg, putAx, rax, List.drop_zero, Codec.read_enc]

@[simp] theorem putAx_putAx (beg : Block 128) (v w : UInt64) :
    putAx (putAx beg v) w = putAx beg w := by
  refine Block.ext ?_
  have hdrop : (Codec.u64.enc v ++ beg.bytes.drop 8).drop 8 = beg.bytes.drop 8 :=
    List.drop_left' (Codec.u64.length_enc v)
  simp only [putAx, hdrop]

/-- An `int` in a 64-bit register. -/
def ofInt (x : Int32) : UInt64 := x.toInt64.toUInt64

/-- The register value of a call that failed with an error number. -/
def err (errno : UInt64) : UInt64 := 0 - errno

def eperm : UInt64 := err 1
def enomem : UInt64 := err 12
def efault : UInt64 := err 14
def einval : UInt64 := err 22

/-! ### Ways out of the window -/

/-- How the window closed, with the kernel's reply to the spawn. -/
inductive Closing where
  /-- `execve`, through `atua_fork_exec_spawn`. -/
  | exec (reply : Int32)
  /-- A call that is not safe, through `atua_fork_spawn`. -/
  | fallback (reply : Int32)
  /-- `exit` or `exit_group`. -/
  | exit
deriving DecidableEq

/-- `m->vfork_exec_pending = false`, the saved registers, and a value for the parent's `rax`. -/
def resume (m : Machine) (ax : UInt64) : Machine :=
  { m with vforkExecPending := false, ip := m.vforkSavedIp, beg := putAx m.vforkSavedRegs ax }

/-- The value that each way out puts into the parent's `rax`.  The kernel's reply is not looked at. -/
def Closing.returns (pid : Int32) : Closing → UInt64
  | exec _ => ofInt pid
  | fallback _ => ofInt pid
  | exit => ofInt (-1)

/-- The child the parent is told about by rights: the one the kernel made, or the one that exited;
there is none when the kernel refused. -/
def Closing.child (pid : Int32) : Closing → Option Int32
  | exec reply => if 0 ≤ reply then some pid else none
  | fallback reply => if 0 ≤ reply then some reply else none
  | exit => some pid

/-! ### The calls of the child side -/

/-- What a guest instruction other than a system call can change. -/
structure Cpu where
  ip : UInt64
  flags : UInt32
  beg : Block 128
  xmm : Block 256
  seg : Fin 8 → DescriptorCache
deriving Inhabited

/-- What a call reads from guest memory or is told by the host. -/
structure Env where
  /-- The value of a call that changes nothing but `rax`, as it is put there. -/
  result : UInt64
  /-- The word at the address of a new signal mask, unless reading it faults. -/
  set : Option UInt64
  /-- Whether the old mask or alternate stack can be written to the address given for it. -/
  oldOk : Bool
  /-- The structure at the address of a new alternate stack, unless reading it faults. -/
  altstack : Option (Block 24)
  /-- Whether the new alternate stack is in writable memory. -/
  altstackValid : Bool
  /-- The signal frame `rt_sigreturn` finds on the stack: everything of a CPU but the segments. -/
  frame : Cpu
  frameSigmask : UInt64
  /-- The signal handlers after a `rt_sigaction`. -/
  hands : Block 2048
  /-- Whether the strings of an `execve` can be copied. -/
  strings : Bool
  /-- The kernel's reply to a spawn. -/
  reply : Int32
deriving Inhabited

/-- The checks of `SysSigprocmask`: the error of the first that fails. -/
def sigprocmaskCheck (m : Machine) (env : Env) : Option UInt64 :=
  let how := getReg m.beg rdi
  if getReg m.beg r10 ≠ 8 then some einval
  else if how ≠ 0 ∧ how ≠ 1 ∧ how ≠ 2 then some einval
  else if getReg m.beg rsi ≠ 0 ∧ env.set = none then some efault
  else if getReg m.beg rdx ≠ 0 ∧ env.oldOk = false then some efault
  else none

/-- The mask after the set was blocked (0), unblocked (1) or put in its place (2). -/
def newSigmask (sigmask how set : UInt64) : UInt64 :=
  if how = 0 then sigmask ||| set else if how = 1 then sigmask &&& ~~~set else set

/-- `SysSigprocmask`.  (Signals it unmasks are delivered next, by `Event.signal`.) -/
def sysSigprocmask (m : Machine) (env : Env) : Machine :=
  match sigprocmaskCheck m env with
  | some e => { m with beg := putAx m.beg e }
  | none =>
    { m with
      sigmask :=
        if getReg m.beg rsi = 0 then m.sigmask
        else newSigmask m.sigmask (getReg m.beg rdi) (env.set.getD 0)
      beg := putAx m.beg 0 }

/-- The fields of a `struct sigaltstack_linux`. -/
def ssSp (ss : Block 24) : UInt64 := (Codec.u64.read ss.bytes).1
def ssFlags (ss : Block 24) : UInt32 := (Codec.u32.read (ss.bytes.drop 8)).1
def ssSize (ss : Block 24) : UInt64 := (Codec.u64.read (ss.bytes.drop 16)).1

/-- The structure with other flags. -/
def ssWithFlags (ss : Block 24) (flags : UInt32) : Block 24 :=
  ⟨ss.bytes.take 8 ++ Codec.u32.enc flags ++ ss.bytes.drop 12, by simp [ss.length_eq]⟩

def ssOnstack : UInt32 := 1
def ssDisable : UInt32 := 2
def ssAutodisarm : UInt32 := 0x80000000
def minsigstksz : UInt64 := 2048

/-- Whether the stack pointer is on the alternate stack. -/
def isOnStack (m : Machine) : Bool :=
  ssFlags m.sigaltstack &&& ssDisable == 0 &&
    decide (ssSp m.sigaltstack ≤ getReg m.beg rsp) &&
    decide (getReg m.beg rsp ≤ ssSp m.sigaltstack + ssSize m.sigaltstack)

/-- The checks of `SysSigaltstack`. -/
def sigaltstackCheck (m : Machine) (env : Env) : Option UInt64 :=
  if getReg m.beg rdi = 0 then none
  else if isOnStack m then some eperm
  else
    match env.altstack with
    | none => some efault
    | some ss =>
      if ssFlags ss &&& ~~~(ssOnstack ||| ssDisable ||| ssAutodisarm) ≠ 0 then some einval
      else if ssFlags ss &&& ssDisable ≠ 0 then none
      else if ssSize ss < minsigstksz then some enomem
      else if env.altstackValid then none
      else some efault

/-- `SysSigaltstack` -/
def sysSigaltstack (m : Machine) (env : Env) : Machine :=
  match sigaltstackCheck m env with
  | some e => { m with beg := putAx m.beg e }
  | none =>
    let old :=
      -- the flags the old structure is reported with stay in the machine
      if getReg m.beg rsi = 0 then m.sigaltstack
      else
        let off := ssFlags m.sigaltstack &&& ~~~ssOnstack
        ssWithFlags m.sigaltstack (if isOnStack m then off ||| ssOnstack else off)
    let sigaltstack := if getReg m.beg rdi = 0 then old else env.altstack.getD old
    { m with sigaltstack, beg := putAx m.beg 0 }

/-- `SigRestore` -/
def sigRestore (m : Machine) (env : Env) : Machine :=
  { m with
    ip := env.frame.ip, flags := env.frame.flags, beg := env.frame.beg, xmm := env.frame.xmm
    sigmask := env.frameSigmask }

/-- `SysExecve` in the window: when its strings are readable, the child is spawned and the parent
resumes, whatever the reply. -/
def sysExecve (m : Machine) (env : Env) : Machine × Option Closing :=
  if env.strings then
    (resume m (ofInt m.vforkChildPid), some (.exec env.reply))
  else ({ m with beg := putAx m.beg efault }, none)

/-- The numbers the child side may call without ending the window. -/
def safeSyscalls : List UInt64 :=
  [0x00E, 0x00D, 0x027, 0x06E, 0x06D, 0x06F, 0x070, 0x079, 0x03B, 0x03C, 0x0E7, 0x010, 0x001, 0x082,
    0x00F, 0x083, 0x080]

/-- What `OpSyscall` does with a number while the child side runs. -/
inductive Call where
  /-- A call that changes nothing but `rax`: getpid, getppid, setpgid, getpgrp, setsid, getpgid, ioctl,
  write, rt_sigsuspend (which puts the mask back), and 0x080, which is missing. -/
  | plain
  | sigprocmask
  | sigaction
  | sigreturn
  | sigaltstack
  | execve
  | exit
  /-- A call that is not safe: it starts a full fork. -/
  | full
deriving DecidableEq

/-- The safety check and the dispatch on the number in `rax`. -/
def callOf (ax : UInt64) : Call :=
  let nr := ax &&& 0xfff
  -- clock_gettime returns before the window is looked at
  if ax = 0xE4 then .plain
  else if nr ∉ safeSyscalls then .full
  else if nr = 0x00E then .sigprocmask
  else if nr = 0x00D then .sigaction
  else if nr = 0x00F then .sigreturn
  else if nr = 0x083 then .sigaltstack
  else if nr = 0x03B then .execve
  else if nr = 0x03C ∨ nr = 0x0E7 then .exit
  else .plain

/-- `OpSyscall` while the child side runs. -/
def windowSyscall (m : Machine) (env : Env) : Machine × Option Closing :=
  match callOf (getReg m.beg rax) with
  | .plain => ({ m with beg := putAx m.beg env.result }, none)
  | .sigprocmask => (sysSigprocmask m env, none)
  | .sigaction =>
    ({ m with beg := putAx m.beg env.result, system := { m.system with hands := env.hands } }, none)
  | .sigreturn => (sigRestore m env, none)
  | .sigaltstack => (sysSigaltstack m env, none)
  | .execve => sysExecve m env
  | .exit => (resume m (ofInt (-1)), some .exit)
  -- the machine is serialized for the child, and the parent resumes
  | .full => (resume m (ofInt m.vforkChildPid), some (.fallback env.reply))

/-- A step of the child side: an instruction, the delivery of a signal, or a system call. -/
inductive Event where
  | insn (cpu : Cpu)
  /-- `DeliverSignal`: a handler is entered, more signals are masked, and an alternate stack with the
  autodisarm flag loses it. -/
  | signal (ip : UInt64) (beg : Block 128) (mask : UInt64) (disarm : Bool)
  | syscall (env : Env)

/-- One step of the child side, and whether it closed the window. -/
def step (m : Machine) : Event → Machine × Option Closing
  | .insn cpu =>
    ({ m with ip := cpu.ip, flags := cpu.flags, beg := cpu.beg, xmm := cpu.xmm, seg := cpu.seg }, none)
  | .signal ip beg mask disarm =>
    ({ m with
        ip, beg, sigmask := m.sigmask ||| mask
        sigaltstack :=
          if disarm then ssWithFlags m.sigaltstack (ssFlags m.sigaltstack &&& ~~~ssAutodisarm)
          else m.sigaltstack }, none)
  | .syscall env => windowSyscall m env

/-! ### The fork -/

/-- `SysFork`: a pid is reserved and the instruction pointer and the general registers are saved.  The
call itself returns 0. -/
def sysFork (m : Machine) (nextPidCounter : Int32) : Machine × Int32 :=
  let childPid := nextPidCounter + 1
  ({ m with
      vforkExecPending := true, vforkChildPid := childPid, vforkSavedIp := m.ip
      vforkSavedRegs := m.beg }, childPid)

/-- A machine in which `SysFork` runs, with the pid counter.  The counter starts at 1, and stepping it
past the largest `int` is undefined. -/
structure ForkPoint where
  machine : Machine
  nextPidCounter : Int32
  pos : 0 < nextPidCounter
  lt : nextPidCounter < Int32.maxValue

namespace ForkPoint

/-- The pid the fork reserves. -/
def pid (p : ForkPoint) : Int32 := (sysFork p.machine p.nextPidCounter).2

/-- The machine as the child side starts in it: the fork has returned 0. -/
def childSide (p : ForkPoint) : Machine :=
  let m := (sysFork p.machine p.nextPidCounter).1
  { m with beg := putAx m.beg 0 }

theorem pid_pos (p : ForkPoint) : 0 < p.pid := by
  have hpos := Int32.lt_iff_toInt_lt.1 p.pos
  have hlt := Int32.lt_iff_toInt_lt.1 p.lt
  have hmax : Int32.maxValue.toInt = 2147483647 := by decide
  have hzero : (0 : Int32).toInt = 0 := by decide
  have hone : (1 : Int32).toInt = 1 := by decide
  rw [Int32.lt_iff_toInt_lt, hzero, pid, sysFork, Int32.toInt_add, hone]
  rw [hmax] at hlt
  rw [hzero] at hpos
  rw [Int.bmod_eq_of_le (by omega) (by omega)]
  omega

end ForkPoint

/-- The steps that leave the window open. -/
def windowStep (m : Machine) (e : Event) (m' : Machine) : Prop := step m e = (m', none)

/-- What the window keeps: the saved state, and the descriptors. -/
structure InWindow (p : ForkPoint) (m : Machine) : Prop where
  childPid : m.vforkChildPid = p.pid
  savedIp : m.vforkSavedIp = p.machine.ip
  savedRegs : m.vforkSavedRegs = p.machine.beg
  fds : m.system.fds = p.machine.system.fds

theorem inWindow_childSide (p : ForkPoint) : InWindow p p.childSide := ⟨rfl, rfl, rfl, rfl⟩

/-- Two machines with the same saved state and the same descriptors. -/
def SameSaved (m m' : Machine) : Prop :=
  m'.vforkChildPid = m.vforkChildPid ∧ m'.vforkSavedIp = m.vforkSavedIp ∧
    m'.vforkSavedRegs = m.vforkSavedRegs ∧ m'.system.fds = m.system.fds

theorem InWindow.of_sameSaved {p : ForkPoint} {m m' : Machine} (h : InWindow p m)
    (hs : SameSaved m m') : InWindow p m' :=
  ⟨hs.1.trans h.childPid, hs.2.1.trans h.savedIp, hs.2.2.1.trans h.savedRegs,
    hs.2.2.2.trans h.fds⟩

theorem sameSaved_sysSigprocmask (m : Machine) (env : Env) :
    SameSaved m (sysSigprocmask m env) := by
  unfold sysSigprocmask
  cases sigprocmaskCheck m env <;> exact ⟨rfl, rfl, rfl, rfl⟩

theorem sameSaved_sysSigaltstack (m : Machine) (env : Env) :
    SameSaved m (sysSigaltstack m env) := by
  unfold sysSigaltstack
  cases sigaltstackCheck m env <;> exact ⟨rfl, rfl, rfl, rfl⟩

theorem sameSaved_sysExecve {m m' : Machine} {env : Env} (h : sysExecve m env = (m', none)) :
    SameSaved m m' := by
  unfold sysExecve at h
  cases hs : env.strings with
  | true => simp [hs] at h
  | false =>
      rw [hs, if_neg (by decide)] at h
      cases h
      exact ⟨rfl, rfl, rfl, rfl⟩

/-- A step that leaves the window open changes nothing that is saved. -/
theorem sameSaved_of_windowStep {m m' : Machine} {e : Event} (h : windowStep m e m') :
    SameSaved m m' := by
  unfold windowStep at h
  cases e with
  | insn cpu =>
      cases h
      exact ⟨rfl, rfl, rfl, rfl⟩
  | signal ip beg mask disarm =>
      cases h
      exact ⟨rfl, rfl, rfl, rfl⟩
  | syscall env =>
      rw [step, windowSyscall] at h
      cases hc : callOf (getReg m.beg rax) with
      | plain | sigaction | sigreturn =>
          rw [hc] at h
          cases h
          exact ⟨rfl, rfl, rfl, rfl⟩
      | sigprocmask =>
          rw [hc] at h
          cases h
          exact sameSaved_sysSigprocmask m env
      | sigaltstack =>
          rw [hc] at h
          cases h
          exact sameSaved_sysSigaltstack m env
      | execve =>
          rw [hc] at h
          exact sameSaved_sysExecve h
      | exit | full =>
          rw [hc] at h
          cases h

/-- **What is saved lasts through the window.** -/
theorem inWindow_of_isRun (p : ForkPoint) {tr : List (Event × Machine)}
    (hrun : IsRun windowStep p.childSide tr) : Throughout (InWindow p) p.childSide tr :=
  throughout_of_isRun (fun _ _ _ hi hs => hi.of_sameSaved (sameSaved_of_windowStep hs))
    (inWindow_childSide p) hrun

/-- **Every way out resumes the parent the same way**, whatever the kernel replied. -/
theorem step_closed {m m' : Machine} {e : Event} {how : Closing} (h : step m e = (m', some how)) :
    m' = resume m (how.returns m.vforkChildPid) := by
  cases e with
  | insn cpu => simp [step] at h
  | signal ip beg mask disarm => simp [step] at h
  | syscall env =>
      rw [step, windowSyscall] at h
      cases hc : callOf (getReg m.beg rax) with
      | plain | sigaction | sigreturn | sigprocmask | sigaltstack =>
          rw [hc] at h
          cases h
      | execve =>
          rw [hc] at h
          cases hs : env.strings <;> simp only [sysExecve, hs] at h <;> cases h
          rfl
      | exit | full =>
          rw [hc] at h
          cases h
          rfl

/-! ### Isolation -/

/-- The parent resumes as it forked: everything is as it was but `rax`, which holds the child's pid if
there is a child, and an error if the kernel made none. -/
structure Isolated (p : ForkPoint) (m : Machine) (how : Closing) : Prop where
  ip : m.ip = p.machine.ip
  beg : m.beg = putAx p.machine.beg (getReg m.beg rax)
  seg : ∀ i, (m.seg i).base = (p.machine.seg i).base
  flags : m.flags = p.machine.flags
  xmm : m.xmm = p.machine.xmm
  sigmask : m.sigmask = p.machine.sigmask
  fds : m.system.fds = p.machine.system.fds
  sigaltstack : m.sigaltstack = p.machine.sigaltstack
  child : ∀ pid, how.child p.pid = some pid → getReg m.beg rax = ofInt pid
  refused : how.child p.pid = none → (getReg m.beg rax).toInt64 < 0

/-- The components that a fork does not save are what they were at the fork. -/
structure Untouched (p : ForkPoint) (m : Machine) : Prop where
  seg : ∀ i, (m.seg i).base = (p.machine.seg i).base
  flags : m.flags = p.machine.flags
  xmm : m.xmm = p.machine.xmm
  sigmask : m.sigmask = p.machine.sigmask
  sigaltstack : m.sigaltstack = p.machine.sigaltstack

/-- The window closed in a way that makes the reserved pid the right answer. -/
def Closing.Honest (pid : Int32) : Closing → Prop
  | exec reply => 0 ≤ reply
  | fallback reply => reply = pid
  | exit => False

theorem ofInt_injective {x y : Int32} (h : ofInt x = ofInt y) : x = y := by
  have h64 : x.toInt64 = y.toInt64 := congrArg UInt64.toInt64 h
  rw [← Int32.toInt_inj, ← Int32.toInt_toInt64, h64, Int32.toInt_toInt64]

theorem not_ofInt_neg {x : Int32} (h : 0 < x) : ¬ (ofInt x).toInt64 < 0 := by
  have h0 := Int32.lt_iff_toInt_lt.1 h
  have hzero : (0 : Int32).toInt = 0 := by decide
  have hzero' : (0 : Int64).toInt = 0 := by decide
  have hval : (ofInt x).toInt64 = x.toInt64 := rfl
  rw [Int64.lt_iff_toInt_lt, hval, Int32.toInt_toInt64, hzero']
  omega

/-- Returning the reserved pid, or -1 after an exit, is right exactly in the honest cases. -/
theorem returns_iff (p : ForkPoint) (how : Closing) :
    ((∀ pid, how.child p.pid = some pid → how.returns p.pid = ofInt pid) ∧
        (how.child p.pid = none → (how.returns p.pid).toInt64 < 0)) ↔ how.Honest p.pid := by
  have hpos := p.pid_pos
  have hneg := not_ofInt_neg hpos
  cases how with
  | exec reply =>
      by_cases h : 0 ≤ reply <;> simp [Closing.child, Closing.returns, Closing.Honest, h, hneg]
  | fallback reply =>
      by_cases h : 0 ≤ reply
      · simp only [Closing.child, Closing.returns, Closing.Honest, if_pos h, Option.some.injEq,
          reduceCtorEq, false_implies, and_true, forall_eq']
        exact ⟨fun he => (ofInt_injective he).symm, fun he => by rw [he]⟩
      · have hne : reply ≠ p.pid := fun he => h (he ▸ Int32.le_of_lt hpos)
        simp [Closing.child, Closing.returns, Closing.Honest, h, hneg, hne]
  | exit =>
      have hne : ofInt (-1) ≠ ofInt p.pid := fun he =>
        absurd (ofInt_injective he ▸ hpos) (by decide)
      simp [Closing.child, Closing.returns, Closing.Honest, hne]

/-- **When the parent is isolated.**  For every run of the child side and every step that ends it: the
parent resumes as it forked exactly when the run has left alone what the fork does not save, and the
window closed by a spawn the kernel accepted, under the reserved pid. -/
theorem isolated_iff (p : ForkPoint) (tr : List (Event × Machine)) (e : Event) (m : Machine)
    (how : Closing) (hrun : IsRun windowStep p.childSide tr)
    (hclose : step (final p.childSide tr) e = (m, some how)) :
    Isolated p m how ↔ Untouched p (final p.childSide tr) ∧ how.Honest p.pid := by
  have hwin := (inWindow_of_isRun p hrun).final
  have hm := step_closed hclose
  rw [hwin.childPid] at hm
  rw [← returns_iff]
  subst hm
  constructor
  · intro h
    have hchild := h.child
    have hrefused := h.refused
    rw [resume, getReg_putAx] at hchild hrefused
    exact ⟨⟨h.seg, h.flags, h.xmm, h.sigmask, h.sigaltstack⟩, hchild, hrefused⟩
  · rintro ⟨h, hchild, hrefused⟩
    refine ⟨hwin.savedIp, ?_, h.seg, h.flags, h.xmm, h.sigmask, hwin.fds, h.sigaltstack, ?_, ?_⟩
    · rw [resume, getReg_putAx, hwin.savedRegs]
    · rw [resume, getReg_putAx]
      exact hchild
    · rw [resume, getReg_putAx]
      exact hrefused

/-! ### Two windows -/

/-- The run of the child side through a list of events. -/
def trace (m : Machine) : List Event → List (Event × Machine)
  | [] => []
  | e :: es => (e, (step m e).1) :: trace (step m e).1 es

/-- A fork of the first process, by a machine that is all zeros. -/
def firstFork : ForkPoint := ⟨default, 1, by decide, by decide⟩

/-- An instruction that loads the number and three arguments of a system call. -/
def loadCall (nr di si r10 : UInt64) : Event :=
  .insn
    { (default : Cpu) with
      beg :=
        ⟨Codec.u64.enc nr ++ List.replicate 40 0 ++ Codec.u64.enc si ++ Codec.u64.enc di ++
            List.replicate 16 0 ++ Codec.u64.enc r10 ++ List.replicate 40 0, by simp⟩ }

/-- `execve` with strings that can be read, accepted by the kernel under the reserved pid. -/
def execveAccepted : Event := .syscall { (default : Env) with strings := true, reply := 2 }

/-- The window of a fork that is followed by nothing but `execve`. -/
def plainWindow : List (Event × Machine) := trace firstFork.childSide [loadCall 0x3B 0 0 0]

/-- The parent of a plain fork and exec is isolated. -/
theorem isolated_plainWindow :
    IsRun windowStep firstFork.childSide plainWindow ∧
      Isolated firstFork (step (final firstFork.childSide plainWindow) execveAccepted).1 (.exec 2) := by
  have hrun : IsRun windowStep firstFork.childSide plainWindow := ⟨rfl, trivial⟩
  have hhow : (step (final firstFork.childSide plainWindow) execveAccepted).2 = some (.exec 2) := by
    decide
  refine ⟨hrun, (isolated_iff firstFork plainWindow execveAccepted _ (.exec 2) hrun
    (Prod.ext rfl hhow)).2 ⟨⟨fun _ => rfl, rfl, rfl, rfl, rfl⟩, ?_⟩⟩
  exact (by decide : (0 : Int32) ≤ 2)

/-- The window of a child that blocks every signal before it calls `execve`. -/
def maskingWindow : List (Event × Machine) :=
  trace firstFork.childSide
    [loadCall 0x0E 2 0x1000 8, .syscall { (default : Env) with set := some 0xFFFFFFFFFFFFFFFF },
      loadCall 0x3B 0 0 0]

/-- A child that blocks its signals before it calls `execve` blocks those of its parent. -/
theorem not_isolated_maskingWindow :
    IsRun windowStep firstFork.childSide maskingWindow ∧
      (step (final firstFork.childSide maskingWindow) execveAccepted).2 = some (.exec 2) ∧
      (step (final firstFork.childSide maskingWindow) execveAccepted).1.sigmask =
        0xFFFFFFFFFFFFFFFF ∧
      firstFork.machine.sigmask = 0 ∧
      ¬ Isolated firstFork (step (final firstFork.childSide maskingWindow) execveAccepted).1
          (.exec 2) := by
  have hmask : (step (final firstFork.childSide maskingWindow) execveAccepted).1.sigmask =
      0xFFFFFFFFFFFFFFFF := by decide
  have hparent : firstFork.machine.sigmask = 0 := by decide
  have hopen : (step (step firstFork.childSide (loadCall 0x0E 2 0x1000 8)).1
      (.syscall { (default : Env) with set := some 0xFFFFFFFFFFFFFFFF })).2 = none := by decide
  refine ⟨⟨rfl, Prod.ext rfl hopen, rfl, trivial⟩, by decide, hmask, hparent, fun h => ?_⟩
  have hkept := h.sigmask
  rw [hmask, hparent] at hkept
  exact absurd hkept (by decide)

end Vfork
