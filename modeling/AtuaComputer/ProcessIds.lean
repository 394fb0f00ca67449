/-
**The numbers of processes.**

Three counters hand out the numbers of processes: one in each instance of Blink, which starts again in every
child, the kernel's, and the bridge's.  A fork that is followed by an exec takes its number from Blink's
counter; the fallback to a full fork takes it from the bridge, or from the kernel where there is no bridge.
All numbers are keys of one table of the kernel, and nothing looks whether a number is in use.

Main definitions:

* `ProcessIds.State`, `ProcessIds.after` — the kernel, the instances of Blink, and the exits;
* `ProcessIds.UniquePid` — a creation hands out a new number, or fails and changes nothing;
* `ProcessIds.Usable`, `ProcessIds.Unused` — the condition on a number, and on an event.

Main results:

* `ProcessIds.created_iff` — one creation is sound exactly when its number is usable;
* `ProcessIds.uniquePid_iff_unused` — every creation of a run is sound **if and only if** all its events meet
  the condition.
-/

import AtuaComputer.FdAlloc

set_option relaxedAutoImplicit false
set_option autoImplicit false

namespace ProcessIds

open Kernel Bridge Runs

/-! ### State -/

/-- What an instance of Blink has for its forks: the counter, and the number of the child whose code it runs
until the child's exec. -/
structure Blink where
  nextPidCounter : Int32
  vforkChild : Option Int32

/-- `int nextPidCounter = 1` -/
def newBlink : Blink := ⟨1, none⟩

/-- The kernel with the maps of its waits, the instances of Blink, and the messages `register-worker` that
the main thread has sent.  A process has control words once its worker is registered.  An exit is unreaped
until a wait has got it. -/
structure State where
  kernel : Kernel.State
  hasControl : ℤ → Bool
  exitCodes : JsMap ℤ Int32
  pendingWaits : JsMap ℤ ℤ
  unreaped : ℤ → Bool
  blinks : ℤ → Blink
  registrations : List ℤ

/-! ### Steps -/

/-- `++nextPidCounter` of `SysFork`.  In the child's code a second fork takes the fallback. -/
def sysFork (s : State) (pid : ℤ) : State :=
  let blink := s.blinks pid
  match blink.vforkChild with
  | some _ => s
  | none =>
    let childPid := blink.nextPidCounter + 1
    { s with blinks := Function.update s.blinks pid ⟨childPid, some childPid⟩ }

/-- The parent goes on after a fork.  The main thread registers the worker that a fork has asked for, under
`childPid || parentPid + 1`. -/
def spawned (s : State) (pid : ℤ) (o : Outcome) : State :=
  let s := { s with
    kernel := o.kernel
    blinks := Function.update s.blinks pid { s.blinks pid with vforkChild := none } }
  match o.posts with
  | [.forkRequest parentPid childPid _ _] =>
    { s with
      hasControl := Function.update s.hasControl childPid false
      registrations := s.registrations ++ [if childPid ≠ 0 then childPid else parentPid + 1] }
  | _ => s

/-- The next message `register-worker`. -/
def register (s : State) : State :=
  match s.registrations with
  | [] => s
  | msgPid :: rest =>
    let pid := (registerPid s.kernel msgPid).2
    { s with
      kernel := registerWorker s.kernel msgPid
      hasControl := Function.update s.hasControl pid true
      blinks := Function.update s.blinks pid newBlink
      registrations := rest }

/-- The message `worker-exit`: a parked wait for this process, or one of process 1, gets the exit. -/
def workerExit (s : State) (exitPid : ℤ) (exitCode : Int32) : State :=
  let waiter := (s.pendingWaits.get? exitPid).orElse fun _ => s.pendingWaits.get? 1
  let s := { s with
    kernel := removeProc s.kernel exitPid
    hasControl := Function.update s.hasControl exitPid false
    exitCodes := s.exitCodes.set exitPid exitCode }
  match waiter with
  | some _ =>
    { s with
      pendingWaits := (s.pendingWaits.delete exitPid).delete 1
      unreaped := Function.update s.unreaped exitPid false }
  | none => { s with unreaped := Function.update s.unreaped exitPid true }

/-- `SYS_PROC_WAIT` -/
def procWait (s : State) (pid : ℤ) (a : Int32) : State :=
  if s.kernel.processTable.has pid then
    if 0 < a.toInt ∧ s.exitCodes.has a.toInt then
      { s with
        exitCodes := s.exitCodes.delete a.toInt
        unreaped := Function.update s.unreaped a.toInt false }
    else
      { s with pendingWaits := s.pendingWaits.set (if a.toInt ≠ 0 then a.toInt else pid) pid }
  else s

/-- What happens: Blink forks, and calls the kernel for an exec in the child's code or for another syscall
there; other syscalls, waits, and messages. -/
inductive Event where
  | sysFork (pid : ℤ)
  | sysExecve (pid : ℤ)
  | fallback (pid : ℤ) (fate : Fate)
  | call (pid : ℤ) (call : Call) (fate : Fate)
  | procWait (pid : ℤ) (a : Int32)
  | register
  | registerMemory (pid : ℤ)
  | workerExit (pid : ℤ) (code : Int32)

/-- What the kernel does for an event that creates a process. -/
def forkOutcome (s : State) : Event → Option Outcome
  | .sysExecve pid =>
    (s.blinks pid).vforkChild.map fun childPid =>
      handleSyscall s.kernel pid (.forkExecSpawn childPid) .answered
  | .fallback pid fate =>
    (s.blinks pid).vforkChild.map fun _ => handleSyscall s.kernel pid .forkSpawn fate
  | _ => none

/-- The state after an event. -/
def after (s : State) (ev : Event) : State :=
  match ev with
  | .sysFork pid => sysFork s pid
  | .sysExecve pid | .fallback pid _ =>
    match forkOutcome s ev with
    | some o => spawned s pid o
    | none => s
  | .call pid call fate =>
    match call with
    | .forkSpawn | .forkExecSpawn _ => s
    | _ => { s with kernel := (handleSyscall s.kernel pid call fate).kernel }
  | .procWait pid a => procWait s pid a
  | .register => register s
  | .registerMemory pid => { s with kernel := registerMemory s.kernel pid }
  | .workerExit pid code => workerExit s pid code

/-- The step relation. -/
def Step (s : State) (ev : Event) (s' : State) : Prop := s' = after s ev

/-- The kernel after `init`, with the message for process 1 on its way. -/
structure Starts (s : State) : Prop where
  kernel : Kernel.Starts s.kernel
  hasControl : ∀ pid, s.hasControl pid = false
  exitCodes : ∀ pid, s.exitCodes.get? pid = none
  pendingWaits : ∀ pid, s.pendingWaits.get? pid = none
  unreaped : ∀ pid, s.unreaped pid = false
  registrations : s.registrations = [1]

/-! ### The property -/

/-- A new process: its number is positive, no process has it, no exit of that number waits for its parent, and
no other process changes. -/
structure Created (s : State) (pid : ℤ) (s' : State) : Prop where
  positive : 0 < pid
  unused : s.kernel.processTable.get? pid = none
  reaped : s.unreaped pid = false
  made : s'.kernel.processTable.get? pid ≠ none
  kept : ∀ q, q ≠ pid → s'.kernel.processTable.get? q = s.kernel.processTable.get? q

/-- A registered worker: its process is new, or was prepared by a fork and has no worker yet. -/
structure Registered (s : State) (pid : ℤ) (s' : State) : Prop where
  positive : 0 < pid
  own : s.hasControl pid = false
  reaped : s.kernel.processTable.get? pid = none → s.unreaped pid = false
  kept : ∀ q, q ≠ pid → s'.kernel.processTable.get? q = s.kernel.processTable.get? q

/-- The bridge did not answer the request of a fork, or answered with an error. -/
def Lost (s : State) : Event → Prop
  | .fallback _ fate => ∃ b, s.kernel.bridge = some b ∧ (callBridge b .fork fate).2.err ≠ 0
  | _ => False

/-- A creation whose request to the bridge was lost fails and changes no process; any other one that succeeds
creates a new process.  A registration takes nobody's place. -/
structure UniquePid (s : State) (ev : Event) (s' : State) : Prop where
  lost : ∀ o, forkOutcome s ev = some o → Lost s ev →
    FdAlloc.returned o < 0 ∧ ∀ q, s'.kernel.processTable.get? q = s.kernel.processTable.get? q
  created : ∀ o, forkOutcome s ev = some o → ¬ Lost s ev → 0 ≤ FdAlloc.returned o →
    Created s (FdAlloc.returned o) s'
  registered : ∀ msgPid rest, ev = .register → s.registrations = msgPid :: rest →
    Registered s (registerPid s.kernel msgPid).2 s'

/-! ### The condition -/

/-- A number that reaches the caller as an error, or as itself while nobody has it. -/
def Usable (s : State) (n : ℤ) : Prop :=
  (Int32.ofInt n).toInt < 0 ∨
    (0 < n ∧ n < 2 ^ 31 ∧ s.kernel.processTable.has n = false ∧ s.unreaped n = false)

/-- The counter that the event takes its number from has a usable number, and the bridge answers. -/
def Unused (s : State) : Event → Prop
  | .sysExecve pid =>
    ∀ childPid p, (s.blinks pid).vforkChild = some childPid → s.kernel.processTable.get? pid = some p →
      p.wasmMemory = true → Usable s childPid.toInt
  | .fallback pid fate =>
    ∀ childPid p, (s.blinks pid).vforkChild = some childPid → s.kernel.processTable.get? pid = some p →
      p.wasmMemory = true →
      match s.kernel.bridge with
      | none => Usable s s.kernel.nextPid
      | some b => b.alive = true ∧ fate = .answered ∧ Usable s b.nextPid.toInt
  | .register =>
    ∀ msgPid rest, s.registrations = msgPid :: rest →
      let pid := (registerPid s.kernel msgPid).2
      0 < pid ∧ s.hasControl pid = false ∧ (s.kernel.processTable.has pid = false → s.unreaped pid = false)
  | _ => True

/-! ### One creation -/

@[simp] theorem kernel_spawned (s : State) (pid : ℤ) (o : Outcome) : (spawned s pid o).kernel = o.kernel := by
  unfold spawned
  dsimp only
  split <;> rfl

/-- **One creation is sound exactly when its number is usable.** -/
theorem created_iff {s s' : State} {n : ℤ} {p : Proc}
    (hset : s'.kernel.processTable = s.kernel.processTable.set n p) :
    (0 ≤ (Int32.ofInt n).toInt → Created s (Int32.ofInt n).toInt s') ↔ Usable s n := by
  constructor
  · intro h
    by_cases hneg : (Int32.ofInt n).toInt < 0
    · exact .inl hneg
    · have hc := h (by omega)
      have hsame : (Int32.ofInt n).toInt = n := by
        by_contra hne
        -- the number that came back is nobody's
        have hmade := hc.made
        rw [hset, JsMap.get?_set_ne hne] at hmade
        exact hmade hc.unused
      have hlt := (Int32.ofInt n).toInt_lt
      rw [hsame] at hc hlt
      exact .inr ⟨hc.positive, hlt, JsMap.has_eq_false_iff.2 hc.unused, hc.reaped⟩
  · rintro (hneg | ⟨hpos, hlt, hfree, hreaped⟩) hr
    · omega
    · have hsame : (Int32.ofInt n).toInt = n := by
        rw [Int32.toInt_ofInt, Int.bmod_eq_of_le (by unfold Int32.size; omega) (by unfold Int32.size; omega)]
      rw [hsame]
      refine ⟨hpos, JsMap.has_eq_false_iff.1 hfree, hreaped, ?_, fun q hq => ?_⟩
      · rw [hset, JsMap.get?_set_self]
        exact Option.some_ne_none _
      · rw [hset, JsMap.get?_set_ne hq]

/-- A creation that throws, or whose caller the kernel does not know, fails. -/
theorem returned_neg_one (o : Outcome) (h : o.result = -1) : FdAlloc.returned o < 0 := by
  rw [FdAlloc.returned, h]
  decide

/-- The reply to the request of a fork that is lost. -/
theorem callBridge_of_lost {b : Bridge.State} {fate : Fate} (h : ¬ (b.alive = true ∧ fate = .answered)) :
    (callBridge b .fork fate).2 = timedOut := by
  unfold callBridge
  by_cases hex : Executes b fate
  · have hnot : ¬ ((fork b).1.alive = true ∧ fate = .answered) := h
    rw [if_pos hex]
    exact if_neg hnot
  · rw [if_neg hex]

/-- The reply to the request of a fork that is answered. -/
theorem fork_val {b : Bridge.State} (ha : b.alive = true) : (callBridge b .fork .answered).2.val = b.nextPid := by
  unfold callBridge Executes
  simp [serve, fork, ha]

/-- When the bridge answers the request of a fork. -/
theorem fork_err_iff (b : Bridge.State) (fate : Fate) :
    (callBridge b .fork fate).2.err ≠ 0 ↔ ¬ (b.alive = true ∧ fate = .answered) := by
  by_cases h : b.alive = true ∧ fate = .answered
  · obtain ⟨ha, rfl⟩ := h
    simp [callBridge, Executes, serve, fork, ha]
  · rw [callBridge_of_lost h]
    exact iff_of_true (by decide) h

theorem uniquePid_of_none {s : State} {ev : Event} (s' : State) (ho : forkOutcome s ev = none)
    (hreg : ev ≠ .register) : UniquePid s ev s' where
  lost o h := by
    rw [ho] at h
    cases h
  created o h := by
    rw [ho] at h
    cases h
  registered _ _ h := absurd h hreg

/-- A creation whose outcome is a failure. -/
theorem uniquePid_of_failed {s s' : State} {ev : Event} {o : Outcome} (ho : forkOutcome s ev = some o)
    (hreg : ev ≠ .register) (hres : o.result = -1)
    (hkept : ∀ q, s'.kernel.processTable.get? q = s.kernel.processTable.get? q) : UniquePid s ev s' where
  lost o' h _ := by
    obtain rfl : o = o' := by rwa [ho, Option.some_inj] at h
    exact ⟨returned_neg_one o hres, hkept⟩
  created o' h _ hr := by
    obtain rfl : o = o' := by rwa [ho, Option.some_inj] at h
    have hneg := returned_neg_one o hres
    omega
  registered _ _ h := absurd h hreg

/-- A creation whose outcome is a number. -/
theorem uniquePid_iff_of_put {s s' : State} {ev : Event} {o : Outcome} {n : ℤ} {p : Proc}
    (ho : forkOutcome s ev = some o) (hreg : ev ≠ .register) (hres : o.result = n)
    (hset : s'.kernel.processTable = s.kernel.processTable.set n p) (hlost : ¬ Lost s ev) :
    UniquePid s ev s' ↔ Usable s n := by
  rw [← created_iff hset, ← hres]
  constructor
  · intro h
    exact h.created o ho hlost
  · intro h
    refine ⟨fun _ _ hl => absurd hl hlost, fun o' ho' _ hr => ?_, fun _ _ he => absurd he hreg⟩
    obtain rfl : o = o' := by rwa [ho, Option.some_inj] at ho'
    exact h hr

/-! ### The two forks of the kernel -/

/-- The process that calls, if it can fork: the kernel knows it and its memory. -/
def caller (k : Kernel.State) (pid : ℤ) : Option Proc :=
  (k.processTable.get? pid).filter Proc.wasmMemory

theorem caller_eq_some_iff {k : Kernel.State} {pid : ℤ} {p : Proc} :
    caller k pid = some p ↔ k.processTable.get? pid = some p ∧ p.wasmMemory = true := by
  rw [caller, Option.filter_eq_some_iff]

theorem forkExecSpawn_of_none {k : Kernel.State} {pid : ℤ} (h : caller k pid = none) (a : Int32) (fate : Fate) :
    (handleSyscall k pid (.forkExecSpawn a) fate).result = -1 ∧
      (handleSyscall k pid (.forkExecSpawn a) fate).kernel.processTable = k.processTable := by
  unfold handleSyscall
  cases hp : k.processTable.get? pid with
  | none => exact ⟨rfl, rfl⟩
  | some p =>
    have hmem : p.wasmMemory = false := by
      by_contra hne
      rw [caller, hp, Option.filter_some, if_pos (by simpa using hne)] at h
      cases h
    simp only [sysForkExecSpawn, hmem]
    refine ⟨rfl, ?_⟩
    show (if k.nextPid ≤ a.toInt then { k with nextPid := a.toInt + 1 } else k).processTable = k.processTable
    split_ifs <;> rfl

theorem forkExecSpawn_of_some {k : Kernel.State} {pid : ℤ} {p : Proc} (h : caller k pid = some p) (a : Int32)
    (fate : Fate) :
    (handleSyscall k pid (.forkExecSpawn a) fate).result = a.toInt ∧
      (handleSyscall k pid (.forkExecSpawn a) fate).kernel.processTable =
        k.processTable.set a.toInt { p with wasmMemory := false } := by
  obtain ⟨hp, hmem⟩ := caller_eq_some_iff.1 h
  unfold handleSyscall
  rw [hp]
  simp only [sysForkExecSpawn, hmem, if_true]
  refine ⟨trivial, ?_⟩
  show (if k.nextPid ≤ a.toInt then { k with nextPid := a.toInt + 1 } else k).processTable.set _ _ = _
  split_ifs <;> rfl

/-- The number of the child of a full fork. -/
def spawnPid (k : Kernel.State) (fate : Fate) : ℤ :=
  match k.bridge with
  | none => k.nextPid
  | some b => (callBridge b .fork fate).2.val.toInt

theorem forkSpawn_of_none {k : Kernel.State} {pid : ℤ} (h : caller k pid = none) (fate : Fate) :
    (handleSyscall k pid .forkSpawn fate).result = -1 ∧
      (handleSyscall k pid .forkSpawn fate).kernel.processTable = k.processTable := by
  unfold handleSyscall
  cases hp : k.processTable.get? pid with
  | none => exact ⟨rfl, rfl⟩
  | some p =>
    have hmem : p.wasmMemory = false := by
      by_contra hne
      rw [caller, hp, Option.filter_some, if_pos (by simpa using hne)] at h
      cases h
    cases hb : k.bridge with
    | none => simp [sysForkSpawn, hmem, request, hb]
    | some b => simp [sysForkSpawn, hmem, request, hb]

theorem forkSpawn_of_some {k : Kernel.State} {pid : ℤ} {p : Proc} (h : caller k pid = some p) (fate : Fate) :
    (handleSyscall k pid .forkSpawn fate).result = spawnPid k fate ∧
      (handleSyscall k pid .forkSpawn fate).kernel.processTable =
        k.processTable.set (spawnPid k fate) { p with wasmMemory := false } := by
  obtain ⟨hp, hmem⟩ := caller_eq_some_iff.1 h
  unfold handleSyscall
  rw [hp]
  simp only [sysForkSpawn, hmem, if_true, request, spawnPid]
  cases k.bridge with
  | none => exact ⟨rfl, rfl⟩
  | some b => exact ⟨rfl, rfl⟩

/-! ### One event -/

theorem sysExecve_iff (s : State) (pid : ℤ) :
    UniquePid s (.sysExecve pid) (after s (.sysExecve pid)) ↔ Unused s (.sysExecve pid) := by
  have hreg : Event.sysExecve pid ≠ .register := fun h => by cases h
  cases hchild : (s.blinks pid).vforkChild with
  | none =>
    have ho : forkOutcome s (.sysExecve pid) = none := by rw [forkOutcome, hchild]; rfl
    refine iff_of_true (uniquePid_of_none _ ho hreg) fun c p hc => ?_
    rw [hchild] at hc
    cases hc
  | some childPid =>
    have ho : forkOutcome s (.sysExecve pid) =
        some (handleSyscall s.kernel pid (.forkExecSpawn childPid) .answered) := by
      rw [forkOutcome, hchild]
      rfl
    have hafter : (after s (.sysExecve pid)).kernel =
        (handleSyscall s.kernel pid (.forkExecSpawn childPid) .answered).kernel := by
      simp only [after, ho, kernel_spawned]
    cases hcaller : caller s.kernel pid with
    | none =>
      obtain ⟨hres, htab⟩ := forkExecSpawn_of_none hcaller childPid .answered
      refine iff_of_true (uniquePid_of_failed ho hreg hres fun q => by rw [hafter, htab]) ?_
      intro c p _ hp hmem
      rw [caller_eq_some_iff.2 ⟨hp, hmem⟩] at hcaller
      cases hcaller
    | some p =>
      obtain ⟨hres, htab⟩ := forkExecSpawn_of_some hcaller childPid .answered
      obtain ⟨hp, hmem⟩ := caller_eq_some_iff.1 hcaller
      rw [uniquePid_iff_of_put ho hreg hres (by rw [hafter, htab]) id]
      constructor
      · intro h c p' hc _ _
        obtain rfl : childPid = c := by rwa [hchild, Option.some_inj] at hc
        exact h
      · intro h
        exact h childPid p hchild hp hmem

theorem fallback_iff (s : State) (pid : ℤ) (fate : Fate) :
    UniquePid s (.fallback pid fate) (after s (.fallback pid fate)) ↔ Unused s (.fallback pid fate) := by
  have hreg : Event.fallback pid fate ≠ .register := fun h => by cases h
  cases hchild : (s.blinks pid).vforkChild with
  | none =>
    have ho : forkOutcome s (.fallback pid fate) = none := by rw [forkOutcome, hchild]; rfl
    refine iff_of_true (uniquePid_of_none _ ho hreg) fun c p hc => ?_
    rw [hchild] at hc
    cases hc
  | some childPid =>
    have ho : forkOutcome s (.fallback pid fate) = some (handleSyscall s.kernel pid .forkSpawn fate) := by
      rw [forkOutcome, hchild]
      rfl
    have hafter : (after s (.fallback pid fate)).kernel = (handleSyscall s.kernel pid .forkSpawn fate).kernel := by
      simp only [after, ho, kernel_spawned]
    cases hcaller : caller s.kernel pid with
    | none =>
      obtain ⟨hres, htab⟩ := forkSpawn_of_none hcaller fate
      refine iff_of_true (uniquePid_of_failed ho hreg hres fun q => by rw [hafter, htab]) ?_
      intro c p _ hp hmem
      rw [caller_eq_some_iff.2 ⟨hp, hmem⟩] at hcaller
      cases hcaller
    | some p =>
      obtain ⟨hres, htab⟩ := forkSpawn_of_some hcaller fate
      obtain ⟨hp, hmem⟩ := caller_eq_some_iff.1 hcaller
      have hset : (after s (.fallback pid fate)).kernel.processTable =
          s.kernel.processTable.set (spawnPid s.kernel fate) { p with wasmMemory := false } := by
        rw [hafter, htab]
      -- without a bridge the kernel counts; with one the bridge does, if it answers
      cases hb : s.kernel.bridge with
      | none =>
        have hlost : ¬ Lost s (.fallback pid fate) := by
          rintro ⟨b, hb', -⟩
          rw [hb] at hb'
          cases hb'
        have hpid : spawnPid s.kernel fate = s.kernel.nextPid := by rw [spawnPid, hb]
        rw [uniquePid_iff_of_put ho hreg hres hset hlost, hpid]
        constructor
        · intro h c p' _ _ _
          rw [hb]
          exact h
        · intro h
          have husable := h childPid p hchild hp hmem
          rwa [hb] at husable
      | some b =>
        have hpid : spawnPid s.kernel fate = (callBridge b .fork fate).2.val.toInt := by rw [spawnPid, hb]
        have hlost : Lost s (.fallback pid fate) ↔ ¬ (b.alive = true ∧ fate = .answered) := by
          rw [← fork_err_iff]
          constructor
          · rintro ⟨b', hb', herr⟩
            obtain rfl : b = b' := by rwa [hb, Option.some_inj] at hb'
            exact herr
          · exact fun herr => ⟨b, hb, herr⟩
        have hunused : Unused s (.fallback pid fate) ↔
            b.alive = true ∧ fate = .answered ∧ Usable s b.nextPid.toInt := by
          constructor
          · intro h
            have husable := h childPid p hchild hp hmem
            rwa [hb] at husable
          · intro h c p' _ _ _
            rw [hb]
            exact h
        rw [hunused]
        by_cases hanswered : b.alive = true ∧ fate = .answered
        · obtain ⟨ha, rfl⟩ := hanswered
          rw [uniquePid_iff_of_put ho hreg hres hset (fun hl => hlost.1 hl ⟨ha, rfl⟩), hpid, fork_val ha]
          exact ⟨fun h => ⟨ha, rfl, h⟩, fun h => h.2.2⟩
        · -- the reply of a timeout is the number 0
          refine iff_of_false (fun h => ?_) (fun h => hanswered ⟨h.1, h.2.1⟩)
          have hneg := (h.lost _ ho (hlost.2 hanswered)).1
          rw [FdAlloc.returned, hres, hpid, callBridge_of_lost hanswered] at hneg
          exact absurd hneg (by decide)

/-- A registration changes only the process that it is about. -/
theorem get?_registerWorker (k : Kernel.State) (msgPid q : ℤ) (hq : q ≠ (registerPid k msgPid).2) :
    (registerWorker k msgPid).processTable.get? q = k.processTable.get? q := by
  have htab : (registerPid k msgPid).1.processTable = k.processTable := by
    unfold registerPid
    dsimp only
    split_ifs <;> rfl
  have hproc : ∀ (k₁ : Kernel.State) (n : ℤ), q ≠ n →
      (registerProc k₁ n).processTable.get? q = k₁.processTable.get? q := by
    intro k₁ n hn
    unfold registerProc
    split
    · exact JsMap.get?_set_ne hn
    · exact JsMap.get?_set_ne hn
  rw [← htab]
  exact hproc _ _ hq

theorem register_iff (s : State) : UniquePid s .register (after s .register) ↔ Unused s .register := by
  constructor
  · intro h msgPid rest hrest
    obtain ⟨hpos, hown, hreaped, -⟩ := h.registered msgPid rest rfl hrest
    exact ⟨hpos, hown, fun hno => hreaped (JsMap.has_eq_false_iff.1 hno)⟩
  · intro h
    refine ⟨?_, ?_, ?_⟩
    · intro o ho
      cases ho
    · intro o ho
      cases ho
    intro msgPid rest _ hrest
    obtain ⟨hpos, hown, hreaped⟩ := h msgPid rest hrest
    refine ⟨hpos, hown, fun hno => hreaped (JsMap.has_eq_false_iff.2 hno), fun q hq => ?_⟩
    have hafter : (after s .register).kernel = registerWorker s.kernel msgPid := by
      simp only [after, register, hrest]
    rw [hafter, get?_registerWorker _ _ _ hq]

/-- **One event** is sound exactly when it meets the condition. -/
theorem uniquePid_after_iff (s : State) (ev : Event) : UniquePid s ev (after s ev) ↔ Unused s ev := by
  cases ev with
  | sysExecve pid => exact sysExecve_iff s pid
  | fallback pid fate => exact fallback_iff s pid fate
  | register => exact register_iff s
  | sysFork pid => exact iff_of_true (uniquePid_of_none _ rfl (fun h => by cases h)) trivial
  | call pid call fate => exact iff_of_true (uniquePid_of_none _ rfl (fun h => by cases h)) trivial
  | procWait pid a => exact iff_of_true (uniquePid_of_none _ rfl (fun h => by cases h)) trivial
  | registerMemory pid => exact iff_of_true (uniquePid_of_none _ rfl (fun h => by cases h)) trivial
  | workerExit pid code => exact iff_of_true (uniquePid_of_none _ rfl (fun h => by cases h)) trivial

/-! ### Runs -/

/-- **The numbers of processes.**  Every creation of a run hands out a new number, or fails and changes no
process, exactly when every counter that is used has a usable number and the bridge answers. -/
theorem uniquePid_iff_unused {s : State} {tr : List (Event × State)} (hrun : IsRun Step s tr) :
    EachStep UniquePid s tr ↔ Meets Unused s tr := by
  refine eachStep_iff_meets (I := fun _ => True) (fun _ _ _ _ _ => trivial) ?_ trivial hrun
  rintro s ev s' - rfl
  exact uniquePid_after_iff s ev

/-- The kernel with a bridge before process 1 is registered. -/
def booted : State where
  kernel := bootedWithBridge
  hasControl _ := false
  exitCodes := JsMap.empty
  pendingWaits := JsMap.empty
  unreaped _ := false
  blinks _ := newBlink
  registrations := [1]

theorem starts_booted : Starts booted :=
  ⟨starts_bootedWithBridge, fun _ => rfl, fun _ => rfl, fun _ => rfl, fun _ => rfl, rfl⟩

/-- Process 1 starts a program as process 2, and that one starts another. -/
def grandchild : List Event :=
  [.register, .registerMemory 1, .sysFork 1, .sysExecve 1, .register, .registerMemory 2, .sysFork 2, .sysExecve 2]

theorem uniquePid_iff_unused_grandchild :
    EachStep UniquePid booted (trace after booted grandchild) ↔ Meets Unused booted (trace after booted grandchild) :=
  uniquePid_iff_unused (isRun_trace _ _ _)

/-- The second counter starts at 1, too: the grandchild is process 2 again, in the place of its parent. -/
theorem not_uniquePid_grandchild :
    Starts booted ∧ IsRun Step booted (trace after booted grandchild) ∧
      ¬ EachStep UniquePid booted (trace after booted grandchild) := by
  refine ⟨starts_booted, isRun_trace _ _ _, ?_⟩
  rintro ⟨-, -, -, -, -, -, -, hlast, -⟩
  have hc := hlast.created _ rfl id (by decide)
  exact absurd hc.unused (by decide)

end ProcessIds
