/-
**The exits of children and the waits for them.**

The kernel keeps the exit codes of processes and the waits that are pending in two maps.  A wait for a process whose
exit is stored takes it; any other is entered under the number it asks for, or under the caller's own number if it
asks for any child, and an exit looks for a waiter under the number of the process and then under 1.  The loop clears
the flag of a pending wait all the same, so that it returns with whatever its last syscall returned.

The status is encoded twice: the kernel stores the exit code shifted by 8 bits, and `SysWait4` shifts the low byte of
that by 8 bits again, which is always zero.

Main definitions:

* `WaitDelivery.World` — the kernel, the waits that have not returned, and the exits that no wait was given;
* `WaitDelivery.Lawful` — every exit goes to one wait that matches it, and comes back from `SysWait4`;
* `WaitDelivery.Ready` — a wait asks for a child whose exit is stored and whose code has a low byte of zero, if the
  status is wanted.

Main results:

* `WaitDelivery.inv_step` — what a step keeps;
* `WaitDelivery.lawful_of_meets` — **the runs in which every exit is delivered**.
-/

import AtuaComputer.FileOutcomes
import AtuaComputer.Runs

set_option relaxedAutoImplicit false
set_option autoImplicit false

namespace WaitDelivery

open VirtualFs Kernel FileIo Syscalls Outcomes FileOutcomes Runs

/-! ### Waits -/

/-- A call of `SysWait4`: the process that is asked for, the address of its variable `status`, and whether the guest
gave an address for the status. -/
structure Wait where
  asked : Int32
  statusPtr : Int32
  wants : Bool
deriving DecidableEq

/-- The kernel, word 8 of the block of each process, the calls of `SysWait4` that have not returned, the exits, with
their codes, that the kernel has given to no wait, and the exit that it has given to the call of a process. -/
structure World where
  sys : Syscalls.State
  results : ℤ → Int32
  calls : ℤ → Option Wait
  undelivered : List (ℤ × ℤ)
  delivered : ℤ → Option (ℤ × ℤ)

/-- The bytes of a memory with the variable `status` set. -/
def putStatus (memory : List UInt8) (statusPtr : Int32) (status : ℤ) : Option (List UInt8) :=
  setBytes memory (wordBytes 4 status) (unsigned statusPtr)

/-- The variable `status`. -/
def getStatus (memory : List UInt8) (statusPtr : Int32) : ℕ :=
  leNat ((memory.drop (unsigned statusPtr)).take 4)

/-- The loop comes to handle a wait: the process is in no other call, and its memory has the variable `status`. -/
def Handles (w : World) (pid : ℤ) (c : Wait) : Prop :=
  (w.calls pid).isNone = true ∧ (putStatus (w.sys.io.memory pid) c.statusPtr 0).isSome = true

instance (w : World) (pid : ℤ) (c : Wait) : Decidable (Handles w pid c) := inferInstanceAs (Decidable (_ ∧ _))

/-- `int status = 0` -/
def declare (w : World) (pid : ℤ) (c : Wait) : Syscalls.State :=
  { w.sys with
    io := withMemory w.sys.io pid ((putStatus (w.sys.io.memory pid) c.statusPtr 0).getD (w.sys.io.memory pid)) }

/-- What the kernel gives to a wait that it answers with a number: the exit that was stored for it. -/
def given (s : Syscalls.State) (c : Wait) (result : Option ℤ) : Option (ℤ × ℤ) :=
  if result = some c.asked.toInt then (s.exitCodes.get? c.asked.toInt).map fun code => (c.asked.toInt, code) else none

/-- `SysWait4` up to the handling of its trap.  A wait without a result leaves word 8 as it was. -/
def wait (w : World) (pid : ℤ) (c : Wait) : World :=
  if Handles w pid c then
    let s := declare w pid c
    let (sys, result) := handleSyscall s pid (.procWait c.asked c.statusPtr)
    let exit := given s c result
    { sys
      results := Function.update w.results pid (result.elim (w.results pid) Int32.ofInt)
      calls := Function.update w.calls pid (some c)
      undelivered := exit.elim w.undelivered w.undelivered.erase
      delivered := Function.update w.delivered pid exit }
  else w

/-- What `SysWait4` returns, and the status word that it stores for the guest. -/
def report (w : World) (pid : ℤ) (c : Wait) : ℤ × ℕ :=
  ((w.results pid).toInt, getStatus (w.sys.io.memory pid) c.statusPtr % 256 * 256)

/-- The rest of `SysWait4`, when the flag has been cleared. -/
def resume (w : World) (pid : ℤ) : World :=
  { w with calls := Function.update w.calls pid none, delivered := Function.update w.delivered pid none }

/-- The process that `worker-exit` wakes, if the status fits into its memory. -/
def woken (s : Syscalls.State) (pid code : ℤ) : Option ℤ :=
  match (s.pendingWaits.get? pid).or (s.pendingWaits.get? 1) with
  | none => none
  | some (waiter, statusPtr) =>
    if statusPtr = 0 ∨ (putStatus (s.io.memory waiter) statusPtr (code % 256 * 256)).isSome = true then some waiter
    else none

/-- A wait that the kernel has handled and given no exit. -/
def Parked (w : World) (pid : ℤ) (c : Wait) : Prop := w.calls pid = some c ∧ w.delivered pid = none

/-- The process is in a wait that was given no exit. -/
def isParked (w : World) (pid : ℤ) : Bool := (w.calls pid).isSome && (w.delivered pid).isNone

/-- The message `worker-exit`.  The exit is given to the waiter only if it is in the wait still. -/
def exit (w : World) (pid code : ℤ) : World :=
  let w' := { w with sys := workerExit w.sys pid code }
  match woken w.sys pid code with
  | none => { w' with undelivered := w.undelivered ++ [(pid, code)] }
  | some waiter =>
    let w' := { w' with results := Function.update w.results waiter (Int32.ofInt pid) }
    if isParked w waiter then { w' with delivered := Function.update w.delivered waiter (some (pid, code)) }
    else { w' with undelivered := w.undelivered ++ [(pid, code)] }

/-- What happens: a wait is handled, `SysWait4` goes on, a process exits, or something else. -/
inductive Event where
  | wait (pid : ℤ) (c : Wait)
  | resume (pid : ℤ)
  | exit (pid code : ℤ)
  | other (sys : Syscalls.State) (results : ℤ → Int32)

/-- Something else leaves alone the exit codes, the pending waits, and the memory and the words of processes that are
in a wait. -/
structure Elsewhere (w : World) (sys : Syscalls.State) (results : ℤ → Int32) : Prop where
  exitCodes : sys.exitCodes = w.sys.exitCodes
  pendingWaits : sys.pendingWaits = w.sys.pendingWaits
  memory : ∀ pid c, w.calls pid = some c → sys.io.memory pid = w.sys.io.memory pid
  results : ∀ pid c, w.calls pid = some c → results pid = w.results pid

/-- The step relation. -/
def Step (w : World) : Event → World → Prop
  | .wait pid c, w' => w' = wait w pid c
  | .resume pid, w' => w' = resume w pid
  | .exit pid code, w' => w' = exit w pid code
  | .other sys results, w' => Elsewhere w sys results ∧ w' = { w with sys, results }

/-- Nobody has exited, and nobody waits. -/
structure Starts (w : World) : Prop where
  exitCodes : w.sys.exitCodes = JsMap.empty
  pendingWaits : w.sys.pendingWaits = JsMap.empty
  calls : ∀ pid, w.calls pid = none
  undelivered : w.undelivered = []

/-! ### The law -/

/-- The exit of a child is one that a wait of its parent asks for. -/
def Matches (parent : ℤ → ℤ) (pid : ℤ) (asked : Int32) (child : ℤ) : Prop :=
  parent child = pid ∧ (asked.toInt = child ∨ asked = 0 ∨ asked = -1)

/-- **The law of waits and exits.**  A wait is given an exit that matches it and that no other wait was given; there is
none for a wait that stays pending.  An exit goes to a pending wait that matches it, if there is one.  A wait returns
with the process and the status of the exit that it was given. -/
def Lawful (parent : ℤ → ℤ) (w : World) (ev : Event) (w' : World) : Prop :=
  match ev with
  | .wait pid c =>
    Handles w pid c →
      match w'.delivered pid with
      | some e => e ∈ w.undelivered ∧ w'.undelivered = w.undelivered.erase e ∧ Matches parent pid c.asked e.1
      | none => ∀ e ∈ w.undelivered, ¬ Matches parent pid c.asked e.1
  | .exit pid code =>
    (∃ waiter c, Parked w waiter c ∧ Matches parent waiter c.asked pid ∧
      w'.delivered = Function.update w.delivered waiter (some (pid, code)) ∧ w'.undelivered = w.undelivered) ∨
    (∀ waiter c, Parked w waiter c → ¬ Matches parent waiter c.asked pid) ∧ w'.delivered = w.delivered ∧
      w'.undelivered = w.undelivered ++ [(pid, code)]
  | .resume pid =>
    ∀ c, w.calls pid = some c → ∃ e, w.delivered pid = some e ∧ (report w pid c).1 = e.1 ∧
      (c.wants = true → ((report w pid c).2 : ℤ) = e.2 % 256 * 256)
  | .other _ _ => True

/-- The condition on a step: the kernel knows the process that waits, and it asks for one child of it whose exit is
stored, with a low byte of zero if the status is wanted; a process does not exit again while its exit is stored. -/
def Ready (parent : ℤ → ℤ) (w : World) : Event → Prop
  | .wait pid c =>
    Handles w pid c → w.sys.io.kernel.processTable.has pid = true ∧ 0 < c.asked.toInt ∧ parent c.asked.toInt = pid ∧
      ∃ code ∈ w.sys.exitCodes.get? c.asked.toInt, c.wants = true → code % 256 = 0
  | .exit pid _ => w.sys.exitCodes.has pid = false
  | .resume _ | .other _ _ => True

/-! ### The variable `status` -/

theorem isSome_putStatus_iff {memory : List UInt8} {statusPtr : Int32} {status : ℤ} :
    (putStatus memory statusPtr status).isSome = true ↔ unsigned statusPtr + 4 ≤ memory.length := by
  unfold putStatus setBytes
  rw [length_wordBytes]
  split_ifs with h
  · exact iff_of_true rfl (by omega)
  · exact iff_of_false Bool.false_ne_true (by omega)

theorem length_of_putStatus {memory memory' : List UInt8} {statusPtr : Int32} {status : ℤ}
    (h : putStatus memory statusPtr status = some memory') : memory'.length = memory.length := by
  unfold putStatus setBytes at h
  rw [length_wordBytes] at h
  split_ifs at h with hfits
  rw [← Option.some_inj.1 h]
  simp only [List.length_append, List.length_take, length_wordBytes, List.length_drop]
  omega

/-- A status word is read back as it was stored. -/
theorem getStatus_putStatus {memory memory' : List UInt8} {statusPtr : Int32} {status : ℤ}
    (h : putStatus memory statusPtr status = some memory') :
    (getStatus memory' statusPtr : ℤ) = status % 256 ^ 4 := by
  unfold putStatus setBytes at h
  rw [length_wordBytes] at h
  split_ifs at h with hfits
  have hprefix : (memory.take ((unsigned statusPtr : ℤ).toNat)).length = unsigned statusPtr := by
    rw [List.length_take, Int.toNat_natCast]
    omega
  have hword : (memory'.drop (unsigned statusPtr)).take 4 = wordBytes 4 status := by
    rw [← Option.some_inj.1 h, List.append_assoc, List.drop_left' hprefix, List.take_left' (length_wordBytes 4 status)]
  have hnonneg : 0 ≤ status % 256 ^ 4 := Int.emod_nonneg _ (by decide)
  have hlt : status % 256 ^ 4 < 256 ^ 4 := Int.emod_lt_of_pos _ (by decide)
  rw [getStatus, hword, wordBytes, leNat_leBytes (by omega)]
  exact Int.toNat_of_nonneg hnonneg

/-! ### What the kernel does -/

variable {parent : ℤ → ℤ} {w : World} {pid code : ℤ} {c : Wait}

/-- The low byte of a status that the kernel stores is zero. -/
theorem getStatus_mod (n : ℤ) {memory memory' : List UInt8} {statusPtr : Int32}
    (h : putStatus memory statusPtr (n % 256 * 256) = some memory') : getStatus memory' statusPtr % 256 = 0 := by
  have hstatus := getStatus_putStatus h
  omega

/-- The kernel answers a wait for a process whose exit is stored, and forgets the exit. -/
theorem handleSyscall_stored (h : Handles w pid c) (hproc : w.sys.io.kernel.processTable.has pid = true)
    (hasked : 0 < c.asked.toInt) (hcode : w.sys.exitCodes.get? c.asked.toInt = some code) :
    ∃ memory, getStatus memory c.statusPtr % 256 = 0 ∧
      handleSyscall (declare w pid c) pid (.procWait c.asked c.statusPtr) =
        ({ declare w pid c with
            io := withMemory (declare w pid c).io pid memory
            exitCodes := w.sys.exitCodes.delete c.asked.toInt }, some c.asked.toInt) := by
  obtain ⟨-, hfits⟩ := h
  obtain ⟨p, hp⟩ := JsMap.has_iff.1 hproc
  obtain ⟨cleared, hcleared⟩ := Option.isSome_iff_exists.1 hfits
  have hdeclared : (declare w pid c).io.memory pid = cleared := by
    show Function.update w.sys.io.memory pid _ pid = cleared
    rw [Function.update_self, hcleared, Option.getD_some]
  have hroom : (putStatus cleared c.statusPtr (code % 256 * 256)).isSome = true := by
    rw [isSome_putStatus_iff, length_of_putStatus hcleared]
    exact isSome_putStatus_iff.1 hfits
  obtain ⟨stored, hstored⟩ := Option.isSome_iff_exists.1 hroom
  have hkernel : (declare w pid c).io.kernel.processTable.get? pid = some p := hp
  have hexit : (if 0 < c.asked.toInt then (declare w pid c).exitCodes.get? c.asked.toInt else none) = some code := by
    rw [if_pos hasked]
    exact hcode
  -- the kernel writes the status only if the memory is registered
  have hanswer : ∃ memory, getStatus memory c.statusPtr % 256 = 0 ∧ Returns (do
      if c.statusPtr ≠ 0 ∧ p.wasmMemory then storeWord pid p 4 (unsigned c.statusPtr) (code % 256 * 256)
      return c.asked.toInt) (declare w pid c).io c.asked.toInt (withMemory (declare w pid c).io pid memory) := by
    by_cases hwrites : c.statusPtr ≠ 0 ∧ p.wasmMemory = true
    · have hwrite : Returns (storeWord pid p 4 (unsigned c.statusPtr) (code % 256 * 256)) (declare w pid c).io ()
          (withMemory (declare w pid c).io pid stored) := by
        refine returns_storeGuest hwrites.2 ?_
        rw [hdeclared]
        exact hstored
      refine ⟨stored, getStatus_mod code hstored, ?_⟩
      rw [if_pos hwrites]
      exact hwrite.bind (returns_pure _ _)
    · have hsame : withMemory (declare w pid c).io pid cleared = (declare w pid c).io := by
        rw [withMemory, ← hdeclared, Function.update_eq_self]
      refine ⟨cleared, getStatus_mod 0 hcleared, ?_⟩
      rw [if_neg hwrites, hsame]
      exact (returns_pure _ _).bind (returns_pure _ _)
  obtain ⟨memory, hmod, hreturns⟩ := hanswer
  refine ⟨memory, hmod, ?_⟩
  have hret := attempt_of_returns (s := { declare w pid c with exitCodes := w.sys.exitCodes.delete c.asked.toInt })
    hreturns
  unfold Syscalls.handleSyscall
  rw [hkernel]
  show sysProcWait (declare w pid c) pid p c.asked c.statusPtr = _
  unfold sysProcWait
  rw [hexit]
  exact congrArg (fun out : Syscalls.State × ℤ => (out.1, some out.2)) hret

/-- The state after a wait for a process whose exit is stored. -/
theorem wait_stored (h : Handles w pid c) (hproc : w.sys.io.kernel.processTable.has pid = true)
    (hasked : 0 < c.asked.toInt) (hcode : w.sys.exitCodes.get? c.asked.toInt = some code) :
    ∃ memory, getStatus memory c.statusPtr % 256 = 0 ∧
      wait w pid c =
        { sys :=
            { declare w pid c with
              io := withMemory (declare w pid c).io pid memory
              exitCodes := w.sys.exitCodes.delete c.asked.toInt }
          results := Function.update w.results pid c.asked
          calls := Function.update w.calls pid (some c)
          undelivered := w.undelivered.erase (c.asked.toInt, code)
          delivered := Function.update w.delivered pid (some (c.asked.toInt, code)) } := by
  obtain ⟨memory, hstatus, hanswer⟩ := handleSyscall_stored h hproc hasked hcode
  have hgiven : given (declare w pid c) c (some c.asked.toInt) = some (c.asked.toInt, code) := by
    have hget : (declare w pid c).exitCodes.get? c.asked.toInt = some code := hcode
    rw [given, if_pos rfl, hget]
    rfl
  refine ⟨memory, hstatus, ?_⟩
  rw [wait, if_pos h]
  simp only [hanswer, hgiven, Option.elim_some, Int32.ofInt_toInt]

theorem wake_unwaited {s : Syscalls.State} (hwaits : s.pendingWaits = JsMap.empty) (pid code : ℤ) :
    wake s pid code = s := by
  unfold wake
  rw [hwaits]
  rfl

/-- An exit that nobody waits for is stored. -/
theorem exit_unwaited (hwaits : w.sys.pendingWaits = JsMap.empty) (pid code : ℤ) :
    exit w pid code =
      { w with
        sys :=
          { w.sys with
            io := { w.sys.io with kernel := Kernel.removeProc w.sys.io.kernel pid }
            exitCodes := w.sys.exitCodes.set pid code }
        undelivered := w.undelivered ++ [(pid, code)] } := by
  have hwoken : woken w.sys pid code = none := by
    unfold woken
    rw [hwaits]
    rfl
  have hexit : workerExit w.sys pid code =
      { w.sys with
        io := { w.sys.io with kernel := Kernel.removeProc w.sys.io.kernel pid }
        exitCodes := w.sys.exitCodes.set pid code } := by
    unfold workerExit
    refine wake_unwaited ?_ pid code
    exact hwaits
  unfold exit
  rw [hwoken, hexit]

/-! ### The invariant -/

/-- A call that has not returned was given an exit, and the kernel's answer tells of it. -/
structure Answered (w : World) (pid : ℤ) (c : Wait) (code : ℤ) : Prop where
  delivered : w.delivered pid = some (c.asked.toInt, code)
  result : w.results pid = c.asked
  status : getStatus (w.sys.io.memory pid) c.statusPtr % 256 = 0
  low : c.wants = true → code % 256 = 0

/-- Nobody waits; the exits that were given to nobody are those that are stored, one for each process; every call that
has not returned is answered. -/
structure Inv (w : World) : Prop where
  pendingWaits : w.sys.pendingWaits = JsMap.empty
  stored : ∀ pid code, w.sys.exitCodes.get? pid = some code ↔ (pid, code) ∈ w.undelivered
  nodup : w.undelivered.Nodup
  calls : ∀ pid c, w.calls pid = some c → ∃ code, Answered w pid c code

theorem Starts.inv (h : Starts w) : Inv w where
  pendingWaits := h.pendingWaits
  stored pid code := by
    rw [h.exitCodes, h.undelivered]
    exact iff_of_false (Option.some_ne_none code).symm List.not_mem_nil
  nodup := by
    rw [h.undelivered]
    exact List.nodup_nil
  calls pid c hcall := by
    rw [h.calls pid] at hcall
    exact absurd hcall.symm (Option.some_ne_none c)

/-- A wait that the kernel can answer keeps the invariant, and is lawful. -/
theorem inv_wait (hi : Inv w) (hr : Ready parent w (.wait pid c)) :
    Inv (wait w pid c) ∧ Lawful parent w (.wait pid c) (wait w pid c) := by
  by_cases h : Handles w pid c
  case neg =>
    rw [wait, if_neg h]
    exact ⟨hi, fun hhandles => absurd hhandles h⟩
  obtain ⟨hproc, hasked, hparent, code, hcode, hlow⟩ := hr h
  obtain ⟨memory, hstatus, hwait⟩ := wait_stored h hproc hasked hcode
  have hmem : (c.asked.toInt, code) ∈ w.undelivered := (hi.stored _ _).1 hcode
  refine ⟨⟨?_, ?_, ?_, ?_⟩, ?_⟩
  · rw [hwait]
    exact hi.pendingWaits
  · intro child other
    rw [hwait]
    show (w.sys.exitCodes.delete c.asked.toInt).get? child = some other ↔
      (child, other) ∈ w.undelivered.erase (c.asked.toInt, code)
    rw [hi.nodup.mem_erase_iff, JsMap.get?_delete, ← hi.stored child other]
    -- the status that is delivered is the one that is erased
    by_cases hchild : child = c.asked.toInt
    · subst hchild
      rw [if_pos rfl, hcode]
      constructor
      · intro hnone
        exact absurd hnone.symm (Option.some_ne_none other)
      · rintro ⟨hne, heq⟩
        exact absurd (congrArg (Prod.mk c.asked.toInt) (Option.some_inj.1 heq).symm) hne
    · rw [if_neg hchild]
      exact (and_iff_right fun heq => hchild (congrArg Prod.fst heq)).symm
  · rw [hwait]
    exact hi.nodup.erase _
  · rw [hwait]
    intro q d hcall
    by_cases hq : q = pid
    · subst hq
      obtain rfl : c = d := by simpa using hcall
      exact ⟨code, ⟨Function.update_self .., Function.update_self .., by simpa [withMemory] using hstatus, hlow⟩⟩
    · obtain ⟨other, hother⟩ := hi.calls q d (by simpa [hq] using hcall)
      refine ⟨other, ⟨?_, ?_, ?_, hother.low⟩⟩
      · exact (Function.update_of_ne hq _ _).trans hother.delivered
      · exact (Function.update_of_ne hq _ _).trans hother.result
      · simpa [withMemory, declare, hq] using hother.status
  · intro _
    rw [hwait]
    show match Function.update w.delivered pid (some (c.asked.toInt, code)) pid with
      | some e => _
      | none => _
    rw [Function.update_self]
    exact ⟨hmem, rfl, hparent, Or.inl rfl⟩

/-- An exit of a process of which none is stored keeps the invariant, and is lawful. -/
theorem inv_exit (hi : Inv w) (hr : Ready parent w (.exit pid code)) :
    Inv (exit w pid code) ∧ Lawful parent w (.exit pid code) (exit w pid code) := by
  have hnone : w.sys.exitCodes.get? pid = none := JsMap.has_eq_false_iff.1 hr
  have hnew (other : ℤ) : (pid, other) ∉ w.undelivered := by
    intro hmem
    have hstored := (hi.stored pid other).2 hmem
    rw [hnone] at hstored
    exact Option.some_ne_none other hstored.symm
  rw [exit_unwaited hi.pendingWaits]
  refine ⟨⟨hi.pendingWaits, ?_, ?_, ?_⟩, Or.inr ⟨?_, rfl, rfl⟩⟩
  · intro child other
    show (w.sys.exitCodes.set pid code).get? child = some other ↔ (child, other) ∈ w.undelivered ++ [(pid, code)]
    rw [List.mem_append, List.mem_singleton, Prod.mk.injEq, JsMap.get?_set]
    by_cases hchild : child = pid
    · subst hchild
      rw [if_pos rfl, Option.some_inj]
      constructor
      · intro heq
        exact Or.inr ⟨rfl, heq.symm⟩
      · rintro (hmem | ⟨-, heq⟩)
        · exact absurd hmem (hnew other)
        · exact heq.symm
    · rw [if_neg hchild, hi.stored child other]
      exact (or_iff_left fun h => hchild h.1).symm
  · exact hi.nodup.append (List.nodup_singleton _) (List.disjoint_singleton.2 (hnew code))
  · intro q d hcall
    obtain ⟨other, hother⟩ := hi.calls q d hcall
    exact ⟨other, ⟨hother.delivered, hother.result, hother.status, hother.low⟩⟩
  · intro waiter d hparked
    obtain ⟨other, hother⟩ := hi.calls waiter d hparked.1
    exact absurd (hother.delivered.symm.trans hparked.2) (Option.some_ne_none _)

/-- A call that returns keeps the invariant, and is lawful. -/
theorem inv_resume (hi : Inv w) :
    Inv (resume w pid) ∧ Lawful parent w (.resume pid) (resume w pid) := by
  refine ⟨⟨hi.pendingWaits, hi.stored, hi.nodup, ?_⟩, ?_⟩
  · intro q d hcall
    have hcall : Function.update w.calls pid none q = some d := hcall
    by_cases hq : q = pid
    · rw [hq, Function.update_self] at hcall
      exact absurd hcall.symm (Option.some_ne_none d)
    · rw [Function.update_of_ne hq] at hcall
      obtain ⟨other, hother⟩ := hi.calls q d hcall
      exact ⟨other, ⟨(Function.update_of_ne hq _ _).trans hother.delivered, hother.result, hother.status, hother.low⟩⟩
  · intro d hcall
    obtain ⟨code, hanswered⟩ := hi.calls pid d hcall
    refine ⟨(d.asked.toInt, code), hanswered.delivered, ?_, ?_⟩
    · exact congrArg Int32.toInt hanswered.result
    · intro hwants
      have hlow : code % 256 = 0 := hanswered.low hwants
      rw [report, hanswered.status, hlow]
      rfl

/-- What happens elsewhere keeps the invariant. -/
theorem inv_other {sys : Syscalls.State} {results : ℤ → Int32} (hi : Inv w) (h : Elsewhere w sys results) :
    Inv { w with sys, results } where
  pendingWaits := h.pendingWaits.trans hi.pendingWaits
  stored child code := by
    rw [show sys.exitCodes = w.sys.exitCodes from h.exitCodes]
    exact hi.stored child code
  nodup := hi.nodup
  calls q d hcall := by
    obtain ⟨code, hanswered⟩ := hi.calls q d hcall
    refine ⟨code, ⟨hanswered.delivered, ?_, ?_, hanswered.low⟩⟩
    · exact (h.results q d hcall).trans hanswered.result
    · rw [show sys.io.memory q = w.sys.io.memory q from h.memory q d hcall]
      exact hanswered.status

/-- **A step.** -/
theorem inv_step {ev : Event} {w' : World} (hi : Inv w) (hr : Ready parent w ev) (h : Step w ev w') :
    Inv w' ∧ Lawful parent w ev w' := by
  cases ev with
  | wait pid c =>
      obtain rfl : w' = wait w pid c := h
      exact inv_wait hi hr
  | resume pid =>
      obtain rfl : w' = resume w pid := h
      exact inv_resume hi
  | exit pid code =>
      obtain rfl : w' = exit w pid code := h
      exact inv_exit hi hr
  | other sys results =>
      obtain ⟨helse, rfl⟩ := h
      exact ⟨inv_other hi helse, trivial⟩

/-- **The runs in which every exit is delivered.**  If every wait asks for one child of the caller whose exit is
stored, with a low byte of zero where the status is wanted, and no process exits while an exit of it is stored, every
step of the run is lawful. -/
theorem lawful_of_meets {tr : List (Event × World)} (hs : Starts w) (hrun : IsRun Step w tr)
    (hready : Meets (Ready parent) w tr) : EachStep (Lawful parent) w tr := by
  have hstep (u : World) (ev : Event) (u' : World) (hi : Inv u) (hr : Ready parent u ev) (h : Step u ev u') :
      Inv u' ∧ Lawful parent u ev u' := inv_step hi hr h
  exact eachStep_of_meets hstep hs.inv hrun hready

/-! ### Runs on fixed events -/

instance (parent : ℤ → ℤ) (w : World) : (ev : Event) → Decidable (Ready parent w ev)
  | .wait pid c =>
    inferInstanceAs (Decidable (Handles w pid c → w.sys.io.kernel.processTable.has pid = true ∧ 0 < c.asked.toInt ∧
      parent c.asked.toInt = pid ∧ ∃ code ∈ w.sys.exitCodes.get? c.asked.toInt, c.wants = true → code % 256 = 0))
  | .exit pid _ => inferInstanceAs (Decidable (w.sys.exitCodes.has pid = false))
  | .resume _ | .other _ _ => isTrue trivial

/-- The state after an event. -/
def next (w : World) : Event → World
  | .wait pid c => wait w pid c
  | .resume pid => resume w pid
  | .exit pid code => exit w pid code
  | .other sys results => { w with sys, results }

/-- Process 1 has a memory of 16 bytes, and nothing has happened. -/
def alone : World where
  sys := [.registerWorker 1 ['/'], .registerMemory 1 (List.replicate 16 0)].foldl Syscalls.after booted
  results := fun _ => 0
  calls := fun _ => none
  undelivered := []
  delivered := fun _ => none

theorem starts_alone : Starts alone := ⟨rfl, rfl, fun _ => rfl, rfl⟩

/-- Process 7 exits with a code, and process 1 waits for it and its status. -/
def exitThenWait (code : ℤ) : List Event := [.exit 7 code, .wait 1 ⟨7, 8, true⟩]

/-- Process 1 waits for process 7, which has not exited. -/
def waitFirst : List Event := [.wait 1 ⟨7, 8, true⟩]

theorem lawful_of_meets_exitThenWait :
    EachStep (Lawful fun _ => 1) alone (trace next alone (exitThenWait 0 ++ [.resume 1])) ∧
      ((exitThenWait 0).foldl next alone).delivered 1 = some (7, 0) := by
  have hrun : IsRun Step alone (trace next alone (exitThenWait 0 ++ [.resume 1])) := ⟨rfl, rfl, rfl, trivial⟩
  exact ⟨lawful_of_meets starts_alone hrun (by decide +kernel), by decide +kernel⟩

/-- The status of a child that exits with 42 is lost, and so is the wait for one that has not exited. -/
theorem not_lawful_exitThenWait :
    ¬ EachStep (Lawful fun _ => 1) alone (trace next alone (exitThenWait 42 ++ [.resume 1])) ∧
      ¬ EachStep (Lawful fun _ => 1) alone (trace next alone (waitFirst ++ [.resume 1])) := by
  constructor
  · intro h
    have hcall : ((exitThenWait 42).foldl next alone).calls 1 = some ⟨7, 8, true⟩ := by decide +kernel
    have hgiven : ((exitThenWait 42).foldl next alone).delivered 1 = some (7, 42) := by decide +kernel
    have hreport : (report ((exitThenWait 42).foldl next alone) 1 ⟨7, 8, true⟩).2 = 0 := by decide +kernel
    obtain ⟨e, he, -, hstatus⟩ := eachStep_last h _ hcall
    obtain rfl : (7, 42) = e := Option.some_inj.1 (hgiven.symm.trans he)
    rw [hreport] at hstatus
    exact absurd (hstatus rfl) (by decide)
  · intro h
    have hcall : (waitFirst.foldl next alone).calls 1 = some ⟨7, 8, true⟩ := by decide +kernel
    have hnone : (waitFirst.foldl next alone).delivered 1 = none := by decide +kernel
    obtain ⟨e, he, -⟩ := eachStep_last h _ hcall
    exact absurd (he.symm.trans hnone) (Option.some_ne_none e)

end WaitDelivery
