/-
**Offsets of 64 bits.**

The guest gives `fs_read`, `fs_write`, `fd_pread`, `fd_pwrite` and `fd_seek` an offset of 64 bits.  The kernel
takes one in two words, but the imports store the whole number in the first of them and a zero in the
second, and a word of the control buffer keeps 32 bits.  The result of a seek comes back in such a word too,
and there it has a sign.

Main definitions:

* `Offsets.Operation` — what an import asks for, with its offset as it is;
* `Offsets.served` — what the kernel makes of the words;
* `Offsets.after` — a worker that goes through its imports, while anything else happens;
* `Offsets.Exact` — the kernel operates at the offset that is asked for.

Main results:

* `Offsets.trap_eq` — a trap is what `served` says;
* `Offsets.exact_iff` — **when every import of a run is served at its offset**.
-/

import AtuaComputer.FileOutcomes
import AtuaComputer.Runs

set_option relaxedAutoImplicit false
set_option autoImplicit false

namespace Offsets

open Kernel VirtualFs FileIo Outcomes FileOutcomes Runs

/-! ### Words -/

/-- `Atomics.store` keeps the low 32 bits of a number. -/
def word (x : ℤ) : Int32 := Int32.ofInt x

theorem unsigned_word (x : ℤ) : (unsigned (word x) : ℤ) = x % 2 ^ 32 := by
  have hbits : (unsigned (word x) : ℤ) = (BitVec.ofInt 32 x).toNat := rfl
  rw [hbits, BitVec.toNat_ofInt]
  omega

theorem toInt_word (x : ℤ) : (word x).toInt = x.bmod (2 ^ 32) := Int32.toInt_ofInt

theorem toInt_word_iff {x : ℤ} : (word x).toInt = x ↔ -2 ^ 31 ≤ x ∧ x < 2 ^ 31 := by
  rw [toInt_word, Int.bmod_def]
  omega

/-- The words of the arguments. -/
structure Words where
  (a b c d e f : Int32)

/-- The stores of `trapToKernel`. -/
def words (a b c d e f : ℤ) : Words := ⟨word a, word b, word c, word d, word e, word f⟩

/-- The numbers that the imports trap with; the last is `SYS_HOST_SYSCALL` with an 8 in the first word. -/
inductive Number where
  | fsRead
  | fsWrite
  | lseek

/-- `switch (n)`: `SYS_HOST_SYSCALL` moves the words down by one. -/
def syscall (w : Words) : Number → Syscalls.Syscall
  | .fsRead => .other (.fsRead w.a w.b w.c w.d w.e)
  | .fsWrite => .other (.fsWrite w.a w.b w.c w.d w.e)
  | .lseek => .file w.b (.lseek w.c w.d)

/-- `trapToKernel`: the result is loaded from a word. -/
def trap (s : Syscalls.State) (pid : ℤ) (n : Number) (w : Words) : Syscalls.State × ℤ :=
  let (s, result) := Syscalls.handleSyscall s pid (syscall w n)
  (s, (word (result.getD 0)).toInt)

/-! ### Operations -/

/-- Something done to a file at an offset. -/
inductive Operation where
  | read (handle : ℤ) (addr count : ℕ) (offset : ℤ)
  | write (handle : ℤ) (addr count : ℕ) (offset : ℤ)
  | seek (fd : Int32) (offset : ℤ) (whence : Int32)
deriving DecidableEq

/-- Where a seek leads. -/
def target (v : Vfs) (file : OpenFile) (offset : ℤ) (whence : Int32) : ℤ :=
  if whence = 0 then offset
  else if whence = 1 then file.position + offset
  else if whence = 2 then contentLength v file + offset
  else file.position

/-- The seek of a descriptor. -/
def seekTo (p : Proc) (fd : Int32) (offset : ℤ) (whence : Int32) : Io ℤ :=
  withEntry p fd (return -9) fun kind =>
    match kind with
    | .pipe _ _ | .special _ => return -29
    | .file vfsFd | .dir vfsFd =>
      withFile vfsFd fun file => do
        let v := (← get).kernel.vfs
        setPosition vfsFd (target v file offset whence)
        return target v file offset whence

/-- Doing it for a process. -/
def Operation.perform (pid : ℤ) (p : Proc) : Operation → Io ℤ
  | .read handle addr count offset => do
    let (n, bytes) ← vfsRead handle count offset
    if 0 < n then storeGuest pid p addr bytes
    return n
  | .write handle addr count offset => do
    let src ← sliceGuest pid p addr count
    onVfs fun limit v => writeFile limit v handle src offset
  | .seek fd offset whence => seekTo p fd offset whence

/-- What the kernel makes of the words. -/
def served (w : Words) : Number → Operation
  | .fsRead => .read w.a.toInt (unsigned w.b) (unsigned w.c) (offset64 w.d w.e)
  | .fsWrite => .write w.a.toInt (unsigned w.b) (unsigned w.c) (offset64 w.d w.e)
  | .lseek => .seek w.b w.c.toInt w.d

theorem sysLseek_eq (p : Proc) (a b c : Int32) : sysLseek p a b c = seekTo p a b.toInt c := rfl

/-- **A trap does what the words say.** -/
theorem trap_eq {s : Syscalls.State} {pid : ℤ} {p : Proc}
    (hp : s.io.kernel.processTable.get? pid = some p) (n : Number) (w : Words) :
    trap s pid n w =
      ((Syscalls.attempt s ((served w n).perform pid p)).1,
        (word (Syscalls.attempt s ((served w n).perform pid p)).2).toInt) := by
  cases n with
  | fsRead | fsWrite =>
    unfold trap Syscalls.handleSyscall
    rw [hp]
    rfl
  | lseek =>
    unfold trap Syscalls.handleSyscall
    rw [hp]
    dsimp only [syscall]
    unfold handleFileCall
    rw [hp]
    dsimp only [fileHandler, served, Operation.perform]
    rw [sysLseek_eq]
    unfold Syscalls.attempt
    rcases (seekTo p w.b w.c.toInt w.d).run.run s.io with ⟨_ | _, io⟩ <;> rfl

/-! ### The imports -/

/-- An offset that a `Number` holds exactly. -/
abbrev Offset := Fin (2 ^ 53)

/-- The imports that move bytes. -/
inductive Op where
  | fsRead
  | fsWrite
  | fdPread
  | fdPwrite

/-- What an import traps with. -/
def Op.number : Op → Number
  | .fsRead | .fdPread => .fsRead
  | .fsWrite | .fdPwrite => .fsWrite

/-- A call of one of them. -/
structure Call where
  op : Op
  handle : Int32
  offset : Offset

/-- The words for a buffer, behind `total` bytes.  A double rounds the sum from 2^53 on, where the word has
lost it in any case. -/
def Call.words (call : Call) (total : ℕ) (bufPtr bufLen : UInt32) : Words :=
  Offsets.words call.handle.toInt bufPtr.toNat bufLen.toNat (call.offset.val + total : ℕ) 0 0

/-- What the call asks for. -/
def Call.asked (call : Call) (total : ℕ) (bufPtr bufLen : UInt32) : Operation :=
  match call.op.number with
  | .fsRead => .read call.handle.toInt bufPtr.toNat bufLen.toNat (call.offset.val + total : ℕ)
  | _ => .write call.handle.toInt bufPtr.toNat bufLen.toNat (call.offset.val + total : ℕ)

/-- What is left to do after a buffer: `fs_read` and `fs_write` have only one, and `fd_pread` ends at a
short one. -/
def Call.next (call : Call) (total : ℕ) (bufLen : UInt32) (result : ℤ) : Option (Call × ℕ) :=
  match call.op with
  | .fsRead | .fsWrite => none
  | .fdPread => if result < bufLen.toNat then none else some (call, total + result.toNat)
  | .fdPwrite => some (call, total + bufLen.toNat)

/-- The `whence` of a seek. -/
inductive Whence where
  | set
  | cur
  | fromEnd

/-- Its number. -/
def Whence.number : Whence → Int32
  | .set => 0
  | .cur => 1
  | .fromEnd => 2

/-- `fd_seek`: the error, and the number at `newoffset_ptr`, if it is stored. -/
def fdSeek (s : Syscalls.State) (pid : ℤ) (fd : Int32) (offset : Offset) (whence : Whence) :
    Syscalls.State × ℤ × Option ℤ :=
  let (s, result) := trap s pid .lseek (words 8 fd.toInt offset.val whence.number.toInt 0 0)
  if result < 0 then (s, 8, none) else (s, 0, some result)

/-- The kernel, and the call that the worker goes through, with its total. -/
structure State where
  sys : Syscalls.State
  call : Option (Call × ℕ)

/-- The next buffer of the call. -/
def stepBuffer (s : State) (pid : ℤ) (bufPtr bufLen : UInt32) : State :=
  match s.call with
  | none => s
  | some (call, total) =>
    let (sys, result) := trap s.sys pid call.op.number (call.words total bufPtr bufLen)
    ⟨sys, call.next total bufLen result⟩

/-- What happens: the worker begins a call, goes on to a buffer of it, or seeks, and everything else. -/
inductive Event where
  | begin (call : Call)
  | buffer (bufPtr bufLen : UInt32)
  | seek (fd : Int32) (offset : Offset) (whence : Whence)
  | other (ev : Syscalls.Event)

/-- The state after an event. -/
def after (pid : ℤ) (s : State) : Event → State
  | .begin call => { s with call := some (call, 0) }
  | .buffer bufPtr bufLen => stepBuffer s pid bufPtr bufLen
  | .seek fd offset whence => { s with sys := (fdSeek s.sys pid fd offset whence).1 }
  | .other ev => { s with sys := Syscalls.after s.sys ev }

/-- The step relation. -/
def Step (pid : ℤ) (s : State) (ev : Event) (s' : State) : Prop := s' = after pid s ev

/-! ### Exact offsets -/

/-- The process is there, and the handle is that of an open file. -/
def Opens (s : Syscalls.State) (pid handle : ℤ) (file : OpenFile) : Prop :=
  (∃ p, s.io.kernel.processTable.get? pid = some p) ∧ s.io.kernel.vfs.openFiles.get? handle = some file

/-- The descriptor is one of an open file. -/
def OpenAt (s : Syscalls.State) (pid : ℤ) (fd : Int32) (vfsFd : ℤ) (file : OpenFile) : Prop :=
  ∃ p entry, s.io.kernel.processTable.get? pid = some p ∧ p.fdTable.get? fd.toInt = some entry ∧
    entry.kind.handle? = some vfsFd ∧ s.io.kernel.vfs.openFiles.get? vfsFd = some file

/-- **A step operates at the offset it is asked for.**  A buffer is served as asked, and a read at or past
the end returns 0; a seek returns the new offset and leaves the file there. -/
def Exact (pid : ℤ) (s : State) (ev : Event) (s' : State) : Prop :=
  match ev with
  | .buffer bufPtr bufLen =>
    ∀ call total file, s.call = some (call, total) → Opens s.sys pid call.handle.toInt file →
      served (call.words total bufPtr bufLen) call.op.number = call.asked total bufPtr bufLen ∧
        ((call.op.number matches .fsRead) → file.special ≠ some .urandom →
          contentLength s.sys.io.kernel.vfs file ≤ call.offset.val + total →
            bufLen.toNat ≤ s.sys.io.limit →
              (trap s.sys pid call.op.number (call.words total bufPtr bufLen)).2 = 0)
  | .seek fd offset whence =>
    ∀ vfsFd file, OpenAt s.sys pid fd vfsFd file →
      (fdSeek s.sys pid fd offset whence).2 =
          (0, some (target s.sys.io.kernel.vfs file offset.val whence.number)) ∧
        (s'.sys.io.kernel.vfs.openFiles.get? vfsFd).map OpenFile.position =
          some (target s.sys.io.kernel.vfs file offset.val whence.number)
  | _ => True

/-- The offset fits its word, which has a sign for a seek, and so does the offset that a seek returns. -/
def Fits (pid : ℤ) (s : State) (ev : Event) : Prop :=
  match ev with
  | .buffer _ _ =>
    ∀ call total file, s.call = some (call, total) → Opens s.sys pid call.handle.toInt file →
      call.offset.val + total < 2 ^ 32
  | .seek fd offset whence =>
    ∀ vfsFd file, OpenAt s.sys pid fd vfsFd file →
      offset.val < 2 ^ 31 ∧ 0 ≤ target s.sys.io.kernel.vfs file offset.val whence.number ∧
        target s.sys.io.kernel.vfs file offset.val whence.number < 2 ^ 31
  | _ => True

theorem unsigned_word_iff {n : ℕ} : unsigned (word n) = n ↔ n < 2 ^ 32 := by
  have hbits : (unsigned (word n) : ℤ) = (n : ℤ) % 2 ^ 32 := unsigned_word n
  omega

theorem unsigned_word_toNat (n : UInt32) : unsigned (word n.toNat) = n.toNat :=
  unsigned_word_iff.2 n.toNat_lt

theorem word_toInt (x : Int32) : word x.toInt = x := Int32.ofInt_toInt x

/-- A buffer is served as asked when its offset fits the word. -/
theorem served_iff (call : Call) (total : ℕ) (bufPtr bufLen : UInt32) :
    served (call.words total bufPtr bufLen) call.op.number = call.asked total bufPtr bufLen ↔
      call.offset.val + total < 2 ^ 32 := by
  obtain ⟨op, handle, offset⟩ := call
  have hoffset : (offset64 (word ((offset.val : ℤ) + total)) (word 0) : ℤ) = (offset.val : ℤ) + total ↔
      offset.val + total < 2 ^ 32 := by
    have hzero : unsigned (word 0) = 0 := rfl
    unfold offset64
    rw [hzero, Nat.zero_mul, Nat.add_zero, ← Nat.cast_add, Nat.cast_inj]
    exact unsigned_word_iff
  cases op <;>
    simp [Call.words, words, Call.asked, served, Op.number, word_toInt, unsigned_word_toNat, hoffset]

/-- A read at or past the end. -/
theorem perform_read_past {s : Syscalls.State} {handle : ℤ} {count : ℕ} {offset : ℤ} {file : OpenFile}
    (hfile : s.io.kernel.vfs.openFiles.get? handle = some file) (hrandom : file.special ≠ some .urandom)
    (hpast : contentLength s.io.kernel.vfs file ≤ offset) (hroom : count ≤ s.io.limit) (pid : ℤ) (p : Proc)
    (addr : ℕ) : (Syscalls.attempt s ((Operation.read handle addr count offset).perform pid p)).2 = 0 := by
  have hread : readFile s.io.kernel.vfs s.io.entropy handle count offset = (0, []) := by
    unfold readFile
    rw [hfile]
    dsimp only
    by_cases hnull : file.special = some .null
    · rw [if_pos hnull]
    · rw [if_neg hnull, if_neg hrandom]
      unfold contentLength at hpast
      cases hcontent : file.content with
      | none => rfl
      | some content =>
        rw [hcontent] at hpast
        dsimp only at hpast ⊢
        rw [if_pos (by omega)]
  have hreturns : Returns ((Operation.read handle addr count offset).perform pid p) s.io 0 s.io := by
    refine (returns_vfsRead hroom fun f hf => ?_).bind ?_
    · rw [hfile] at hf
      obtain rfl : file = f := by simpa using hf
      exact hrandom
    · rw [hread]
      exact returns_pure (0 : ℤ) s.io
  rw [attempt_of_returns hreturns]

/-- A seek of an open file. -/
theorem returns_seekTo {s : FileIo.State} {p : Proc} {fd : Int32} {entry : FdEntry} {vfsFd : ℤ} {file : OpenFile}
    (hentry : p.fdTable.get? fd.toInt = some entry) (hkind : entry.kind.handle? = some vfsFd)
    (hfile : s.kernel.vfs.openFiles.get? vfsFd = some file) (offset : ℤ) (whence : Int32) :
    Returns (seekTo p fd offset whence) s (target s.kernel.vfs file offset whence)
      { s with
        kernel := { s.kernel with vfs := seek s.kernel.vfs vfsFd (target s.kernel.vfs file offset whence) } } := by
  have hbody : ∀ kind : FdKind, kind.handle? = some vfsFd → kind = .file vfsFd ∨ kind = .dir vfsFd := by
    intro kind h
    cases kind with
    | file h' => exact .inl (by simpa [FdKind.handle?] using h)
    | dir h' => exact .inr (by simpa [FdKind.handle?] using h)
    | pipe _ _ => cases h
    | special _ => cases h
  unfold seekTo withEntry
  rw [hentry]
  dsimp only
  rcases hbody _ hkind with h | h
  · rw [h]
    exact returns_withFile hfile (returns_read ((returns_setPosition _ _).bind (returns_pure _ _)))
  · rw [h]
    exact returns_withFile hfile (returns_read ((returns_setPosition _ _).bind (returns_pure _ _)))

theorem target_eq (v : Vfs) (file : OpenFile) (offset : ℤ) (whence : Whence) :
    target v file offset whence.number = target v file 0 whence.number + offset := by
  cases whence <;> simp [target, Whence.number]

/-- **A seek is exact when its offset and where it leads fit a word with a sign.** -/
theorem fdSeek_iff {s : Syscalls.State} {pid : ℤ} {fd : Int32} {vfsFd : ℤ} {file : OpenFile}
    (hopen : OpenAt s pid fd vfsFd file) (offset : Offset) (whence : Whence) :
    ((fdSeek s pid fd offset whence).2 = (0, some (target s.io.kernel.vfs file offset.val whence.number)) ∧
        ((fdSeek s pid fd offset whence).1.io.kernel.vfs.openFiles.get? vfsFd).map OpenFile.position =
          some (target s.io.kernel.vfs file offset.val whence.number)) ↔
      offset.val < 2 ^ 31 ∧ 0 ≤ target s.io.kernel.vfs file offset.val whence.number ∧
        target s.io.kernel.vfs file offset.val whence.number < 2 ^ 31 := by
  obtain ⟨p, entry, hp, hentry, hkind, hfile⟩ := hopen
  -- what the kernel makes of the words
  obtain ⟨reached, hreached⟩ : ∃ n, n = target s.io.kernel.vfs file (word offset.val).toInt whence.number := ⟨_, rfl⟩
  have hreturns := returns_seekTo (s := s.io) hentry hkind hfile (word offset.val).toInt whence.number
  rw [← hreached] at hreturns
  have htrap : trap s pid .lseek (words 8 fd.toInt offset.val whence.number.toInt 0 0) =
      ({ s with io := { s.io with kernel := { s.io.kernel with vfs := seek s.io.kernel.vfs vfsFd reached } } },
        (word reached).toInt) := by
    rw [trap_eq hp]
    simp only [served, Operation.perform, words, word_toInt]
    rw [attempt_of_returns hreturns]
  have hposition : ((seek s.io.kernel.vfs vfsFd reached).openFiles.get? vfsFd).map OpenFile.position =
      some reached := by
    unfold seek updateFile
    rw [hfile]
    dsimp only
    rw [JsMap.get?_set_self]
    rfl
  rw [target_eq] at hreached
  have hasked := target_eq s.io.kernel.vfs file offset.val whence
  have hlow : (word offset.val).toInt = (offset.val : ℤ) ↔ -2 ^ 31 ≤ (offset.val : ℤ) ∧ (offset.val : ℤ) < 2 ^ 31 :=
    toInt_word_iff
  have hresult : (word reached).toInt = reached ↔ -2 ^ 31 ≤ reached ∧ reached < 2 ^ 31 := toInt_word_iff
  unfold fdSeek
  rw [htrap]
  dsimp only
  by_cases hneg : (word reached).toInt < 0
  · rw [if_pos hneg]
    constructor
    · rintro ⟨herr, -⟩
      simp at herr
    · intro h
      omega
  · rw [if_neg hneg]
    simp only [Prod.mk.injEq, Option.some.injEq, true_and, hposition]
    constructor
    · rintro ⟨hres, hpos⟩
      omega
    · intro h
      omega

/-! ### Runs -/

theorem exact_step_iff {pid : ℤ} {s s' : State} {ev : Event} (hs' : Step pid s ev s') :
    Exact pid s ev s' ↔ Fits pid s ev := by
  obtain rfl : s' = after pid s ev := hs'
  cases ev with
  | begin call => exact Iff.rfl
  | other ev => exact Iff.rfl
  | seek fd offset whence =>
    refine forall_congr' fun vfsFd => forall_congr' fun file => forall_congr' fun hopen => ?_
    exact fdSeek_iff hopen offset whence
  | buffer bufPtr bufLen =>
    refine forall_congr' fun call => forall_congr' fun total => forall_congr' fun file =>
      forall_congr' fun hcall => forall_congr' fun hopen => ?_
    have hserved := served_iff call total bufPtr bufLen
    constructor
    · rintro ⟨h, -⟩
      exact hserved.1 h
    · intro h
      refine ⟨hserved.2 h, fun hread hrandom hpast hroom => ?_⟩
      obtain ⟨⟨p, hp⟩, hfile⟩ := hopen
      have hasked : call.asked total bufPtr bufLen =
          .read call.handle.toInt bufPtr.toNat bufLen.toNat (call.offset.val + total : ℕ) := by
        unfold Call.asked
        cases hn : call.op.number with
        | fsRead => rfl
        | fsWrite | lseek => rw [hn] at hread; cases hread
      rw [trap_eq hp, hserved.2 h, hasked]
      dsimp only
      rw [perform_read_past hfile hrandom (by exact_mod_cast hpast) hroom]
      rfl

/-- **Offsets survive the words.**  In every run of a worker, with anything happening in between, each buffer
and each seek is served at the offset it is asked for exactly when that offset fits the word it is stored in. -/
theorem exact_iff {pid : ℤ} {s : State} {tr : List (Event × State)} (hrun : IsRun (Step pid) s tr) :
    EachStep (Exact pid) s tr ↔ Meets (Fits pid) s tr := by
  refine eachStep_iff_meets (I := fun _ => True) ?_ ?_ trivial hrun
  · intros
    trivial
  · intro s ev s' _ hs'
    exact exact_step_iff hs'

/-- Process 1 with a file of two bytes, as descriptor and handle 4. -/
def started : State where
  sys :=
    [.registerWorker 1 [],
      .registerMemory 1 ("/f".toList.flatMap String.utf8EncodeChar ++ List.replicate 14 0),
      .syscall 1 (.kernel (.open "/f".toList oCreat 0) .answered),
      .syscall 1 (.file 4 (.write 0 2))].foldl Syscalls.after Syscalls.booted
  call := none

/-- `fs_read` of two bytes at 2^32. -/
def farRead : List Event := [.begin ⟨.fsRead, 4, 4294967296⟩, .buffer 8 2]

theorem opens_started : ∃ file, Opens started.sys 1 4 file ∧ file.special ≠ some .urandom ∧
    contentLength started.sys.io.kernel.vfs file = 2 := by
  have hproc : (started.sys.io.kernel.processTable.get? 1).isSome = true := by decide +kernel
  have hfile : (started.sys.io.kernel.vfs.openFiles.get? 4).any (fun file =>
      file.special = none ∧ contentLength started.sys.io.kernel.vfs file = 2) = true := by decide +kernel
  obtain ⟨file, hget, hprop⟩ := (Option.any_eq_true _ _).1 hfile
  obtain ⟨hspecial, hlen⟩ := of_decide_eq_true hprop
  exact ⟨file, ⟨Option.isSome_iff_exists.1 hproc, hget⟩, by simp [hspecial], hlen⟩

/-- **A read far behind the end returns the first bytes.** -/
theorem not_exact_farRead :
    ¬ ∀ (s : State) (tr : List (Event × State)), IsRun (Step 1) s tr → EachStep (Exact 1) s tr := by
  intro h
  obtain ⟨-, hread, -⟩ := h _ _ (isRun_trace (after 1) started farRead)
  obtain ⟨file, hopens, hrandom, hlen⟩ := opens_started
  have hbehind : contentLength started.sys.io.kernel.vfs file ≤ (4294967296 : Offset).val + 0 := by
    rw [hlen]
    decide
  have hpast := (hread _ _ file rfl hopens).2 rfl hrandom hbehind (by decide +kernel)
  have hresult : (trap started.sys 1 .fsRead (Call.words ⟨.fsRead, 4, 4294967296⟩ 0 8 2)).2 = 2 := by decide +kernel
  exact absurd (hresult.symm.trans hpast) (by decide)

theorem exact_iff_farRead :
    EachStep (Exact 1) started (trace (after 1) started farRead) ↔
      Meets (Fits 1) started (trace (after 1) started farRead) :=
  exact_iff (isRun_trace _ _ _)

end Offsets
