/-
**What a write says it has written.**

The kernel has its own view of a guest's memory.  The two share their bytes, but when the guest makes its memory
longer the view stays as it is, until a message with the longer one comes.  A buffer behind the end of the view is
cut off without an error.  `write`, `pwrite` and `writev` return the lengths that were asked for all the same, and
move the position by them; the call of the worker's imports returns the number of bytes that there were.

Main definitions:

* `WrittenCounts.World`, `WrittenCounts.after` — the kernel, the memories of the guests, and the messages under way;
* `WrittenCounts.Truthful` — a result is the number of bytes that were written, or nothing has changed;
* `WrittenCounts.Op.Fits` — the condition.

Main results:

* `WrittenCounts.shared_of_isRun` — the view of the kernel is a part of the memory;
* `WrittenCounts.truthful_of_meets` — **when the counts are true, in a run**.
-/

import AtuaComputer.VectoredFiles

set_option relaxedAutoImplicit false
set_option autoImplicit false

namespace WrittenCounts

open VirtualFs Kernel FileIo FileContents Outcomes FileOutcomes ByteFile FilePieces VectoredFiles Runs

/-! ### Memories -/

/-- The kernel, the memories of the guests, and the messages `register-memory` under way, each with the length that
the memory had when it was sent. -/
structure World where
  sys : Syscalls.State
  guest : ℤ → List UInt8
  posted : List (ℤ × ℕ)

/-- What the kernel has of the memory of a process. -/
def World.view (w : World) (pid : ℤ) : List UInt8 := w.sys.io.memory pid

/-- The kernel has worked; what it has stored is in the memories. -/
def World.share (w : World) (sys : Syscalls.State) : World :=
  { w with sys, guest := fun pid => sys.io.memory pid ++ (w.guest pid).drop (sys.io.memory pid).length }

/-- What happens: a guest stores bytes or makes its memory longer, a worker sends its memory, the kernel handles the
next of these messages, a syscall, or another message. -/
inductive Event where
  | store (pid : ℤ) (addr : ℕ) (bytes : List UInt8)
  | grow (pid : ℤ) (count : ℕ)
  | post (pid : ℤ)
  | deliver
  | syscall (pid : ℤ) (call : Syscalls.Syscall)
  | registerWorker (pid : ℤ) (cwd : Path)
  | unregisterWorker (pid : ℤ)
  | workerExit (pid code : ℤ)

/-- The world after an event.  A store outside of the memory traps. -/
def after (w : World) : Event → World
  | .store pid addr bytes =>
    if addr + bytes.length ≤ (w.guest pid).length then
      let memory := writeAt (w.guest pid) addr bytes
      { w with
        sys := Syscalls.after w.sys (.guest pid (memory.take (w.view pid).length))
        guest := Function.update w.guest pid memory }
    else w
  | .grow pid count => { w with guest := Function.update w.guest pid (w.guest pid ++ List.replicate count 0) }
  | .post pid => { w with posted := w.posted ++ [(pid, (w.guest pid).length)] }
  | .deliver =>
    match w.posted with
    | [] => w
    | (pid, length) :: posted =>
      { w with sys := Syscalls.after w.sys (.registerMemory pid ((w.guest pid).take length)), posted }
  | .syscall pid call => w.share (Syscalls.after w.sys (.syscall pid call))
  | .registerWorker pid cwd => w.share (Syscalls.after w.sys (.registerWorker pid cwd))
  | .unregisterWorker pid => w.share (Syscalls.after w.sys (.unregisterWorker pid))
  | .workerExit pid code => w.share (Syscalls.after w.sys (.workerExit pid code))

/-- What the guest gets: the result is stored in a word. -/
def result (w : World) (pid : ℤ) (call : Syscalls.Syscall) : ℤ :=
  (Int32.ofInt ((Syscalls.handleSyscall w.sys pid call).2.getD 0)).toInt

/-! ### Writes -/

/-- The calls that write, with their registers after the first. -/
inductive Op where
  | write (b c : Int32)
  | writev (b c : Int32)
  | pwrite64 (b c d e : Int32)
  | fsWrite (b c d e : Int32)

def Op.syscall (a : Int32) : Op → Syscalls.Syscall
  | .write b c => .file a (.write b c)
  | .writev b c => .file a (.writev b c)
  | .pwrite64 b c d e => .file a (.pwrite64 b c d e)
  | .fsWrite b c d e => .other (.fsWrite a b c d e)

/-- The handle of the file that a call writes to. -/
def Op.Handle (p : Proc) (a : Int32) (h : ℤ) : Op → Prop
  | .fsWrite _ _ _ _ => a.toInt = h
  | _ => ∃ cell, p.fdTable.get? a.toInt = some ⟨.file h, cell⟩

/-- The addresses of the bytes that are to be written. -/
def Op.Addresses (memory : List UInt8) (addrs : List ℕ) : Op → Prop
  | .write b c | .pwrite64 b c _ _ | .fsWrite b c _ _ => addrs = List.range' (unsigned b) (unsigned c)
  | .writev b c => ∃ segs : List (ℕ × ℕ), segs.length = c.toInt.toNat ∧ Entries memory (unsigned b) 0 segs ∧
      addrs = segs.flatMap fun e => List.range' e.1 e.2

/-- The guest has the data at these addresses, from the first on. -/
def Op.Gives (memory : List UInt8) (op : Op) (data : List UInt8) : Prop :=
  ∃ addrs, op.Addresses memory addrs ∧ data.map some <+: addrs.map fun addr => memory[addr]?

/-- Where a call with an offset writes.  `O_APPEND` sends it to the end. -/
def target (f : File) (offset : ℕ) : ℕ := if f.append then f.bytes.length else offset

/-- The file with the data in it, and nothing else changed. -/
def Op.Stored (f : File) (data : List UInt8) (f' : File) (op : Op) : Prop :=
  if data = [] then f' = f
  else
    match op with
    | .write _ _ | .writev _ _ => ∃ start : ℕ, f.start = start ∧ f' = f.after start data
    | .pwrite64 _ _ d e | .fsWrite _ _ d e =>
      f' = { f with bytes := writeAt f.bytes (target f (offset64 d e)) data }

/-- A result that is not negative is the number of bytes of the guest that have been written.  With another one
nothing has changed. -/
def Truthful (memory : List UInt8) (f : File) (op : Op) (result : ℤ) (f' : File) : Prop :=
  if 0 ≤ result then ∃ data : List UInt8, data.length = result ∧ op.Gives memory data ∧ op.Stored f data f'
  else f' = f

/-- The result of a write to a regular file is true. -/
def World.Truthful (w : World) (ev : Event) (w' : World) : Prop :=
  ∀ (pid : ℤ) (a : Int32) (op : Op) (p : Proc) (h : ℤ) (f : File), ev = .syscall pid (op.syscall a) →
    w.sys.io.kernel.processTable.get? pid = some p → op.Handle p a h → Has w.sys.io pid h f (w.view pid) →
      ∃ f', Has w'.sys.io pid h f' (w.view pid) ∧
        WrittenCounts.Truthful (w.guest pid) f op (result w pid (op.syscall a)) f'

/-! ### The condition -/

/-- A write of `n` bytes throws before anything has changed: at a negative position, or without room. -/
def Untouched (f : File) (n : ℕ) : Prop :=
  if f.start < 0 then ¬ (f.bytes.length < f.start + n ∧ f.start + n ≤ f.limit)
  else ¬ f.Room (f.start + n) ∧ f.start = f.position

/-- A write of `n` bytes has room, and the word of the result can say it.  A write of no bytes finds the position
in the file, and at its end with `O_APPEND`. -/
structure Whole (f : File) (n : ℕ) : Prop where
  start : 0 ≤ f.start
  room : f.Room (f.start + n)
  word : n < 2 ^ 31
  none : n = 0 → f.start = f.position ∧ f.start ≤ f.bytes.length

/-- A loop over the entries of a vector throws before anything has changed. -/
def Clean (f : File) (view : List UInt8) (iov : ℕ) : ℕ → ℕ → Prop
  | 0, _ => False
  | rounds + 1, i =>
    if view.length < iov + i * 8 + 8 then True
    else
      let base := leNat (slice view (iov + i * 8) 4)
      let len := leNat (slice view (iov + i * 8 + 4) 4)
      let found := (slice view base len).length
      f.limit < found ∨ Untouched f found ∨ len = 0 ∧ Whole f 0 ∧ Clean f view iov rounds (i + 1)

/-- The condition.  The view of the kernel reaches the buffers, and there is room; or the call fails before anything
has changed.  With a handle instead of a descriptor the bytes that there are need to have room. -/
def Op.Fits (f : File) (view : List UInt8) : Op → Prop
  | .write b c =>
    let found := (slice view (unsigned b) (unsigned c)).length
    f.limit < found ∨ Untouched f found ∨ found = unsigned c ∧ Whole f found
  | .writev b c =>
    Clean f view (unsigned b) c.toInt.toNat 0 ∨ c.toInt ≤ 0 ∨
      ∃ segs : List (ℕ × ℕ), segs.length = c.toInt.toNat ∧ Entries view (unsigned b) 0 segs ∧ Full view segs ∧
        (∀ e ∈ segs, e.2 ≤ f.limit) ∧ Whole f (total segs)
  | .pwrite64 b c d e =>
    let found := (slice view (unsigned b) (unsigned c)).length
    f.limit < found ∨ ¬ f.Room (target f (offset64 d e) + found : ℕ) ∨
      found = unsigned c ∧ found < 2 ^ 31 ∧ (found = 0 → target f (offset64 d e) ≤ f.bytes.length)
  | .fsWrite b c d e =>
    let found := (slice view (unsigned b) (unsigned c)).length
    f.limit < found ∨ ¬ f.Room (target f (offset64 d e) + found : ℕ) ∨
      found < 2 ^ 31 ∧ (found = 0 → target f (offset64 d e) ≤ f.bytes.length)

/-- The condition on an event.  Before the memory is registered every write fails. -/
def World.Fits (w : World) (ev : Event) : Prop :=
  ∀ (pid : ℤ) (a : Int32) (op : Op) (p : Proc) (h : ℤ) (f : File), ev = .syscall pid (op.syscall a) →
    w.sys.io.kernel.processTable.get? pid = some p → op.Handle p a h → Has w.sys.io pid h f (w.view pid) →
      p.wasmMemory = true → op.Fits f (w.view pid)

/-! ### The view -/

/-- The view of the kernel is a part of the memory, from the first byte on. -/
def World.Shared (w : World) : Prop := ∀ pid, w.view pid <+: w.guest pid

def Step (w : World) (ev : Event) (w' : World) : Prop := w' = after w ev

theorem shared_share (w : World) (sys : Syscalls.State) : (w.share sys).Shared :=
  fun _ => List.prefix_append _ _

theorem shared_after {w : World} (h : w.Shared) (ev : Event) : (after w ev).Shared := by
  cases ev with
  | store pid addr bytes =>
      unfold after
      dsimp only
      split_ifs
      · intro q
        unfold World.view Syscalls.after
        dsimp only
        rcases eq_or_ne q pid with rfl | hne
        · rw [Function.update_self, Function.update_self]
          exact List.take_prefix _ _
        · rw [Function.update_of_ne hne, Function.update_of_ne hne]
          exact h q
      · exact h
  | grow pid count =>
      intro q
      show w.view q <+: Function.update w.guest pid _ q
      rcases eq_or_ne q pid with rfl | hne
      · rw [Function.update_self]
        exact (h q).trans (List.prefix_append _ _)
      · rw [Function.update_of_ne hne]
        exact h q
  | post pid => exact h
  | deliver =>
      unfold after
      dsimp only
      split
      · exact h
      · rename_i pid length posted _
        intro q
        show Function.update w.sys.io.memory pid _ q <+: w.guest q
        rcases eq_or_ne q pid with rfl | hne
        · rw [Function.update_self]
          exact List.take_prefix _ _
        · rw [Function.update_of_ne hne]
          exact h q
  | syscall => exact shared_share w _
  | registerWorker => exact shared_share w _
  | unregisterWorker => exact shared_share w _
  | workerExit => exact shared_share w _

/-- **The view of the kernel is a part of the memory.** -/
theorem shared_of_isRun {w : World} {tr : List (Event × World)} (h : w.Shared) (hrun : IsRun Step w tr) :
    Throughout World.Shared w tr := by
  refine throughout_of_isRun ?_ h hrun
  rintro w ev w' hw rfl
  exact shared_after hw ev

/-! ### Buffers -/

section Buffers

variable {io : FileIo.State} {pid h : ℤ} {f : File} {view memory : List UInt8} {p : Proc}

theorem Has.throws_slice (hh : Has io pid h f view) (hp : p.wasmMemory = true) {addr count : ℕ}
    (hfull : f.limit < (slice view addr count).length) : Throws (sliceGuest pid p addr count) io () io := by
  have hview := Has.returns_view hh hp addr count
  obtain ⟨-, -, -, -, -, -, -, hlimit⟩ := hh
  exact hview.throws (throws_alloc (hlimit ▸ hfull)).bind

theorem throws_guestMemory (hp : p.wasmMemory = false) : Throws (guestMemory pid p) io () io := by
  unfold guestMemory
  rw [if_neg (by simp [hp])]
  exact throws_throw () io

/-- Before the memory is registered nothing can be copied. -/
theorem throws_unregistered (hp : p.wasmMemory = false) (addr count : ℕ) :
    Throws (sliceGuest pid p addr count) io () io := by
  have hview : Throws (viewGuest pid p addr count) io () io := (throws_guestMemory hp).bind
  exact hview.bind

/-- What the kernel sees of a buffer is what the guest has there. -/
theorem slice_within (hview : view <+: memory) (addr count : ℕ) :
    (slice view addr count).map some <+: (List.range' addr count).map fun i => memory[i]? := by
  rw [List.prefix_iff_getElem?]
  intro i hi
  rw [List.length_map] at hi
  unfold slice at hi
  rw [List.length_take, List.length_drop] at hi
  obtain ⟨more, rfl⟩ := hview
  have hrange : (List.range' addr count)[i]? = some (addr + i) := by
    rw [List.getElem?_range' (by omega), Nat.one_mul]
  have hlt : addr + i < view.length := by omega
  have hsome : (view ++ more)[addr + i]? = some view[addr + i] := by
    rw [List.getElem?_append_left hlt, List.getElem?_eq_getElem]
  rw [List.getElem?_map, hrange, Option.map_some, hsome, List.getElem_map]
  unfold slice
  rw [List.getElem_take, List.getElem_drop]

/-- So are the buffers of a vector that the kernel sees whole. -/
theorem gather_within (hview : view <+: memory) {segs : List (ℕ × ℕ)} (hfull : Full view segs) :
    (FilePieces.gather view segs).map some = (segs.flatMap fun e => List.range' e.1 e.2).map fun i => memory[i]? := by
  induction segs with
  | nil => rfl
  | cons e segs ih =>
      have hlen := hfull e List.mem_cons_self
      have hfirst : (slice view e.1 e.2).map some = (List.range' e.1 e.2).map fun i => memory[i]? :=
        (slice_within hview e.1 e.2).eq_of_length (by rw [List.length_map, List.length_map, List.length_range', hlen])
      have hrest := ih fun e he => hfull e (List.mem_cons_of_mem _ he)
      unfold FilePieces.gather at hrest ⊢
      rw [List.flatMap_cons, List.flatMap_cons, List.map_append, List.map_append, hfirst, hrest]

theorem slice_eq_within (hview : view <+: memory) {addr count : ℕ} (hin : addr + count ≤ view.length) :
    slice view addr count = slice memory addr count := by
  obtain ⟨more, rfl⟩ := hview
  unfold slice
  rw [List.drop_append_of_le_length (by omega), List.take_append_of_le_length (by rw [List.length_drop]; omega)]

/-- The entries that the kernel sees are those of the guest. -/
theorem Entries.of_prefix (hview : view <+: memory) {iov i : ℕ} {segs : List (ℕ × ℕ)} (he : Entries view iov i segs) :
    Entries memory iov i segs := by
  induction segs generalizing i with
  | nil => trivial
  | cons e segs ih =>
      obtain ⟨base, len⟩ := e
      obtain ⟨hin, hbase, hlen, hrest⟩ := he
      rw [slice_eq_within hview (by omega)] at hbase hlen
      exact ⟨Nat.le_trans hin hview.length_le, hbase, hlen, ih hrest⟩

end Buffers

/-! ### The calls -/

section Calls

variable {io io' : FileIo.State} {pid h : ℤ} {f f' : File} {view memory : List UInt8} {p : Proc} {a : Int32} {op : Op}
  {x : Io ℤ}

/-- A call ends with a true result. -/
def Tells (x : Io ℤ) (io : FileIo.State) (pid h : ℤ) (f : File) (view memory : List UInt8) (op : Op) : Prop :=
  ∃ io' n ok f', Ends x io n io' ok ∧ Has io' pid h f' view ∧
    Truthful memory f op (Int32.ofInt (if ok then n else -1)).toInt f'

/-- An exception, with nothing changed. -/
theorem tells_of_throws (hx : Throws x io () io') (hh : Has io' pid h f view) : Tells x io pid h f view memory op := by
  refine ⟨io', 0, false, f, hx, hh, ?_⟩
  unfold Truthful
  rw [if_neg (by decide)]

/-- The number of bytes that have been written. -/
theorem tells_of_returns {data : List UInt8} {n : ℤ} (hx : Returns x io n io') (hn : n = data.length)
    (hlen : data.length < 2 ^ 31) (hh : Has io' pid h f' view) (hgives : op.Gives memory data)
    (hstored : op.Stored f data f') : Tells x io pid h f view memory op := by
  refine ⟨io', n, true, f', hx, hh, ?_⟩
  have hword : (Int32.ofInt (if true then n else -1)).toInt = data.length := by
    rw [if_pos rfl, hn]
    exact Int32.toInt_ofInt_of_le (by omega) (by omega)
  unfold Truthful
  rw [hword, if_pos (Int.natCast_nonneg _)]
  exact ⟨data, rfl, hgives, hstored⟩

/-! #### At the position -/

theorem write_of_untouched {data : List UInt8} (hf : Untouched f data.length) : f.write data = (f, false) := by
  unfold Untouched at hf
  unfold File.write
  dsimp only
  split_ifs at hf with hneg
  · have hposition : f.start = f.position := (start_eq_position_iff f).2 fun happend => by
      unfold File.start at hneg
      rw [if_pos happend] at hneg
      omega
    rw [hposition] at hneg hf ⊢
    split_ifs
    · rfl
    · rw [padTo_self (by omega)]
  · obtain ⟨hroom, hposition⟩ := hf
    unfold File.Room at hroom
    rw [if_pos (by omega), hposition]

theorem stored_of_whole {data : List UInt8} (hf : Whole f data.length) (hop : ∀ g, op.Stored f data g ↔
      if data = [] then g = f else ∃ start : ℕ, f.start = start ∧ g = f.after start data) :
    (f.write data).2 = true ∧ op.Stored f data (f.write data).1 := by
  obtain ⟨start, hstart⟩ : ∃ q : ℕ, f.start = q := ⟨f.start.toNat, by have := hf.start; omega⟩
  have hroom := hf.room
  rw [hstart, ← Int.natCast_add] at hroom
  rw [write_of_start hstart, if_pos hroom, hop]
  refine ⟨rfl, ?_⟩
  split_ifs with hnil
  · obtain ⟨hposition, hin⟩ := hf.none (by rw [hnil, List.length_nil])
    rw [hstart] at hposition hin
    subst hnil
    unfold File.after
    rw [(writeAt_nil_iff _ _).2 (by omega), List.length_nil, Nat.add_zero, hposition]
  · exact ⟨start, hstart, rfl⟩

/-- Where a write throws, the length that is added after it does not matter. -/
theorem writeNext_of_none {limit : ℕ} {v v' : Vfs} {buf : List UInt8} {length : ℕ}
    (hnone : VirtualFs.writeNext limit v h buf length = (v', none)) (length' : ℕ) :
    VirtualFs.writeNext limit v h buf length' = (v', none) := by
  unfold VirtualFs.writeNext at hnone ⊢
  cases hfile : v.openFiles.get? h with
  | none =>
      rw [hfile] at hnone
      cases hnone
  | some file =>
      rw [hfile] at hnone
      dsimp only at hnone ⊢
      cases hstart : startPosition v file with
      | none =>
          rw [hstart] at hnone
          exact hnone
      | some position =>
          rw [hstart] at hnone
          dsimp only at hnone ⊢
          generalize writeFile limit (VirtualFs.seek v h position) h buf position = outcome at hnone ⊢
          obtain ⟨v₁, written⟩ := outcome
          cases written with
          | none => exact hnone
          | some n => cases hnone

/-- A write at the position that leaves the file alone. -/
theorem Has.throws_next (hh : Has io pid h f view) {data : List UInt8} (hf : Untouched f data.length) (length : ℕ) :
    ∃ io', Throws (onVfs fun limit v => VirtualFs.writeNext limit v h data length) io () io' ∧
      Has io' pid h f view := by
  obtain ⟨v, hwrite, hhas⟩ := Has.writeNext hh data
  rw [write_of_untouched hf] at hwrite hhas
  exact ⟨withVfs io v, throws_onVfs (writeNext_of_none hwrite length), hhas⟩

/-- `write` -/
theorem tells_write (hh : Has io pid h f view) (hview : view <+: memory) {b c : Int32}
    (hentry : (Op.write b c).Handle p a h) (hf : p.wasmMemory = true → (Op.write b c).Fits f view) :
    Tells (sysWrite pid p a b c) io pid h f view memory (.write b c) := by
  obtain ⟨cell, hentry⟩ := hentry
  have hsys : sysWrite pid p a b c = (do
      let buf ← sliceGuest pid p (unsigned b) (unsigned c)
      onVfs fun limit v => VirtualFs.writeNext limit v h buf (unsigned c)) := by
    unfold sysWrite withEntry
    rw [hentry]
  rw [hsys]
  cases hp : p.wasmMemory with
  | false => exact tells_of_throws (throws_unregistered hp _ _).bind hh
  | true =>
      rcases hf hp with hfull | hf
      · exact tells_of_throws (Has.throws_slice hh hp hfull).bind hh
      by_cases hfull : f.limit < (slice view (unsigned b) (unsigned c)).length
      · exact tells_of_throws (Has.throws_slice hh hp hfull).bind hh
      have hslice := Has.returns_slice hh hp (Nat.le_of_not_lt hfull)
      rcases hf with huntouched | ⟨hfound, hwhole⟩
      · obtain ⟨io', hthrows, hhas⟩ := Has.throws_next hh huntouched (unsigned c)
        exact tells_of_throws (hslice.throws hthrows) hhas
      · obtain ⟨v, hwrite, hhas⟩ := Has.writeNext hh (slice view (unsigned b) (unsigned c))
        obtain ⟨hok, hstored⟩ := @stored_of_whole f (.write b c) _ hwhole fun _ => Iff.rfl
        rw [hok, if_pos rfl, hfound] at hwrite
        exact tells_of_returns (hslice.bind (returns_onVfs hwrite)) (congrArg Nat.cast hfound.symm) hwhole.word hhas
          ⟨_, rfl, slice_within hview _ _⟩ hstored

/-! #### At an offset -/

/-- A write at an offset. -/
theorem Has.writeFile (hh : Has io pid h f view) (data : List UInt8) (offset : ℕ) :
    ∃ v, VirtualFs.writeFile io.limit io.kernel.vfs h data offset =
        (v, if f.Room (target f offset + data.length : ℕ) then some (data.length : ℤ) else none) ∧
      Has (withVfs io v) pid h
        (if f.Room (target f offset + data.length : ℕ) then { f with bytes := writeAt f.bytes (target f offset) data }
        else f) view := by
  obtain ⟨file, content, hr, hbytes, hposition, happend, hmemory, hlimit⟩ := hh
  have hstart : startOf io.kernel.vfs file content offset = target f offset := by
    unfold startOf target
    rw [hbytes, happend]
  have hwrite := hr.writeFile_eq io.limit data offset
  rw [hstart] at hwrite
  have hiff : f.Room (target f offset + data.length : ℕ) ↔
      target f offset + data.length ≤ (bytesOf io.kernel.vfs content).length ∨
        target f offset + data.length ≤ io.limit := by
    unfold File.Room
    rw [hbytes, hlimit]
    omega
  by_cases hroom : f.Room (target f offset + data.length : ℕ)
  · obtain ⟨v, hcontent, content', hr', hbytes'⟩ :=
      hr.writeContent_room io.limit file.path data (target f offset) (hiff.1 hroom)
    rw [if_pos hroom, if_pos hroom, hwrite, hcontent]
    exact ⟨v, rfl, _, content', hr', by rw [← hbytes]; exact hbytes', hposition, happend, hmemory, hlimit⟩
  · have hcontent := writeContent_full io.limit io.kernel.vfs h content file.path data (target f offset)
      fun h => hroom (hiff.2 h)
    rw [if_neg hroom, if_neg hroom, hwrite, hcontent]
    exact ⟨_, rfl, file, content, hr, hbytes, hposition, happend, hmemory, hlimit⟩

theorem stored_at {data : List UInt8} {offset : ℕ} (hin : data.length = 0 → target f offset ≤ f.bytes.length)
    (hop : ∀ g, op.Stored f data g ↔
      if data = [] then g = f else g = { f with bytes := writeAt f.bytes (target f offset) data }) :
    op.Stored f data { f with bytes := writeAt f.bytes (target f offset) data } := by
  rw [hop]
  split_ifs with hnil
  · subst hnil
    rw [(writeAt_nil_iff _ _).2 (hin rfl)]
  · rfl

/-- `pwrite64` -/
theorem tells_pwrite64 (hh : Has io pid h f view) (hview : view <+: memory) {b c d e : Int32}
    (hentry : (Op.pwrite64 b c d e).Handle p a h) (hf : p.wasmMemory = true → (Op.pwrite64 b c d e).Fits f view) :
    Tells (sysPwrite64 pid p a b c d e) io pid h f view memory (.pwrite64 b c d e) := by
  obtain ⟨cell, hentry⟩ := hentry
  have hsys : sysPwrite64 pid p a b c d e = withFile h fun _ => do
      let src ← sliceGuest pid p (unsigned b) (unsigned c)
      let _ ← onVfs fun limit v => VirtualFs.writeFile limit v h src (offset64 d e)
      return unsigned c := by
    unfold sysPwrite64 withEntry
    rw [hentry]
  obtain ⟨file, content, hr, -⟩ := id hh
  rw [hsys]
  cases hp : p.wasmMemory with
  | false => exact tells_of_throws (throws_withFile hr.opened (throws_unregistered hp _ _).bind) hh
  | true =>
      by_cases hfull : f.limit < (slice view (unsigned b) (unsigned c)).length
      · exact tells_of_throws (throws_withFile hr.opened (Has.throws_slice hh hp hfull).bind) hh
      have hslice := Has.returns_slice hh hp (Nat.le_of_not_lt hfull)
      obtain ⟨v, hwrite, hhas⟩ := Has.writeFile hh (slice view (unsigned b) (unsigned c)) (offset64 d e)
      by_cases hroom : f.Room (target f (offset64 d e) + (slice view (unsigned b) (unsigned c)).length : ℕ)
      · rw [if_pos hroom] at hwrite hhas
        obtain ⟨hfound, hword, hin⟩ := ((hf hp).resolve_left hfull).resolve_left (not_not_intro hroom)
        exact tells_of_returns
          (returns_withFile hr.opened (hslice.bind ((returns_onVfs hwrite).bind (returns_pure _ _))))
          (congrArg Nat.cast hfound.symm) hword hhas ⟨_, rfl, slice_within hview _ _⟩ (stored_at hin fun _ => Iff.rfl)
      · rw [if_neg hroom] at hwrite hhas
        exact tells_of_throws (throws_withFile hr.opened (hslice.throws (throws_onVfs hwrite).bind)) hhas

/-- The call of the worker's imports. -/
theorem tells_fsWrite (hh : Has io pid h f view) (hview : view <+: memory) {b c d e : Int32}
    (hentry : (Op.fsWrite b c d e).Handle p a h) (hf : p.wasmMemory = true → (Op.fsWrite b c d e).Fits f view) :
    Tells (Syscalls.sysFsWrite pid p a b c d e) io pid h f view memory (.fsWrite b c d e) := by
  obtain rfl : a.toInt = h := hentry
  unfold Syscalls.sysFsWrite
  cases hp : p.wasmMemory with
  | false => exact tells_of_throws (throws_unregistered hp _ _).bind hh
  | true =>
      by_cases hfull : f.limit < (slice view (unsigned b) (unsigned c)).length
      · exact tells_of_throws (Has.throws_slice hh hp hfull).bind hh
      have hslice := Has.returns_slice hh hp (Nat.le_of_not_lt hfull)
      obtain ⟨v, hwrite, hhas⟩ := Has.writeFile hh (slice view (unsigned b) (unsigned c)) (offset64 d e)
      by_cases hroom : f.Room (target f (offset64 d e) + (slice view (unsigned b) (unsigned c)).length : ℕ)
      · rw [if_pos hroom] at hwrite hhas
        obtain ⟨hword, hin⟩ := ((hf hp).resolve_left hfull).resolve_left (not_not_intro hroom)
        exact tells_of_returns (hslice.bind (returns_onVfs hwrite)) rfl hword hhas ⟨_, rfl, slice_within hview _ _⟩
          (stored_at hin fun _ => Iff.rfl)
      · rw [if_neg hroom] at hwrite hhas
        exact tells_of_throws (hslice.throws (throws_onVfs hwrite)) hhas

/-! #### A vector -/

/-- Where the kernel does not see an entry, loading it throws. -/
theorem Has.throws_loadIov (hh : Has io pid h f view) (hp : p.wasmMemory = true) {iov i : ℕ}
    (hout : view.length < iov + i * 8 + 8) : Throws (loadIov pid p iov i) io () io := by
  have hword {addr : ℕ} (hout : view.length < addr + 4) : Throws (loadWord pid p addr) io () io := by
    obtain ⟨-, -, -, -, -, -, hmemory, -⟩ := hh
    refine (returns_guestMemory hp).throws ?_
    rw [hmemory, if_pos hout]
    exact (throws_throw () io).bind
  by_cases hfirst : view.length < iov + i * 8 + 4
  · exact (hword hfirst).bind
  · exact (hh.returns_loadWord hp (by omega)).throws (hword (by omega)).bind

/-- The round of the loop. -/
def writeRound (pid h : ℤ) (p : Proc) (_ : ℤ) (iovBase iovLen : ℕ) : Io ℤ := do
  let buf ← sliceGuest pid p iovBase iovLen
  onVfs fun limit v => VirtualFs.writeNext limit v h buf iovLen

/-- **A loop that fails before anything has changed.** -/
theorem Has.throws_loop (hp : p.wasmMemory = true) {iov rounds i : ℕ} (hh : Has io pid h f view)
    (hclean : Clean f view iov rounds i) (total : ℤ) :
    ∃ io', Throws (iovLoop pid p iov (writeRound pid h p) false rounds i total) io () io' ∧
      Has io' pid h f view := by
  induction rounds generalizing io i total with
  | zero => exact hclean.elim
  | succ rounds ih =>
      rw [Clean] at hclean
      rw [iovLoop]
      by_cases hout : view.length < iov + i * 8 + 8
      · exact ⟨io, (Has.throws_loadIov hh hp hout).bind, hh⟩
      rw [if_neg hout] at hclean
      obtain ⟨base, hbase⟩ : ∃ n, leNat (slice view (iov + i * 8) 4) = n := ⟨_, rfl⟩
      obtain ⟨len, hlen⟩ : ∃ n, leNat (slice view (iov + i * 8 + 4) 4) = n := ⟨_, rfl⟩
      rw [hbase, hlen] at hclean
      have hiov : Returns (loadIov pid p iov i) io (base, len) io :=
        @Has.returns_loadIov io pid h f view p hh hp iov i base len [] ⟨Nat.le_of_not_lt hout, hbase, hlen, trivial⟩
      by_cases hfull : f.limit < (slice view base len).length
      · exact ⟨io, hiov.throws (Has.throws_slice hh hp hfull).bind.bind, hh⟩
      have hslice := Has.returns_slice hh hp (Nat.le_of_not_lt hfull)
      rcases hclean.resolve_left hfull with huntouched | ⟨rfl, hwhole, hrest⟩
      · obtain ⟨io', hthrows, hhas⟩ := Has.throws_next hh huntouched len
        have hround : Throws (writeRound pid h p total base len) io () io' := hslice.throws hthrows
        exact ⟨io', hiov.throws hround.bind, hhas⟩
      · -- an empty buffer: nothing has changed
        have hnil : slice view base 0 = [] := List.take_zero
        obtain ⟨hposition, hin⟩ := hwhole.none rfl
        have hsame : f.write [] = (f, true) := by
          have hstart := hwhole.start
          exact (write_nil_iff f).2 ⟨by omega, (start_eq_position_iff f).1 hposition, by omega⟩
        obtain ⟨v, hwrite, hhas⟩ := Has.writeNext hh []
        rw [hsame] at hwrite hhas
        rw [hnil] at hslice
        have hround : Returns (writeRound pid h p total base 0) io 0 (withVfs io v) :=
          hslice.bind (returns_onVfs hwrite)
        obtain ⟨io', hthrows, hhas'⟩ := ih hhas hrest (total + 0)
        refine ⟨io', hiov.throws (hround.throws ?_), hhas'⟩
        rw [if_neg (by simp)]
        exact hthrows

/-- The buffers that the kernel sees whole, one after the other. -/
theorem length_gather {segs : List (ℕ × ℕ)} (hfull : Full view segs) :
    (FilePieces.gather view segs).length = total segs := by
  induction segs with
  | nil => rfl
  | cons e segs ih =>
      have hrest := ih fun e he => hfull e (List.mem_cons_of_mem _ he)
      have hlen := hfull e List.mem_cons_self
      unfold FilePieces.gather total at hrest ⊢
      rw [List.flatMap_cons, List.length_append, hrest, hlen, List.map_cons, List.sum_cons]

/-- `writev` -/
theorem tells_writev (hh : Has io pid h f view) (hview : view <+: memory) {b c : Int32}
    (hentry : (Op.writev b c).Handle p a h) (hf : p.wasmMemory = true → (Op.writev b c).Fits f view) :
    Tells (sysWritev pid p a b c) io pid h f view memory (.writev b c) := by
  obtain ⟨cell, hentry⟩ := hentry
  obtain ⟨file, content, hr, -⟩ := id hh
  have hsys : sysWritev pid p a b c =
      withFile h fun _ => iovLoop pid p (unsigned b) (writeRound pid h p) false c.toInt.toNat 0 0 := by
    unfold sysWritev withEntry
    rw [hentry]
    rfl
  rw [hsys]
  -- no entries, no bytes
  have hempty (hzero : c.toInt.toNat = 0) : Tells
      (withFile h fun _ => iovLoop pid p (unsigned b) (writeRound pid h p) false c.toInt.toNat 0 0) io pid h f view
        memory (.writev b c) := by
    rw [hzero]
    refine @tells_of_returns _ _ _ _ _ f _ _ (.writev b c) _ [] 0 (returns_withFile hr.opened (returns_pure _ _)) rfl
      (by decide) hh ⟨[], ⟨[], hzero.symm, trivial, rfl⟩, List.nil_prefix⟩ ?_
    unfold Op.Stored
    rw [if_pos rfl]
  cases hp : p.wasmMemory with
  | false =>
      cases hrounds : c.toInt.toNat with
      | zero => exact hrounds ▸ hempty hrounds
      | succ rounds =>
          have hword : Throws (loadWord pid p (unsigned b + 0 * 8)) io () io := (throws_guestMemory hp).bind
          have hiov : Throws (loadIov pid p (unsigned b) 0) io () io := hword.bind
          exact tells_of_throws (throws_withFile hr.opened hiov.bind) hh
  | true =>
      rcases hf hp with hclean | hneg | ⟨segs, hcount, hentries, hfull, hmax, hwhole⟩
      · obtain ⟨io', hthrows, hhas⟩ := Has.throws_loop hp hh hclean 0
        exact tells_of_throws (throws_withFile hr.opened hthrows) hhas
      · exact hempty (Int.toNat_of_nonpos hneg)
      · cases segs with
        | nil => exact hempty hcount.symm
        | cons e segs =>
            obtain ⟨io', hends, hhas⟩ := ends_writes hp 0 hh hentries hfull hmax
            have hflat : ((e :: segs).map fun e => slice view e.1 e.2).flatten = FilePieces.gather view (e :: segs) :=
              (List.flatMap_def).symm
            have hlen := length_gather hfull
            rw [← hlen] at hwhole
            obtain ⟨start, hstart⟩ : ∃ q : ℕ, f.start = q := ⟨f.start.toNat, by have := hwhole.start; omega⟩
            have hroom := hwhole.room
            rw [hstart, ← Int.natCast_add, ← hflat] at hroom
            have hwritev := writev_cons_of_room hstart hroom
            rw [List.map_cons] at hflat hends hhas
            rw [hflat] at hwritev
            obtain ⟨hok, hstored⟩ := @stored_of_whole f (.writev b c) _ hwhole fun _ => Iff.rfl
            rw [hwritev, hok, hcount] at hends
            rw [hwritev] at hhas
            have hgives : (Op.writev b c).Gives memory (FilePieces.gather view (e :: segs)) :=
              ⟨_, ⟨_, hcount, Entries.of_prefix hview hentries, rfl⟩, (gather_within hview hfull).symm ▸ List.prefix_rfl⟩
            exact tells_of_returns (returns_withFile hr.opened hends) (by rw [hlen, Int.zero_add]) hwhole.word hhas
              hgives hstored

end Calls

/-! ### Runs -/

/-- The result of a syscall that ends so. -/
theorem truthful_of_eq {w : World} {pid h : ℤ} {a : Int32} {op : Op} {f f' : File} {io' : FileIo.State} {n : ℤ}
    (hcall : Syscalls.handleSyscall w.sys pid (op.syscall a) = ({ w.sys with io := io' }, some n))
    (hhas : Has io' pid h f' (w.view pid)) (htrue : Truthful (w.guest pid) f op (Int32.ofInt n).toInt f') :
    ∃ f', Has (after w (.syscall pid (op.syscall a))).sys.io pid h f' (w.view pid) ∧
      Truthful (w.guest pid) f op (result w pid (op.syscall a)) f' := by
  have hsys : (after w (.syscall pid (op.syscall a))).sys = { w.sys with io := io' } := congrArg Prod.fst hcall
  refine ⟨f', ?_, ?_⟩
  · rw [hsys]
    exact hhas
  · unfold result
    rw [hcall]
    exact htrue

theorem handleSyscall_file {s : Syscalls.State} {pid : ℤ} {p : Proc} {a : Int32} {call : FileCall} {n : ℤ} {ok : Bool}
    {io' : FileIo.State} (hp : s.io.kernel.processTable.get? pid = some p)
    (hends : Ends (fileHandler pid p a call) s.io n io' ok) :
    Syscalls.handleSyscall s pid (.file a call) = ({ s with io := io' }, some (if ok then n else -1)) := by
  unfold Syscalls.handleSyscall
  rw [hp]
  dsimp only
  rw [handleFileCall_of_ends hp hends]

/-- **A write that meets the condition.** -/
theorem truthful_of_fits {w : World} (hw : w.Shared) {ev : Event} (hf : w.Fits ev) : w.Truthful ev (after w ev) := by
  rintro pid a op p h f rfl hp hentry hh
  have hfits := hf pid a op p h f rfl hp hentry hh
  cases op with
  | write b c =>
      obtain ⟨io', n, ok, f', hends, hhas, htrue⟩ := @tells_write _ pid h f _ _ p a hh (hw pid) b c hentry hfits
      exact truthful_of_eq (@handleSyscall_file w.sys pid p a (.write b c) n ok io' hp hends) hhas htrue
  | writev b c =>
      obtain ⟨io', n, ok, f', hends, hhas, htrue⟩ := @tells_writev _ pid h f _ _ p a hh (hw pid) b c hentry hfits
      exact truthful_of_eq (@handleSyscall_file w.sys pid p a (.writev b c) n ok io' hp hends) hhas htrue
  | pwrite64 b c d e =>
      obtain ⟨io', n, ok, f', hends, hhas, htrue⟩ := @tells_pwrite64 _ pid h f _ _ p a hh (hw pid) b c d e hentry hfits
      exact truthful_of_eq (@handleSyscall_file w.sys pid p a (.pwrite64 b c d e) n ok io' hp hends) hhas htrue
  | fsWrite b c d e =>
      obtain ⟨io', n, ok, f', hends, hhas, htrue⟩ := @tells_fsWrite _ pid h f _ _ p a hh (hw pid) b c d e hentry hfits
      refine truthful_of_eq ?_ hhas htrue
      unfold Syscalls.handleSyscall Op.syscall
      rw [hp]
      dsimp only [Syscalls.handler]
      rw [attempt_of_ends hends]

/-- **When the counts are true, in a run.** -/
theorem truthful_of_meets {w : World} {tr : List (Event × World)} (hstart : w.Shared) (hrun : IsRun Step w tr)
    (hmeets : Meets World.Fits w tr) : EachStep World.Truthful w tr := by
  refine eachStep_of_meets ?_ hstart hrun hmeets
  rintro w ev w' hw hf rfl
  exact ⟨shared_after hw ev, truthful_of_fits hw hf⟩

/-! ### A view that lags behind -/

/-- A process with an open file and two bytes of memory. -/
def opened : World where
  sys := { Isolation.opened with io := { Isolation.opened.io with limit := 1048576, memory := fun _ => [7, 8] } }
  guest := fun _ => [7, 8]
  posted := []

theorem shared_opened : opened.Shared := fun _ => List.prefix_rfl

/-- The guest has two more bytes. -/
def grows : List Event := [.grow 1 2, .store 1 2 [1, 2]]

/-- Its write of these bytes, at file descriptor 4. -/
def writes : Event := .syscall 1 ((Op.write 2 2).syscall 4)

theorem has_of_check {io : FileIo.State} {pid h : ℤ} {f : File}
    (hfile : (io.kernel.vfs.openFiles.get? h).any (fun file =>
      file.special = none ∧ file.isDir = false ∧ file.position = f.position ∧ file.append = f.append ∧
        file.content.any fun content =>
          content < io.kernel.vfs.buffers.length ∧ bytesOf io.kernel.vfs content = f.bytes) = true)
    (hlimit : io.limit = f.limit) : Has io pid h f (io.memory pid) := by
  obtain ⟨file, hopened, hprop⟩ := (Option.any_eq_true _ _).1 hfile
  obtain ⟨hspecial, hdir, hpos, happend, hcontent⟩ := of_decide_eq_true hprop
  obtain ⟨content, hholds, hbuf⟩ := (Option.any_eq_true _ _).1 hcontent
  obtain ⟨hstored, hbytes⟩ := of_decide_eq_true hbuf
  exact ⟨file, content, ⟨hopened, hspecial, hdir, hholds, hstored⟩, hbytes, hpos, happend, rfl, hlimit⟩

/-- The kernel gets the longer memory. -/
def sends : List Event := grows ++ [.post 1, .deliver]

theorem fits_writes : World.Fits (sends.foldl after opened) writes := by
  rintro pid a op p h f hev hp hentry hh -
  have hempty : Has (sends.foldl after opened).sys.io 1 4 ⟨[], 0, false, 1048576⟩ _ :=
    has_of_check (by decide +kernel) (by decide +kernel)
  have hfd : ((sends.foldl after opened).sys.io.kernel.processTable.get? 1).any (fun p =>
      (p.fdTable.get? 4).any fun entry => entry.kind = .file 4) = true := by decide +kernel
  have hview : (sends.foldl after opened).view 1 = [7, 8, 1, 2] := by decide +kernel
  cases op with
  | write b c =>
      cases hev
      obtain ⟨cell, hentry⟩ := hentry
      obtain ⟨p', hp', hentry'⟩ := (Option.any_eq_true _ _).1 hfd
      obtain rfl : p = p' := Option.some.inj (hp.symm.trans hp')
      obtain ⟨entry, hget, hkind⟩ := (Option.any_eq_true _ _).1 hentry'
      obtain rfl : entry = ⟨.file h, cell⟩ := Option.some.inj (hget.symm.trans hentry)
      obtain rfl : h = 4 := by simpa using hkind
      obtain rfl := hh.unique hempty
      rw [hview]
      exact .inr (.inr ⟨by decide, by decide, .inr (by decide), by decide, by decide⟩)
  | writev | pwrite64 | fsWrite => cases hev

theorem truthful_of_meets_sends : EachStep World.Truthful opened (trace after opened (sends ++ [writes])) := by
  have hplain {w : World} {ev : Event} (hev : ∀ pid a op, ev ≠ .syscall pid (Op.syscall a op)) : w.Fits ev :=
    fun pid a op _ _ _ h => absurd h (hev pid a op)
  exact truthful_of_meets shared_opened (isRun_trace after opened (sends ++ [writes]))
    ⟨hplain nofun, hplain nofun, hplain nofun, hplain nofun, fits_writes, trivial⟩

/-- **The kernel counts bytes that it has not seen.** -/
theorem not_truthful : ¬ ∀ (w : World) (tr : List (Event × World)), w.Shared → IsRun Step w tr →
    EachStep World.Truthful w tr := by
  intro hall
  have hsteps := hall opened (trace after opened (grows ++ [writes])) shared_opened (isRun_trace _ _ _)
  have hstep : World.Truthful (grows.foldl after opened) writes (after (grows.foldl after opened) writes) :=
    hsteps.2.2.1
  have hempty : Has (grows.foldl after opened).sys.io 1 4 ⟨[], 0, false, 1048576⟩ _ :=
    has_of_check (by decide +kernel) (by decide +kernel)
  have hafter : Has (after (grows.foldl after opened) writes).sys.io 1 4 ⟨[], 2, false, 1048576⟩ _ :=
    has_of_check (by decide +kernel) (by decide +kernel)
  have hfd : ((grows.foldl after opened).sys.io.kernel.processTable.get? 1).any (fun p =>
      (p.fdTable.get? 4).any fun entry => entry.kind = .file 4) = true := by decide +kernel
  obtain ⟨p, hp, hentry⟩ := (Option.any_eq_true _ _).1 hfd
  obtain ⟨⟨kind, cell⟩, hget, hkind⟩ := (Option.any_eq_true _ _).1 hentry
  obtain rfl : kind = .file 4 := of_decide_eq_true hkind
  obtain ⟨f', hf', htrue⟩ := hstep 1 4 (.write 2 2) p 4 _ rfl hp ⟨cell, hget⟩ hempty
  obtain rfl := hf'.unique hafter
  have hresult : result (grows.foldl after opened) 1 ((Op.write 2 2).syscall 4) = 2 := by decide +kernel
  unfold Truthful at htrue
  rw [hresult, if_pos (by decide)] at htrue
  obtain ⟨data, hlen, -, hstored⟩ := htrue
  have hne : data ≠ [] := by
    rintro rfl
    cases hlen
  unfold Op.Stored at hstored
  rw [if_neg hne] at hstored
  obtain ⟨start, -, hfile⟩ := hstored
  -- the file would have two bytes
  have hbytes : ([] : List UInt8) = writeAt [] start data := congrArg File.bytes hfile
  have hlength := congrArg List.length hbytes
  rw [length_writeAt, List.length_nil] at hlength
  omega

end WrittenCounts