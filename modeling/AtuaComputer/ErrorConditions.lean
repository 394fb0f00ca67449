/-
**Which failing calls have done nothing.**

`handleSyscall` catches whatever its cases throw and returns -1, and what a case did before stays done.  Most cases only
look at the kernel, or change it last.  Those that move a position, an offset or bytes before they store a result in
the guest's memory are undone by nothing, and a number from 2^31 on is negative in the word that the guest gets.

This module has the condition, call by call, and the calls that read, seek and list.

Main definitions:

* `ErrorAtomicity.Failed` — the result is negative in `control[8]`;
* `ErrorAtomicity.Spares` — a handler that leaves what is observed alone if it fails;
* `ErrorAtomicity.Fits` — the condition.

Main results:

* `ErrorAtomicity.ensures_storeGuest`, `ErrorAtomicity.ensures_vfsRead` — the outcomes of the parts;
* `ErrorAtomicity.spares_withEntry_iff` — calls through a descriptor;
* `ErrorAtomicity.spares_sysRead_iff`, `ErrorAtomicity.spares_sysReadv_iff`, `ErrorAtomicity.spares_sysLseek_iff`,
  `ErrorAtomicity.spares_sysGetdents64_iff` — **what these calls leave behind**.
-/

import AtuaComputer.DirectoryPages
import AtuaComputer.Isolation
import AtuaComputer.SendFile
import AtuaComputer.WriteMarks

set_option relaxedAutoImplicit false
set_option autoImplicit false

namespace ErrorAtomicity

open VirtualFs Kernel Bridge FileIo Syscalls Outcomes FileOutcomes Observations WriteMarks

/-! ### Failures -/

/-- The word for `n` is negative. -/
def Failed (n : ℤ) : Prop := (Int32.ofInt n).toInt < 0

instance (n : ℤ) : Decidable (Failed n) := inferInstanceAs (Decidable (_ < _))

/-! ### The condition -/

/-- The handle of a file or directory. -/
def anyHandle : FdKind → Option ℤ
  | .file h | .dir h => some h
  | _ => none

/-- The handle of a file. -/
def fileHandle : FdKind → Option ℤ
  | .file h => some h
  | _ => none

/-- The open file that a descriptor stands for, with its handle. -/
def openedBy (handle : FdKind → Option ℤ) (io : FileIo.State) (p : Proc) (a : Int32) : Option (ℤ × OpenFile) :=
  (p.fdTable.get? a.toInt).bind fun entry => (handle entry.kind).bind fun h =>
    (io.kernel.vfs.openFiles.get? h).map fun file => (h, file)

/-- The memory with bytes stored in it, if it is registered and has room for them at the address. -/
def placed (p : Proc) (memory : List UInt8) (addr : ℕ) (bytes : List UInt8) : Option (List UInt8) :=
  if p.wasmMemory then setBytes memory bytes addr else none

/-- The guest's bytes in a new buffer, if the memory is registered and there is room for one. -/
def taken (p : Proc) (limit : ℕ) (memory : List UInt8) (addr count : ℕ) : Option (List UInt8) :=
  if p.wasmMemory ∧ (subarray memory addr (addr + count : ℕ)).length ≤ limit then
    some (subarray memory addr (addr + count : ℕ))
  else none

/-- An entry of an I/O vector, if the memory is registered and has it. -/
def iovAt (p : Proc) (memory : List UInt8) (iov i : ℕ) : Option (ℕ × ℕ) :=
  if p.wasmMemory ∧ iov + i * 8 + 8 ≤ memory.length then
    some (leNat ((memory.drop (iov + i * 8)).take 4), leNat ((memory.drop (iov + i * 8 + 4)).take 4))
  else none

/-- `new Uint8Array(count)` or the read into it throws: there is no room, or that many random bytes are refused. -/
def ReadThrows (io : FileIo.State) (file : OpenFile) (count : ℕ) : Prop :=
  io.limit < count ∨ file.special = some .urandom ∧ 65536 < count

instance (io : FileIo.State) (file : OpenFile) (count : ℕ) : Decidable (ReadThrows io file count) :=
  inferInstanceAs (Decidable (_ ∨ _))

/-- `read`: bytes that were read fit into the guest's memory. -/
def ReadFits (io : FileIo.State) (pid : ℤ) (p : Proc) (a b c : Int32) : Prop :=
  ∀ h file, openedBy anyHandle io p a = some (h, file) → ¬ ReadThrows io file (min (unsigned c) 1048576) →
    let (n, bytes) := readFile io.kernel.vfs io.entropy h (min (unsigned c) 1048576) file.position
    0 < n → (placed p (io.memory pid) (unsigned b) bytes).isSome = true

/-- The state with the position of a file moved by a read of `count` bytes that has read `n`. -/
def readState (io : FileIo.State) (h : ℤ) (file : OpenFile) (count : ℕ) (n : ℤ) : FileIo.State :=
  { io with
    kernel := { io.kernel with vfs := seek io.kernel.vfs h (file.position + n) }
    entropy := if file.special = some .urandom then fun i => io.entropy (count + i) else io.entropy }

/-- `readv`, from an entry on: no entry fails once bytes have been read, and the sum is no negative word. -/
def ReadvFits (pid : ℤ) (p : Proc) (h : ℤ) (iov : ℕ) : ℕ → ℕ → ℤ → FileIo.State → Prop
  | 0, _, total, _ => Failed total → total = 0
  | rounds + 1, i, total, io =>
    match iovAt p (io.memory pid) iov i, io.kernel.vfs.openFiles.get? h with
    | some (iovBase, iovLen), some file =>
      if ReadThrows io file iovLen then total = 0
      else
        let (n, bytes) := readFile io.kernel.vfs io.entropy h iovLen file.position
        match if 0 < n then placed p (io.memory pid) iovBase bytes else some (io.memory pid) with
        | none => False
        | some memory =>
          if n < iovLen then Failed (total + n) → total + n = 0
          else ReadvFits pid p h iov rounds (i + 1) (total + n) (withMemory (readState io h file iovLen n) pid memory)
    | _, _ => total = 0

/-- `lseek`: the new position is no negative word, or it is the old one. -/
def LseekFits (io : FileIo.State) (p : Proc) (a b c : Int32) : Prop :=
  ∀ h file, openedBy anyHandle io p a = some (h, file) →
    let position :=
      if c = 0 then b.toInt
      else if c = 1 then file.position + b.toInt
      else if c = 2 then contentLength io.kernel.vfs file + b.toInt
      else file.position
    Failed position → position = file.position

/-- `getdents64`: the records that were made fit into the guest's memory. -/
def GetdentsFits (io : FileIo.State) (pid : ℤ) (p : Proc) (a b c : Int32) : Prop :=
  ∀ h file, openedBy anyHandle io p a = some (h, file) → file.isDir = true → unsigned c ≤ io.limit →
    ∀ cursor,
      (io.cursors.get? h).or (file.dirPath.map fun dirPath => ⟨readdir io.kernel.vfs dirPath, 0⟩) = some cursor →
      let tmpBuf := (fillDirents (unsigned c) cursor.dirOffset (cursor.dirEntries.drop cursor.dirOffset) []).1
      tmpBuf ≠ [] → (placed p (io.memory pid) (unsigned b) tmpBuf).isSome = true ∧ ¬ Failed tmpBuf.length

/-- `write`: the position and the length of the file are as they were if the write throws, or if the number of bytes
is a negative word. -/
def WriteFits (io : FileIo.State) (pid : ℤ) (p : Proc) (a b c : Int32) : Prop :=
  ∀ h file, openedBy fileHandle io p a = some (h, file) →
    ∀ buf, taken p io.limit (io.memory pid) (unsigned b) (unsigned c) = some buf →
      match advance io.limit file (markOf io.kernel.vfs file) buf.length (unsigned c) with
      | .ok m => Failed (unsigned c) → m = markOf io.kernel.vfs file
      | .error m => m = markOf io.kernel.vfs file

/-- `writev`, from an entry on: the position and the length are as they were at the start wherever an entry fails, and
at the end if the sum is a negative word. -/
def WritevFits (limit : ℕ) (p : Proc) (memory : List UInt8) (iov : ℕ) (file : OpenFile) (start : Mark) :
    ℕ → ℕ → ℤ → Mark → Prop
  | 0, _, total, m => Failed total → m = start
  | rounds + 1, i, total, m =>
    match iovAt p memory iov i with
    | none => m = start
    | some (iovBase, iovLen) =>
      match taken p limit memory iovBase iovLen with
      | none => m = start
      | some buf =>
        match advance limit file m buf.length iovLen with
        | .ok m => WritevFits limit p memory iov file start rounds (i + 1) (total + iovLen) m
        | .error m => m = start

/-- A write at an offset whose result would be a negative word: it does not go through, or the bytes are there. -/
def StoreFits (limit : ℕ) (v : Vfs) (file : OpenFile) (src : List UInt8) (offset : ℕ) (result : ℕ) : Prop :=
  Failed result → file.special ≠ some .null → ∀ content, file.content = some content →
    let off := if file.append then (bytesOf v content).length else offset
    off + src.length ≤ (bytesOf v content).length ∨ off + src.length ≤ limit →
      FileContents.writeAt (bytesOf v content) off src = bytesOf v content

/-- How a write ends. -/
inductive WriteEnd where
  | done
  | refused
  /-- The file is longer, without the bytes. -/
  | torn
deriving DecidableEq

/-- How a write of `n` bytes at an offset ends.  It starts before the file if the offset is negative. -/
def writeEnd (limit : ℕ) (v : Vfs) (h : ℤ) (n : ℕ) (offset : ℤ) : WriteEnd :=
  match v.openFiles.get? h with
  | none => .done
  | some file =>
    if file.special = some .null then .done
    else
      match file.content with
      | none => .refused
      | some content =>
        let length := (bytesOf v content).length
        let start := if file.append then (length : ℤ) else offset
        if length < start + n ∧ limit < start + n then .refused
        else if 0 ≤ start then .done
        else if length < start + n then .torn
        else .refused

/-- `sendfile`: the write does not end after it has made the file longer, and what was sent is no negative word. -/
def SendFits (io : FileIo.State) (pid : ℤ) (p : Proc) (a b c d : Int32) : Prop :=
  ∀ outFd outFile inFd inFile, openedBy fileHandle io p a = some (outFd, outFile) →
    openedBy fileHandle io p b = some (inFd, inFile) →
    ∀ offset, SendFile.offsetOf io pid p c inFile.position = some offset →
      let v := io.kernel.vfs
      let avail := min (unsigned d : ℤ) (contentLength v inFile - offset)
      let bytes := subarray ((inFile.content.map (bytesOf v)).getD []) offset (offset + avail)
      0 < avail →
        match writeEnd io.limit v a.toInt bytes.length outFile.position with
        | .done => ¬ Failed avail
        | .refused => True
        | .torn => False

/-- The calls on files. -/
def FileFits (io : FileIo.State) (pid : ℤ) (p : Proc) (a : Int32) : FileCall → Prop
  | .read b c => ReadFits io pid p a b c
  | .write b c => WriteFits io pid p a b c
  | .readv b c =>
    ∀ h file, openedBy anyHandle io p a = some (h, file) → ReadvFits pid p h (unsigned b) c.toInt.toNat 0 0 io
  | .writev b c =>
    ∀ h file, openedBy fileHandle io p a = some (h, file) →
      WritevFits io.limit p (io.memory pid) (unsigned b) file (markOf io.kernel.vfs file) c.toInt.toNat 0 0
        (markOf io.kernel.vfs file)
  | .pwrite64 b c d e =>
    ∀ h file, openedBy fileHandle io p a = some (h, file) →
      ∀ src, taken p io.limit (io.memory pid) (unsigned b) (unsigned c) = some src →
        StoreFits io.limit io.kernel.vfs file src (offset64 d e) (unsigned c)
  | .lseek b c => LseekFits io p a b c
  | .getdents64 b c => GetdentsFits io pid p a b c
  | .pread64 _ _ _ _ | .preadv _ _ _ _ | .ftruncate _ => True

/-- A child whose number is a negative word would have the table that is there. -/
def ForkFits (k : Kernel.State) (p : Proc) (childPid : ℤ) : Prop :=
  p.wasmMemory = true → Failed childPid → (k.processTable.get? childPid).map Proc.fdTable = some p.fdTable

/-- `open` finds what it is asked for, or makes it. -/
def Opens (v : Vfs) (path : Path) (flags : Int32) : Prop :=
  let path := absolute path
  let resolved := resolvePath v.symlinks path
  let isDir := v.dirs.has resolved ∨ v.dirs.has path
  isDevice path ∨
    ¬ (v.whiteouts.has resolved ∧ ¬ hasFlag flags oCreat) ∧
      if hasFlag flags oDirectory then isDir
      else
        ¬ (hasFlag flags oCreat ∧ hasFlag flags oExcl ∧ (v.files.has resolved ∨ v.dirs.has resolved)) ∧
          (v.files.has resolved ∨ hasFlag flags oCreat ∨ isDir)

/-- The number that an open gives is no negative word. -/
def OpenFits (k : Kernel.State) (p : Proc) (path : Path) (flags : Int32) : Prop :=
  Opens k.vfs (readCString p path) flags → ¬ Failed k.vfs.nextFd

/-- The calls on descriptors: the number of a descriptor, a pipe or a process that is made is no negative word. -/
def KernelFits (k : Kernel.State) (p : Proc) (fate : Fate) : Kernel.Call → Prop
  | .open path b _ | .fsOpen path b _ | .openat path b _ => OpenFits k p path b
  | .dup a => p.fdTable.has a.toInt = true → ¬ Failed p.nextFd
  | .dup2 a b | .dup3 a b _ => p.fdTable.has a.toInt = true → a ≠ b → 0 ≤ b.toInt
  | .fcntl a b c =>
    p.fdTable.has a.toInt = true → b = 0 ∨ b = 1030 → ¬ Failed (p.fdTable.firstFree c.toUInt32.toNat)
  | .forkSpawn => ForkFits k p (childPidOf k fate)
  | .forkExecSpawn a => ForkFits k p a.toInt
  | .pipeCreate =>
    ∀ resp, (request k .pipeCreate fate).2 = some resp → resp.err = 0 → ¬ Failed ((resp.val.toInt - 100) / 2)
  | .close _ | .fsClose _ | .pipeClose _ => True

/-- The other calls: only `sendfile` and `FS_WRITE` may leave something behind. -/
def OtherFits (io : FileIo.State) (pid : ℤ) (p : Proc) : Syscalls.Call → Prop
  | .sendfile a b c d => SendFits io pid p a b c d
  | .fsWrite a b c d e =>
    ∀ file, io.kernel.vfs.openFiles.get? a.toInt = some file →
      ∀ src, taken p io.limit (io.memory pid) (unsigned b) (unsigned c) = some src →
        StoreFits io.limit io.kernel.vfs file src (offset64 d e) src.length
  | _ => True

/-- **The condition.** -/
def Fits (s : Syscalls.State) (pid : ℤ) (call : Syscall) : Prop :=
  ∀ p, s.io.kernel.processTable.get? pid = some p →
    match call with
    | .kernel call fate => KernelFits s.io.kernel p fate call
    | .file a call => FileFits s.io pid p a call
    | .other call => OtherFits s.io pid p call
    | _ => True

/-! ### Outcomes -/

section Outcomes

variable {α : Type} {io : FileIo.State} {pid h : ℤ} {p : Proc} {E : FileIo.State → Prop}

theorem ensures_guestMemory {Q : List UInt8 → FileIo.State → Prop} :
    Ensures (guestMemory pid p) io Q E ↔ if p.wasmMemory then Q (io.memory pid) io else E io := by
  unfold guestMemory
  rw [ensures_ite]
  exact Iff.rfl

theorem ensures_alloc {n : ℕ} {Q : Unit → FileIo.State → Prop} :
    Ensures (alloc n) io Q E ↔ if io.limit < n then E io else Q () io := by
  unfold alloc
  simp

theorem ensures_storeGuest {addr : ℕ} {bytes : List UInt8} {Q : Unit → FileIo.State → Prop} :
    Ensures (storeGuest pid p addr bytes) io Q E ↔
      match placed p (io.memory pid) addr bytes with
      | none => E io
      | some memory => Q () (withMemory io pid memory) := by
  unfold storeGuest placed
  rw [ensures_bind, ensures_guestMemory]
  by_cases hp : p.wasmMemory = true
  · rw [if_pos hp, if_pos hp]
    cases setBytes (io.memory pid) bytes addr with
    | none => exact Iff.rfl
    | some memory => exact Iff.rfl
  · rw [if_neg hp, if_neg hp]

theorem ensures_sliceGuest {addr count : ℕ} {Q : List UInt8 → FileIo.State → Prop} :
    Ensures (sliceGuest pid p addr count) io Q E ↔
      match taken p io.limit (io.memory pid) addr count with
      | none => E io
      | some bytes => Q bytes io := by
  unfold sliceGuest viewGuest taken
  simp only [ensures_bind, ensures_guestMemory, ensures_pure, ensures_alloc]
  by_cases hp : p.wasmMemory = true
  · rw [if_pos hp]
    by_cases hroom : io.limit < (subarray (io.memory pid) addr (addr + count : ℕ)).length
    · rw [if_pos (by exact_mod_cast hroom), if_neg fun h => Nat.not_lt.2 h.2 hroom]
    · rw [if_neg (by exact_mod_cast hroom), if_pos ⟨hp, Nat.not_lt.1 hroom⟩]
      norm_cast
  · rw [if_neg hp, if_neg fun h => hp h.1]

theorem ensures_loadWord {addr : ℕ} {Q : ℕ → FileIo.State → Prop} :
    Ensures (loadWord pid p addr) io Q E ↔
      if p.wasmMemory then
        if (io.memory pid).length < addr + 4 then E io else Q (leNat (((io.memory pid).drop addr).take 4)) io
      else E io := by
  unfold loadWord
  simp only [ensures_bind, ensures_guestMemory, ensures_ite, ensures_throw, ensures_pure]

theorem ensures_loadIov {iov i : ℕ} {Q : ℕ × ℕ → FileIo.State → Prop} :
    Ensures (loadIov pid p iov i) io Q E ↔
      match iovAt p (io.memory pid) iov i with
      | none => E io
      | some words => Q words io := by
  unfold loadIov iovAt
  simp only [ensures_bind, ensures_loadWord, ensures_pure]
  by_cases hp : p.wasmMemory = true
  · rw [if_pos hp, if_pos hp]
    by_cases hbase : (io.memory pid).length < iov + i * 8 + 4
    · rw [if_pos hbase, if_neg fun h => absurd h.2 (by omega)]
    · rw [if_neg hbase]
      by_cases hlen : (io.memory pid).length < iov + i * 8 + 4 + 4
      · rw [if_pos hlen, if_neg fun h => absurd h.2 (by omega)]
      · rw [if_neg hlen, if_pos ⟨hp, by omega⟩]
  · rw [if_neg hp, if_neg fun h => hp h.1]

theorem ensures_getFile {Q : Option OpenFile → FileIo.State → Prop} :
    Ensures (getFile h) io Q E ↔ Q (io.kernel.vfs.openFiles.get? h) io := Iff.rfl

theorem ensures_setPosition {position : ℤ} {Q : Unit → FileIo.State → Prop} :
    Ensures (setPosition h position) io Q E ↔ Q () (withVfs io (seek io.kernel.vfs h position)) := Iff.rfl

theorem ensures_onVfs {f : ℕ → Vfs → Vfs × Option ℤ} {Q : ℤ → FileIo.State → Prop} :
    Ensures (onVfs f) io Q E ↔
      match (f io.limit io.kernel.vfs).2 with
      | none => E (withVfs io (f io.limit io.kernel.vfs).1)
      | some n => Q n (withVfs io (f io.limit io.kernel.vfs).1) := by
  unfold onVfs
  rw [ensures_bind, ensures_get]
  show Ensures (setVfs (f io.limit io.kernel.vfs).1 >>= _) io Q E ↔ _
  rw [ensures_bind]
  show Ensures _ (withVfs io (f io.limit io.kernel.vfs).1) Q E ↔ _
  cases (f io.limit io.kernel.vfs).2 with
  | none => exact Iff.rfl
  | some n => exact Iff.rfl

theorem ensures_randomBytes {n : ℕ} {Q : List UInt8 → FileIo.State → Prop} :
    Ensures (randomBytes n) io Q E ↔
      if 65536 < n then E io
      else Q ((List.range n).map io.entropy) { io with entropy := fun i => io.entropy (n + i) } := by
  unfold randomBytes
  split_ifs
  · exact Iff.rfl
  · exact Iff.rfl

theorem ensures_vfsRead {file : OpenFile} (hfile : io.kernel.vfs.openFiles.get? h = some file) {count : ℕ} {offset : ℤ}
    {Q : ℤ × List UInt8 → FileIo.State → Prop} :
    Ensures (vfsRead h count offset) io Q E ↔
      if ReadThrows io file count then E io
      else Q (readFile io.kernel.vfs io.entropy h count offset)
        { io with
          entropy := if file.special = some .urandom then fun i => io.entropy (count + i) else io.entropy } := by
  unfold vfsRead
  simp only [ensures_bind, ensures_alloc, ensures_get]
  by_cases hroom : io.limit < count
  · rw [if_pos hroom, if_pos (.inl hroom)]
  · rw [if_neg hroom, hfile]
    by_cases hrandom : file.special = some .urandom
    · rw [if_pos (by simpa using hrandom), ensures_bind, ensures_randomBytes]
      by_cases hmany : 65536 < count
      · rw [if_pos hmany, if_pos (.inr ⟨hrandom, hmany⟩)]
      · have hread : readFile io.kernel.vfs io.entropy h count offset =
            ((count : ℤ), (List.range count).map io.entropy) := by
          unfold readFile
          rw [hfile]
          dsimp only
          rw [if_neg (by rw [hrandom]; decide), if_pos hrandom]
        have hreads : ¬ ReadThrows io file count := not_or.2 ⟨hroom, fun hthrows => hmany hthrows.2⟩
        rw [if_neg hmany, if_neg hreads, hread, if_pos hrandom]
        exact Iff.rfl
    · have hreads : ¬ ReadThrows io file count := not_or.2 ⟨hroom, fun hthrows => hrandom hthrows.1⟩
      rw [if_neg hreads, if_neg hrandom, if_neg (by simpa using hrandom)]
      exact Iff.rfl

end Outcomes

/-! ### Sparing what is observed -/

/-- The handler leaves what was observed of `io₀` alone if it throws, or if its result is a negative word. -/
def Spares (io₀ : FileIo.State) (x : Io ℤ) (io : FileIo.State) : Prop :=
  Ensures x io (fun n io' => Failed n → view io' = view io₀) fun io' => view io' = view io₀

theorem not_failed {n : ℤ} (hpos : 0 ≤ n) (hlt : n < 2 ^ 31) : ¬ Failed n := by
  unfold Failed
  rw [Int32.toInt_ofInt_of_le (by omega) hlt]
  omega

theorem failed_neg_one : Failed (-1) := by decide

section Spares

variable {io₀ io : FileIo.State} {pid h : ℤ} {p : Proc} {a : Int32} {x : Io ℤ}

theorem spares_of_quiet (hx : Quiet x) (hview : view io = view io₀) : Spares io₀ x io :=
  (hx io).mono (fun _ _ h _ => h.trans hview) fun _ h => h.trans hview

theorem view_withVfs_iff {v : Vfs} : view (withVfs io v) = view io ↔ fsView v = fsView io.kernel.vfs := by
  constructor
  · intro h
    exact congrArg View.fs h
  · intro h
    exact congrArg (View.mk (view io).tables (view io).cloexec (view io).dirOffset) h

/-- A seek is observed unless it stays. -/
theorem fsView_seek_iff {v : Vfs} {file : OpenFile} (hfile : v.openFiles.get? h = some file) {position : ℤ} :
    fsView (seek v h position) = fsView v ↔ position = file.position := by
  constructor
  · intro hview
    have hopened := congrArg (fun x => x.opened h) hview
    rw [fsView_opened (FileContents.get?_seek hfile position), fsView_opened hfile, Option.some_inj, Prod.mk.injEq]
      at hopened
    exact hopened.1
  · intro hsame
    rw [hsame, fsView_seek_self hfile]

/-- A call on a descriptor that uses what the descriptor stands for if that has a handle. -/
theorem spares_withEntry_iff {handle : FdKind → Option ℤ} {missing : Io ℤ} {body : FdKind → Io ℤ}
    {P : ℤ → OpenFile → Prop} (hm : Quiet missing) (hother : ∀ kind, handle kind = none → Quiet (body kind))
    (hfile : ∀ kind h, handle kind = some h →
      (Spares io (body kind) io ↔ ∀ file, io.kernel.vfs.openFiles.get? h = some file → P h file)) :
    Spares io (withEntry p a missing body) io ↔ ∀ h file, openedBy handle io p a = some (h, file) → P h file := by
  unfold withEntry openedBy
  cases p.fdTable.get? a.toInt with
  | none => exact iff_of_true (spares_of_quiet hm rfl) fun _ _ habsurd => absurd habsurd.symm (Option.some_ne_none _)
  | some entry =>
      dsimp only [Option.bind_some]
      cases hhandle : handle entry.kind with
      | none =>
          refine iff_of_true (spares_of_quiet (hother entry.kind hhandle) rfl) fun _ _ habsurd => ?_
          exact absurd habsurd.symm (Option.some_ne_none _)
      | some h₀ =>
          refine (hfile entry.kind h₀ hhandle).trans ⟨?_, ?_⟩
          · intro hall h file hget
            obtain ⟨file', hget', heq⟩ := Option.map_eq_some_iff.1 hget
            obtain ⟨rfl, rfl⟩ := Prod.mk.inj heq
            exact hall file' hget'
          · intro hall file hget
            refine hall h₀ file ?_
            dsimp only [Option.bind_some]
            rw [hget, Option.map_some]

/-- A call that treats files and directories alike. -/
theorem spares_anyEntry_iff {missing : Io ℤ} {body : FdKind → Io ℤ} {P : ℤ → OpenFile → Prop} (hm : Quiet missing)
    (hspecial : ∀ special, Quiet (body (.special special))) (hpipe : ∀ fdEnd off, Quiet (body (.pipe fdEnd off)))
    (hfile : ∀ h, Spares io (body (.file h)) io ↔ ∀ file, io.kernel.vfs.openFiles.get? h = some file → P h file)
    (hdir : ∀ h, Spares io (body (.dir h)) io ↔ ∀ file, io.kernel.vfs.openFiles.get? h = some file → P h file) :
    Spares io (withEntry p a missing body) io ↔ ∀ h file, openedBy anyHandle io p a = some (h, file) → P h file := by
  refine spares_withEntry_iff hm (fun kind hkind => ?_) fun kind h hkind => ?_
  · cases kind with
    | special special => exact hspecial special
    | pipe fdEnd off => exact hpipe fdEnd off
    | file h => exact absurd hkind (Option.some_ne_none h)
    | dir h => exact absurd hkind (Option.some_ne_none h)
  · cases kind with
    | special special => exact absurd hkind.symm (Option.some_ne_none h)
    | pipe fdEnd off => exact absurd hkind.symm (Option.some_ne_none h)
    | file h' => exact Option.some_inj.1 hkind ▸ hfile h'
    | dir h' => exact Option.some_inj.1 hkind ▸ hdir h'

/-- A call on files only. -/
theorem spares_fileEntry_iff {missing : Io ℤ} {body : FdKind → Io ℤ} {P : ℤ → OpenFile → Prop} (hm : Quiet missing)
    (hspecial : ∀ special, Quiet (body (.special special))) (hpipe : ∀ fdEnd off, Quiet (body (.pipe fdEnd off)))
    (hdir : ∀ h, Quiet (body (.dir h)))
    (hfile : ∀ h, Spares io (body (.file h)) io ↔ ∀ file, io.kernel.vfs.openFiles.get? h = some file → P h file) :
    Spares io (withEntry p a missing body) io ↔ ∀ h file, openedBy fileHandle io p a = some (h, file) → P h file := by
  refine spares_withEntry_iff hm (fun kind hkind => ?_) fun kind h hkind => ?_
  · cases kind with
    | special special => exact hspecial special
    | pipe fdEnd off => exact hpipe fdEnd off
    | file h => exact absurd hkind (Option.some_ne_none h)
    | dir h => exact hdir h
  · cases kind with
    | special special => exact absurd hkind.symm (Option.some_ne_none h)
    | pipe fdEnd off => exact absurd hkind.symm (Option.some_ne_none h)
    | file h' => exact Option.some_inj.1 hkind ▸ hfile h'
    | dir h' => exact absurd hkind.symm (Option.some_ne_none h)

/-- A call that uses an open file. -/
theorem spares_withFile_iff {body : OpenFile → Io ℤ} {P : OpenFile → Prop}
    (hbody : ∀ file, io.kernel.vfs.openFiles.get? h = some file → (Spares io (body file) io ↔ P file)) :
    Spares io (FileIo.withFile h body) io ↔ ∀ file, io.kernel.vfs.openFiles.get? h = some file → P file := by
  unfold FileIo.withFile
  unfold Spares at hbody ⊢
  rw [ensures_bind, ensures_getFile]
  cases hget : io.kernel.vfs.openFiles.get? h with
  | none => exact iff_of_true (fun _ => rfl) fun _ habsurd => absurd habsurd.symm (Option.some_ne_none _)
  | some file =>
      refine (hbody file hget).trans ⟨fun hP _ heq => Option.some_inj.1 heq ▸ hP, fun hall => hall file rfl⟩

end Spares

/-! ### Reading -/

/-- What is read of an open file. -/
theorem readFile_bounds {v : Vfs} {h : ℤ} {file : OpenFile} (hfile : v.openFiles.get? h = some file)
    (entropy : ℕ → UInt8) (count : ℕ) (offset : ℤ) :
    0 ≤ (readFile v entropy h count offset).1 ∧ (readFile v entropy h count offset).1 ≤ count := by
  unfold readFile
  rw [hfile]
  dsimp only
  split_ifs
  · exact ⟨Int.le_refl 0, Int.natCast_nonneg count⟩
  · exact ⟨Int.natCast_nonneg count, Int.le_refl _⟩
  · split
    · exact ⟨Int.le_refl 0, Int.natCast_nonneg count⟩
    · split_ifs
      · exact ⟨Int.le_refl 0, Int.natCast_nonneg count⟩
      · dsimp only
        omega

section Reads

variable {io₀ io : FileIo.State} {pid h : ℤ} {p : Proc}

/-- The part of a read after the position was moved. -/
theorem ensures_storeRead {addr : ℕ} {n : ℤ} {bytes : List UInt8} {Q : ℤ → FileIo.State → Prop}
    {E : FileIo.State → Prop} :
    Ensures (do
      if 0 < n then
        storeGuest pid p addr bytes
        return n
      return n : Io ℤ) io Q E ↔
      match if 0 < n then placed p (io.memory pid) addr bytes else some (io.memory pid) with
      | none => E io
      | some memory => Q n (withMemory io pid memory) := by
  rw [ensures_ite]
  by_cases hn : 0 < n
  · rw [if_pos hn, if_pos hn, ensures_bind, ensures_storeGuest]
    cases placed p (io.memory pid) addr bytes with
    | none => exact Iff.rfl
    | some memory => exact Iff.rfl
  · have hsame : withMemory io pid (io.memory pid) = io := by
      rw [withMemory, Function.update_eq_self]
    rw [if_neg hn, if_neg hn]
    dsimp only
    rw [hsame]
    exact Iff.rfl

/-- A read at the position of a file. -/
theorem ensures_readNext {file : OpenFile} (hfile : io.kernel.vfs.openFiles.get? h = some file) {count addr : ℕ}
    {Q : ℤ → FileIo.State → Prop} {E : FileIo.State → Prop} :
    Ensures (do
      let (n, bytes) ← vfsRead h count file.position
      setPosition h (file.position + n)
      if 0 < n then storeGuest pid p addr bytes
      return n) io Q E ↔
      if ReadThrows io file count then E io
      else
        let (n, bytes) := readFile io.kernel.vfs io.entropy h count file.position
        match if 0 < n then placed p (io.memory pid) addr bytes else some (io.memory pid) with
        | none => E (readState io h file count n)
        | some memory => Q n (withMemory (readState io h file count n) pid memory) := by
  rw [ensures_bind, ensures_vfsRead hfile]
  by_cases hthrows : ReadThrows io file count
  · rw [if_pos hthrows, if_pos hthrows]
  · rw [if_neg hthrows, if_neg hthrows, ensures_bind, ensures_setPosition]
    exact ensures_storeRead

/-- Only a read that has read something is observed. -/
theorem view_readState_iff {file : OpenFile} (hfile : io.kernel.vfs.openFiles.get? h = some file) (count : ℕ) (n : ℤ) :
    view (readState io h file count n) = view io ↔ n = 0 := by
  have hvfs : view (readState io h file count n) = view (withVfs io (seek io.kernel.vfs h (file.position + n))) := rfl
  rw [hvfs, view_withVfs_iff, fsView_seek_iff hfile]
  omega

theorem spares_readNext_iff {count addr : ℕ} (hcount : count < 2 ^ 31) :
    Spares io (FileIo.withFile h fun file => do
      let (n, bytes) ← vfsRead h count file.position
      setPosition h (file.position + n)
      if 0 < n then storeGuest pid p addr bytes
      return n) io ↔
      ∀ file, io.kernel.vfs.openFiles.get? h = some file → ¬ ReadThrows io file count →
        let (n, bytes) := readFile io.kernel.vfs io.entropy h count file.position
        0 < n → (placed p (io.memory pid) addr bytes).isSome = true := by
  refine spares_withFile_iff fun file hfile => ?_
  unfold Spares
  rw [ensures_readNext hfile]
  obtain ⟨hnonneg, hle⟩ := readFile_bounds hfile io.entropy count file.position
  by_cases hthrows : ReadThrows io file count
  · rw [if_pos hthrows]
    exact iff_of_true rfl fun hreads => absurd hthrows hreads
  · rw [if_neg hthrows]
    revert hnonneg hle
    obtain ⟨n, bytes⟩ := readFile io.kernel.vfs io.entropy h count file.position
    intro hnonneg hle
    dsimp only at hnonneg hle ⊢
    by_cases hn : 0 < n
    · rw [if_pos hn]
      cases placed p (io.memory pid) addr bytes with
      | none =>
          refine iff_of_false ?_ fun hfits => absurd (hfits hthrows hn) Bool.false_ne_true
          rw [view_readState_iff hfile]
          omega
      | some memory =>
          exact iff_of_true (fun hfailed => absurd hfailed (not_failed hnonneg (by omega))) fun _ _ => rfl
    · rw [if_neg hn]
      refine iff_of_true (fun _ => ?_) fun _ hpos => absurd hpos hn
      exact (view_readState_iff hfile count n).2 (by omega)

/-- **`read`.** -/
theorem spares_sysRead_iff (a b c : Int32) : Spares io (sysRead pid p a b c) io ↔ ReadFits io pid p a b c := by
  have hcount : min (unsigned c) 1048576 < 2 ^ 31 := by omega
  unfold sysRead ReadFits
  refine spares_anyEntry_iff (quiet_pure _) (fun special => ?_) (fun _ _ => quiet_pure _)
    (fun h => spares_readNext_iff hcount) fun h => spares_readNext_iff hcount
  cases special with
  | urandom =>
      refine quiet_bind (quiet_alloc _) fun _ => quiet_bind (quiet_randomBytes _) fun _ => ?_
      exact quiet_bind (quiet_storeGuest pid p _ _) fun _ => quiet_pure _
  | _ => exact quiet_pure _

end Reads

/-! #### Vectors -/

section Vectors

variable {io₀ : FileIo.State} {pid h : ℤ} {p : Proc}

/-- The state between the entries of a `readv`: the position has moved by what was read, and nothing that is observed
has changed if nothing was read. -/
structure Reading (io₀ io : FileIo.State) (h : ℤ) (file₀ : OpenFile) (total : ℤ) : Prop where
  opened : io.kernel.vfs.openFiles.get? h = some { file₀ with position := file₀.position + total }
  nonneg : 0 ≤ total
  same : total = 0 → view io = view io₀

theorem Reading.view_iff {io : FileIo.State} {file₀ : OpenFile} {total : ℤ} (hr : Reading io₀ io h file₀ total)
    (hfile : io₀.kernel.vfs.openFiles.get? h = some file₀) : view io = view io₀ ↔ total = 0 := by
  constructor
  · intro hview
    have hopened := congrArg (fun x => x.fs.opened h) hview
    dsimp only [view] at hopened
    rw [fsView_opened hr.opened, fsView_opened hfile, Option.some_inj, Prod.mk.injEq] at hopened
    have hposition := hopened.1
    dsimp only at hposition
    omega
  · exact hr.same

theorem Reading.step {io : FileIo.State} {file₀ : OpenFile} {total : ℤ} (hr : Reading io₀ io h file₀ total) {n : ℤ}
    (hn : 0 ≤ n) (count : ℕ) :
    Reading io₀ (readState io h { file₀ with position := file₀.position + total } count n) h file₀ (total + n) where
  opened := by
    rw [← Int.add_assoc]
    exact FileContents.get?_seek hr.opened (file₀.position + total + n)
  nonneg := Int.add_nonneg hr.nonneg hn
  same := by
    intro hsum
    have hnonneg := hr.nonneg
    have htotal : total = 0 := by omega
    have hview := (view_readState_iff hr.opened count n).2 (by omega)
    exact hview.trans (hr.same htotal)

/-- The memory is not observed. -/
theorem Reading.withMemory {io : FileIo.State} {file₀ : OpenFile} {total : ℤ} (hr : Reading io₀ io h file₀ total)
    (pid : ℤ) (memory : List UInt8) : Reading io₀ (withMemory io pid memory) h file₀ total :=
  ⟨hr.opened, hr.nonneg, hr.same⟩

/-- `readv`, from an entry on. -/
theorem spares_readLoop_iff {file₀ : OpenFile} (hfile : io₀.kernel.vfs.openFiles.get? h = some file₀) (iov : ℕ)
    (rounds i : ℕ) (total : ℤ) (io : FileIo.State) (hr : Reading io₀ io h file₀ total) :
    Spares io₀ (iovLoop pid p iov
      (fun _ iovBase iovLen =>
        FileIo.withFile h fun file => do
          let (n, bytes) ← vfsRead h iovLen file.position
          setPosition h (file.position + n)
          if 0 < n then storeGuest pid p iovBase bytes
          return n) true rounds i total) io ↔ ReadvFits pid p h iov rounds i total io := by
  unfold Spares
  induction rounds generalizing i total io with
  | zero =>
      unfold iovLoop ReadvFits
      rw [ensures_pure, hr.view_iff hfile]
  | succ rounds ih =>
      unfold iovLoop ReadvFits
      rw [ensures_bind, ensures_loadIov]
      -- an entry outside the memory throws before its round has changed anything
      cases hiov : iovAt p (io.memory pid) iov i with
      | none => exact hr.view_iff hfile
      | some words =>
          obtain ⟨iovBase, iovLen⟩ := words
          rw [hr.opened]
          dsimp only
          unfold FileIo.withFile
          rw [ensures_bind, ensures_bind, ensures_getFile, hr.opened]
          dsimp only
          rw [ensures_readNext hr.opened]
          by_cases hthrows : ReadThrows io { file₀ with position := file₀.position + total } iovLen
          · rw [if_pos hthrows, if_pos hthrows]
            exact hr.view_iff hfile
          · rw [if_neg hthrows, if_neg hthrows]
            obtain ⟨hnonneg, hle⟩ := readFile_bounds hr.opened io.entropy iovLen (file₀.position + total)
            dsimp only
            revert hnonneg hle
            obtain ⟨n, bytes⟩ := readFile io.kernel.vfs io.entropy h iovLen (file₀.position + total)
            intro hnonneg hle
            dsimp only at hnonneg hle ⊢
            cases hstored : (if 0 < n then placed p (io.memory pid) iovBase bytes else some (io.memory pid)) with
            | none =>
                -- the position has moved when the bytes turn out not to fit into the memory
                have hpos : 0 < n := by
                  by_contra hn
                  rw [if_neg hn] at hstored
                  exact Option.some_ne_none _ hstored
                have htotal := hr.nonneg
                refine iff_of_false ?_ id
                dsimp only
                rw [(hr.step hnonneg iovLen).view_iff hfile]
                omega
            | some memory =>
                have hstep := (hr.step hnonneg iovLen).withMemory pid memory
                dsimp only
                rw [ensures_ite]
                by_cases hshort : n < iovLen
                · rw [if_pos ⟨rfl, hshort⟩, if_pos hshort, ensures_pure, hstep.view_iff hfile]
                · rw [if_neg fun hstop => hshort hstop.2, if_neg hshort]
                  exact ih (i + 1) (total + n) _ hstep

/-- **`readv`.** -/
theorem spares_sysReadv_iff {io : FileIo.State} (a b c : Int32) :
    Spares io (sysReadv pid p a b c) io ↔
      ∀ h file, openedBy anyHandle io p a = some (h, file) → ReadvFits pid p h (unsigned b) c.toInt.toNat 0 0 io := by
  have hfile (h : ℤ) : Spares io (FileIo.withFile h fun _ =>
      iovLoop pid p (unsigned b)
        (fun _ iovBase iovLen =>
          FileIo.withFile h fun file => do
            let (n, bytes) ← vfsRead h iovLen file.position
            setPosition h (file.position + n)
            if 0 < n then storeGuest pid p iovBase bytes
            return n)
        true c.toInt.toNat 0 0) io ↔
      ∀ file, io.kernel.vfs.openFiles.get? h = some file → ReadvFits pid p h (unsigned b) c.toInt.toNat 0 0 io := by
    refine spares_withFile_iff fun file hget => ?_
    have hstart : Reading io io h file 0 := ⟨by rw [Int.add_zero]; exact hget, Int.le_refl 0, fun _ => rfl⟩
    exact spares_readLoop_iff hget (unsigned b) c.toInt.toNat 0 0 io hstart
  unfold sysReadv
  refine spares_anyEntry_iff (quiet_pure _) (fun special => ?_) (fun _ _ => quiet_pure _) hfile hfile
  cases special with
  | urandom =>
      refine quiet_iovLoop (fun total iovBase iovLen => ?_) _ _ _
      refine quiet_bind (quiet_alloc _) fun _ => quiet_bind (quiet_randomBytes _) fun _ => ?_
      exact quiet_bind (quiet_storeGuest pid p _ _) fun _ => quiet_pure _
  | _ => exact quiet_pure _

end Vectors

/-! #### Positions -/

section Positions

variable {pid h : ℤ} {p : Proc} {io : FileIo.State}

/-- **`lseek`.** -/
theorem spares_sysLseek_iff (a b c : Int32) : Spares io (sysLseek p a b c) io ↔ LseekFits io p a b c := by
  have hfile (h : ℤ) : Spares io (FileIo.withFile h fun file => do
      let v := (← get).kernel.vfs
      let position :=
        if c = 0 then b.toInt
        else if c = 1 then file.position + b.toInt
        else if c = 2 then contentLength v file + b.toInt
        else file.position
      setPosition h position
      return position) io ↔
      ∀ file, io.kernel.vfs.openFiles.get? h = some file →
        let position :=
          if c = 0 then b.toInt
          else if c = 1 then file.position + b.toInt
          else if c = 2 then contentLength io.kernel.vfs file + b.toInt
          else file.position
        Failed position → position = file.position := by
    refine spares_withFile_iff fun file hget => ?_
    unfold Spares
    rw [ensures_bind, ensures_get]
    dsimp only
    rw [ensures_bind, ensures_setPosition, ensures_pure, view_withVfs_iff, fsView_seek_iff hget]
  unfold sysLseek LseekFits
  exact spares_anyEntry_iff (quiet_pure _) (fun _ => quiet_pure _) (fun _ _ => quiet_pure _) hfile hfile

/-! ### Listing -/

theorem ensures_getCursor {file : OpenFile} {Q : Cursor → FileIo.State → Prop} {E : FileIo.State → Prop} :
    Ensures (getCursor h file) io Q E ↔
      match (io.cursors.get? h).or (file.dirPath.map fun dirPath => ⟨readdir io.kernel.vfs dirPath, 0⟩) with
      | none => E io
      | some cursor => Q cursor io := by
  unfold getCursor
  rw [ensures_bind, ensures_get]
  cases io.cursors.get? h with
  | some cursor => exact Iff.rfl
  | none =>
      cases file.dirPath with
      | none => exact Iff.rfl
      | some dirPath => exact Iff.rfl

/-- The index moves exactly if a record was made. -/
theorem fillDirents_index (bufSize index : ℕ) (entries : List (Path × NodeType)) :
    (fillDirents bufSize index entries []).2 = index ↔ (fillDirents bufSize index entries []).1 = [] := by
  obtain ⟨k, hk, heq, -⟩ := DirectoryPages.fillDirents_eq bufSize index entries [] (Nat.zero_le _)
  rw [heq, List.nil_append]
  dsimp only
  cases k with
  | zero => exact iff_of_true rfl rfl
  | succ k =>
      refine iff_of_false (by omega) fun hempty => ?_
      cases entries with
      | nil => exact absurd hk (Nat.not_succ_le_zero k)
      | cons entry entries =>
          have hlength := congrArg List.length hempty
          rw [List.take_succ_cons, DirectoryPages.records, List.length_append, DirectoryPages.length_dirent] at hlength
          have hpos := DirectoryPages.reclen_pos entry
          rw [List.length_nil] at hlength
          omega

/-- The state with the listing of a directory. -/
def listed (io : FileIo.State) (h : ℤ) (cursor : Cursor) : FileIo.State :=
  { io with cursors := io.cursors.set h cursor }

/-- A listing is observed by its offset. -/
theorem view_listed_iff (file : OpenFile) {cursor : Cursor}
    (hcursor : (io.cursors.get? h).or
      (file.dirPath.map fun dirPath => ⟨readdir io.kernel.vfs dirPath, 0⟩) = some cursor)
    (entries : List (Path × NodeType)) (index : ℕ) :
    view (listed io h ⟨entries, index⟩) = view io ↔ index = cursor.dirOffset := by
  have hbefore : ((io.cursors.get? h).map Cursor.dirOffset).getD 0 = cursor.dirOffset := by
    cases hget : io.cursors.get? h with
    | some before =>
        rw [hget, Option.some_or] at hcursor
        rw [Option.some_inj.1 hcursor]
        rfl
    | none =>
        rw [hget, Option.none_or] at hcursor
        obtain ⟨dirPath, -, rfl⟩ := Option.map_eq_some_iff.1 hcursor
        rfl
  constructor
  · intro hview
    have hoffset := congrArg (fun x => x.dirOffset h) hview
    dsimp only [view, listed] at hoffset
    rw [JsMap.get?_set_self, hbefore] at hoffset
    exact hoffset
  · intro hindex
    have hoffsets : (fun fd => (((io.cursors.set h ⟨entries, index⟩).get? fd).map Cursor.dirOffset).getD 0) =
        fun fd => ((io.cursors.get? fd).map Cursor.dirOffset).getD 0 := by
      funext fd
      rw [JsMap.get?_set]
      split_ifs with hfd
      · rw [hfd, hbefore, ← hindex]
        rfl
      · rfl
    unfold view listed
    dsimp only
    rw [hoffsets]

/-- The part of `getdents64` after the listing was made. -/
theorem spares_fill_iff {file : OpenFile} {cursor : Cursor} (b c : Int32)
    (hcursor : (io.cursors.get? h).or
      (file.dirPath.map fun dirPath => ⟨readdir io.kernel.vfs dirPath, 0⟩) = some cursor) :
    Spares io (do
      alloc (unsigned c)
      let (tmpBuf, index) :=
        fillDirents (unsigned c) cursor.dirOffset (cursor.dirEntries.drop cursor.dirOffset) []
      modify fun s => { s with cursors := s.cursors.set h { cursor with dirOffset := index } }
      if tmpBuf ≠ [] then storeGuest pid p (unsigned b) tmpBuf
      return tmpBuf.length) (listed io h cursor) ↔
      (unsigned c ≤ io.limit →
        let tmpBuf := (fillDirents (unsigned c) cursor.dirOffset (cursor.dirEntries.drop cursor.dirOffset) []).1
        tmpBuf ≠ [] → (placed p (io.memory pid) (unsigned b) tmpBuf).isSome = true ∧ ¬ Failed tmpBuf.length) := by
  have hfirst : view (listed io h cursor) = view io :=
    (view_listed_iff file hcursor cursor.dirEntries cursor.dirOffset).2 rfl
  have hsecond (entries : List (Path × NodeType)) (index : ℕ) :
      view (listed (listed io h cursor) h ⟨entries, index⟩) = view io ↔ index = cursor.dirOffset := by
    rw [← hfirst]
    refine view_listed_iff file ?_ entries index
    have hget : (listed io h cursor).cursors.get? h = some cursor := JsMap.get?_set_self _ _ _
    rw [hget, Option.some_or]
  have hindex := fillDirents_index (unsigned c) cursor.dirOffset (cursor.dirEntries.drop cursor.dirOffset)
  unfold Spares
  rw [ensures_bind, ensures_alloc]
  show (if io.limit < unsigned c then _ else _) ↔ _
  by_cases hroom : io.limit < unsigned c
  · rw [if_pos hroom]
    exact iff_of_true hfirst fun hle => absurd hroom (Nat.not_lt.2 hle)
  · rw [if_neg hroom]
    revert hindex
    obtain ⟨tmpBuf, index⟩ := fillDirents (unsigned c) cursor.dirOffset (cursor.dirEntries.drop cursor.dirOffset) []
    intro hindex
    dsimp only at hindex ⊢
    rw [ensures_bind, ensures_modify, ensures_ite]
    by_cases hempty : tmpBuf = []
    · rw [if_neg (not_not_intro hempty), ensures_pure]
      exact iff_of_true (fun _ => (hsecond _ _).2 (hindex.2 hempty)) fun _ hne => absurd hempty hne
    · -- records in the buffer mean that the offset has moved
      have hmoved (memory : List UInt8) : ¬ view (withMemory (listed (listed io h cursor) h
          { cursor with dirOffset := index }) pid memory) = view io :=
        fun hview => hempty (hindex.1 ((hsecond _ _).1 hview))
      rw [if_pos hempty, ensures_bind, ensures_storeGuest]
      show (match placed p (io.memory pid) (unsigned b) tmpBuf with | none => _ | some _ => _) ↔ _
      cases placed p (io.memory pid) (unsigned b) tmpBuf with
      | none =>
          refine iff_of_false (hmoved []) fun hfits => ?_
          exact absurd (hfits (Nat.not_lt.1 hroom) hempty).1 Bool.false_ne_true
      | some memory =>
          dsimp only
          rw [ensures_pure]
          constructor
          · intro hspared _ _
            exact ⟨rfl, fun hfailed => hmoved memory (hspared hfailed)⟩
          · intro hfits hfailed
            exact absurd hfailed (hfits (Nat.not_lt.1 hroom) hempty).2

/-- **`getdents64`.** -/
theorem spares_sysGetdents64_iff (a b c : Int32) :
    Spares io (sysGetdents64 pid p a b c) io ↔ GetdentsFits io pid p a b c := by
  have hfile (h : ℤ) : Spares io (FileIo.withFile h fun file => do
      if ¬ file.isDir then return -9
      let cursor ← getCursor h file
      modify fun s => { s with cursors := s.cursors.set h cursor }
      alloc (unsigned c)
      let (tmpBuf, index) :=
        fillDirents (unsigned c) cursor.dirOffset (cursor.dirEntries.drop cursor.dirOffset) []
      modify fun s => { s with cursors := s.cursors.set h { cursor with dirOffset := index } }
      if tmpBuf ≠ [] then storeGuest pid p (unsigned b) tmpBuf
      return tmpBuf.length) io ↔
      ∀ file, io.kernel.vfs.openFiles.get? h = some file → file.isDir = true → unsigned c ≤ io.limit →
        ∀ cursor, (io.cursors.get? h).or (file.dirPath.map fun dirPath => ⟨readdir io.kernel.vfs dirPath, 0⟩) =
          some cursor →
          let tmpBuf := (fillDirents (unsigned c) cursor.dirOffset (cursor.dirEntries.drop cursor.dirOffset) []).1
          tmpBuf ≠ [] → (placed p (io.memory pid) (unsigned b) tmpBuf).isSome = true ∧ ¬ Failed tmpBuf.length := by
    refine spares_withFile_iff fun file hget => ?_
    unfold Spares
    rw [ensures_ite]
    by_cases hdir : file.isDir = true
    · rw [if_neg (not_not_intro hdir), ensures_bind, ensures_getCursor]
      cases hcursor : (io.cursors.get? h).or (file.dirPath.map fun dirPath => ⟨readdir io.kernel.vfs dirPath, 0⟩) with
      | none => exact iff_of_true rfl fun _ _ _ habsurd => absurd habsurd.symm (Option.some_ne_none _)
      | some cursor =>
          have honce (P : Cursor → Prop) :
              (file.isDir = true → unsigned c ≤ io.limit → ∀ cursor', some cursor = some cursor' → P cursor') ↔
                (unsigned c ≤ io.limit → P cursor) :=
            ⟨fun hall hroom => hall hdir hroom cursor rfl, fun hone _ hroom _ heq => Option.some_inj.1 heq ▸ hone hroom⟩
          rw [honce]
          dsimp only
          rw [ensures_bind, ensures_modify]
          exact spares_fill_iff b c hcursor
    · rw [if_pos hdir, ensures_pure]
      exact iff_of_true (fun _ => rfl) fun habsurd => absurd habsurd hdir
  unfold sysGetdents64 GetdentsFits
  exact spares_anyEntry_iff (quiet_pure _) (fun _ => quiet_pure _) (fun _ _ => quiet_pure _) hfile hfile

end Positions

end ErrorAtomicity
