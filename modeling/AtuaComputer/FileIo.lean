/-
**Reading and writing through descriptors.**

The syscalls of `handleSyscall` that move bytes between the guest's memory and an open file, with the
position and the directory listing that an open file keeps.  Copies of a descriptor (`dup`, `dup2`, `dup3`,
`F_DUPFD`, and the table of a fork) are entries of their own that stand for the same open file, and every
one of these calls looks at the entry of its descriptor for nothing but what it stands for.

Main definitions:

* `FileIo.State`, `FileIo.Io` — the kernel with the guests' memories, and its handlers;
* `FileIo.handleFileCall` — the syscalls;
* `FileIo.Aliases` — descriptors obtained from one another by copying;
* `FileIo.run` — the results of a sequence of events and the state it leads to.

Main results:

* `FileIo.kind_of_aliases` — aliases stand for the same;
* `FileIo.processTable_handleFileCall` — a call on a file leaves the tables of descriptors alone;
* `FileIo.run_replaced` — replacing descriptors by aliases, anywhere in a sequence of events;
* `FileIo.run_swapped` — the same for aliases of the first state, in a sequence of calls on files.
-/

import AtuaComputer.ByteCodec
import AtuaComputer.Descriptors
import AtuaComputer.VfsOperations

set_option relaxedAutoImplicit false
set_option autoImplicit false

namespace FileIo

open VirtualFs Kernel Bridge

/-! ### State -/

/-- What an open directory keeps of its listing: `_dirEntries` and `_dirOffset`. -/
structure Cursor where
  dirEntries : List (Path × NodeType)
  dirOffset : ℕ

/-- The kernel with what its calls on files work on. -/
structure State where
  kernel : Kernel.State
  /-- The memory of a process, once it is registered. -/
  memory : ℤ → List UInt8
  /-- The listings of the open directories, by handle. -/
  cursors : JsMap ℤ Cursor
  /-- What was posted as output. -/
  stdout : List (List UInt8)
  /-- The bytes that `crypto.getRandomValues` will give. -/
  entropy : ℕ → UInt8
  /-- The length up to which a buffer can be made. -/
  limit : ℕ

/-- A handler: it may throw, and what it did before stays done. -/
abbrev Io (α : Type) := ExceptT Unit (StateM State) α

/-! ### Memory, buffers and files -/

/-- `new Uint8Array(n)`: it throws when there is no room. -/
def alloc (n : ℕ) : Io Unit := do
  if (← get).limit < n then throw ()

/-- `wasm`; using it throws before the memory is registered. -/
def guestMemory (pid : ℤ) (p : Proc) : Io (List UInt8) := do
  if p.wasmMemory then return (← get).memory pid else throw ()

/-- `wasm.set(bytes, addr)` -/
def storeGuest (pid : ℤ) (p : Proc) (addr : ℕ) (bytes : List UInt8) : Io Unit := do
  let wasm ← guestMemory pid p
  match setBytes wasm bytes addr with
  | none => throw ()
  | some wasm => modify fun s => { s with memory := Function.update s.memory pid wasm }

/-- `wasm.subarray(addr, addr + count)` -/
def viewGuest (pid : ℤ) (p : Proc) (addr count : ℕ) : Io (List UInt8) := do
  let wasm ← guestMemory pid p
  return subarray wasm addr (addr + count)

/-- `wasm.slice(addr, addr + count)`: the same in a new buffer. -/
def sliceGuest (pid : ℤ) (p : Proc) (addr count : ℕ) : Io (List UInt8) := do
  let bytes ← viewGuest pid p addr count
  alloc bytes.length
  return bytes

/-- `wasmDV.getUint32(addr, true)` -/
def loadWord (pid : ℤ) (p : Proc) (addr : ℕ) : Io ℕ := do
  let wasm ← guestMemory pid p
  if wasm.length < addr + 4 then throw ()
  return leNat ((wasm.drop addr).take 4)

/-- `crypto.getRandomValues`: it throws when more than 65536 bytes are asked for. -/
def randomBytes (n : ℕ) : Io (List UInt8) := do
  if 65536 < n then throw ()
  let s ← get
  set { s with entropy := fun i => s.entropy (n + i) }
  return (List.range n).map s.entropy

/-- `vfs.openFiles.get(vfsFd)` -/
def getFile (vfsFd : ℤ) : Io (Option OpenFile) := return (← get).kernel.vfs.openFiles.get? vfsFd

/-- A change of the filesystem. -/
def setVfs (v : Vfs) : Io Unit := modify fun s => { s with kernel := { s.kernel with vfs := v } }

/-- Something done on the filesystem, which may throw. -/
def onVfs (f : ℕ → Vfs → Vfs × Option ℤ) : Io ℤ := do
  let s ← get
  let (v, result) := f s.limit s.kernel.vfs
  setVfs v
  match result with
  | none => throw ()
  | some result => return result

/-- `file.position = position` -/
def setPosition (vfsFd position : ℤ) : Io Unit := do
  setVfs (seek (← get).kernel.vfs vfsFd position)

/-- `vfs.read(vfsFd, dest, offset)` into a new buffer of `count` bytes. -/
def vfsRead (vfsFd : ℤ) (count : ℕ) (offset : ℤ) : Io (ℤ × List UInt8) := do
  alloc count
  let s ← get
  if (s.kernel.vfs.openFiles.get? vfsFd).any fun file => file.special = some .urandom then
    let bytes ← randomBytes count
    return (count, bytes)
  return readFile s.kernel.vfs s.entropy vfsFd count offset

/-- `file.content?.length || 0` -/
def contentLength (v : Vfs) (file : OpenFile) : ℕ :=
  match file.content with
  | none => 0
  | some content => (bytesOf v content).length

/-! ### Syscalls -/

/-- The syscalls on files, with the registers after the first.  The first is the descriptor. -/
inductive FileCall where
  | read (b c : Int32)
  | write (b c : Int32)
  | readv (b c : Int32)
  | writev (b c : Int32)
  | pread64 (b c d e : Int32)
  | preadv (b c d e : Int32)
  | pwrite64 (b c d e : Int32)
  | lseek (b c : Int32)
  | ftruncate (b : Int32)
  | getdents64 (b c : Int32)

/-- `x >>> 0` -/
def unsigned (x : Int32) : ℕ := x.toUInt32.toNat

/-- `(d >>> 0) + ((e >>> 0) * 0x100000000)`.  A double rounds it from 2^53 on, where no buffer reaches. -/
def offset64 (d e : Int32) : ℕ := unsigned d + unsigned e * 2 ^ 32

/-- `const entry = proc.fdTable.get(a); if (!entry) { result = missing; break; }` -/
def withEntry (p : Proc) (a : Int32) (missing : Io ℤ) (body : FdKind → Io ℤ) : Io ℤ :=
  match p.fdTable.get? a.toInt with
  | none => missing
  | some entry => body entry.kind

/-- `const file = vfs.openFiles.get(entry.vfsFd); if (!file) { result = -9; break; }` -/
def withFile (vfsFd : ℤ) (body : OpenFile → Io ℤ) : Io ℤ := do
  match ← getFile vfsFd with
  | none => return -9
  | some file => body file

/-- `SYS_read` -/
def sysRead (pid : ℤ) (p : Proc) (a b c : Int32) : Io ℤ :=
  withEntry p a (return -9) fun kind =>
    let count := min (unsigned c) 1048576
    match kind with
    | .special .stdin => return 0
    | .special .urandom => do
      alloc count
      storeGuest pid p (unsigned b) (← randomBytes count)
      return count
    | .special _ => return 0
    | .pipe _ _ => return -38
    | .file vfsFd | .dir vfsFd =>
      withFile vfsFd fun file => do
        let (n, bytes) ← vfsRead vfsFd count file.position
        setPosition vfsFd (file.position + n)
        if 0 < n then storeGuest pid p (unsigned b) bytes
        return n

/-- `SYS_write` -/
def sysWrite (pid : ℤ) (p : Proc) (a b c : Int32) : Io ℤ :=
  withEntry p a (return -9) fun kind => do
    let count := unsigned c
    let buf ← sliceGuest pid p (unsigned b) count
    match kind with
    | .special .stdout | .special .stderr =>
      modify fun s => { s with stdout := s.stdout ++ [buf] }
      return count
    | .special _ => return count
    | .pipe _ _ => return -38
    | .file vfsFd => onVfs fun limit v => writeNext limit v vfsFd buf count
    | .dir _ => return -9

/-- `SYS_lseek` -/
def sysLseek (p : Proc) (a b c : Int32) : Io ℤ :=
  withEntry p a (return -9) fun kind =>
    match kind with
    | .pipe _ _ | .special _ => return -29
    | .file vfsFd | .dir vfsFd =>
      withFile vfsFd fun file => do
        let v := (← get).kernel.vfs
        let position :=
          if c = 0 then b.toInt
          else if c = 1 then file.position + b.toInt
          else if c = 2 then contentLength v file + b.toInt
          else file.position
        setPosition vfsFd position
        return position

/-- `SYS_pread64` -/
def sysPread64 (pid : ℤ) (p : Proc) (a b c d e : Int32) : Io ℤ :=
  withEntry p a (return -9) fun kind =>
    match kind with
    | .file vfsFd | .dir vfsFd =>
      withFile vfsFd fun _ => do
        let (n, bytes) ← vfsRead vfsFd (unsigned c) (offset64 d e)
        if 0 < n then storeGuest pid p (unsigned b) bytes
        return n
    | _ => return -29

/-- The two words of an entry of an I/O vector. -/
def loadIov (pid : ℤ) (p : Proc) (iov i : ℕ) : Io (ℕ × ℕ) := do
  let iovBase ← loadWord pid p (iov + i * 8)
  let iovLen ← loadWord pid p (iov + i * 8 + 4)
  return (iovBase, iovLen)

/-- `for (let i = 0; i < iovcnt; i++) { … total += n; if (n < iovLen) break; }` over the entries from `i` on,
with the number of rounds that are left. -/
def iovLoop (pid : ℤ) (p : Proc) (iov : ℕ) (round : ℤ → ℕ → ℕ → Io ℤ) (stops : Bool) :
    ℕ → ℕ → ℤ → Io ℤ
  | 0, _, total => return total
  | rounds + 1, i, total => do
    let (iovBase, iovLen) ← loadIov pid p iov i
    let n ← round total iovBase iovLen
    if stops ∧ n < iovLen then return total + n
    else iovLoop pid p iov round stops rounds (i + 1) (total + n)

/-- `SYS_preadv` -/
def sysPreadv (pid : ℤ) (p : Proc) (a b c d e : Int32) : Io ℤ :=
  withEntry p a (return -9) fun kind =>
    match kind with
    | .file vfsFd | .dir vfsFd =>
      withFile vfsFd fun _ =>
        iovLoop pid p (unsigned b)
          (fun total iovBase iovLen => do
            let (n, bytes) ← vfsRead vfsFd iovLen (offset64 d e + total)
            if 0 < n then storeGuest pid p iovBase bytes
            return n)
          true c.toInt.toNat 0 0
    | _ => return -9

/-- `SYS_readv` -/
def sysReadv (pid : ℤ) (p : Proc) (a b c : Int32) : Io ℤ :=
  withEntry p a (return -9) fun kind =>
    match kind with
    | .special .stdin => return 0
    | .special .urandom =>
      iovLoop pid p (unsigned b)
        (fun _ iovBase iovLen => do
          alloc iovLen
          storeGuest pid p iovBase (← randomBytes iovLen)
          return iovLen)
        false c.toInt.toNat 0 0
    | .special _ => return 0
    | .pipe _ _ => return -38
    | .file vfsFd | .dir vfsFd =>
      withFile vfsFd fun _ =>
        iovLoop pid p (unsigned b)
          (fun _ iovBase iovLen =>
            withFile vfsFd fun file => do
              let (n, bytes) ← vfsRead vfsFd iovLen file.position
              setPosition vfsFd (file.position + n)
              if 0 < n then storeGuest pid p iovBase bytes
              return n)
          true c.toInt.toNat 0 0

/-- Gathering an I/O vector: `gathered.set(wasm.subarray(…), off)`; a piece that is cut off leaves zeros. -/
def gather (pid : ℤ) (p : Proc) (iov : ℕ) : ℕ → ℕ → Io (List UInt8)
  | 0, _ => return []
  | rounds + 1, i => do
    let (iovBase, iovLen) ← loadIov pid p iov i
    let piece ← viewGuest pid p iovBase iovLen
    return padTo iovLen piece ++ (← gather pid p iov rounds (i + 1))

/-- `SYS_writev` -/
def sysWritev (pid : ℤ) (p : Proc) (a b c : Int32) : Io ℤ :=
  withEntry p a (return -9) fun kind =>
    let sumLengths := iovLoop pid p (unsigned b) (fun _ _ iovLen => return iovLen) false c.toInt.toNat 0 0
    match kind with
    | .special .stdout | .special .stderr => do
      let totalLen ← sumLengths
      alloc totalLen.toNat
      let gathered ← gather pid p (unsigned b) c.toInt.toNat 0
      modify fun s => { s with stdout := s.stdout ++ [gathered] }
      return totalLen
    | .special .null => sumLengths
    | .special _ => return 0
    | .pipe _ _ => return -38
    | .file vfsFd =>
      withFile vfsFd fun _ =>
        iovLoop pid p (unsigned b)
          (fun _ iovBase iovLen => do
            let buf ← sliceGuest pid p iovBase iovLen
            onVfs fun limit v => writeNext limit v vfsFd buf iovLen)
          false c.toInt.toNat 0 0
    | .dir _ => return -9

/-- `SYS_pwrite64` -/
def sysPwrite64 (pid : ℤ) (p : Proc) (a b c d e : Int32) : Io ℤ :=
  withEntry p a (return -9) fun kind =>
    match kind with
    | .file vfsFd =>
      withFile vfsFd fun _ => do
        let src ← sliceGuest pid p (unsigned b) (unsigned c)
        let _ ← onVfs fun limit v => writeFile limit v vfsFd src (offset64 d e)
        return unsigned c
    | _ => return -29

/-- `SYS_ftruncate` -/
def sysFtruncate (p : Proc) (a b : Int32) : Io ℤ :=
  withEntry p a (return -9) fun kind =>
    match kind with
    | .file vfsFd => onVfs fun limit v => truncateFile limit v vfsFd (unsigned b)
    | _ => return -9

/-- The `d_type` of an entry. -/
def direntType : NodeType → UInt8
  | .dir => 4
  | .symlink => 10
  | _ => 8

/-- `struct linux_dirent64` for the entry of a listing with the given index. -/
def dirent (index : ℕ) (entry : Path × NodeType) : List UInt8 :=
  let nameBytes := entry.1.flatMap String.utf8EncodeChar
  let reclen := (19 + nameBytes.length + 1 + 7) / 8 * 8
  padTo reclen
    (leBytes 8 (index + 1) ++ leBytes 8 (index + 2) ++ leBytes 2 reclen ++ [direntType entry.2] ++
      nameBytes)

/-- The loop of `SYS_getdents64` from an index on: the buffer and the index it stops at. -/
def fillDirents (bufSize : ℕ) : ℕ → List (Path × NodeType) → List UInt8 → List UInt8 × ℕ
  | index, [], tmpBuf => (tmpBuf, index)
  | index, entry :: entries, tmpBuf =>
    if bufSize < tmpBuf.length + (dirent index entry).length then (tmpBuf, index)
    else fillDirents bufSize (index + 1) entries (tmpBuf ++ dirent index entry)

/-- The listing of an open directory, made at the first call. -/
def getCursor (vfsFd : ℤ) (file : OpenFile) : Io Cursor := do
  let s ← get
  match s.cursors.get? vfsFd, file.dirPath with
  | some cursor, _ => return cursor
  | none, none => throw ()
  | none, some dirPath => return ⟨readdir s.kernel.vfs dirPath, 0⟩

/-- `SYS_getdents64` -/
def sysGetdents64 (pid : ℤ) (p : Proc) (a b c : Int32) : Io ℤ :=
  withEntry p a (return -9) fun kind =>
    match kind with
    | .file vfsFd | .dir vfsFd =>
      withFile vfsFd fun file => do
        if ¬ file.isDir then return -9
        let cursor ← getCursor vfsFd file
        modify fun s => { s with cursors := s.cursors.set vfsFd cursor }
        alloc (unsigned c)
        let (tmpBuf, index) :=
          fillDirents (unsigned c) cursor.dirOffset (cursor.dirEntries.drop cursor.dirOffset) []
        modify fun s => { s with cursors := s.cursors.set vfsFd { cursor with dirOffset := index } }
        if tmpBuf ≠ [] then storeGuest pid p (unsigned b) tmpBuf
        return tmpBuf.length
    | _ => return -9

/-- The `switch` of `handleSyscall`, for the calls on files. -/
def fileHandler (pid : ℤ) (p : Proc) (a : Int32) : FileCall → Io ℤ
  | .read b c => sysRead pid p a b c
  | .write b c => sysWrite pid p a b c
  | .readv b c => sysReadv pid p a b c
  | .writev b c => sysWritev pid p a b c
  | .pread64 b c d e => sysPread64 pid p a b c d e
  | .preadv b c d e => sysPreadv pid p a b c d e
  | .pwrite64 b c d e => sysPwrite64 pid p a b c d e
  | .lseek b c => sysLseek p a b c
  | .ftruncate b => sysFtruncate p a b
  | .getdents64 b c => sysGetdents64 pid p a b c

/-- `handleSyscall`, for the calls on files: what is thrown becomes `-1`. -/
def handleFileCall (s : State) (pid : ℤ) (a : Int32) (call : FileCall) : State × ℤ :=
  match s.kernel.processTable.get? pid with
  | none => (s, -1)
  | some p =>
    match (fileHandler pid p a call).run.run s with
    | (.ok result, s) => (s, result)
    | (.error _, s) => (s, -1)

/-! ### Events -/

/-- What happens: a call on a file, a call or message that the kernel handles otherwise, or the guest of a
process working on its memory. -/
inductive Event where
  | file (pid : ℤ) (a : Int32) (call : FileCall)
  | kernel (ev : Kernel.Event)
  | guest (pid : ℤ) (memory : List UInt8)

/-- The state after an event, and the result if it is a call. -/
def handle (s : State) : Event → State × Option ℤ
  | .file pid a call =>
    let (s, result) := handleFileCall s pid a call
    (s, some result)
  | .kernel (.call pid call fate) =>
    let out := handleSyscall s.kernel pid call fate
    ({ s with kernel := out.kernel }, some out.result)
  | .kernel ev => ({ s with kernel := Kernel.after s.kernel ev }, none)
  | .guest pid memory => ({ s with memory := Function.update s.memory pid memory }, none)

/-- The state after an event. -/
def after (s : State) (ev : Event) : State := (handle s ev).1

/-- The results of a sequence of events, and the state it leads to. -/
def run : State → List Event → List (Option ℤ) × State
  | s, [] => ([], s)
  | s, ev :: evs =>
    let (results, final) := run (after s ev) evs
    ((handle s ev).2 :: results, final)

/-! ### Aliases -/

/-- The calls that copy the descriptor `a`. -/
inductive Copies : Call → Int32 → Prop where
  | dup (a : Int32) : Copies (.dup a) a
  | dup2 (a b : Int32) : Copies (.dup2 a b) a
  | dup3 (a b c : Int32) : Copies (.dup3 a b c) a
  | dupFd (a b c : Int32) (hb : b = 0 ∨ b = 1030) : Copies (.fcntl a b c) a

/-- The calls that copy the table of their process for a child. -/
inductive Forks : Call → Prop where
  | forkSpawn : Forks .forkSpawn
  | forkExecSpawn (a : Int32) : Forks (.forkExecSpawn a)

/-- Two descriptors of a process that come from one another by copying, in a state that a run has reached.
They stay aliases as long as their entries are left alone, and a fork hands them on. -/
inductive Aliases : State → ℤ → ℤ → ℤ → Prop where
  | refl (s : State) (pid i : ℤ) : Aliases s pid i i
  | symm {s : State} {pid i j : ℤ} (h : Aliases s pid i j) : Aliases s pid j i
  | trans {s : State} {pid i j l : ℤ} (h : Aliases s pid i j) (h' : Aliases s pid j l) :
      Aliases s pid i l
  | copied (s : State) (pid : ℤ) {call : Call} {a : Int32} (fate : Fate) (hc : Copies call a)
      (hok : 0 ≤ (handleSyscall s.kernel pid call fate).result) :
      Aliases (after s (.kernel (.call pid call fate))) pid a.toInt
        (handleSyscall s.kernel pid call fate).result
  | kept {s : State} {pid i j : ℤ} (ev : Event) (h : Aliases s pid i j)
      (hi : entryAt (after s ev).kernel pid i = entryAt s.kernel pid i)
      (hj : entryAt (after s ev).kernel pid j = entryAt s.kernel pid j) :
      Aliases (after s ev) pid i j
  | forked {s : State} {pid i j childPid : ℤ} {call : Call} {forkType : ForkType}
      {pipeFds : List PipeView} (fate : Fate) (h : Aliases s pid i j) (hf : Forks call)
      (hok : Post.forkRequest pid childPid forkType pipeFds ∈ (handleSyscall s.kernel pid call fate).posts) :
      Aliases (after s (.kernel (.call pid call fate))) childPid i j

/-! #### What aliases stand for -/

/-- A descriptor that is copied keeps what it stands for, and the copy stands for the same. -/
theorem lookup_put {k : Kernel.State} {pid i : ℤ} {kind : FdKind} (hi : kindAt k pid i = some kind) (fd : ℤ) :
    (Touch.put pid fd kind).lookup k pid i = (Touch.put pid fd kind).lookup k pid fd := by
  simp [Touch.lookup, hi]

section Copies

variable {k : Kernel.State} {pid : ℤ} {p : Proc} (hp : k.processTable.get? pid = some p)
include hp

theorem kind_of_dup (a : Int32) (hok : 0 ≤ (sysDup k pid p a).result) :
    kindAt (sysDup k pid p a).kernel pid a.toInt =
      kindAt (sysDup k pid p a).kernel pid (sysDup k pid p a).result := by
  have htook := (took_sysDup hp a .answered).kindAt
  cases he : p.fdTable.get? a.toInt with
  | none =>
      simp only [sysDup, he] at hok
      omega
  | some entry =>
      have hkind := kindAt_entry hp he
      have hresult : (sysDup k pid p a).result = p.nextFd := by simp only [sysDup, he]
      rw [hresult, htook, htook, copyEffect, hkind]
      exact lookup_put hkind p.nextFd

theorem kind_of_dupFd (a b c : Int32) (hb : b = 0 ∨ b = 1030) (hok : 0 ≤ (sysFcntl k pid p a b c).result) :
    kindAt (sysFcntl k pid p a b c).kernel pid a.toInt =
      kindAt (sysFcntl k pid p a b c).kernel pid (sysFcntl k pid p a b c).result := by
  have htook := (took_sysFcntl hp a b c .answered).kindAt
  cases he : p.fdTable.get? a.toInt with
  | none =>
      simp only [sysFcntl, he] at hok
      omega
  | some entry =>
      have hkind := kindAt_entry hp he
      have hresult : (sysFcntl k pid p a b c).result = p.fdTable.firstFree c.toUInt32.toNat := by
        simp only [sysFcntl, he, if_pos hb, dupFrom]
      rw [hresult, htook, htook, callEffect, if_pos hb, copyEffect, hkind]
      exact lookup_put hkind _

theorem kind_of_dup2 (a b : Int32) (hok : 0 ≤ (sysDup2 k pid p a b).result) :
    kindAt (sysDup2 k pid p a b).kernel pid a.toInt =
      kindAt (sysDup2 k pid p a b).kernel pid (sysDup2 k pid p a b).result := by
  have htook := (took_sysDup2 hp a b .answered).kindAt
  by_cases hab : a = b
  · have hresult : (sysDup2 k pid p a b).result = b.toInt := by simp only [sysDup2, if_pos hab]
    rw [hresult, hab]
  · cases he : p.fdTable.get? a.toInt with
    | none =>
        simp only [sysDup2, if_neg hab, he] at hok
        omega
    | some entry =>
        have hkind := kindAt_entry hp he
        have hresult : (sysDup2 k pid p a b).result = b.toInt := by simp only [sysDup2, if_neg hab, he]
        rw [hresult, htook, htook, replaceEffect, if_neg hab, hkind]
        exact lookup_put hkind b.toInt

theorem kind_of_dup3 (a b c : Int32) (fate : Fate) (hok : 0 ≤ (sysDup3 k pid p a b c fate).result) :
    kindAt (sysDup3 k pid p a b c fate).kernel pid a.toInt =
      kindAt (sysDup3 k pid p a b c fate).kernel pid (sysDup3 k pid p a b c fate).result := by
  have htook := (took_sysDup3 hp a b c fate).kindAt
  by_cases hab : a = b
  · simp only [sysDup3, if_pos hab] at hok
    omega
  · cases he : p.fdTable.get? a.toInt with
    | none =>
        simp only [sysDup3, if_neg hab, he] at hok
        omega
    | some entry =>
        have hkind := kindAt_entry hp he
        have hresult : (sysDup3 k pid p a b c fate).result = b.toInt := by
          simp only [sysDup3, if_neg hab, he]
        rw [hresult, htook, htook, replaceEffect, if_neg hab, hkind]
        exact lookup_put hkind b.toInt

end Copies

/-- A successful copy stands for what the original stands for, which keeps it. -/
theorem kind_of_copies {k : Kernel.State} {pid : ℤ} {call : Call} {a : Int32} {fate : Fate}
    (hc : Copies call a) (hok : 0 ≤ (handleSyscall k pid call fate).result) :
    kindAt (handleSyscall k pid call fate).kernel pid a.toInt =
      kindAt (handleSyscall k pid call fate).kernel pid (handleSyscall k pid call fate).result := by
  cases hp : k.processTable.get? pid with
  | none =>
      simp only [handleSyscall, hp] at hok
      omega
  | some p =>
      cases hc with
      | dup =>
          simp only [handleSyscall, hp] at hok ⊢
          exact kind_of_dup hp a hok
      | dup2 _ b =>
          simp only [handleSyscall, hp] at hok ⊢
          exact kind_of_dup2 hp a b hok
      | dup3 _ b c =>
          simp only [handleSyscall, hp] at hok ⊢
          exact kind_of_dup3 hp a b c fate hok
      | dupFd _ b c hb =>
          simp only [handleSyscall, hp] at hok ⊢
          exact kind_of_dupFd hp a b c hb hok

/-- The descriptors of a child are those of its parent. -/
theorem kind_of_forks {k : Kernel.State} {pid childPid : ℤ} {call : Call} {fate : Fate}
    {forkType : ForkType} {fds : List PipeView} (hf : Forks call)
    (hok : Post.forkRequest pid childPid forkType fds ∈ (handleSyscall k pid call fate).posts) (i : ℤ) :
    kindAt (handleSyscall k pid call fate).kernel childPid i = kindAt k pid i := by
  cases hp : k.processTable.get? pid with
  | none =>
      simp only [handleSyscall, hp] at hok
      cases hok
  | some p =>
      cases hm : p.wasmMemory with
      | false =>
          cases hf <;> simp [handleSyscall, hp, sysForkSpawn, sysForkExecSpawn, hm] at hok
      | true =>
          cases hf with
          | forkSpawn =>
              have htook := (took_sysForkSpawn hp fate).kindAt
              have hchild : childPid = childPidOf k fate := by
                cases hb : k.bridge <;>
                  simp only [handleSyscall, hp, sysForkSpawn, Kernel.request, hb, hm, if_true,
                    List.mem_singleton, Post.forkRequest.injEq] at hok <;>
                  rw [childPidOf, hb] <;> exact hok.2.1
              simp only [handleSyscall, hp]
              rw [htook, hchild, forkEffect, hm, if_pos rfl, Touch.lookup, if_pos rfl]
          | forkExecSpawn a =>
              have htook := (took_sysForkExecSpawn hp a fate).kindAt
              simp only [handleSyscall, hp, sysForkExecSpawn, hm, if_true, List.mem_singleton,
                Post.forkRequest.injEq] at hok
              simp only [handleSyscall, hp]
              rw [htook, hok.2.1, forkEffect, hm, if_pos rfl, Touch.lookup, if_pos rfl]

/-- **Aliases stand for the same.** -/
theorem kind_of_aliases {s : State} {pid i j : ℤ} (h : Aliases s pid i j) :
    kindAt s.kernel pid i = kindAt s.kernel pid j := by
  induction h with
  | refl => rfl
  | symm _ ih => exact ih.symm
  | trans _ _ ih ih' => exact ih.trans ih'
  | copied s pid fate hc hok => exact kind_of_copies hc hok
  | kept ev _ hi hj ih => rw [kindAt, hi, ← kindAt, ih, kindAt, ← hj, ← kindAt]
  | forked fate _ hf hok ih =>
      have hkind := kind_of_forks hf hok
      exact (hkind _).trans (ih.trans (hkind _).symm)

/-! ### Calls through aliases -/

/-- A handler that looks at what its descriptor stands for, and at nothing else of the entry. -/
theorem withEntry_congr {p : Proc} {a b : Int32} {missing : Io ℤ} {body : FdKind → Io ℤ}
    (h : (p.fdTable.get? a.toInt).map FdEntry.kind = (p.fdTable.get? b.toInt).map FdEntry.kind) :
    withEntry p a missing body = withEntry p b missing body := by
  unfold withEntry
  cases ha : p.fdTable.get? a.toInt with
  | none =>
      cases hb : p.fdTable.get? b.toInt with
      | none => rfl
      | some entry => simp [ha, hb] at h
  | some entry =>
      cases hb : p.fdTable.get? b.toInt with
      | none => simp [ha, hb] at h
      | some entry' =>
          have hkind : entry.kind = entry'.kind := by simpa [ha, hb] using h
          simp only [hkind]

/-- **A call through another descriptor for the same file.**  The results are equal, and so is all that the
call leaves behind. -/
theorem handleFileCall_congr {s : State} {pid : ℤ} {a b : Int32}
    (h : kindAt s.kernel pid a.toInt = kindAt s.kernel pid b.toInt) (call : FileCall) :
    handleFileCall s pid a call = handleFileCall s pid b call := by
  unfold handleFileCall
  cases hp : s.kernel.processTable.get? pid with
  | none => rfl
  | some p =>
      rw [kindAt_eq hp, kindAt_eq hp] at h
      have hbody : fileHandler pid p a call = fileHandler pid p b call := by
        cases call <;>
          simp only [fileHandler, sysRead, sysWrite, sysReadv, sysWritev, sysPread64, sysPreadv,
            sysPwrite64, sysLseek, sysFtruncate, sysGetdents64] <;>
          exact withEntry_congr h
      simp only [hbody]

/-! ### Calls on files and the tables of descriptors -/

/-- A handler that leaves the tables of descriptors alone, also when it throws. -/
def KeepsTable {α : Type} (x : Io α) : Prop :=
  ∀ s, (x.run.run s).2.kernel.processTable = s.kernel.processTable

section Keeps

variable {α β : Type}

theorem keepsTable_pure (a : α) : KeepsTable (pure a) := fun _ => rfl

theorem keepsTable_throw : KeepsTable (throw () : Io α) := fun _ => rfl

theorem keepsTable_get : KeepsTable get := fun _ => rfl

theorem keepsTable_bind {x : Io α} {f : α → Io β} (hx : KeepsTable x) (hf : ∀ a, KeepsTable (f a)) :
    KeepsTable (x >>= f) := by
  intro s
  have hone := hx s
  rw [ExceptT.run_bind, StateT.run_bind]
  revert hone
  obtain ⟨r, s'⟩ := x.run.run s
  intro hone
  cases r with
  | error e => exact hone
  | ok a => exact (hf a s').trans hone

theorem keepsTable_modify {f : State → State}
    (hf : ∀ s, (f s).kernel.processTable = s.kernel.processTable) : KeepsTable (modify f : Io Unit) :=
  fun s => hf s

theorem keepsTable_ite {c : Prop} [Decidable c] {x y : Io α} (hx : KeepsTable x) (hy : KeepsTable y) :
    KeepsTable (if c then x else y) := by
  split_ifs
  · exact hx
  · exact hy

end Keeps

theorem keepsTable_alloc (n : ℕ) : KeepsTable (alloc n) := by
  refine keepsTable_bind keepsTable_get fun s => ?_
  exact keepsTable_ite keepsTable_throw (keepsTable_pure ())

theorem keepsTable_guestMemory (pid : ℤ) (p : Proc) : KeepsTable (guestMemory pid p) := by
  refine keepsTable_ite ?_ keepsTable_throw
  exact keepsTable_bind keepsTable_get fun s => keepsTable_pure _

theorem keepsTable_storeGuest (pid : ℤ) (p : Proc) (addr : ℕ) (bytes : List UInt8) :
    KeepsTable (storeGuest pid p addr bytes) := by
  refine keepsTable_bind (keepsTable_guestMemory pid p) fun wasm => ?_
  split
  · exact keepsTable_throw
  · exact keepsTable_modify fun s => rfl

theorem keepsTable_loadWord (pid : ℤ) (p : Proc) (addr : ℕ) : KeepsTable (loadWord pid p addr) := by
  refine keepsTable_bind (keepsTable_guestMemory pid p) fun wasm => ?_
  split_ifs
  · exact keepsTable_bind keepsTable_throw fun _ => keepsTable_pure _
  · exact keepsTable_pure _

theorem keepsTable_onVfs (f : ℕ → Vfs → Vfs × Option ℤ) : KeepsTable (onVfs f) := by
  refine keepsTable_bind keepsTable_get fun s => ?_
  refine keepsTable_bind (keepsTable_modify fun _ => rfl) fun _ => ?_
  split
  · exact keepsTable_throw
  · exact keepsTable_pure _

theorem keepsTable_randomBytes (n : ℕ) : KeepsTable (randomBytes n) := by
  unfold randomBytes
  split_ifs
  · exact keepsTable_bind keepsTable_throw fun _ _ => rfl
  · exact fun _ => rfl

theorem keepsTable_getFile (vfsFd : ℤ) : KeepsTable (getFile vfsFd) :=
  keepsTable_bind keepsTable_get fun _ => keepsTable_pure _

theorem keepsTable_setPosition (vfsFd position : ℤ) : KeepsTable (setPosition vfsFd position) :=
  keepsTable_bind keepsTable_get fun _ => keepsTable_modify fun _ => rfl

theorem keepsTable_vfsRead (vfsFd : ℤ) (count : ℕ) (offset : ℤ) :
    KeepsTable (vfsRead vfsFd count offset) := by
  refine keepsTable_bind (keepsTable_alloc count) fun _ => ?_
  refine keepsTable_bind keepsTable_get fun s => ?_
  refine keepsTable_ite ?_ (keepsTable_pure _)
  exact keepsTable_bind (keepsTable_randomBytes count) fun _ => keepsTable_pure _

theorem keepsTable_viewGuest (pid : ℤ) (p : Proc) (addr count : ℕ) :
    KeepsTable (viewGuest pid p addr count) :=
  keepsTable_bind (keepsTable_guestMemory pid p) fun _ => keepsTable_pure _

theorem keepsTable_sliceGuest (pid : ℤ) (p : Proc) (addr count : ℕ) :
    KeepsTable (sliceGuest pid p addr count) := by
  refine keepsTable_bind (keepsTable_viewGuest pid p addr count) fun bytes => ?_
  exact keepsTable_bind (keepsTable_alloc _) fun _ => keepsTable_pure _

theorem keepsTable_withEntry {p : Proc} {a : Int32} {missing : Io ℤ} {body : FdKind → Io ℤ}
    (hm : KeepsTable missing) (hb : ∀ kind, KeepsTable (body kind)) :
    KeepsTable (withEntry p a missing body) := by
  unfold withEntry
  split
  · exact hm
  · exact hb _

theorem keepsTable_withFile {vfsFd : ℤ} {body : OpenFile → Io ℤ} (hb : ∀ file, KeepsTable (body file)) :
    KeepsTable (withFile vfsFd body) := by
  refine keepsTable_bind (keepsTable_getFile vfsFd) fun file => ?_
  split
  · exact keepsTable_pure _
  · exact hb _

theorem keepsTable_loadIov (pid : ℤ) (p : Proc) (iov i : ℕ) : KeepsTable (loadIov pid p iov i) := by
  refine keepsTable_bind (keepsTable_loadWord pid p _) fun _ => ?_
  exact keepsTable_bind (keepsTable_loadWord pid p _) fun _ => keepsTable_pure _

theorem keepsTable_iovLoop {pid : ℤ} {p : Proc} {iov : ℕ} {round : ℤ → ℕ → ℕ → Io ℤ} {stops : Bool}
    (hr : ∀ total iovBase iovLen, KeepsTable (round total iovBase iovLen)) (rounds i : ℕ) (total : ℤ) :
    KeepsTable (iovLoop pid p iov round stops rounds i total) := by
  induction rounds generalizing i total with
  | zero => exact keepsTable_pure _
  | succ rounds ih =>
      refine keepsTable_bind (keepsTable_loadIov pid p iov i) fun words => ?_
      refine keepsTable_bind (hr total words.1 words.2) fun n => ?_
      exact keepsTable_ite (keepsTable_pure _) (ih (i + 1) (total + n))

theorem keepsTable_gather (pid : ℤ) (p : Proc) (iov rounds i : ℕ) :
    KeepsTable (gather pid p iov rounds i) := by
  induction rounds generalizing i with
  | zero => exact keepsTable_pure _
  | succ rounds ih =>
      refine keepsTable_bind (keepsTable_loadIov pid p iov i) fun words => ?_
      refine keepsTable_bind (keepsTable_viewGuest pid p _ _) fun piece => ?_
      exact keepsTable_bind (ih (i + 1)) fun _ => keepsTable_pure _

theorem keepsTable_getCursor (vfsFd : ℤ) (file : OpenFile) : KeepsTable (getCursor vfsFd file) := by
  refine keepsTable_bind keepsTable_get fun s => ?_
  split
  · exact keepsTable_pure _
  · exact keepsTable_throw
  · exact keepsTable_pure _

/-- What the reading syscalls do with what they read. -/
theorem keepsTable_storeRead (pid : ℤ) (p : Proc) (addr : ℕ) (r : ℤ × List UInt8) :
    KeepsTable (do
      if 0 < r.1 then
        storeGuest pid p addr r.2
        return r.1
      return r.1) :=
  keepsTable_ite (keepsTable_bind (keepsTable_storeGuest pid p addr r.2) fun _ => keepsTable_pure _)
    (keepsTable_pure _)

/-- Reading at the position of the file. -/
theorem keepsTable_readNext (pid : ℤ) (p : Proc) (vfsFd : ℤ) (count addr : ℕ) :
    KeepsTable (withFile vfsFd fun file => do
      let (n, bytes) ← vfsRead vfsFd count file.position
      setPosition vfsFd (file.position + n)
      if 0 < n then storeGuest pid p addr bytes
      return n) := by
  refine keepsTable_withFile fun file => ?_
  refine keepsTable_bind (keepsTable_vfsRead _ _ _) fun r => ?_
  exact keepsTable_bind (keepsTable_setPosition _ _) fun _ => keepsTable_storeRead pid p _ r

theorem keepsTable_sysRead (pid : ℤ) (p : Proc) (a b c : Int32) : KeepsTable (sysRead pid p a b c) := by
  refine keepsTable_withEntry (keepsTable_pure _) fun kind => ?_
  dsimp only
  split
  · exact keepsTable_pure _
  · refine keepsTable_bind (keepsTable_alloc _) fun _ => ?_
    refine keepsTable_bind (keepsTable_randomBytes _) fun _ => ?_
    exact keepsTable_bind (keepsTable_storeGuest pid p _ _) fun _ => keepsTable_pure _
  · exact keepsTable_pure _
  · exact keepsTable_pure _
  · exact keepsTable_readNext pid p _ _ _
  · exact keepsTable_readNext pid p _ _ _

theorem keepsTable_sysWrite (pid : ℤ) (p : Proc) (a b c : Int32) : KeepsTable (sysWrite pid p a b c) := by
  refine keepsTable_withEntry (keepsTable_pure _) fun kind => ?_
  refine keepsTable_bind (keepsTable_sliceGuest pid p _ _) fun buf => ?_
  split
  · exact keepsTable_bind (keepsTable_modify fun _ => rfl) fun _ => keepsTable_pure _
  · exact keepsTable_bind (keepsTable_modify fun _ => rfl) fun _ => keepsTable_pure _
  · exact keepsTable_pure _
  · exact keepsTable_pure _
  · exact keepsTable_onVfs _
  · exact keepsTable_pure _

theorem keepsTable_sysLseek (p : Proc) (a b c : Int32) : KeepsTable (sysLseek p a b c) := by
  refine keepsTable_withEntry (keepsTable_pure _) fun kind => ?_
  split
  iterate 2 exact keepsTable_pure _
  all_goals
    refine keepsTable_withFile fun file => ?_
    refine keepsTable_bind keepsTable_get fun s => ?_
    exact keepsTable_bind (keepsTable_setPosition _ _) fun _ => keepsTable_pure _

theorem keepsTable_sysPread64 (pid : ℤ) (p : Proc) (a b c d e : Int32) :
    KeepsTable (sysPread64 pid p a b c d e) := by
  refine keepsTable_withEntry (keepsTable_pure _) fun kind => ?_
  split
  · refine keepsTable_withFile fun _ => ?_
    exact keepsTable_bind (keepsTable_vfsRead _ _ _) fun r => keepsTable_storeRead pid p _ r
  · refine keepsTable_withFile fun _ => ?_
    exact keepsTable_bind (keepsTable_vfsRead _ _ _) fun r => keepsTable_storeRead pid p _ r
  · exact keepsTable_pure _

theorem keepsTable_sysPreadv (pid : ℤ) (p : Proc) (a b c d e : Int32) :
    KeepsTable (sysPreadv pid p a b c d e) := by
  refine keepsTable_withEntry (keepsTable_pure _) fun kind => ?_
  split
  · refine keepsTable_withFile fun _ => keepsTable_iovLoop (fun total iovBase iovLen => ?_) _ _ _
    exact keepsTable_bind (keepsTable_vfsRead _ _ _) fun r => keepsTable_storeRead pid p _ r
  · refine keepsTable_withFile fun _ => keepsTable_iovLoop (fun total iovBase iovLen => ?_) _ _ _
    exact keepsTable_bind (keepsTable_vfsRead _ _ _) fun r => keepsTable_storeRead pid p _ r
  · exact keepsTable_pure _

theorem keepsTable_sysReadv (pid : ℤ) (p : Proc) (a b c : Int32) : KeepsTable (sysReadv pid p a b c) := by
  refine keepsTable_withEntry (keepsTable_pure _) fun kind => ?_
  split
  · exact keepsTable_pure _
  · refine keepsTable_iovLoop (fun total iovBase iovLen => ?_) _ _ _
    refine keepsTable_bind (keepsTable_alloc _) fun _ => ?_
    refine keepsTable_bind (keepsTable_randomBytes _) fun _ => ?_
    exact keepsTable_bind (keepsTable_storeGuest pid p _ _) fun _ => keepsTable_pure _
  iterate 2 exact keepsTable_pure _
  all_goals
    refine keepsTable_withFile fun _ => keepsTable_iovLoop (fun total iovBase iovLen => ?_) _ _ _
    exact keepsTable_readNext pid p _ _ _

theorem keepsTable_sysWritev (pid : ℤ) (p : Proc) (a b c : Int32) :
    KeepsTable (sysWritev pid p a b c) := by
  refine keepsTable_withEntry (keepsTable_pure _) fun kind => ?_
  have hsum : KeepsTable
      (iovLoop pid p (unsigned b) (fun _ _ iovLen => return iovLen) false c.toInt.toNat 0 0) :=
    keepsTable_iovLoop (fun _ _ _ => keepsTable_pure _) _ _ _
  have hout : KeepsTable (do
      let totalLen ←
        iovLoop pid p (unsigned b) (fun _ _ iovLen => return iovLen) false c.toInt.toNat 0 0
      alloc totalLen.toNat
      let gathered ← gather pid p (unsigned b) c.toInt.toNat 0
      modify fun s => { s with stdout := s.stdout ++ [gathered] }
      return totalLen) := by
    refine keepsTable_bind hsum fun totalLen => ?_
    refine keepsTable_bind (keepsTable_alloc _) fun _ => ?_
    refine keepsTable_bind (keepsTable_gather pid p _ _ _) fun gathered => ?_
    exact keepsTable_bind (keepsTable_modify fun _ => rfl) fun _ => keepsTable_pure _
  dsimp only
  split
  · exact hout
  · exact hout
  · exact hsum
  · exact keepsTable_pure _
  · exact keepsTable_pure _
  · refine keepsTable_withFile fun _ => keepsTable_iovLoop (fun total iovBase iovLen => ?_) _ _ _
    exact keepsTable_bind (keepsTable_sliceGuest pid p _ _) fun buf => keepsTable_onVfs _
  · exact keepsTable_pure _

theorem keepsTable_sysPwrite64 (pid : ℤ) (p : Proc) (a b c d e : Int32) :
    KeepsTable (sysPwrite64 pid p a b c d e) := by
  refine keepsTable_withEntry (keepsTable_pure _) fun kind => ?_
  split
  · refine keepsTable_withFile fun _ => ?_
    refine keepsTable_bind (keepsTable_sliceGuest pid p _ _) fun src => ?_
    exact keepsTable_bind (keepsTable_onVfs _) fun _ => keepsTable_pure _
  · exact keepsTable_pure _

theorem keepsTable_sysFtruncate (p : Proc) (a b : Int32) : KeepsTable (sysFtruncate p a b) := by
  refine keepsTable_withEntry (keepsTable_pure _) fun kind => ?_
  split
  · exact keepsTable_onVfs _
  · exact keepsTable_pure _

theorem keepsTable_sysGetdents64 (pid : ℤ) (p : Proc) (a b c : Int32) :
    KeepsTable (sysGetdents64 pid p a b c) := by
  refine keepsTable_withEntry (keepsTable_pure _) fun kind => ?_
  have hlist : ∀ vfsFd, KeepsTable (withFile vfsFd fun file => do
      if ¬ file.isDir then return -9
      let cursor ← getCursor vfsFd file
      modify fun s => { s with cursors := s.cursors.set vfsFd cursor }
      alloc (unsigned c)
      let (tmpBuf, index) :=
        fillDirents (unsigned c) cursor.dirOffset (cursor.dirEntries.drop cursor.dirOffset) []
      modify fun s => { s with cursors := s.cursors.set vfsFd { cursor with dirOffset := index } }
      if tmpBuf ≠ [] then storeGuest pid p (unsigned b) tmpBuf
      return tmpBuf.length) := by
    intro vfsFd
    refine keepsTable_withFile fun file => ?_
    refine keepsTable_ite (keepsTable_pure _) ?_
    refine keepsTable_bind (keepsTable_getCursor vfsFd file) fun cursor => ?_
    refine keepsTable_bind (keepsTable_modify fun _ => rfl) fun _ => ?_
    refine keepsTable_bind (keepsTable_alloc _) fun _ => ?_
    refine keepsTable_bind (keepsTable_modify fun _ => rfl) fun _ => ?_
    refine keepsTable_ite ?_ (keepsTable_pure _)
    exact keepsTable_bind (keepsTable_storeGuest pid p _ _) fun _ => keepsTable_pure _
  split
  · exact hlist _
  · exact hlist _
  · exact keepsTable_pure _

/-- **A call on a file leaves the tables of descriptors alone.** -/
theorem processTable_handleFileCall (s : State) (pid : ℤ) (a : Int32) (call : FileCall) :
    (handleFileCall s pid a call).1.kernel.processTable = s.kernel.processTable := by
  unfold handleFileCall
  cases hp : s.kernel.processTable.get? pid with
  | none => rfl
  | some p =>
      have hkeeps : KeepsTable (fileHandler pid p a call) := by
        cases call with
        | read b c => exact keepsTable_sysRead pid p a b c
        | write b c => exact keepsTable_sysWrite pid p a b c
        | readv b c => exact keepsTable_sysReadv pid p a b c
        | writev b c => exact keepsTable_sysWritev pid p a b c
        | pread64 b c d e => exact keepsTable_sysPread64 pid p a b c d e
        | preadv b c d e => exact keepsTable_sysPreadv pid p a b c d e
        | pwrite64 b c d e => exact keepsTable_sysPwrite64 pid p a b c d e
        | lseek b c => exact keepsTable_sysLseek p a b c
        | ftruncate b => exact keepsTable_sysFtruncate p a b
        | getdents64 b c => exact keepsTable_sysGetdents64 pid p a b c
      have htable := hkeeps s
      dsimp only
      split <;> simp_all

/-! ### Two runs -/

/-- The second sequence of events is the first one, with descriptors of calls on files replaced by what
are aliases of theirs when the call is made. -/
inductive Replaced : State → List Event → List Event → Prop where
  | nil (s : State) : Replaced s [] []
  | same {s : State} (ev : Event) {evs evs' : List Event} (h : Replaced (after s ev) evs evs') :
      Replaced s (ev :: evs) (ev :: evs')
  | swap {s : State} {pid : ℤ} {a b : Int32} {call : FileCall} {evs evs' : List Event}
      (ha : Aliases s pid a.toInt b.toInt) (h : Replaced (after s (.file pid a call)) evs evs') :
      Replaced s (.file pid a call :: evs) (.file pid b call :: evs')

/-- **Replacing descriptors by aliases, anywhere.**  Between the calls the guests may work, and the kernel
may handle anything else. -/
theorem run_replaced {s : State} {evs evs' : List Event} (h : Replaced s evs evs') :
    run s evs = run s evs' := by
  induction h with
  | nil s => rfl
  | same ev _ ih => rw [run, run, ih]
  | @swap s pid a b call evs evs' ha _ ih =>
      have hcall : handle s (.file pid a call) = handle s (.file pid b call) := by
        rw [handle, handle, handleFileCall_congr (kind_of_aliases ha) call]
      have hafter : after s (.file pid a call) = after s (.file pid b call) := by
        rw [after, after, hcall]
      rw [run, run, ← hcall, ← hafter, ih]

/-- The calls on files, and what the guests do between them. -/
def isFileEvent : Event → Bool
  | .kernel _ => false
  | _ => true

/-- One event of two sequences of calls: the same in both, or a call through two aliases. -/
inductive Swapped (s : State) : Event → Event → Prop where
  | same (ev : Event) (hev : isFileEvent ev = true) : Swapped s ev ev
  | swap {pid : ℤ} {a b : Int32} (call : FileCall) (ha : Aliases s pid a.toInt b.toInt) :
      Swapped s (.file pid a call) (.file pid b call)

/-- Calls on files make no aliases and break none. -/
theorem processTable_of_isFileEvent {ev : Event} (hev : isFileEvent ev = true) (s : State) :
    (after s ev).kernel.processTable = s.kernel.processTable := by
  cases ev with
  | file pid a call => exact processTable_handleFileCall s pid a call
  | kernel ev => cases hev
  | guest pid memory => rfl

theorem aliases_after {s : State} {ev : Event} (hev : isFileEvent ev = true) {pid i j : ℤ}
    (h : Aliases s pid i j) : Aliases (after s ev) pid i j := by
  have htable := processTable_of_isFileEvent hev s
  refine .kept ev h ?_ ?_ <;> rw [entryAt, entryAt, htable]

theorem swapped_after {s : State} {ev : Event} (hev : isFileEvent ev = true) {ev₁ ev₂ : Event}
    (h : Swapped s ev₁ ev₂) : Swapped (after s ev) ev₁ ev₂ := by
  cases h with
  | same _ h => exact .same ev₁ h
  | swap call ha => exact .swap call (aliases_after hev ha)

/-- Replacements by aliases of the first state are replacements by aliases at the time of the call. -/
theorem replaced_of_swapped {s : State} {evs evs' : List Event}
    (h : List.Forall₂ (Swapped s) evs evs') : Replaced s evs evs' := by
  induction evs generalizing s evs' with
  | nil =>
      cases h
      exact .nil s
  | cons ev evs ih =>
      cases h with
      | cons hev hevs =>
          cases hev with
          | same _ hev =>
              exact .same ev (ih (hevs.imp fun _ _ => swapped_after hev))
          | swap call ha =>
              exact .swap ha (ih (hevs.imp fun _ _ => swapped_after rfl))

/-- **Aliases are interchangeable.**  In a sequence of calls on files, replacing one alias by another in any
of the calls changes no result and nothing of the state that the sequence leads to. -/
theorem run_swapped {s : State} {evs evs' : List Event} (h : List.Forall₂ (Swapped s) evs evs') :
    run s evs = run s evs' :=
  run_replaced (replaced_of_swapped h)

/-- Process 1 with a memory of 16 bytes and the file `/f` open as descriptor 4. -/
def opened : State :=
  [Event.kernel (.registerWorker 1), .kernel (.registerMemory 1),
    .guest 1 ("/f".toList.flatMap String.utf8EncodeChar ++ List.replicate 14 7),
    .kernel (.call 1 (.open "/f".toList oCreat 0) .answered)].foldl after
    { kernel := booted, memory := fun _ => [], cursors := JsMap.empty, stdout := [],
      entropy := fun _ => 0, limit := 2 ^ 32 }

/-- The state after `dup(4)`, which gives 5. -/
def duplicated : State := after opened (.kernel (.call 1 (.dup 4) .answered))

theorem aliases_duplicated : Aliases duplicated 1 (4 : Int32).toInt (5 : Int32).toInt := by
  have hresult : (handleSyscall opened.kernel 1 (.dup 4) .answered).result = (5 : Int32).toInt := by
    decide +kernel
  rw [← hresult]
  refine .copied opened 1 .answered (.dup 4) ?_
  rw [hresult]
  decide

/-- Writing four bytes, going back to the second, and reading: through 4 or through 5. -/
theorem run_swapped_duplicated :
    run duplicated [.file 1 4 (.write 2 4), .file 1 5 (.lseek 1 0), .file 1 4 (.read 8 9)] =
      run duplicated [.file 1 5 (.write 2 4), .file 1 5 (.lseek 1 0), .file 1 5 (.read 8 9)] :=
  run_swapped
    (.cons (.swap _ aliases_duplicated)
      (.cons (.same _ rfl) (.cons (.swap _ aliases_duplicated) .nil)))

example :
    (run duplicated [.file 1 4 (.write 2 4), .file 1 5 (.lseek 1 0), .file 1 4 (.read 8 9)]).1 =
      [some 4, some 1, some 3] := by
  decide +kernel

end FileIo
