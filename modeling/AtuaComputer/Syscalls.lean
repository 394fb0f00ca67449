/-
**The other syscalls.**

`handleSyscall` is one `switch`.  Its cases about descriptors and processes are in `Kernel`, those that move
bytes through a descriptor in `FileIo`.  This module has the rest: the calls on paths and metadata, those
that fill a structure in the guest's memory, those that take a number for a handle of the filesystem, the
working directory, and the many cases that only return a number.

As in `Kernel`, a path is what the guest's memory holds at the pointer, and is empty before the memory is
registered.  The time is an argument of the calls that ask for it.

Main definitions:

* `Syscalls.State` — the kernel with its memories, and what a process has besides its descriptors;
* `Syscalls.Call`, `Syscalls.handler` — the calls of this module;
* `Syscalls.plain` — the calls that only return a number;
* `Syscalls.Syscall`, `Syscalls.handleSyscall` — the whole `switch`;
* `Syscalls.Event`, `Syscalls.after`, `Syscalls.Starts` — the syscalls and messages as a transition system.
-/

import AtuaComputer.FileIo

set_option relaxedAutoImplicit false
set_option autoImplicit false

namespace Syscalls

open VirtualFs Kernel Bridge FileIo

/-! ### State -/

/-- What a process has besides its descriptors. -/
structure Local where
  cwd : Path
  brk : ℤ

/-- The kernel, with the processes' `cwd` and `brk`, the codes of exited children, the processes that wait,
and the time of the boot. -/
structure State where
  io : FileIo.State
  locals : ℤ → Local
  exitCodes : JsMap ℤ ℤ
  pendingWaits : JsMap ℤ (ℤ × Int32)
  bootTime : ℤ

/-! ### Words in the guest's memory -/

/-- A number as `w` little-endian bytes, in two's complement. -/
def wordBytes (w : ℕ) (n : ℤ) : List UInt8 := leBytes w (n % 256 ^ w).toNat

/-- `wasmDV.getBigInt64(addr, true)` -/
def loadBig (pid : ℤ) (p : Proc) (addr : ℕ) : Io ℤ := do
  let wasm ← guestMemory pid p
  if wasm.length < addr + 8 then throw ()
  let n := leNat ((wasm.drop addr).take 8)
  return if n < 2 ^ 63 then (n : ℤ) else (n : ℤ) - 2 ^ 64

/-- `wasmDV.setUint32`, `wasmDV.setInt32` and `wasmDV.setBigInt64` -/
def storeWord (pid : ℤ) (p : Proc) (w addr : ℕ) (n : ℤ) : Io Unit := storeGuest pid p addr (wordBytes w n)

/-- `wasm.fill(0, addr, addr + count)`, which is cut off at the end of the memory. -/
def clearGuest (pid : ℤ) (p : Proc) (addr count : ℕ) : Io Unit := do
  let wasm ← guestMemory pid p
  let room := min count (wasm.length - addr)
  if addr ≤ wasm.length then storeGuest pid p addr (List.replicate room 0)

/-- `new TextEncoder().encode(s)` -/
def encode (s : Path) : List UInt8 := s.flatMap String.utf8EncodeChar

/-- A string at `addr` with a zero after it. -/
def storeCString (pid : ℤ) (p : Proc) (addr : ℕ) (s : Path) : Io Unit := do
  storeGuest pid p addr (encode s)
  let wasm ← guestMemory pid p
  -- an assignment past the end does nothing
  if addr + (encode s).length < wasm.length then storeGuest pid p (addr + (encode s).length) [0]

/-! ### Structures -/

/-- The UTF-16 code units of a character. -/
def utf16 (c : Char) : List ℕ :=
  if c.toNat < 0x10000 then [c.toNat]
  else [0xD800 + (c.toNat - 0x10000) / 0x400, 0xDC00 + (c.toNat - 0x10000) % 0x400]

/-- `ino = ((ino << 5) - ino + path.charCodeAt(i)) >>> 0` over the code units of a path -/
def pathIno (path : Path) : ℕ :=
  ((path.flatMap utf16).foldl (fun (ino : UInt32) c => (ino <<< 5) - ino + UInt32.ofNat c) 0).toNat

/-- `x || y` for numbers that may be missing. -/
def orElse {α : Type} [Zero α] [DecidableEq α] (x : Option α) (y : α) : α :=
  match x with
  | none => y
  | some x => if x = 0 then y else x

/-- The bits of the mode for a type. -/
def typeBits : NodeType → ℕ
  | .dir => 0o40000
  | .symlink => 0o120000
  | .chardev => 0o20000
  | .file => 0o100000

/-- `writeStatBuf` -/
def statBuf (bootTime : ℤ) (size : ℕ) (type : NodeType) (info : Meta) (ino : ℤ) : List UInt8 :=
  let permBits :=
    match info.mode with
    | some mode => (mode % 0o10000).toNat
    | none => if type = .chardev then 0o666 else 0o755
  let atime := orElse info.atime bootTime
  let mtime := orElse info.mtime bootTime
  wordBytes 8 1 ++ wordBytes 8 (if ino = 0 then 1 else ino) ++
    wordBytes 4 (if type = .dir then 2 else 1) ++ wordBytes 4 (typeBits type + permBits : ℕ) ++
    wordBytes 4 (info.uid.getD 0) ++ wordBytes 4 (info.gid.getD 0) ++ List.replicate 16 0 ++
    wordBytes 8 size ++ wordBytes 4 4096 ++ List.replicate 4 0 ++ wordBytes 8 ((size + 511) / 512) ++
    wordBytes 4 atime ++ List.replicate 4 0 ++ wordBytes 4 mtime ++ List.replicate 4 0 ++
    wordBytes 4 mtime ++ List.replicate 12 0 ++ wordBytes 8 mtime

/-- The structure of `SYS_fstat` for a pipe. -/
def pipeBuf : List UInt8 :=
  List.replicate 16 0 ++ wordBytes 4 1 ++ wordBytes 4 0o10600 ++ List.replicate 32 0 ++ wordBytes 4 4096 ++
    List.replicate 52 0

/-- The structure of `SYS_statx`. -/
def statxBuf (info : Stat) : List UInt8 :=
  let mode : ℕ := match info.type with
    | .dir => 0o40755
    | .symlink => 0o120755
    | _ => 0o100755
  wordBytes 4 0xFFF ++ wordBytes 4 4096 ++ List.replicate 8 0 ++
    wordBytes 4 (if info.type = .dir then 2 else 1) ++ List.replicate 8 0 ++ wordBytes 2 mode ++
    List.replicate 10 0 ++ wordBytes 8 info.size ++ List.replicate 208 0

/-- `writeStatfsBuf` -/
def statfsBuf : List UInt8 :=
  wordBytes 8 0xEF53 ++ wordBytes 8 4096 ++ wordBytes 8 1000000 ++ wordBytes 8 500000 ++
    wordBytes 8 500000 ++ wordBytes 8 100000 ++ wordBytes 8 50000 ++ List.replicate 8 0 ++
    wordBytes 8 255 ++ wordBytes 8 4096 ++ List.replicate 40 0

/-- The fields of `SYS_uname`. -/
def unameFields : List Path :=
  ["Linux".toList, "atua".toList, "6.1.0-atua".toList, "#1 SMP".toList, "x86_64".toList]

/-! ### Calls -/

/-- The calls of this module, with their registers.  `now` is `Date.now()`, in milliseconds. -/
inductive Call where
  | mmap (a b d e f : Int32)
  | fstat (a b : Int32)
  | stat (path : Path) (b : Int32)
  | lstat (path : Path) (b : Int32)
  | fstatat (path : Path) (c d : Int32)
  | clockGettime (now : ℕ) (b : Int32)
  | clockGetres (b : Int32)
  | nanosleep (a : Int32)
  | getrandom (a b : Int32)
  | uname (a : Int32)
  | faccessat (path : Path)
  | statx (path : Path) (e : Int32)
  | prlimit64 (d : Int32)
  | mkdir (path : Path) (b : Int32)
  | mkdirat (a : Int32) (path : Path) (c : Int32)
  | unlink (path : Path)
  | unlinkat (a : Int32) (path : Path) (c : Int32)
  | rename (oldPath newPath : Path)
  | renameat (a : Int32) (oldPath : Path) (c : Int32) (newPath : Path)
  | readlink (path : Path) (b c : Int32)
  | readlinkat (a : Int32) (path : Path) (c d : Int32)
  | gettimeofday (now : ℕ) (a : Int32)
  | getrusage (b : Int32)
  | times (a : Int32)
  | getresuid (a b c : Int32)
  | getresgid (a b c : Int32)
  | chmod (path : Path) (b : Int32)
  | fchmod (a b : Int32)
  | chown (path : Path) (b c : Int32)
  | fchown (a b c : Int32)
  | fchmodat (a : Int32) (path : Path) (c : Int32)
  | fchownat (a : Int32) (path : Path) (c d : Int32)
  | utimensat (now : ℕ) (a b : Int32) (path : Path) (c : Int32)
  | statfs (b : Int32)
  | fstatfs (b : Int32)
  | symlinkat (target : Path) (b : Int32) (linkpath : Path)
  | linkat (a : Int32) (oldpath : Path) (c : Int32) (newpath : Path)
  | sendfile (a b c d : Int32)
  | fsRead (a b c d e : Int32)
  | fsWrite (a b c d e : Int32)
  | fsFstat (a : Int32)

/-! #### Handles -/

/-- `SYS_mmap`: the content of the file behind the handle `e`, unless `MAP_ANONYMOUS` is given. -/
def sysMmap (pid : ℤ) (p : Proc) (a b d e f : Int32) : Io ℤ := do
  let len := unsigned b
  if hasFlag d 0x20 then return 0
  match (← getFile e.toInt).bind OpenFile.content with
  | none => return 0
  | some content =>
    if p.wasmMemory ∧ a ≠ 0 then
      let bytes := bytesOf (← get).kernel.vfs content
      let avail := min (len : ℤ) (bytes.length - f.toInt)
      if 0 < avail then
        storeGuest pid p (unsigned a) (subarray bytes f.toInt (f.toInt + avail))
    return 0

/-- What `SYS_fstat` makes of an open file. -/
def fileType (file : OpenFile) : NodeType :=
  if file.isDir then .dir else if file.special.isSome then .chardev else .file

/-- `SYS_fstat` -/
def sysFstat (bootTime : ℤ) (pid : ℤ) (p : Proc) (a b : Int32) : Io ℤ :=
  withEntry p a (return -9) fun kind =>
    match kind with
    | .special _ => do
      storeGuest pid p (unsigned b) (statBuf bootTime 0 .chardev default (a.toInt + 1000))
      return 0
    | .pipe _ _ => do
      storeGuest pid p (unsigned b) pipeBuf
      return 0
    | .file vfsFd | .dir vfsFd =>
      withFile vfsFd fun file => do
        let v := (← get).kernel.vfs
        let info := if file.path = [] then default else (v.metadata.get? file.path).getD default
        storeGuest pid p (unsigned b)
          (statBuf bootTime (contentLength v file) (fileType file) info (a.toInt + 1000))
        return 0

/-- A change of the metadata of a path. -/
def setMeta (v : Vfs) (path : Path) (f : Meta → Meta) : Vfs :=
  { v with metadata := v.metadata.set path (f ((v.metadata.get? path).getD default)) }

/-- `SYS_fchmod` and `SYS_fchown`: a descriptor without an open file is no error. -/
def changeFile (p : Proc) (a : Int32) (f : Meta → Meta) : Io ℤ :=
  withEntry p a (return 0) fun kind =>
    match kind with
    | .file vfsFd | .dir vfsFd => do
      match ← getFile vfsFd with
      | none => return 0
      | some file =>
        if file.path = [] then return 0
        onVfs fun _ v => (setMeta v file.path f, some 0)
    | _ => return 0

/-- `SYS_fchmod` -/
def sysFchmod (p : Proc) (a b : Int32) : Io ℤ := changeFile p a fun info => { info with mode := some (unsigned b) }

/-- `SYS_fchown`.  The numbers are read back modulo 2^32 only. -/
def sysFchown (p : Proc) (a b c : Int32) : Io ℤ :=
  changeFile p a fun info => { info with uid := some (unsigned b), gid := some (unsigned c) }

/-- `vfs.openFiles.get(entry.vfsFd)` for a descriptor of a file, and the handle. -/
def regularFile (p : Proc) (a : Int32) : Io (Option (ℤ × OpenFile)) := do
  match p.fdTable.get? a.toInt with
  | some ⟨.file vfsFd, _⟩ => return (← getFile vfsFd).map fun file => (vfsFd, file)
  | _ => return none

/-- The writing part of `SYS_sendfile`.  The number of the descriptor is used for the handle. -/
def sendBytes (a : Int32) (outFd : ℤ) (bytes : List UInt8) (avail : ℤ) : Io Unit := do
  match ← getFile outFd with
  | none => return
  | some outFile =>
    let _ ← onVfs fun limit v => writeFile limit v a.toInt bytes outFile.position
    setPosition outFd (outFile.position + avail)

/-- `SYS_sendfile` -/
def sysSendfile (pid : ℤ) (p : Proc) (a b c d : Int32) : Io ℤ := do
  if ¬ p.fdTable.has a.toInt ∨ ¬ p.fdTable.has b.toInt then return -9
  match ← regularFile p a, ← regularFile p b with
  | some (outFd, _), some (inFd, inFile) =>
    let offset ← if c = 0 then pure inFile.position else loadBig pid p (unsigned c)
    let v := (← get).kernel.vfs
    let avail := min (unsigned d : ℤ) (contentLength v inFile - offset)
    if avail ≤ 0 then return 0
    let bytes := (inFile.content.map (bytesOf v)).getD []
    sendBytes a outFd (subarray bytes offset (offset + avail)) avail
    if c = 0 then setPosition inFd (offset + avail)
    else storeWord pid p 8 (unsigned c) (offset + avail)
    return avail
  | _, _ => return -9

/-- `SYS_FS_READ`: the number is a handle. -/
def sysFsRead (pid : ℤ) (p : Proc) (a b c d e : Int32) : Io ℤ := do
  let (n, bytes) ← vfsRead a.toInt (unsigned c) (offset64 d e)
  if 0 < n then storeGuest pid p (unsigned b) bytes
  return n

/-- `SYS_FS_WRITE`: the number is a handle. -/
def sysFsWrite (pid : ℤ) (p : Proc) (a b c d e : Int32) : Io ℤ := do
  let src ← sliceGuest pid p (unsigned b) (unsigned c)
  onVfs fun limit v => writeFile limit v a.toInt src (offset64 d e)

/-- `SYS_FS_FSTAT`: the low word of `size * 65536 + mode`.  The number is a handle. -/
def sysFsFstat (a : Int32) : Io ℤ := do
  match ← getFile a.toInt with
  | none => return if 2 < a.toInt then -1 else 0
  | some file =>
    let mode : ℕ := if file.special.isSome then 0o20666 else if file.isDir then 0o40755 else 0o100755
    let packed := contentLength (← get).kernel.vfs file * 65536 + mode
    return (Int32.ofNat packed).toInt

/-! #### Paths -/

/-- `AT_FDCWD` -/
def atFdcwd : Int32 := -100

/-- `if (!path.startsWith('/')) { if ((dirfd|0) !== -100) { result = error; break; } path = '/' + path; }` -/
def atPath (dirfd : Int32) (path : Path) (error : ℤ) (body : Path → Io ℤ) : Io ℤ :=
  if path.head? ≠ some '/' ∧ dirfd ≠ atFdcwd then return error else body (absolute path)

/-- A change of the filesystem that cannot fail; the result is 0. -/
def change (f : Vfs → Vfs) : Io ℤ := onVfs fun _ v => (f v, some 0)

/-- The common body of `SYS_stat`, `SYS_lstat` and `SYS_fstatat`. -/
def statPath (bootTime : ℤ) (pid : ℤ) (p : Proc) (path : Path) (followSymlinks : Bool) (buf : Int32) :
    Io ℤ := do
  let path := absolute (readCString p path)
  let v := (← get).kernel.vfs
  match VirtualFs.stat v path followSymlinks with
  | none => return -2
  | some info =>
    let key := if followSymlinks then resolvePath v.symlinks path else path
    storeGuest pid p (unsigned buf)
      (statBuf bootTime info.size info.type ((v.metadata.get? key).getD default) (pathIno path))
    return 0

/-- `SYS_faccessat`: the mode and the flags are not looked at. -/
def sysFaccessat (p : Proc) (path : Path) : Io ℤ := do
  return if (VirtualFs.stat (← get).kernel.vfs (readCString p path) true).isSome then 0 else -2

/-- `SYS_statx` -/
def sysStatx (pid : ℤ) (p : Proc) (path : Path) (e : Int32) : Io ℤ := do
  match VirtualFs.stat (← get).kernel.vfs (readCString p path) true with
  | none => return -2
  | some info =>
    storeGuest pid p (unsigned e) (statxBuf info)
    return 0

/-- `vfs.mkdir`, and the mode if it is not 0. -/
def makeDir (v : Vfs) (path : Path) (mode : Int32) : Vfs :=
  let path := resolvePath v.symlinks path
  let v := VirtualFs.mkdir v path
  if mode = 0 then v else setMeta v path fun info => { info with mode := some (unsigned mode % 0o10000) }

/-- `SYS_mkdir` -/
def sysMkdir (p : Proc) (path : Path) (b : Int32) : Io ℤ :=
  change fun v => makeDir v (absolute (readCString p path)) b

/-- `SYS_mkdirat` -/
def sysMkdirat (p : Proc) (a : Int32) (path : Path) (c : Int32) : Io ℤ :=
  atPath a (readCString p path) (-95) fun path => change fun v => makeDir v path c

/-- `vfs.unlink`, or `vfs.rmdir` with `AT_REMOVEDIR`. -/
def removePath (v : Vfs) (path : Path) (flags : Int32) : Vfs :=
  let path := resolvePath v.symlinks path
  if hasFlag flags 0x200 then VirtualFs.rmdir v path else VirtualFs.unlink v path

/-- `SYS_unlink` -/
def sysUnlink (p : Proc) (path : Path) : Io ℤ :=
  change fun v => removePath v (absolute (readCString p path)) 0

/-- `SYS_unlinkat` -/
def sysUnlinkat (p : Proc) (a : Int32) (path : Path) (c : Int32) : Io ℤ :=
  atPath a (readCString p path) (-95) fun path => change fun v => removePath v path c

/-- `vfs.rename` of resolved paths. -/
def renamePath (v : Vfs) (oldPath newPath : Path) : Vfs :=
  VirtualFs.rename v (resolvePath v.symlinks oldPath) (resolvePath v.symlinks newPath)

/-- `SYS_rename` -/
def sysRename (p : Proc) (oldPath newPath : Path) : Io ℤ :=
  change fun v => renamePath v (absolute (readCString p oldPath)) (absolute (readCString p newPath))

/-- `SYS_renameat` and `SYS_renameat2`, whose flags are not looked at. -/
def sysRenameat (p : Proc) (a : Int32) (oldPath : Path) (c : Int32) (newPath : Path) : Io ℤ :=
  atPath a (readCString p oldPath) (-95) fun oldPath =>
    atPath c (readCString p newPath) (-95) fun newPath => change fun v => renamePath v oldPath newPath

/-- A string that is cut off after `size` bytes, with the number of bytes. -/
def storeLink (pid : ℤ) (p : Proc) (buf size : Int32) (target : Path) : Io ℤ := do
  let n := min (encode target).length (unsigned size)
  storeGuest pid p (unsigned buf) ((encode target).take n)
  return n

/-- `vfs.symlinks.get(path) || vfs.symlinks.get(vfs.normalizePath(path))`; an empty target does not count. -/
def linkTarget (v : Vfs) (path : Path) : Option Path :=
  match v.symlinks.get? path with
  | some (c :: target) => some (c :: target)
  | _ =>
    match v.symlinks.get? (normalizePath path) with
    | some (c :: target) => some (c :: target)
    | _ => none

/-- The link of `/proc/self/exe`. -/
def exePath : Path := "/proc/self/exe".toList

/-- The last part of `SYS_readlink` and `SYS_readlinkat`. -/
def readTarget (pid : ℤ) (p : Proc) (path : Path) (buf size : Int32) : Io ℤ := do
  match linkTarget (← get).kernel.vfs path with
  | none => return -22
  | some target => storeLink pid p buf size target

/-- `SYS_readlink` -/
def sysReadlink (pid : ℤ) (p : Proc) (path : Path) (b c : Int32) : Io ℤ :=
  let path := absolute (readCString p path)
  if path = exePath then storeLink pid p b c "/bin/bash".toList else readTarget pid p path b c

/-- `parseInt` of decimal digits. -/
def parseDigits (digits : List Char) : ℕ := digits.foldl (fun n c => n * 10 + (c.toNat - '0'.toNat)) 0

/-- The number in `/proc/self/fd/N`. -/
def procFd (path : Path) : Option ℕ :=
  let start := "/proc/self/fd/".toList
  if start.isPrefixOf path then
    let digits := path.drop start.length
    if digits ≠ [] ∧ digits.all Char.isDigit then some (parseDigits digits) else none
  else none

/-- `SYS_readlinkat`.  The number in `/proc/self/fd/N` is used as a handle. -/
def sysReadlinkat (pid : ℤ) (p : Proc) (a : Int32) (path : Path) (c d : Int32) : Io ℤ :=
  atPath a (readCString p path) (-38) fun path =>
    if path = exePath then storeLink pid p c d "/bin/bash".toList
    else
      match procFd path with
      | some n => do
        let target := ((← getFile n).map OpenFile.path).getD []
        storeLink pid p c d (if target = [] then ['/'] else target)
      | none => readTarget pid p path c d

/-- A change of the metadata of a path, without a check that there is anything. -/
def changeMeta (path : Path) (f : Meta → Meta) : Io ℤ :=
  change fun v => setMeta v (resolvePath v.symlinks path) f

/-- `SYS_chmod` -/
def sysChmod (p : Proc) (path : Path) (b : Int32) : Io ℤ :=
  changeMeta (absolute (readCString p path)) fun info => { info with mode := some (unsigned b) }

/-- `SYS_chown` -/
def sysChown (p : Proc) (path : Path) (b c : Int32) : Io ℤ :=
  changeMeta (absolute (readCString p path)) fun info =>
    { info with uid := some (unsigned b), gid := some (unsigned c) }

/-- `SYS_fchmodat` -/
def sysFchmodat (p : Proc) (a : Int32) (path : Path) (c : Int32) : Io ℤ :=
  atPath a (readCString p path) (-95) fun path =>
    changeMeta path fun info => { info with mode := some (unsigned c) }

/-- `SYS_fchownat` -/
def sysFchownat (p : Proc) (a : Int32) (path : Path) (c d : Int32) : Io ℤ :=
  atPath a (readCString p path) (-95) fun path =>
    changeMeta path fun info => { info with uid := some (unsigned c), gid := some (unsigned d) }

/-- A time of `SYS_utimensat`: `UTIME_OMIT` keeps the old one, `UTIME_NOW` is the current second. -/
def pickTime (now : ℕ) (old : Option ℤ) (sec nsec : ℤ) : Option ℤ :=
  if nsec = 0x3FFFFFFE then old else if nsec = 0x3FFFFFFF then some (now / 1000) else some sec

/-- `SYS_utimensat`.  Without a path or without times nothing is done. -/
def sysUtimensat (now : ℕ) (pid : ℤ) (p : Proc) (a b : Int32) (path : Path) (c : Int32) : Io ℤ := do
  if b = 0 then return 0
  atPath a (readCString p path) (-95) fun path => do
    if c = 0 then return 0
    let atimeSec ← loadBig pid p (unsigned c)
    let atimeNsec ← loadBig pid p (unsigned c + 8)
    let mtimeSec ← loadBig pid p (unsigned c + 16)
    let mtimeNsec ← loadBig pid p (unsigned c + 24)
    changeMeta path fun info =>
      { info with
        atime := pickTime now info.atime atimeSec atimeNsec
        mtime := pickTime now info.mtime mtimeSec mtimeNsec }

/-- `SYS_symlinkat` -/
def sysSymlinkat (p : Proc) (target : Path) (b : Int32) (linkpath : Path) : Io ℤ :=
  atPath b (readCString p linkpath) (-95) fun linkpath =>
    change fun v => createSymlink v (readCString p target) linkpath

/-- `SYS_linkat`: a copy of the file, not a link. -/
def sysLinkat (p : Proc) (a : Int32) (oldpath : Path) (c : Int32) (newpath : Path) : Io ℤ :=
  atPath a (readCString p oldpath) (-95) fun oldpath =>
    atPath c (readCString p newpath) (-95) fun newpath => do
      let v := (← get).kernel.vfs
      match v.files.get? (resolvePath v.symlinks oldpath) with
      | none => return -2
      | some content => change fun v => addFile v (resolvePath v.symlinks newpath) (bytesOf v content)

/-! #### Structures in the guest's memory -/

/-- `SYS_clock_gettime`, but for the rounding of the nanoseconds to a double. -/
def sysClockGettime (now : ℕ) (pid : ℤ) (p : Proc) (b : Int32) : Io ℤ := do
  storeWord pid p 8 (unsigned b) (now / 1000 : ℕ)
  storeWord pid p 8 (unsigned b + 8) (now % 1000 * 1000000 : ℕ)
  return 0

/-- `SYS_clock_getres` -/
def sysClockGetres (pid : ℤ) (p : Proc) (b : Int32) : Io ℤ := do
  if b ≠ 0 then
    storeWord pid p 8 (unsigned b) 0
    storeWord pid p 8 (unsigned b + 8) 1000000
  return 0

/-- `SYS_nanosleep`, which waits for the time that it reads. -/
def sysNanosleep (pid : ℤ) (p : Proc) (a : Int32) : Io ℤ := do
  let _ ← loadBig pid p (unsigned a)
  let _ ← loadBig pid p (unsigned a + 8)
  return 0

/-- `SYS_getrandom` -/
def sysGetrandom (pid : ℤ) (p : Proc) (a b : Int32) : Io ℤ := do
  alloc (unsigned b)
  storeGuest pid p (unsigned a) (← randomBytes (unsigned b))
  return unsigned b

/-- `SYS_uname`: the fields, 65 bytes each. -/
def storeFields (pid : ℤ) (p : Proc) : ℕ → List Path → Io Unit
  | _, [] => return
  | off, field :: fields => do
    storeCString pid p off field
    storeFields pid p (off + 65) fields

/-- `SYS_uname` -/
def sysUname (pid : ℤ) (p : Proc) (a : Int32) : Io ℤ := do
  storeFields pid p (unsigned a) unameFields
  return 0

/-- `SYS_prlimit64` -/
def sysPrlimit64 (pid : ℤ) (p : Proc) (d : Int32) : Io ℤ := do
  if d ≠ 0 then
    storeWord pid p 8 (unsigned d) 1024
    storeWord pid p 8 (unsigned d + 8) 1024
  return 0

/-- `SYS_gettimeofday` -/
def sysGettimeofday (now : ℕ) (pid : ℤ) (p : Proc) (a : Int32) : Io ℤ := do
  if a ≠ 0 then
    storeWord pid p 8 (unsigned a) (now / 1000 : ℕ)
    storeWord pid p 8 (unsigned a + 8) (now % 1000 * 1000 : ℕ)
  return 0

/-- `SYS_getrusage` -/
def sysGetrusage (pid : ℤ) (p : Proc) (b : Int32) : Io ℤ := do
  clearGuest pid p (unsigned b) 144
  return 0

/-- `SYS_times` -/
def sysTimes (pid : ℤ) (p : Proc) (a : Int32) : Io ℤ := do
  if a ≠ 0 then clearGuest pid p (unsigned a) 32
  return 0

/-- `SYS_getresuid` and `SYS_getresgid` -/
def storeIds (pid : ℤ) (p : Proc) (a b c : Int32) : Io ℤ := do
  storeWord pid p 4 (unsigned a) 0
  storeWord pid p 4 (unsigned b) 0
  storeWord pid p 4 (unsigned c) 0
  return 0

/-- `SYS_statfs` and `SYS_fstatfs`: the path and the descriptor are not looked at. -/
def storeStatfs (pid : ℤ) (p : Proc) (b : Int32) : Io ℤ := do
  storeGuest pid p (unsigned b) statfsBuf
  return 0

/-! ### The switch -/

/-- The cases of this module. -/
def handler (bootTime : ℤ) (pid : ℤ) (p : Proc) : Call → Io ℤ
  | .mmap a b d e f => sysMmap pid p a b d e f
  | .fstat a b => sysFstat bootTime pid p a b
  | .stat path b => statPath bootTime pid p path true b
  | .lstat path b => statPath bootTime pid p path false b
  | .fstatat path c d => statPath bootTime pid p path (!hasFlag d 0x100) c
  | .clockGettime now b => sysClockGettime now pid p b
  | .clockGetres b => sysClockGetres pid p b
  | .nanosleep a => sysNanosleep pid p a
  | .getrandom a b => sysGetrandom pid p a b
  | .uname a => sysUname pid p a
  | .faccessat path => sysFaccessat p path
  | .statx path e => sysStatx pid p path e
  | .prlimit64 d => sysPrlimit64 pid p d
  | .mkdir path b => sysMkdir p path b
  | .mkdirat a path c => sysMkdirat p a path c
  | .unlink path => sysUnlink p path
  | .unlinkat a path c => sysUnlinkat p a path c
  | .rename oldPath newPath => sysRename p oldPath newPath
  | .renameat a oldPath c newPath => sysRenameat p a oldPath c newPath
  | .readlink path b c => sysReadlink pid p path b c
  | .readlinkat a path c d => sysReadlinkat pid p a path c d
  | .gettimeofday now a => sysGettimeofday now pid p a
  | .getrusage b => sysGetrusage pid p b
  | .times a => sysTimes pid p a
  | .getresuid a b c => storeIds pid p a b c
  | .getresgid a b c => storeIds pid p a b c
  | .chmod path b => sysChmod p path b
  | .fchmod a b => sysFchmod p a b
  | .chown path b c => sysChown p path b c
  | .fchown a b c => sysFchown p a b c
  | .fchmodat a path c => sysFchmodat p a path c
  | .fchownat a path c d => sysFchownat p a path c d
  | .utimensat now a b path c => sysUtimensat now pid p a b path c
  | .statfs b => storeStatfs pid p b
  | .fstatfs b => storeStatfs pid p b
  | .symlinkat target b linkpath => sysSymlinkat p target b linkpath
  | .linkat a oldpath c newpath => sysLinkat p a oldpath c newpath
  | .sendfile a b c d => sysSendfile pid p a b c d
  | .fsRead a b c d e => sysFsRead pid p a b c d e
  | .fsWrite a b c d e => sysFsWrite pid p a b c d e
  | .fsFstat a => sysFsFstat a

/-- The cases that only return a number; all numbers without a case return `ENOSYS`. -/
def plain : List (ℤ × ℤ) :=
  [(10, 0), (11, 0), (39, 1), (110, 0), (102, 0), (104, 0), (107, 0), (108, 0), (186, 1), (218, 1),
    (273, 0), (205, 0), (13, 0), (14, 0), (127, 0), (131, 0), (16, -25), (121, 0), (60, -255),
    (231, -255), (62, -255), (200, -255), (234, -255), (22, -38), (293, -38), (73, 0), (285, 0),
    (21, -2), (24, 0), (25, -38), (28, 0), (56, -38), (57, -38), (59, -38), (61, -10), (95, 0o22),
    (97, 0), (105, 0), (106, 0), (109, 0), (111, 0), (112, 1), (113, 0), (114, 0), (117, 0), (119, 0),
    (124, 0), (15, 0), (157, 0), (158, 0), (160, 0), (247, -38), (94, 0), (132, 0), (133, -38),
    (191, 0), (192, 0), (193, 0), (197, -61), (198, -61), (199, -61), (74, 0), (75, 0), (76, 0),
    (80, 0), (161, 0), (162, 0), (41, -97), (42, -38), (43, -38), (44, -38), (45, -38), (46, -38),
    (47, -38), (48, -38), (49, -38), (50, -38), (51, 0), (52, 0), (53, -38), (54, 0), (55, 0), (7, 0),
    (23, 0), (101, -38), (165, -38), (166, -38), (169, -38), (1005, 0), (1006, 0), (1007, 0),
    (1008, 0), (1013, -38), (1014, -38), (1017, -38), (1018, -38), (1019, -38), (1020, -38),
    (1021, -38)]

/-- A syscall. -/
inductive Syscall where
  | kernel (call : Kernel.Call) (fate : Fate)
  | file (a : Int32) (call : FileCall)
  | other (call : Call)
  | brk (a : Int32)
  | getcwd (a b : Int32)
  | fsGetcwd (a : Int32)
  | fsChdir (path : Path)
  | procWait (a b : Int32)
  | socketOpen
  | plain (n : Int32)

/-- The run of a handler, whose exceptions become `-1`. -/
def attempt (s : State) (x : Io ℤ) : State × ℤ :=
  match x.run.run s.io with
  | (.ok result, io) => ({ s with io }, result)
  | (.error _, io) => ({ s with io }, -1)

/-- A change of what a process has besides its descriptors. -/
def setLocal (s : State) (pid : ℤ) (l : Local) : State :=
  { s with locals := Function.update s.locals pid l }

/-- `SYS_brk` -/
def sysBrk (s : State) (pid : ℤ) (a : Int32) : State × ℤ :=
  let l := s.locals pid
  let brk := if l.brk = 0 then a.toInt else l.brk
  if a = 0 then (setLocal s pid { l with brk }, brk)
  else (setLocal s pid { l with brk := unsigned a }, unsigned a)

/-- `SYS_getcwd` -/
def sysGetcwd (s : State) (pid : ℤ) (p : Proc) (a b : Int32) : State × ℤ :=
  let cwd := if (s.locals pid).cwd = [] then ['/'] else (s.locals pid).cwd
  attempt s do
    if b.toInt < (encode cwd).length + 1 then return -34
    storeCString pid p (unsigned a) cwd
    return a.toInt

/-- `SYS_GETCWD` -/
def sysFsGetcwd (s : State) (pid : ℤ) (p : Proc) (a : Int32) : State × ℤ :=
  attempt s do
    storeCString pid p (unsigned a) (s.locals pid).cwd
    return (encode (s.locals pid).cwd).length

/-- `SYS_CHDIR`: the path is taken as it is. -/
def sysFsChdir (s : State) (pid : ℤ) (p : Proc) (path : Path) : State × ℤ :=
  (setLocal s pid { s.locals pid with cwd := readCString p path }, 0)

/-- `SYS_PROC_WAIT`; without a result the process waits. -/
def sysProcWait (s : State) (pid : ℤ) (p : Proc) (a b : Int32) : State × Option ℤ :=
  match if 0 < a.toInt then s.exitCodes.get? a.toInt else none with
  | some code =>
    let s := { s with exitCodes := s.exitCodes.delete a.toInt }
    let (s, result) := attempt s do
      if b ≠ 0 ∧ p.wasmMemory then storeWord pid p 4 (unsigned b) (code % 256 * 256)
      return a.toInt
    (s, some result)
  | none =>
    let waitPid := if a = 0 then pid else a.toInt
    ({ s with pendingWaits := s.pendingWaits.set waitPid (pid, b) }, none)

/-- The locals after a call on descriptors: a child has the directory of its parent. -/
def forkLocals (s : State) (pid : ℤ) (p : Proc) (call : Kernel.Call) (childPid : ℤ) : State :=
  match call with
  | .forkSpawn | .forkExecSpawn _ =>
    if p.wasmMemory then setLocal s childPid { cwd := (s.locals pid).cwd, brk := 0 } else s
  | _ => s

/-- `handleSyscall`, with the result, if there is one. -/
def handleSyscall (s : State) (pid : ℤ) (call : Syscall) : State × Option ℤ :=
  match s.io.kernel.processTable.get? pid with
  | none => (s, some (-1))
  | some p =>
    match call with
    | .kernel call fate =>
      let out := Kernel.handleSyscall s.io.kernel pid call fate
      let s := { s with io := { s.io with kernel := out.kernel } }
      (forkLocals s pid p call out.result, some out.result)
    | .file a call =>
      let (io, result) := handleFileCall s.io pid a call
      ({ s with io }, some result)
    | .other call =>
      let (s, result) := attempt s (handler s.bootTime pid p call)
      (s, some result)
    | .brk a =>
      let (s, result) := sysBrk s pid a
      (s, some result)
    | .getcwd a b =>
      let (s, result) := sysGetcwd s pid p a b
      (s, some result)
    | .fsGetcwd a =>
      let (s, result) := sysFsGetcwd s pid p a
      (s, some result)
    | .fsChdir path =>
      let (s, result) := sysFsChdir s pid p path
      (s, some result)
    | .procWait a b => sysProcWait s pid p a b
    | .socketOpen => (s, some (if s.io.kernel.bridge.isSome then -38 else -97))
    | .plain n => (s, some ((plain.lookup n.toInt).getD (-38)))

/-! ### Runs -/

/-- The message `register-worker`: the directory of an object that is there is kept, and the break is
cleared. -/
def registerWorker (s : State) (msgPid : ℤ) (cwd : Path) : State :=
  let pid := if msgPid ≠ 0 then msgPid else s.io.kernel.nextPid
  let existing := if s.io.kernel.processTable.has pid then (s.locals pid).cwd else []
  let cwd := if existing ≠ [] then existing else if cwd ≠ [] then cwd else ['/']
  setLocal { s with io := { s.io with kernel := Kernel.registerWorker s.io.kernel msgPid } } pid ⟨cwd, 0⟩

/-- The message `register-memory`, with what the memory holds. -/
def registerMemory (s : State) (pid : ℤ) (memory : List UInt8) : State :=
  { s with
    io :=
      { s.io with
        kernel := Kernel.registerMemory s.io.kernel pid
        memory := Function.update s.io.memory pid memory } }

/-- The process that waits for `pid` gets its status; so does one that waits for process 1. -/
def wake (s : State) (pid code : ℤ) : State :=
  match (s.pendingWaits.get? pid).or (s.pendingWaits.get? 1) with
  | none => s
  | some (waiter, statusPtr) =>
    let s := { s with pendingWaits := (s.pendingWaits.delete pid).delete 1 }
    if statusPtr = 0 then s
    else
      match setBytes (s.io.memory waiter) (wordBytes 4 (code % 256 * 256)) (unsigned statusPtr) with
      | none => s
      | some wasm => { s with io := { s.io with memory := Function.update s.io.memory waiter wasm } }

/-- The message `worker-exit`. -/
def workerExit (s : State) (pid code : ℤ) : State :=
  let s := { s with io := { s.io with kernel := Kernel.removeProc s.io.kernel pid } }
  wake { s with exitCodes := s.exitCodes.set pid code } pid code

/-- What happens one after the other: syscalls, messages, and the guests working on their memories. -/
inductive Event where
  | syscall (pid : ℤ) (call : Syscall)
  | registerWorker (pid : ℤ) (cwd : Path)
  | registerMemory (pid : ℤ) (memory : List UInt8)
  | unregisterWorker (pid : ℤ)
  | workerExit (pid code : ℤ)
  | guest (pid : ℤ) (memory : List UInt8)

/-- The state after an event. -/
def after (s : State) : Event → State
  | .syscall pid call => (handleSyscall s pid call).1
  | .registerWorker pid cwd => registerWorker s pid cwd
  | .registerMemory pid memory => registerMemory s pid memory
  | .unregisterWorker pid => { s with io := { s.io with kernel := Kernel.removeProc s.io.kernel pid } }
  | .workerExit pid code => workerExit s pid code
  | .guest pid memory => { s with io := { s.io with memory := Function.update s.io.memory pid memory } }

/-- The state after `init`, with any files and with or without a bridge. -/
structure Starts (s : State) : Prop where
  kernel : Kernel.Starts s.io.kernel
  cursors : s.io.cursors = JsMap.empty
  exitCodes : s.exitCodes = JsMap.empty
  pendingWaits : s.pendingWaits = JsMap.empty

/-- The state without files and without a bridge. -/
def booted : State where
  io :=
    { kernel := Kernel.booted, memory := fun _ => [], cursors := JsMap.empty, stdout := [],
      entropy := fun _ => 0, limit := 2 ^ 32 }
  locals := fun _ => ⟨[], 0⟩
  exitCodes := JsMap.empty
  pendingWaits := JsMap.empty
  bootTime := 0

theorem starts_booted : Starts booted := ⟨Kernel.starts_booted, rfl, rfl, rfl⟩

end Syscalls
