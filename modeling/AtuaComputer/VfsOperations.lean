/-
**The operations of the virtual filesystem.**

The methods of `VirtualFS` (`filesystem.js`) that read and change the namespace, and the two that move the
bytes of open files.  A method that may throw gives the state it leaves behind and no value.

Main definitions:

* `VirtualFs.readdir`, `VirtualFs.stat` — what is seen of the namespace;
* `VirtualFs.addFile`, `VirtualFs.loadTar`, `VirtualFs.mkdir`, `VirtualFs.unlink`, `VirtualFs.rmdir`,
  `VirtualFs.createSymlink`, `VirtualFs.rename` — the changes to it;
* `VirtualFs.readFile`, `VirtualFs.writeFile` — `read` and `write`;
* `VirtualFs.writeNext`, `VirtualFs.truncateFile` — what the kernel does with an open file.
-/

import AtuaComputer.VirtualFs
import Mathlib.Data.List.Defs

set_option relaxedAutoImplicit false
set_option autoImplicit false

namespace VirtualFs

/-! ### Names -/

/-- The part of a path after its last slash. -/
def baseName (path : Path) : Path := (path.reverse.takeWhile (· ≠ '/')).reverse

/-- The directory that a path lies in. -/
def parentOf (path : Path) : Path :=
  match splitLast path with
  | none => ['/']
  | some (parent, _) => parent

/-- The path of a name in a directory. -/
def childPath (dirPath name : Path) : Path :=
  if dirPath = ['/'] then '/' :: name else dirPath ++ '/' :: name

/-- `_removeChild` -/
def removeChild (v : Vfs) (path : Path) : Vfs :=
  match v.children.get? (parentOf path) with
  | none => v
  | some names =>
    { v with children := v.children.set (parentOf path) (names.delete (baseName path)) }

/-! ### Looking -/

/-- The types of `readdir` and `stat`. -/
inductive NodeType where
  | file
  | dir
  | symlink
  | chardev
deriving DecidableEq

/-- What `readdir` takes a name to be. -/
def entryType (v : Vfs) (path : Path) : NodeType :=
  if v.symlinks.has path then .symlink else if v.dirs.has path then .dir else .file

/-- `readdir`.  The names of a set are distinct, so only the two dots can have been seen before. -/
def readdir (v : Vfs) (dirPath : Path) : List (Path × NodeType) :=
  let dirPath := normalizePath dirPath
  let names := ((v.children.get? dirPath).map JsMap.keys).getD []
  let shown := names.filter fun name =>
    ¬ v.whiteouts.has (childPath dirPath name) ∧ name ≠ ['.'] ∧ name ≠ ['.', '.']
  (['.'], .dir) :: (['.', '.'], .dir) ::
    shown.map fun name => (name, entryType v (childPath dirPath name))

/-- The result of `stat`. -/
structure Stat where
  size : ℕ
  type : NodeType
  info : Meta
deriving DecidableEq

/-- The length of a JavaScript string, in UTF-16 code units. -/
def utf16Length (s : Path) : ℕ := (s.map fun c => if c.toNat < 0x10000 then 1 else 2).sum

/-- The bytes of a buffer. -/
def bytesOf (v : Vfs) (content : Buf) : List UInt8 := v.buffers.getD content []

/-- The paths of the special files. -/
def isDevice (path : Path) : Prop :=
  path = "/dev/null".toList ∨ path = "/dev/urandom".toList ∨ path = "/dev/random".toList

instance (path : Path) : Decidable (isDevice path) := by
  unfold isDevice
  infer_instance

/-- The last part of `stat`: a resolved path, and the path it was resolved from. -/
def statResolved (v : Vfs) (path resolved : Path) : Option Stat :=
  let info := (v.metadata.get? resolved).getD default
  if v.whiteouts.has resolved then none
  else
    match v.files.get? resolved with
    | some content => some ⟨(bytesOf v content).length, .file, info⟩
    | none =>
      if v.dirs.has resolved then some ⟨0, .dir, info⟩
      else if v.dirs.has path then some ⟨0, .dir, (v.metadata.get? path).getD default⟩
      else none

/-- `stat` -/
def stat (v : Vfs) (path : Path) (followSymlinks : Bool) : Option Stat :=
  let path := absolute path
  if isDevice path then some ⟨0, .chardev, default⟩
  else
    match v.symlinks.get? path with
    | none => statResolved v path (resolvePath v.symlinks path)
    | some target =>
      if followSymlinks then statResolved v path (resolvePath v.symlinks path)
      else some ⟨utf16Length target, .symlink, (v.metadata.get? path).getD default⟩

/-! ### Changing the namespace -/

/-- `addFile` -/
def addFile (v : Vfs) (path : Path) (bytes : List UInt8) : Vfs :=
  let path := absolute path
  let (v, content) := newBuffer v bytes
  let v := { v with files := v.files.set path content, whiteouts := v.whiteouts.delete path }
  addChild (registerParents v path) path

/-- `mkdir` -/
def mkdir (v : Vfs) (path : Path) : Vfs :=
  let path := normalizePath path
  let v := registerParents (registerDir v path) path
  { v with whiteouts := v.whiteouts.delete path }

/-- `unlink` -/
def unlink (v : Vfs) (path : Path) : Vfs :=
  let path := normalizePath path
  removeChild
    { v with
      files := v.files.delete path
      symlinks := v.symlinks.delete path
      metadata := v.metadata.delete path
      whiteouts := v.whiteouts.set path () } path

/-- `rmdir` -/
def rmdir (v : Vfs) (path : Path) : Vfs :=
  let path := normalizePath path
  removeChild
    { v with
      dirs := v.dirs.delete path
      children := v.children.delete path
      metadata := v.metadata.delete path
      whiteouts := v.whiteouts.set path () } path

/-- Setting a link and entering it into its directory. -/
def setLink (v : Vfs) (target path : Path) : Vfs :=
  addChild { v with symlinks := v.symlinks.set path target, dirs := v.dirs.set path () } path

/-- `createSymlink` -/
def createSymlink (v : Vfs) (target linkpath : Path) : Vfs :=
  let linkpath := normalizePath linkpath
  let v := { v with whiteouts := v.whiteouts.delete linkpath }
  setLink v target linkpath

/-- The four lines `if (map.has(from)) { map.set(to, map.get(from)); map.delete(from) }`. -/
def moveKey {V : Type} (m : JsMap Path V) (source target : Path) : JsMap Path V :=
  match m.get? source with
  | none => m
  | some value => (m.set target value).delete source

/-- The lines of `rename` about directories: the set of names goes with the directory. -/
def moveDir (v : Vfs) (source target : Path) : Vfs :=
  if v.dirs.has source then
    let v := { v with dirs := (v.dirs.delete source).set target () }
    match v.children.get? source with
    | none => v
    | some names => { v with children := (v.children.delete source).set target names }
  else v

/-- `rename` -/
def rename (v : Vfs) (source target : Path) : Vfs :=
  let source := normalizePath source
  let target := normalizePath target
  let v :=
    { v with
      files := moveKey v.files source target
      symlinks := moveKey v.symlinks source target }
  let v := moveDir v source target
  let v := { v with metadata := moveKey v.metadata source target }
  let v := registerParents (addChild (removeChild v source) target) target
  { v with whiteouts := (v.whiteouts.set source ()).delete target }

/-! #### Archives -/

/-- An entry of an archive as `untar` gives it; `mode` is `parseInt(file.mode, 8)`. -/
structure TarEntry where
  name : Path
  type : Path
  linkname : Path
  mode : Option ℤ
  bytes : List UInt8

/-- `replace(/\/+$/, '')` -/
def stripSlashes (path : Path) : Path := (path.reverse.dropWhile (· = '/')).reverse

/-- `replace(/\/+/g, '/')` -/
def collapseSlashes : Path → Path
  | '/' :: '/' :: rest => collapseSlashes ('/' :: rest)
  | c :: rest => c :: collapseSlashes rest
  | [] => []

/-- The path of an entry. -/
def tarName (name : Path) : Path :=
  let name := if "./".toList.isPrefixOf name then name.drop 2 else name
  stripSlashes (absolute name)

/-- The target of a link in an archive: a relative one is taken from the directory of the link. -/
def tarTarget (name linkname : Path) : Path :=
  let linkname :=
    if linkname.head? = some '/' then linkname
    else name.take (name.length - (baseName name).length) ++ linkname
  let linkname := collapseSlashes (absolute linkname)
  if linkname.getLast? = some '/' then linkname.dropLast else linkname

/-- One round of the loop of `loadTar`.  What is no file, directory or link is skipped. -/
def loadEntry (v : Vfs) (entry : TarEntry) : Vfs :=
  let name := tarName entry.name
  if name = [] ∨ name = ['/'] then v
  else if entry.type = ['5'] ∨ (entry.type = [] ∧ name.getLast? = some '/') then registerDir v name
  else if entry.type = ['2'] then setLink v (tarTarget name entry.linkname) name
  else if entry.type = ['0'] ∨ entry.type = [] then
    let (v, content) := newBuffer v entry.bytes
    let v := { v with files := v.files.set name content }
    let v := addChild (registerParents v name) name
    let mode := if entry.mode.getD 0 = 0 then 0o755 else entry.mode.getD 0
    if mode = 0o755 then v
    else { v with metadata := v.metadata.set name { (default : Meta) with mode := some mode } }
  else v

/-- `loadTar` -/
def loadTar (v : Vfs) (entries : List TarEntry) : Vfs := entries.foldl loadEntry v

/-! ### Bytes -/

/-- An index of `subarray`: a negative one counts from the end. -/
def clampIndex (length : ℕ) (i : ℤ) : ℕ :=
  if i < 0 then (length + i).toNat else min i.toNat length

/-- `bytes.subarray(start, end)` -/
def subarray (bytes : List UInt8) (start stop : ℤ) : List UInt8 :=
  (bytes.take (clampIndex bytes.length stop)).drop (clampIndex bytes.length start)

/-- `target.set(src, off)`; it throws when the source does not fit. -/
def setBytes (target src : List UInt8) (off : ℤ) : Option (List UInt8) :=
  if 0 ≤ off ∧ off + src.length ≤ target.length then
    some (target.take off.toNat ++ src ++ target.drop (off.toNat + src.length))
  else none

/-- A buffer of the given length that starts with the given bytes. -/
def padTo (n : ℕ) (bytes : List UInt8) : List UInt8 := bytes ++ List.replicate (n - bytes.length) 0

/-- `read` into a buffer of `count` bytes: the result, and the bytes it stands for.  `entropy` is what
`crypto.getRandomValues` gives, where it does not throw. -/
def readFile (v : Vfs) (entropy : ℕ → UInt8) (fd : ℤ) (count : ℕ) (offset : ℤ) : ℤ × List UInt8 :=
  match v.openFiles.get? fd with
  | none => (-1, [])
  | some file =>
    if file.special = some .null then (0, [])
    else if file.special = some .urandom then (count, (List.range count).map entropy)
    else
      match file.content with
      | none => (0, [])
      | some content =>
        let bytes := bytesOf v content
        let available := bytes.length - offset
        if available ≤ 0 then (0, [])
        else
          let toRead := min (count : ℤ) available
          -- a negative offset selects fewer bytes than it counts; the rest of the buffer is zero
          (toRead, padTo toRead.toNat (subarray bytes offset (offset + toRead)))

/-- `file.content.set(src, off)` -/
def storeBytes (v : Vfs) (content : Buf) (src : List UInt8) (off : ℤ) : Vfs × Option ℤ :=
  match setBytes (bytesOf v content) src off with
  | none => (v, none)
  | some bytes => ({ v with buffers := v.buffers.set content bytes }, some src.length)

/-- A change of an open file. -/
def updateFile (v : Vfs) (fd : ℤ) (f : OpenFile → OpenFile) : Vfs :=
  match v.openFiles.get? fd with
  | none => v
  | some file => { v with openFiles := v.openFiles.set fd (f file) }

/-- `file.content = content` -/
def setContent (v : Vfs) (fd : ℤ) (content : Buf) : Vfs :=
  updateFile v fd fun file => { file with content := some content }

/-- `file.content = grown; this.files.set(file.path, grown)`, for a new buffer. -/
def growFile (v : Vfs) (fd : ℤ) (path : Path) (bytes : List UInt8) : Vfs × Buf :=
  let (v, grown) := newBuffer v bytes
  let v := setContent v fd grown
  ({ v with files := v.files.set path grown }, grown)

/-- The part of `write` about the buffer. -/
def writeContent (limit : ℕ) (v : Vfs) (fd : ℤ) (path : Path) (content : Buf) (src : List UInt8) (off : ℤ) :
    Vfs × Option ℤ :=
  let bytes := bytesOf v content
  let needed := off + src.length
  if bytes.length < needed then
    if limit < needed then (v, none)
    else
      let (v, grown) := growFile v fd path (padTo needed.toNat bytes)
      storeBytes v grown src off
  else storeBytes v content src off

/-- `write`.  No buffer can be longer than `limit`; the value is `none` if the method threw. -/
def writeFile (limit : ℕ) (v : Vfs) (fd : ℤ) (src : List UInt8) (offset : ℤ) : Vfs × Option ℤ :=
  match v.openFiles.get? fd with
  | none => (v, some (-1))
  | some file =>
    if file.special = some .null then (v, some src.length)
    else
      match file.content with
      | none => (v, none)
      | some content =>
        let off := if file.append then ((bytesOf v content).length : ℤ) else offset
        writeContent limit v fd file.path content src off

/-- `file.position = position` -/
def seek (v : Vfs) (fd position : ℤ) : Vfs := updateFile v fd fun file => { file with position }

/-! #### The kernel's part

The lines of `handleSyscall` that work on an open file and on nothing else. -/

/-- `file.append ? file.content.length : file.position` -/
def startPosition (v : Vfs) (file : OpenFile) : Option ℤ :=
  if file.append then file.content.map fun content => ((bytesOf v content).length : ℤ)
  else some file.position

/-- `if (file.append) file.position = file.content.length; vfs.write(…); file.position += length`, in
`SYS_write` and for each entry of a `SYS_writev`.  The length may be more than the bytes there are. -/
def writeNext (limit : ℕ) (v : Vfs) (fd : ℤ) (buf : List UInt8) (length : ℕ) : Vfs × Option ℤ :=
  match v.openFiles.get? fd with
  | none => (v, some (-9))
  | some file =>
    match startPosition v file with
    | none => (v, none)
    | some position =>
      match writeFile limit (seek v fd position) fd buf position with
      | (v, none) => (v, none)
      | (v, some _) => (seek v fd (position + length), some length)

/-- The lines of `SYS_ftruncate` about the buffer: a new one of the length, unless the file has it already,
and it goes under the path that the file was opened by. -/
def resizeFile (limit : ℕ) (v : Vfs) (fd : ℤ) (path : Path) (content : Buf) (len : ℕ) :
    Vfs × Option ℤ :=
  let bytes := bytesOf v content
  if len = bytes.length then
    (if path = [] then v else { v with files := v.files.set path content }, some 0)
  else if limit < len then (v, none)
  else
    let (v, resized) := newBuffer v (padTo len (bytes.take len))
    let v := setContent v fd resized
    (if path = [] then v else { v with files := v.files.set path resized }, some 0)

/-- `SYS_ftruncate` of a descriptor for a file. -/
def truncateFile (limit : ℕ) (v : Vfs) (fd : ℤ) (len : ℕ) : Vfs × Option ℤ :=
  match v.openFiles.get? fd with
  | none => (v, some (-9))
  | some file =>
    if file.isDir then (v, some (-9))
    else if file.special.isSome then (v, some 0)
    else
      match file.content with
      | none => (v, none)
      | some content => resizeFile limit v fd file.path content len

/-! ### What directories change -/

theorem registerDir_frame (v : Vfs) (path : Path) :
    ∃ dirs children, registerDir v path = { v with dirs, children } := by
  unfold registerDir
  split_ifs
  · exact ⟨_, _, rfl⟩
  · dsimp only
    split_ifs <;> exact ⟨_, _, rfl⟩

/-- Entering the directories above a path touches only what is kept of directories. -/
theorem registerParents_frame (v : Vfs) (path : Path) :
    ∃ dirs children, registerParents v path = { v with dirs, children } := by
  unfold registerParents
  induction parents path generalizing v with
  | nil => exact ⟨_, _, rfl⟩
  | cons dir rest ih =>
      obtain ⟨dirs, children, hdir⟩ := registerDir_frame v dir
      obtain ⟨dirs', children', hrest⟩ := ih { v with dirs, children }
      exact ⟨dirs', children', by rw [List.foldl_cons, hdir, hrest]⟩

theorem removeChild_frame (v : Vfs) (path : Path) : ∃ children, removeChild v path = { v with children } := by
  unfold removeChild
  split <;> exact ⟨_, rfl⟩

theorem moveDir_frame (v : Vfs) (source target : Path) :
    ∃ dirs children, moveDir v source target = { v with dirs, children } := by
  unfold moveDir
  dsimp only
  split_ifs
  · split <;> exact ⟨_, _, rfl⟩
  · exact ⟨_, _, rfl⟩

/-- `rename`, but for what is kept of directories. -/
theorem rename_frame (v : Vfs) (source target : Path) :
    ∃ dirs children, rename v source target =
      { v with
        files := moveKey v.files (normalizePath source) (normalizePath target)
        symlinks := moveKey v.symlinks (normalizePath source) (normalizePath target)
        metadata := moveKey v.metadata (normalizePath source) (normalizePath target)
        whiteouts := (v.whiteouts.set (normalizePath source) ()).delete (normalizePath target)
        dirs, children } := by
  unfold rename
  dsimp only
  obtain ⟨dirs, children, hmove⟩ := moveDir_frame
    { v with
      files := moveKey v.files (normalizePath source) (normalizePath target)
      symlinks := moveKey v.symlinks (normalizePath source) (normalizePath target) }
    (normalizePath source) (normalizePath target)
  rw [hmove]
  dsimp only
  generalize normalizePath source = source
  generalize normalizePath target = target
  obtain ⟨children, hremove⟩ := removeChild_frame
    { v with
      files := moveKey v.files source target
      symlinks := moveKey v.symlinks source target
      metadata := moveKey v.metadata source target
      dirs, children } source
  rw [hremove]
  obtain ⟨dirs, children, hparents⟩ := registerParents_frame
    (addChild
      { v with
        files := moveKey v.files source target
        symlinks := moveKey v.symlinks source target
        metadata := moveKey v.metadata source target
        dirs, children } target) target
  rw [hparents]
  exact ⟨_, _, rfl⟩

/-- `unlink`, but for what is kept of directories. -/
theorem unlink_frame (v : Vfs) (path : Path) :
    ∃ children, unlink v path =
      { v with
        files := v.files.delete (normalizePath path)
        symlinks := v.symlinks.delete (normalizePath path)
        metadata := v.metadata.delete (normalizePath path)
        whiteouts := v.whiteouts.set (normalizePath path) ()
        children } := by
  obtain ⟨children, hremove⟩ := removeChild_frame
    { v with
      files := v.files.delete (normalizePath path)
      symlinks := v.symlinks.delete (normalizePath path)
      metadata := v.metadata.delete (normalizePath path)
      whiteouts := v.whiteouts.set (normalizePath path) () } (normalizePath path)
  exact ⟨children, by rw [unlink, hremove]⟩

/-- What making a file leaves alone besides. -/
theorem createFile_frame (v : Vfs) (path : Path) (mode : Int32) :
    ∃ dirs children metadata, createFile v path mode =
      ({ v with
          buffers := v.buffers ++ [[]]
          files := v.files.set path v.buffers.length
          whiteouts := v.whiteouts.delete path
          dirs, children, metadata }, v.buffers.length) := by
  obtain ⟨dirs, children, hparents⟩ := registerParents_frame
    { v with
      buffers := v.buffers ++ [[]]
      files := v.files.set path v.buffers.length
      whiteouts := v.whiteouts.delete path } path
  unfold createFile
  dsimp only [newBuffer]
  rw [hparents]
  split_ifs <;> exact ⟨_, _, _, rfl⟩

end VirtualFs
