/-
**The virtual filesystem.**

`VirtualFS` (`filesystem.js`) keeps files, directories and symbolic links in maps keyed by normalized
paths, an index of the children of each directory, and the table of open files.  The contents are
JavaScript buffers that a path and any number of open files may share, so the model keeps the buffers in
a store of their own and lets the maps name them.

Main definitions:

* `VirtualFs.normalizePath`, `VirtualFs.resolvePath` — path arithmetic and symbolic links;
* `VirtualFs.Vfs` — the state of the filesystem;
* `VirtualFs.openFile`, `VirtualFs.closeFile` — `open` and `close`.

Main results:

* `VirtualFs.openFile_cases` — all that `open` can do to the table of open files;
* `VirtualFs.Numbered` — the table uses only numbers the counter has passed.
-/

import AtuaComputer.JsMap

set_option relaxedAutoImplicit false
set_option autoImplicit false

namespace VirtualFs

/-! ### Paths -/

/-- A JavaScript string. -/
abbrev Path := List Char

/-- `parts.join('/')` -/
def join (parts : List Path) : Path := List.intercalate ['/'] parts

/-- One component of the loop of `normalizePath`. -/
def normStep (result : List Path) (p : Path) : List Path :=
  if p = [] ∨ p = ['.'] then result
  else if p = ['.', '.'] then result.dropLast
  else result ++ [p]

/-- `normalizePath` -/
def normalizePath (path : Path) : Path := '/' :: join ((path.splitOn '/').foldl normStep [])

/-- The target of the first prefix of a path that is a symbolic link, with the components after it.  A
link with an empty target does not count. -/
def firstLink (symlinks : JsMap Path Path) (parts : List Path) : Option (Path × List Path) :=
  (List.range parts.length).findSome? fun i =>
    match symlinks.get? (join (parts.take (i + 1))) with
    | none => none
    | some target => if target = [] then none else some (target, parts.drop (i + 1))

/-- `resolvePath`, with the number of links that may still be followed. -/
def resolveFuel (symlinks : JsMap Path Path) : ℕ → Path → Path
  | 0, path => normalizePath path
  | fuel + 1, path =>
    let path := normalizePath path
    if symlinks.size = 0 then path
    else
      match firstLink symlinks (path.splitOn '/') with
      | none => path
      | some (target, rest) =>
        let resolved := if join rest = [] then target else target ++ '/' :: join rest
        resolveFuel symlinks fuel (normalizePath resolved)

/-- `resolvePath(path)`: the recursion stops when its depth exceeds 40. -/
def resolvePath (symlinks : JsMap Path Path) (path : Path) : Path :=
  resolveFuel symlinks 41 path

/-- `path.startsWith('/') ? path : '/' + path` -/
def absolute (path : Path) : Path := if path.head? = some '/' then path else '/' :: path

/-! ### State -/

/-- A buffer of the store. -/
abbrev Buf := ℕ

/-- What the metadata of a path may hold.  A mode from an archive may be negative. -/
structure Meta where
  mode : Option ℤ
  uid : Option ℕ
  gid : Option ℕ
  atime : Option ℤ
  mtime : Option ℤ
deriving DecidableEq, Inhabited

/-- The special files. -/
inductive Special where
  | stdin
  | stdout
  | stderr
  | null
  | urandom
deriving DecidableEq

/-- An open file description. -/
structure OpenFile where
  content : Option Buf := none
  position : ℤ := 0
  path : Path
  isDir : Bool := false
  dirPath : Option Path := none
  special : Option Special := none
  append : Bool := false
  cloexec : Bool := false
deriving DecidableEq

/-- The state of a `VirtualFS`. -/
structure Vfs where
  /-- The store of buffers. -/
  buffers : List (List UInt8)
  files : JsMap Path Buf
  dirs : JsMap Path Unit
  symlinks : JsMap Path Path
  whiteouts : JsMap Path Unit
  metadata : JsMap Path Meta
  children : JsMap Path (JsMap Path Unit)
  nextFd : ℤ
  openFiles : JsMap ℤ OpenFile

/-- The constructor: no file, and the three standard streams open. -/
def newVfs : Vfs where
  buffers := []
  files := JsMap.empty
  dirs := JsMap.empty
  symlinks := JsMap.empty
  whiteouts := JsMap.empty
  metadata := JsMap.empty
  children := JsMap.empty
  nextFd := 4
  openFiles :=
    ((JsMap.empty.set 0 { special := some .stdin, path := "/dev/stdin".toList }).set 1
      { special := some .stdout, path := "/dev/stdout".toList }).set 2
      { special := some .stderr, path := "/dev/stderr".toList }

/-! ### Directories -/

/-- The part of a path before its last slash and the part after it; `none` when there is no slash or
only a leading one. -/
def splitLast (path : Path) : Option (Path × Path) :=
  let name := (path.reverse.takeWhile (· ≠ '/')).reverse
  let parent := path.take (path.length - name.length - 1)
  if parent = [] then none else some (parent, name)

/-- Adding a name to the set of children of a directory, which is made if it is missing. -/
def addName (children : JsMap Path (JsMap Path Unit)) (dir : Path) (name : Option Path) :
    JsMap Path (JsMap Path Unit) :=
  let names := (children.get? dir).getD JsMap.empty
  children.set dir (match name with | none => names | some n => names.set n ())

/-- `_addChild` -/
def addChild (v : Vfs) (path : Path) : Vfs :=
  { v with
    children :=
      match splitLast path with
      | none => addName v.children ['/'] (if path = ['/'] then none else some (path.drop 1))
      | some (parent, name) => addName v.children parent (some name) }

/-- `_registerDir` -/
def registerDir (v : Vfs) (path : Path) : Vfs :=
  if v.dirs.has path then v
  else
    let v := { v with dirs := v.dirs.set path () }
    let v :=
      if v.children.has path then v
      else { v with children := v.children.set path JsMap.empty }
    addChild v path

/-- The directories above a path, the root first. -/
def parents (path : Path) : List Path :=
  let parts := path.splitOn '/'
  (List.range (parts.length - 1)).map fun i =>
    if join (parts.take (i + 1)) = [] then ['/'] else join (parts.take (i + 1))

/-- `_registerParents` -/
def registerParents (v : Vfs) (path : Path) : Vfs := (parents path).foldl registerDir v

/-! ### Opening and closing -/

/-- The flags of `open`. -/
def oCreat : Int32 := 0x40
def oExcl : Int32 := 0x80
def oTrunc : Int32 := 0x200
def oAppend : Int32 := 0x400
def oDirectory : Int32 := 0x10000
def oCloexec : Int32 := 0x80000

/-- `!!(flags & bit)` -/
def hasFlag (flags bit : Int32) : Bool := flags &&& bit != 0

/-- `const fd = this.nextFd++; this.openFiles.set(fd, file); return fd` -/
def install (v : Vfs) (file : OpenFile) : Vfs × ℤ :=
  ({ v with nextFd := v.nextFd + 1, openFiles := v.openFiles.set v.nextFd file }, v.nextFd)

/-- A new buffer. -/
def newBuffer (v : Vfs) (bytes : List UInt8) : Vfs × Buf :=
  ({ v with buffers := v.buffers ++ [bytes] }, v.buffers.length)

/-- The file that `O_CREAT` makes for a path without one. -/
def createFile (v : Vfs) (resolved : Path) (mode : Int32) : Vfs × Buf :=
  let (v, content) := newBuffer v []
  let v :=
    { v with files := v.files.set resolved content, whiteouts := v.whiteouts.delete resolved }
  let v := addChild (registerParents v resolved) resolved
  if mode = 0 then (v, content)
  else
    let old := (v.metadata.get? resolved).getD default
    ({ v with
        metadata :=
          v.metadata.set resolved { old with mode := some (mode &&& 0o7777).toInt } }, content)

/-- The buffer the opened file will have, if it is a file. -/
def openContent (v : Vfs) (resolved : Path) (flags mode : Int32) : Vfs × Option Buf :=
  let (v, content) :=
    match v.files.get? resolved with
    | some content => (v, some content)
    | none =>
      if hasFlag flags oCreat then
        let (v, content) := createFile v resolved mode
        (v, some content)
      else (v, none)
  if content.isSome ∧ hasFlag flags oTrunc then
    let (v, content) := newBuffer v []
    ({ v with files := v.files.set resolved content }, some content)
  else (v, content)

/-- `open`; a negative result is an error. -/
def openFile (v : Vfs) (path : Path) (flags mode : Int32) : Vfs × ℤ :=
  let path := absolute path
  let cloexec := hasFlag flags oCloexec
  if path = "/dev/null".toList then
    let (v, content) := newBuffer v []
    install v { content := some content, path, special := some .null, cloexec }
  else if path = "/dev/urandom".toList ∨ path = "/dev/random".toList then
    let (v, content) := newBuffer v []
    install v { content := some content, path, special := some .urandom, cloexec }
  else
    let resolved := resolvePath v.symlinks path
    let directory : OpenFile :=
      { isDir := true, dirPath := some resolved, path := resolved, cloexec }
    if v.whiteouts.has resolved ∧ ¬ hasFlag flags oCreat then (v, -1)
    else if hasFlag flags oDirectory then
      if v.dirs.has resolved ∨ v.dirs.has path then install v directory else (v, -1)
    else if hasFlag flags oCreat ∧ hasFlag flags oExcl ∧
        (v.files.has resolved ∨ v.dirs.has resolved) then (v, -17)
    else
      let (v, content) := openContent v resolved flags mode
      match content with
      | none => if v.dirs.has resolved ∨ v.dirs.has path then install v directory else (v, -1)
      | some content =>
        install v { content := some content, path := resolved, append := hasFlag flags oAppend, cloexec }

/-- `close` -/
def closeFile (v : Vfs) (fd : ℤ) : Vfs := { v with openFiles := v.openFiles.delete fd }

/-! ### What opening does to the table -/

/-- Two states with the same table of open files. -/
def SameTable (v v' : Vfs) : Prop := v'.nextFd = v.nextFd ∧ v'.openFiles = v.openFiles

theorem SameTable.trans {v₁ v₂ v₃ : Vfs} (h : SameTable v₁ v₂) (h' : SameTable v₂ v₃) :
    SameTable v₁ v₃ :=
  ⟨h'.1.trans h.1, h'.2.trans h.2⟩

theorem sameTable_registerDir (v : Vfs) (path : Path) : SameTable v (registerDir v path) := by
  unfold registerDir
  split_ifs
  · exact ⟨rfl, rfl⟩
  · dsimp only
    split_ifs <;> exact ⟨rfl, rfl⟩

theorem sameTable_registerParents (v : Vfs) (path : Path) :
    SameTable v (registerParents v path) := by
  unfold registerParents
  induction parents path generalizing v with
  | nil => exact ⟨rfl, rfl⟩
  | cons dir dirs ih => exact (sameTable_registerDir v dir).trans (ih _)

theorem sameTable_createFile (v : Vfs) (resolved : Path) (mode : Int32) :
    SameTable v (createFile v resolved mode).1 := by
  unfold createFile
  have h := sameTable_registerParents
    { (newBuffer v []).1 with
      files := v.files.set resolved v.buffers.length, whiteouts := v.whiteouts.delete resolved }
    resolved
  dsimp only
  split_ifs <;> exact ⟨h.1, h.2⟩

theorem sameTable_openContent (v : Vfs) (resolved : Path) (flags mode : Int32) :
    SameTable v (openContent v resolved flags mode).1 := by
  have hcreate := sameTable_createFile v resolved mode
  unfold openContent
  cases v.files.get? resolved with
  | some content =>
      dsimp only
      split_ifs <;> exact ⟨rfl, rfl⟩
  | none =>
      dsimp only
      split_ifs <;> first | exact ⟨rfl, rfl⟩ | exact ⟨hcreate.1, hcreate.2⟩

/-- A description was added under the number of the counter, and that number returned. -/
def Installed (v : Vfs) (r : Vfs × ℤ) : Prop :=
  ∃ file, r.2 = v.nextFd ∧ r.1.nextFd = v.nextFd + 1 ∧ r.1.openFiles = v.openFiles.set v.nextFd file

theorem installed_install {v v' : Vfs} (h : SameTable v v') (file : OpenFile) :
    Installed v (install v' file) := by
  refine ⟨file, h.1, ?_, ?_⟩
  · rw [install, h.1]
  · rw [install, h.1, h.2]

/-- **What `open` does to the table of open files.**  It fails and leaves it alone, or it adds a
description under the number of the counter. -/
theorem openFile_cases (v : Vfs) (path : Path) (flags mode : Int32) :
    (((openFile v path flags mode).2 = -1 ∨ (openFile v path flags mode).2 = -17) ∧
        SameTable v (openFile v path flags mode).1) ∨
      Installed v (openFile v path flags mode) := by
  have hcontent := sameTable_openContent v (resolvePath v.symlinks (absolute path)) flags mode
  unfold openFile
  dsimp only
  split_ifs
  · exact Or.inr (installed_install ⟨rfl, rfl⟩ _)
  · exact Or.inr (installed_install ⟨rfl, rfl⟩ _)
  · exact Or.inl ⟨Or.inl rfl, rfl, rfl⟩
  · exact Or.inr (installed_install ⟨rfl, rfl⟩ _)
  · exact Or.inl ⟨Or.inl rfl, rfl, rfl⟩
  · exact Or.inl ⟨Or.inr rfl, rfl, rfl⟩
  · split
    · exact Or.inr (installed_install hcontent _)
    · exact Or.inr (installed_install hcontent _)
  · split
    · exact Or.inl ⟨Or.inl rfl, hcontent⟩
    · exact Or.inr (installed_install hcontent _)

/-- The counter is past every number in the table, and past the numbers of the standard streams. -/
structure Numbered (v : Vfs) : Prop where
  pos : 2 < v.nextFd
  lt : ∀ fd, v.openFiles.has fd = true → fd < v.nextFd

theorem numbered_newVfs : Numbered newVfs where
  pos := by decide
  lt := by
    intro fd h
    obtain ⟨file, hfile⟩ := JsMap.has_iff.1 h
    simp only [newVfs, JsMap.get?_set, JsMap.get?_empty] at hfile
    have hcounter : newVfs.nextFd = 4 := rfl
    split_ifs at hfile <;> omega

/-- The counter stays past every number when a description is added under its number. -/
theorem Numbered.of_set {v v' : Vfs} (h : Numbered v) {file : OpenFile} (hn : v'.nextFd = v.nextFd + 1)
    (ho : v'.openFiles = v.openFiles.set v.nextFd file) : Numbered v' where
  pos := by
    have hpos := h.pos
    omega
  lt := by
    intro fd hfd
    obtain ⟨f, hf⟩ := JsMap.has_iff.1 hfd
    rw [ho, JsMap.get?_set] at hf
    rw [hn]
    split_ifs at hf with heq
    · omega
    · have hlt := h.lt fd (JsMap.has_iff.2 ⟨f, hf⟩)
      omega

/-- It stays so when descriptions only go. -/
theorem Numbered.of_subset {v v' : Vfs} (h : Numbered v) (hn : v'.nextFd = v.nextFd)
    (ho : ∀ fd, v'.openFiles.has fd = true → v.openFiles.has fd = true) : Numbered v' where
  pos := by
    rw [hn]
    exact h.pos
  lt := by
    intro fd hfd
    rw [hn]
    exact h.lt fd (ho fd hfd)

end VirtualFs
