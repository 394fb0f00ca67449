/-
**The contents of files.**

An open file keeps a reference to the buffer with its content and the path it was opened by, and the table
of files keeps a reference to the same buffer under the path the file has now.  A write that fits changes
the buffer in place, and every descriptor sees it.  A write that does not fit, and a change of the length,
make a new buffer, which only the descriptor in hand and the path it was opened by get to know.

This module compares the filesystem with files as they are meant to be: a number of files, which paths
and open descriptors name and which have one content each.

Main definitions:

* `FileContents.Inodes` — files as they are meant to be;
* `FileContents.Op`, `FileContents.Step` — the operations, on both;
* `FileContents.Serves`, `FileContents.Coherent` — what is read, through descriptors and at fresh opens;
* `FileContents.Keeps` — the condition.

Main results:

* `FileContents.good_after` — an operation that meets the condition keeps the two in agreement;
* `FileContents.coherent_of_meets` — so does a run.
-/

import AtuaComputer.Runs
import AtuaComputer.SharedCells
import AtuaComputer.VfsOperations
import Mathlib.Data.List.GetD

set_option relaxedAutoImplicit false
set_option autoImplicit false

namespace FileContents

open VirtualFs Runs SharedCells

/-! ### Files as they are meant to be -/

/-- Files by number, with the paths and the descriptors that name them. -/
structure Inodes where
  content : ℕ → List UInt8
  /-- The number of the next file. -/
  next : ℕ
  path : Path → Option ℕ
  handle : ℤ → Option ℕ

/-- A path or a descriptor. -/
abbrev Name := ℤ ⊕ Path

/-- The file that a name stands for. -/
def Inodes.refs (i : Inodes) : Name → Option ℕ := Sum.elim i.handle i.path

/-- The content of a file is replaced. -/
def Inodes.setContent (i : Inodes) (n : ℕ) (bytes : List UInt8) : Inodes :=
  { i with content := Function.update i.content n bytes }

/-- A descriptor is opened for a file, or for something else. -/
def Inodes.setHandle (i : Inodes) (fd : ℤ) (n : Option ℕ) : Inodes :=
  { i with handle := Function.update i.handle fd n }

/-- A path gets a file, or none. -/
def Inodes.setPath (i : Inodes) (path : Path) (n : Option ℕ) : Inodes :=
  { i with path := Function.update i.path path n }

/-- A new file without content. -/
def Inodes.create (i : Inodes) (path : Path) : Inodes :=
  { i.setPath path (some i.next) with
    content := Function.update i.content i.next []
    next := i.next + 1 }

/-- Opening the file at a path. -/
def Inodes.open (i : Inodes) (path : Path) (flags : Int32) (fd : ℤ) : Inodes :=
  match i.path path with
  | some n => (if hasFlag flags oTrunc then i.setContent n [] else i).setHandle fd (some n)
  | none =>
    if hasFlag flags oCreat then (i.create path).setHandle fd (some i.next)
    else i.setHandle fd none

/-- The files below a directory get another one. -/
def Inodes.moveBelow (i : Inodes) (source target : Path) : Inodes :=
  { i with
    path := fun path =>
      if source ++ ['/'] <+: path then none
      else if target ++ ['/'] <+: path then
        i.path (source ++ path.drop target.length) <|> i.path path
      else i.path path }

/-- A file, or a directory with the files below it, gets another path; a file that had it loses it. -/
def Inodes.rename (i : Inodes) (source target : Path) : Inodes :=
  if source = target then i
  else
    let i := i.moveBelow source target
    match i.path source with
    | none => i
    | some n => (i.setPath target (some n)).setPath source none

/-- The bytes after a write at an offset; a gap is filled with zeros. -/
def writeAt (bytes : List UInt8) (off : ℕ) (src : List UInt8) : List UInt8 :=
  (padTo off bytes).take off ++ src ++ bytes.drop (off + src.length)

/-- The bytes cut off or filled up to a length. -/
def resize (bytes : List UInt8) (len : ℕ) : List UInt8 := padTo len (bytes.take len)

/-! ### Operations -/

/-- The operations on files.  A `writev` is a `write` for each entry of its vector; an `lseek` or a `read`
moves the position. -/
inductive Op where
  | open (path : Path) (flags mode : Int32)
  | seek (fd position : ℤ)
  | write (fd : ℤ) (buf : List UInt8) (length : ℕ)
  | pwrite (fd : ℤ) (src : List UInt8) (offset : ℤ)
  | ftruncate (fd : ℤ) (len : ℕ)
  | rename (source target : Path)
  | unlink (path : Path)
  | close (fd : ℤ)

/-- An operation on the filesystem, and its result; `none` if it threw. -/
def perform (limit : ℕ) (v : Vfs) : Op → Vfs × Option ℤ
  | .open path flags mode =>
    let (v, fd) := openFile v path flags mode
    (v, some fd)
  | .seek fd position => (seek v fd position, some position)
  | .write fd buf length => writeNext limit v fd buf length
  | .pwrite fd src offset => writeFile limit v fd src offset
  | .ftruncate fd len => truncateFile limit v fd len
  | .rename source target => (rename v source target, some 0)
  | .unlink path => (unlink v path, some 0)
  | .close fd => (closeFile v fd, some 0)

/-- Where a write goes: at the end, if the file was opened so. -/
def writeOffset (v : Vfs) (file : OpenFile) (offset : ℤ) : ℤ :=
  if file.append then (file.content.map fun content => (bytesOf v content).length).getD 0 else offset

/-- A successful write to the file of a descriptor. -/
def Inodes.write (i : Inodes) (v : Vfs) (fd : ℤ) (src : List UInt8) (offset : ℤ) : Inodes :=
  match i.handle fd, v.openFiles.get? fd with
  | some n, some file =>
    i.setContent n (writeAt (i.content n) (writeOffset v file offset).toNat src)
  | _, _ => i

/-- A successful change of the length of the file of a descriptor. -/
def Inodes.truncate (i : Inodes) (fd : ℤ) (len : ℕ) : Inodes :=
  match i.handle fd with
  | none => i
  | some n => i.setContent n (resize (i.content n) len)

/-- The same operation on files as they are meant to be.  Which descriptor it opens, where a descriptor
stands, and whether it fails, is taken from the filesystem. -/
def Inodes.perform (i : Inodes) (v : Vfs) (op : Op) (result : Option ℤ) : Inodes :=
  match result with
  | none => i
  | some r =>
    if r < 0 then i
    else
      match op with
      | .open path flags _ =>
        if isDevice (absolute path) ∨ hasFlag flags oDirectory then i.setHandle r none
        else i.open (resolvePath v.symlinks (absolute path)) flags r
      | .seek _ _ => i
      | .write fd buf _ =>
        i.write v fd buf (((v.openFiles.get? fd).map OpenFile.position).getD 0)
      | .pwrite fd src offset => i.write v fd src offset
      | .ftruncate fd len => i.truncate fd len
      | .rename source target => i.rename (normalizePath source) (normalizePath target)
      | .unlink path => i.setPath (normalizePath path) none
      | .close fd => i.setHandle fd none

/-- The filesystem with the files as they are meant to be. -/
abbrev State := Vfs × Inodes

/-- The state after an operation. -/
def after (limit : ℕ) (s : State) (op : Op) : State :=
  ((perform limit s.1 op).1, s.2.perform s.1 op (perform limit s.1 op).2)

/-- The step relation. -/
def Step (limit : ℕ) (s : State) (op : Op) (s' : State) : Prop := s' = after limit s op

/-! ### What is read -/

/-- Reading through a descriptor gives the bytes. -/
def Serves (v : Vfs) (fd : ℤ) (bytes : List UInt8) : Prop :=
  ∀ (entropy : ℕ → UInt8) (count offset : ℕ),
    readFile v entropy fd count offset =
      ((((bytes.drop offset).take count).length : ℤ), (bytes.drop offset).take count)

/-- The flags of an open that only looks. -/
def Plain (flags : Int32) : Prop :=
  hasFlag flags oCreat = false ∧ hasFlag flags oTrunc = false ∧ hasFlag flags oDirectory = false

/-- A read through any descriptor of a file, and through a fresh open of its path, gives the content of the
file, and an open of a path without a file opens none. -/
structure Coherent (s : State) : Prop where
  handle : ∀ fd n, s.2.handle fd = some n → Serves s.1 fd (s.2.content n)
  path : ∀ path flags mode n, Plain flags → ¬ isDevice (absolute path) →
    s.2.path (resolvePath s.1.symlinks (absolute path)) = some n →
      Serves (openFile s.1 path flags mode).1 (openFile s.1 path flags mode).2 (s.2.content n)
  noPath : ∀ path flags mode, Plain flags → ¬ isDevice (absolute path) →
    s.2.path (resolvePath s.1.symlinks (absolute path)) = none →
      (openFile s.1 path flags mode).2 = -1 ∨
        ((openFile s.1 path flags mode).1.openFiles.get? (openFile s.1 path flags mode).2).any
          OpenFile.isDir = true

/-! ### The condition -/

/-- The buffer that an open file stands for.  The special files have no content of their own. -/
def bufferOf (file : OpenFile) : Option Buf := if file.special = none then file.content else none

/-- The buffer that a name stands for. -/
def refs (v : Vfs) : Name → Option Buf
  | .inl fd => (v.openFiles.get? fd).bind bufferOf
  | .inr path => v.files.get? path

/-- The buffer of an open file is the one under the path it was opened by, and has no other names: so a new
buffer reaches all of them. -/
def OnlyHere (v : Vfs) (fd : ℤ) (file : OpenFile) : Prop :=
  ∃ content, bufferOf file = some content ∧ v.files.get? file.path = some content ∧
    ∀ x, refs v x = some content → x = .inl fd ∨ x = .inr file.path

/-- A write in place, or one that makes a new buffer where it reaches all names of the file.  Nothing is
written to the source of random bytes. -/
def WriteKeeps (limit : ℕ) (v : Vfs) (fd : ℤ) (src : List UInt8) (offset : ℤ) : Prop :=
  ∀ file content, v.openFiles.get? fd = some file → file.special ≠ some .null →
    file.content = some content →
      (src ≠ [] → file.special = none) ∧
        ((bytesOf v content).length < writeOffset v file offset + src.length →
          writeOffset v file offset + src.length ≤ limit →
            0 ≤ writeOffset v file offset ∧ OnlyHere v fd file)

/-- The length stays, and the buffer is under the path that the file was opened by; or it changes, where a
new buffer reaches all names of the file. -/
def TruncateKeeps (limit : ℕ) (v : Vfs) (fd : ℤ) (len : ℕ) : Prop :=
  ∀ file content, v.openFiles.get? fd = some file → bufferOf file = some content → file.isDir = false →
    (len = (bytesOf v content).length → v.files.get? file.path = some content) ∧
      (len ≠ (bytesOf v content).length → len ≤ limit → OnlyHere v fd file)

/-- The opening cuts off the file that it finds. -/
def CutsOff (path : Path) (flags : Int32) : Prop :=
  hasFlag flags oTrunc = true ∧ hasFlag flags oDirectory = false ∧
    ¬ (hasFlag flags oCreat = true ∧ hasFlag flags oExcl = true) ∧ ¬ isDevice (absolute path)

/-- The file at a path has no descriptor. -/
def NotOpen (v : Vfs) (path : Path) : Prop :=
  ∀ content, v.files.get? path = some content → ∀ x, refs v x = some content → x = .inr path

/-- What gets another path is no directory with files below it, and what keeps its path is no file. -/
def RenameKeeps (v : Vfs) (source target : Path) : Prop :=
  if source = target then v.files.get? source = none
  else ∀ rest, v.files.get? (source ++ '/' :: rest) = none

/-- The condition. -/
def Keeps (limit : ℕ) (s : State) : Op → Prop
  | .open path flags _ =>
    CutsOff path flags → NotOpen s.1 (resolvePath s.1.symlinks (absolute path))
  | .write fd buf _ =>
    WriteKeeps limit s.1 fd buf (((s.1.openFiles.get? fd).map OpenFile.position).getD 0)
  | .pwrite fd src offset => WriteKeeps limit s.1 fd src offset
  | .ftruncate fd len => TruncateKeeps limit s.1 fd len
  | .rename source target => RenameKeeps s.1 (normalizePath source) (normalizePath target)
  | _ => True

/-! #### Deciding the condition -/

theorem forall_refs_iff {v : Vfs} {content : Buf} {P : Name → Prop} :
    (∀ x, refs v x = some content → P x) ↔
      (∀ e ∈ v.openFiles.entries, bufferOf e.2 = some content → P (.inl e.1)) ∧
        ∀ e ∈ v.files.entries, e.2 = content → P (.inr e.1) := by
  constructor
  · intro h
    constructor
    · rintro ⟨fd, file⟩ he hbuf
      refine h (.inl fd) ?_
      rw [refs, JsMap.mem_entries.1 he]
      exact hbuf
    · rintro ⟨path, c⟩ he rfl
      exact h (.inr path) (JsMap.mem_entries.1 he)
  · rintro ⟨hopen, hfiles⟩ (fd | path) hx
    · obtain ⟨file, hfile, hbuf⟩ := Option.bind_eq_some_iff.1 hx
      exact hopen (fd, file) (JsMap.mem_entries.2 hfile) hbuf
    · exact hfiles (path, content) (JsMap.mem_entries.2 hx) rfl

instance (v : Vfs) (content : Buf) (P : Name → Prop) [DecidablePred P] :
    Decidable (∀ x, refs v x = some content → P x) :=
  decidable_of_iff _ forall_refs_iff.symm

instance (v : Vfs) (fd : ℤ) (file : OpenFile) : Decidable (OnlyHere v fd file) :=
  inferInstanceAs (Decidable (∃ content ∈ bufferOf file, v.files.get? file.path = some content ∧
    ∀ x, refs v x = some content → x = .inl fd ∨ x = .inr file.path))

instance (limit : ℕ) (v : Vfs) (fd : ℤ) (src : List UInt8) (offset : ℤ) :
    Decidable (WriteKeeps limit v fd src offset) :=
  decidable_of_iff (∀ file ∈ v.openFiles.get? fd, ∀ content ∈ file.content, file.special ≠ some .null →
      (src ≠ [] → file.special = none) ∧
        ((bytesOf v content).length < writeOffset v file offset + src.length →
          writeOffset v file offset + src.length ≤ limit →
            0 ≤ writeOffset v file offset ∧ OnlyHere v fd file))
    ⟨fun h file content hfile hnull hcontent => h file hfile content hcontent hnull,
      fun h file hfile content hcontent hnull => h file content hfile hnull hcontent⟩

/-! ### Starting -/

/-- The files of a filesystem: each buffer is one. -/
def inodesOf (v : Vfs) : Inodes where
  content := bytesOf v
  next := v.buffers.length
  path := v.files.get?
  handle := fun fd => (v.openFiles.get? fd).bind bufferOf

/-- A filesystem, with any files and any descriptors: what is named is there, no file is hidden, and none
has an empty path. -/
structure Starts (v : Vfs) : Prop where
  lt : ∀ x content, refs v x = some content → content < v.buffers.length
  visible : ∀ path, v.files.has path = true → path ≠ [] ∧ v.whiteouts.has path = false
  nextFd : 0 ≤ v.nextFd

/-- What every operation that meets the condition keeps. -/
structure Good (s : State) : Prop where
  same : Same (refs s.1) (bytesOf s.1) s.2.refs s.2.content
  lt : ∀ x content, refs s.1 x = some content → content < s.1.buffers.length
  ltNext : ∀ x n, s.2.refs x = some n → n < s.2.next
  visible : ∀ path, s.1.files.has path = true → path ≠ [] ∧ s.1.whiteouts.has path = false
  nextFd : 0 ≤ s.1.nextFd

theorem refs_inodesOf (v : Vfs) : (inodesOf v).refs = refs v := by
  funext x
  cases x <;> rfl

theorem good_of_starts {v : Vfs} (h : Starts v) : Good (v, inodesOf v) where
  same := by
    rw [refs_inodesOf]
    exact Same.refl _ _
  lt := h.lt
  ltNext := by
    intro x n hx
    rw [refs_inodesOf] at hx
    exact h.lt x n hx
  visible := h.visible
  nextFd := h.nextFd

/-! ### Reading -/

theorem length_padTo {n : ℕ} {bytes : List UInt8} (h : bytes.length ≤ n) : (padTo n bytes).length = n := by
  rw [padTo, List.length_append, List.length_replicate]
  omega

theorem padTo_self {n : ℕ} {bytes : List UInt8} (h : n ≤ bytes.length) : padTo n bytes = bytes := by
  rw [padTo, Nat.sub_eq_zero_of_le h, List.replicate_zero, List.append_nil]

theorem subarray_nat (bytes : List UInt8) {start stop : ℕ} (hstop : stop ≤ bytes.length) :
    subarray bytes start stop = (bytes.drop start).take (stop - start) := by
  have hstart : ¬ (start : ℤ) < 0 := by omega
  have hneg : ¬ (stop : ℤ) < 0 := by omega
  rw [subarray, clampIndex, clampIndex, if_neg hstart, if_neg hneg, Int.toNat_natCast,
    Int.toNat_natCast, Nat.min_eq_left hstop, List.drop_take]
  rcases Nat.le_total start bytes.length with h | h
  · rw [Nat.min_eq_left h]
  · rw [Nat.min_eq_right h, List.drop_eq_nil_of_le h, List.drop_eq_nil_of_le (Nat.le_refl _)]
    simp

/-- Reading through a descriptor for a buffer. -/
theorem serves_of_buffer {v : Vfs} {fd : ℤ} {file : OpenFile} {content : Buf}
    (hfile : v.openFiles.get? fd = some file) (hbuf : bufferOf file = some content) :
    Serves v fd (bytesOf v content) := by
  have hspecial : file.special = none := by
    by_contra hne
    rw [bufferOf, if_neg hne] at hbuf
    cases hbuf
  have hcontent : file.content = some content := by
    rwa [bufferOf, if_pos hspecial] at hbuf
  intro entropy count offset
  simp only [readFile, hfile, hspecial, hcontent, reduceCtorEq, if_false]
  generalize bytesOf v content = bytes
  by_cases havail : (bytes.length : ℤ) - offset ≤ 0
  · have hle : bytes.length ≤ offset := by omega
    rw [if_pos havail, List.drop_eq_nil_of_le hle]
    simp
  · rw [if_neg havail]
    obtain ⟨n, hn⟩ : ∃ n : ℕ, min (count : ℤ) (bytes.length - offset) = n :=
      ⟨min count (bytes.length - offset), by omega⟩
    have hcast : (offset : ℤ) + n = ((offset + n : ℕ) : ℤ) := by omega
    have htake : (bytes.drop offset).take n = (bytes.drop offset).take count := by
      rw [List.take_eq_take_iff, List.length_drop]
      omega
    have hlen : ((bytes.drop offset).take count).length = n := by
      rw [List.length_take, List.length_drop]
      omega
    rw [hn, hcast, subarray_nat bytes (by omega), Int.toNat_natCast, Nat.add_sub_cancel_left, htake,
      hlen, padTo_self (Nat.le_of_eq hlen.symm)]

/-! ### Names and buffers after updates -/

section Updates

variable {v v' : Vfs}

theorem refs_setFile {fd : ℤ} {file : OpenFile} (ho : v'.openFiles = v.openFiles.set fd file)
    (hf : v'.files = v.files) : refs v' = Function.update (refs v) (.inl fd) (bufferOf file) := by
  funext x
  cases x with
  | inl i =>
      simp only [refs, ho, JsMap.get?_set, Function.update_apply, Sum.inl.injEq]
      split_ifs <;> rfl
  | inr path =>
      rw [Function.update_of_ne (by simp)]
      simp only [refs, hf]

theorem refs_deleteFile {fd : ℤ} (ho : v'.openFiles = v.openFiles.delete fd) (hf : v'.files = v.files) :
    refs v' = Function.update (refs v) (.inl fd) none := by
  funext x
  cases x with
  | inl i =>
      simp only [refs, ho, JsMap.get?_delete, Function.update_apply, Sum.inl.injEq]
      split_ifs <;> rfl
  | inr path =>
      rw [Function.update_of_ne (by simp)]
      simp only [refs, hf]

theorem refs_setPath {path : Path} {content : Buf} (ho : v'.openFiles = v.openFiles)
    (hf : v'.files = v.files.set path content) :
    refs v' = Function.update (refs v) (.inr path) (some content) := by
  funext x
  cases x with
  | inl i =>
      rw [Function.update_of_ne (by simp)]
      simp only [refs, ho]
  | inr q => simp only [refs, hf, JsMap.get?_set, Function.update_apply, Sum.inr.injEq]

theorem refs_deletePath {path : Path} (ho : v'.openFiles = v.openFiles)
    (hf : v'.files = v.files.delete path) : refs v' = Function.update (refs v) (.inr path) none := by
  funext x
  cases x with
  | inl i =>
      rw [Function.update_of_ne (by simp)]
      simp only [refs, ho]
  | inr q => simp only [refs, hf, JsMap.get?_delete, Function.update_apply, Sum.inr.injEq]

theorem bytesOf_congr (hb : v'.buffers = v.buffers) : bytesOf v' = bytesOf v := by
  funext content
  rw [bytesOf, hb, bytesOf]

theorem bytesOf_append {bytes : List UInt8} (hb : v'.buffers = v.buffers ++ [bytes]) :
    bytesOf v' = Function.update (bytesOf v) v.buffers.length bytes := by
  funext content
  rw [bytesOf, hb, Function.update_apply]
  split_ifs with h
  · rw [h, List.getD_append_right _ _ _ _ (Nat.le_refl _), Nat.sub_self]
    rfl
  · rcases Nat.lt_or_gt_of_ne h with hlt | hgt
    · rw [List.getD_append _ _ _ _ hlt, bytesOf]
    · rw [List.getD_eq_default _ _ (by simp; omega), bytesOf, List.getD_eq_default _ _ (by omega)]

theorem bytesOf_set {content : Buf} (h : content < v.buffers.length) {bytes : List UInt8}
    (hb : v'.buffers = v.buffers.set content bytes) :
    bytesOf v' = Function.update (bytesOf v) content bytes := by
  funext i
  rw [bytesOf, hb, Function.update_apply, bytesOf, List.getD_eq_getElem?_getD, List.getElem?_set,
    List.getD_eq_getElem?_getD]
  by_cases hi : i = content
  · subst hi
    simp [h]
  · rw [if_neg fun e => hi e.symm, if_neg hi]

end Updates

@[simp] theorem refs_setHandle (i : Inodes) (fd : ℤ) (n : Option ℕ) :
    (i.setHandle fd n).refs = Function.update i.refs (.inl fd) n := by
  funext x
  cases x with
  | inl j => simp only [Inodes.refs, Inodes.setHandle, Sum.elim_inl, Function.update_apply, Sum.inl.injEq]
  | inr path =>
      rw [Function.update_of_ne (by simp)]
      rfl

@[simp] theorem refs_setPath' (i : Inodes) (path : Path) (n : Option ℕ) :
    (i.setPath path n).refs = Function.update i.refs (.inr path) n := by
  funext x
  cases x with
  | inl j =>
      rw [Function.update_of_ne (by simp)]
      rfl
  | inr q => simp only [Inodes.refs, Inodes.setPath, Sum.elim_inr, Function.update_apply, Sum.inr.injEq]

@[simp] theorem refs_setContent (i : Inodes) (n : ℕ) (bytes : List UInt8) :
    (i.setContent n bytes).refs = i.refs := rfl

/-! ### What good states serve -/

/-- A plain open of a path. -/
theorem openFile_plain {v : Vfs} {path : Path} {flags : Int32} (mode : Int32) (hplain : Plain flags)
    (hdev : ¬ isDevice (absolute path))
    (hvis : v.whiteouts.has (resolvePath v.symlinks (absolute path)) = false) :
    openFile v path flags mode =
      match v.files.get? (resolvePath v.symlinks (absolute path)) with
      | some content =>
        install v
          { content := some content
            path := resolvePath v.symlinks (absolute path)
            append := hasFlag flags oAppend
            cloexec := hasFlag flags oCloexec }
      | none =>
        if v.dirs.has (resolvePath v.symlinks (absolute path)) ∨ v.dirs.has (absolute path) then
          install v
            { isDir := true
              dirPath := some (resolvePath v.symlinks (absolute path))
              path := resolvePath v.symlinks (absolute path)
              cloexec := hasFlag flags oCloexec }
        else (v, -1) := by
  obtain ⟨hcreat, htrunc, hdir⟩ := hplain
  simp only [isDevice, not_or] at hdev
  obtain ⟨hnull, hurandom, hrandom⟩ := hdev
  unfold openFile openContent
  simp only [hnull, hurandom, hrandom, hcreat, htrunc, hdir, hvis, or_self, if_false, Bool.false_eq_true,
    false_and, and_false]
  cases v.files.get? (resolvePath v.symlinks (absolute path)) <;> rfl

/-- A plain open of a path that is hidden. -/
theorem openFile_hidden {v : Vfs} {path : Path} {flags : Int32} (mode : Int32) (hplain : Plain flags)
    (hdev : ¬ isDevice (absolute path))
    (hvis : v.whiteouts.has (resolvePath v.symlinks (absolute path)) = true) :
    (openFile v path flags mode).2 = -1 := by
  simp only [isDevice, not_or] at hdev
  obtain ⟨hnull, hurandom, hrandom⟩ := hdev
  simp only [openFile, hnull, hurandom, hrandom, hvis, hplain.1, or_self, if_false, Bool.false_eq_true,
    not_false_eq_true, and_self, if_true]

/-- **What good states serve.** -/
theorem coherent_of_good {s : State} (h : Good s) : Coherent s where
  handle := by
    intro fd n hn
    obtain ⟨content, hc⟩ := h.same.exists_left (x := .inl fd) hn
    obtain ⟨file, hfile, hbuf⟩ := Option.bind_eq_some_iff.1 hc
    rw [← h.same.value (.inl fd) content n hc hn]
    exact serves_of_buffer hfile hbuf
  path := by
    intro path flags mode n hplain hdev hn
    obtain ⟨content, hc⟩ := h.same.exists_left (x := .inr (resolvePath s.1.symlinks (absolute path))) hn
    have hvis := (h.visible _ (JsMap.has_iff.2 ⟨content, hc⟩)).2
    rw [← h.same.value _ content n hc hn, openFile_plain mode hplain hdev hvis]
    have hget : s.1.files.get? (resolvePath s.1.symlinks (absolute path)) = some content := hc
    simp only [hget]
    exact serves_of_buffer (JsMap.get?_set_self _ _ _) rfl
  noPath := by
    intro path flags mode hplain hdev hn
    have hc := (h.same.bound (.inr (resolvePath s.1.symlinks (absolute path)))).2 hn
    have hget : s.1.files.get? (resolvePath s.1.symlinks (absolute path)) = none := hc
    cases hvis : s.1.whiteouts.has (resolvePath s.1.symlinks (absolute path)) with
    | true => exact Or.inl (openFile_hidden mode hplain hdev hvis)
    | false =>
        rw [openFile_plain mode hplain hdev hvis]
        simp only [hget]
        split_ifs
        · refine Or.inr ?_
          simp [install]
        · exact Or.inl rfl

/-! ### Operations that change no content -/

theorem has_files {v : Vfs} {path : Path} : v.files.has path = true ↔ refs v (.inr path) ≠ none := by
  rw [JsMap.has, Option.isSome_iff_ne_none]
  rfl

/-- The names, the buffers and what is hidden are all that matters. -/
theorem Good.congr {v v' : Vfs} {i : Inodes} (h : Good (v, i)) (hr : refs v' = refs v)
    (hb : v'.buffers = v.buffers) (hw : v'.whiteouts = v.whiteouts) (hn : v'.nextFd = v.nextFd) :
    Good (v', i) where
  same := by
    rw [hr, bytesOf_congr hb]
    exact h.same
  lt := by
    rw [hr, hb]
    exact h.lt
  ltNext := h.ltNext
  visible := by
    intro path hpath
    rw [has_files, hr] at hpath
    rw [hw]
    exact h.visible path (has_files.2 hpath)
  nextFd := by
    rw [hn]
    exact h.nextFd

/-- A change of an open file that leaves its buffer alone. -/
theorem refs_updateFile (v : Vfs) (fd : ℤ) {f : OpenFile → OpenFile} (hf : ∀ file, bufferOf (f file) = bufferOf file) :
    refs (updateFile v fd f) = refs v := by
  unfold updateFile
  cases hfile : v.openFiles.get? fd with
  | none => rfl
  | some file =>
      have hrefs := @refs_setFile v { v with openFiles := v.openFiles.set fd (f file) } fd (f file) rfl rfl
      have hself : refs v (.inl fd) = bufferOf (f file) := by
        rw [hf, refs, hfile]
        rfl
      rw [hrefs, Function.update_eq_self_iff, hself]

theorem good_seek {v : Vfs} {i : Inodes} (h : Good (v, i)) (fd position : ℤ) : Good (seek v fd position, i) := by
  have hrest : ∀ f, (updateFile v fd f).buffers = v.buffers ∧ (updateFile v fd f).whiteouts = v.whiteouts ∧
      (updateFile v fd f).nextFd = v.nextFd := by
    intro f
    unfold updateFile
    split <;> exact ⟨rfl, rfl, rfl⟩
  obtain ⟨hb, hw, hn⟩ := hrest fun file => { file with position }
  exact h.congr (refs_updateFile v fd fun _ => rfl) hb hw hn

/-- A descriptor goes. -/
theorem good_close {v : Vfs} {i : Inodes} (h : Good (v, i)) (fd : ℤ) :
    Good (closeFile v fd, i.setHandle fd none) := by
  have hrefs : refs (closeFile v fd) = Function.update (refs v) (.inl fd) none := refs_deleteFile rfl rfl
  refine ⟨?_, ?_, ?_, h.visible, h.nextFd⟩
  · dsimp only
    rw [hrefs, refs_setHandle]
    exact h.same.drop (.inl fd)
  · intro x content hx
    dsimp only at hx
    rw [hrefs, Function.update_apply] at hx
    split_ifs at hx
    exact h.lt x content hx
  · intro x n hx
    dsimp only at hx
    rw [refs_setHandle, Function.update_apply] at hx
    split_ifs at hx
    exact h.ltNext x n hx

/-- A path loses its file, and becomes hidden. -/
theorem good_unlink {v v' : Vfs} {i : Inodes} (h : Good (v, i)) {path : Path} (ho : v'.openFiles = v.openFiles)
    (hf : v'.files = v.files.delete path) (hb : v'.buffers = v.buffers)
    (hw : v'.whiteouts = v.whiteouts.set path ()) (hn : v'.nextFd = v.nextFd) :
    Good (v', i.setPath path none) where
  same := by
    rw [refs_deletePath ho hf, refs_setPath', bytesOf_congr hb]
    exact h.same.drop (.inr path)
  lt := by
    intro x content hx
    rw [refs_deletePath ho hf, Function.update_apply] at hx
    split_ifs at hx
    rw [hb]
    exact h.lt x content hx
  ltNext := by
    intro x n hx
    rw [refs_setPath', Function.update_apply] at hx
    split_ifs at hx
    exact h.ltNext x n hx
  visible := by
    intro q hq
    rw [hf, JsMap.has, JsMap.get?_delete] at hq
    split_ifs at hq with hne
    · cases hq
    · rw [hw, JsMap.has, JsMap.get?_set_ne hne]
      exact h.visible q hq
  nextFd := by
    rw [hn]
    exact h.nextFd

/-! ### New contents -/

/-- **A change in place**, which reaches all names of the buffer. -/
theorem good_inPlace {v : Vfs} {i : Inodes} (h : Good (v, i)) {x : Name} {content : Buf} {n : ℕ}
    (hc : refs v x = some content) (hn : i.refs x = some n) (bytes : List UInt8) :
    Good ({ v with buffers := v.buffers.set content bytes }, i.setContent n bytes) where
  same := by
    have hbytes := @bytesOf_set v { v with buffers := v.buffers.set content bytes } content
      (h.lt x content hc) bytes rfl
    dsimp only
    rw [hbytes]
    exact h.same.write hc hn bytes
  lt := by
    intro y c hy
    rw [List.length_set]
    exact h.lt y c hy
  ltNext := h.ltNext
  visible := h.visible
  nextFd := h.nextFd

/-- **A new buffer** for an open file and the path it was opened by, if the old one has no other names. -/
theorem good_newBuffer {v v' : Vfs} {i : Inodes} (h : Good (v, i)) {fd : ℤ} {file : OpenFile} {n : ℕ}
    (hfile : v.openFiles.get? fd = some file) (honly : OnlyHere v fd file) (hn : i.handle fd = some n)
    (hspecial : file.special = none) {bytes : List UInt8} (hb : v'.buffers = v.buffers ++ [bytes])
    (ho : v'.openFiles = v.openFiles.set fd { file with content := some v.buffers.length })
    (hf : v'.files = v.files.set file.path v.buffers.length) (hw : v'.whiteouts = v.whiteouts)
    (hnext : v'.nextFd = v.nextFd) : Good (v', i.setContent n bytes) := by
  obtain ⟨content, hbuf, hpath, honly⟩ := honly
  have hhandle : refs v (.inl fd) = some content := by
    rw [refs, hfile]
    exact hbuf
  have hname : refs v (.inr file.path) = some content := hpath
  have hfresh : ∀ x, refs v x ≠ some v.buffers.length := by
    intro x hx
    exact Nat.lt_irrefl _ (h.lt x _ hx)
  have hrefs : refs v' = fun x => if refs v x = some content then some v.buffers.length else refs v x := by
    -- nothing but the descriptor and the name has the old buffer, by `OnlyHere`
    funext x
    cases x with
    | inl j =>
        by_cases hj : j = fd
        · subst hj
          rw [if_pos hhandle, refs, ho, JsMap.get?_set_self]
          simp [bufferOf, hspecial]
        · have hne : refs v (.inl j) ≠ some content := by
            intro hx
            rcases honly _ hx with hx | hx
            · exact hj (Sum.inl.inj hx)
            · cases hx
          rw [if_neg hne, refs, ho, JsMap.get?_set_ne hj, refs]
    | inr q =>
        by_cases hq : q = file.path
        · subst hq
          rw [if_pos hname, refs, hf, JsMap.get?_set_self]
        · have hne : refs v (.inr q) ≠ some content := by
            intro hx
            rcases honly _ hx with hx | hx
            · cases hx
            · exact hq (Sum.inr.inj hx)
          rw [if_neg hne, refs, hf, JsMap.get?_set_ne hq, refs]
  refine ⟨?_, ?_, h.ltNext, ?_, ?_⟩
  · dsimp only
    rw [hrefs, bytesOf_append hb]
    exact h.same.move hhandle hn hfresh bytes
  · intro x c hx
    dsimp only at hx ⊢
    rw [hrefs] at hx
    dsimp only at hx
    rw [hb, List.length_append, List.length_singleton]
    split_ifs at hx
    · rw [← Option.some_inj.1 hx]
      exact Nat.lt_succ_self _
    · exact Nat.lt_succ_of_lt (h.lt x c hx)
  · intro q hq
    rw [hf, JsMap.has, JsMap.get?_set] at hq
    dsimp only
    rw [hw]
    refine h.visible q ?_
    split_ifs at hq with hpath'
    · rw [hpath']
      exact JsMap.has_iff.2 ⟨content, hpath⟩
    · exact hq
  · dsimp only
    rw [hnext]
    exact h.nextFd

/-- A source that fits is written where it belongs. -/
theorem writeAt_of_setBytes {bytes src result : List UInt8} {off : ℤ}
    (h : setBytes bytes src off = some result) : result = writeAt bytes off.toNat src := by
  unfold setBytes at h
  split_ifs at h with hfits
  rw [← Option.some_inj.1 h, writeAt, padTo_self (by omega)]

theorem take_padTo {n m : ℕ} (h : n ≤ m) (bytes : List UInt8) :
    (padTo m bytes).take n = (padTo n bytes).take n := by
  simp only [padTo, List.take_append, List.take_replicate]
  congr 2
  omega

/-- A source that does not fit does after the buffer has grown. -/
theorem setBytes_grown {bytes src : List UInt8} {off : ℤ} (hoff : 0 ≤ off)
    (hgrows : (bytes.length : ℤ) < off + src.length) :
    setBytes (padTo (off + src.length).toNat bytes) src off = some (writeAt bytes off.toNat src) := by
  obtain ⟨n, rfl⟩ : ∃ n : ℕ, off = n := ⟨off.toNat, by omega⟩
  have hneeded : ((n : ℤ) + src.length).toNat = n + src.length := by omega
  have hlen : (padTo (n + src.length) bytes).length = n + src.length := length_padTo (by omega)
  rw [hneeded, setBytes, if_pos ⟨hoff, by rw [hlen]; omega⟩, Int.toNat_natCast, Option.some_inj, writeAt,
    List.drop_eq_nil_of_le (Nat.le_of_eq hlen), List.drop_eq_nil_of_le (by omega)]
  rw [take_padTo (Nat.le_add_right n src.length)]

theorem length_writeAt (bytes : List UInt8) (off : ℕ) (src : List UInt8) :
    (writeAt bytes off src).length = max bytes.length (off + src.length) := by
  have hpad : off ≤ (padTo off bytes).length := by
    rw [padTo, List.length_append, List.length_replicate]
    omega
  rw [writeAt, List.length_append, List.length_append, List.length_take, Nat.min_eq_left hpad, List.length_drop]
  omega

/-- A write of no bytes leaves a file alone that it lies in. -/
theorem writeAt_nil_iff (bytes : List UInt8) (off : ℕ) : writeAt bytes off [] = bytes ↔ off ≤ bytes.length := by
  constructor
  · intro h
    have hlen := congrArg List.length h
    rw [length_writeAt, List.length_nil] at hlen
    omega
  · intro h
    rw [writeAt, padTo_self h, List.append_nil, List.length_nil, Nat.add_zero, List.take_append_drop]

/-! ### Writing -/

/-- Files after an operation that may fail. -/
def unlessFailed (i i' : Inodes) : Option ℤ → Inodes
  | none => i
  | some r => if r < 0 then i else i'

theorem unlessFailed_nat (i i' : Inodes) (n : ℕ) : unlessFailed i i' (some (n : ℤ)) = i' := by
  rw [unlessFailed, if_neg (by omega)]

theorem unlessFailed_self (i : Inodes) (result : Option ℤ) : unlessFailed i i result = i := by
  unfold unlessFailed
  split
  · rfl
  · exact ite_self i

/-- Writing to a buffer that was just made. -/
theorem storeBytes_growFile (v : Vfs) (fd : ℤ) (path : Path) (bytes src : List UInt8) (off : ℤ) :
    storeBytes (growFile v fd path bytes).1 (growFile v fd path bytes).2 src off =
      match setBytes bytes src off with
      | none => ((growFile v fd path bytes).1, none)
      | some result => ((growFile v fd path result).1, some src.length) := by
  have hbuffers : ∀ b, (growFile v fd path b).1.buffers = v.buffers ++ [b] := by
    intro b
    simp only [growFile, newBuffer, setContent, updateFile]
    split <;> rfl
  have hbytes : bytesOf (growFile v fd path bytes).1 v.buffers.length = bytes := by
    rw [bytesOf_append (hbuffers bytes), Function.update_self]
  have hgrown : (growFile v fd path bytes).2 = v.buffers.length := rfl
  rw [hgrown, storeBytes, hbytes]
  cases setBytes bytes src off with
  | none => rfl
  | some result =>
      simp only [growFile, newBuffer, setContent, updateFile]
      cases v.openFiles.get? fd <;> simp

theorem growFile_eq {v : Vfs} {fd : ℤ} {file : OpenFile} (hfile : v.openFiles.get? fd = some file)
    (path : Path) (bytes : List UInt8) :
    (growFile v fd path bytes).1 =
      { v with
        buffers := v.buffers ++ [bytes]
        openFiles := v.openFiles.set fd { file with content := some v.buffers.length }
        files := v.files.set path v.buffers.length } := by
  simp only [growFile, newBuffer, setContent, updateFile, hfile]

/-- The part of a write about the buffer. -/
theorem good_writeContent {v : Vfs} {i : Inodes} (h : Good (v, i)) (limit : ℕ) {fd : ℤ} {file : OpenFile}
    (hfile : v.openFiles.get? fd = some file) (hspecial : file.special = none) {content : Buf}
    (hcontent : file.content = some content) {n : ℕ} (hn : i.handle fd = some n) {src : List UInt8} {off : ℤ}
    (hgrows : (bytesOf v content).length < off + src.length → off + src.length ≤ limit →
      0 ≤ off ∧ OnlyHere v fd file) :
    Good ((writeContent limit v fd file.path content src off).1,
      unlessFailed i (i.setContent n (writeAt (bytesOf v content) off.toNat src))
        (writeContent limit v fd file.path content src off).2) := by
  have hc : refs v (.inl fd) = some content := by
    rw [refs, hfile, Option.bind_some, bufferOf, if_pos hspecial, hcontent]
  unfold writeContent
  dsimp only
  split_ifs with hgrow hroom
  · exact h
  · obtain ⟨hpos, honly⟩ := hgrows hgrow (Int.not_lt.1 hroom)
    rw [storeBytes_growFile]
    have hset := setBytes_grown hpos hgrow
    simp only [hset, unlessFailed_nat, growFile_eq hfile]
    exact good_newBuffer h hfile honly hn hspecial rfl rfl rfl rfl rfl
  · unfold storeBytes
    cases hset : setBytes (bytesOf v content) src off with
    | none => exact h
    | some bytes =>
        rw [← writeAt_of_setBytes hset]
        dsimp only
        rw [unlessFailed_nat]
        exact good_inPlace h hc hn bytes

/-- Writing nothing changes nothing. -/
theorem storeBytes_nil (v : Vfs) (content : Buf) (off : ℤ) : (storeBytes v content [] off).1 = v := by
  unfold storeBytes
  cases hset : setBytes (bytesOf v content) [] off with
  | none => rfl
  | some bytes =>
      have hbytes : bytes = bytesOf v content := by
        unfold setBytes at hset
        split_ifs at hset
        rw [← Option.some_inj.1 hset, List.append_nil, List.length_nil, Nat.add_zero, List.take_append_drop]
      have hbuffers : v.buffers.set content (bytesOf v content) = v.buffers := by
        refine List.ext_getElem (List.length_set) fun i hi hi' => ?_
        rw [List.getElem_set]
        split_ifs with he
        · subst he
          rw [bytesOf, List.getD_eq_getElem _ _ hi']
        · rfl
      dsimp only
      rw [hbytes, hbuffers]

theorem writeContent_nil (limit : ℕ) {v : Vfs} {fd : ℤ} {path : Path} {content : Buf} {off : ℤ}
    (hgrows : (bytesOf v content).length < off + ([] : List UInt8).length →
      ¬ off + ([] : List UInt8).length ≤ limit) : (writeContent limit v fd path content [] off).1 = v := by
  unfold writeContent
  dsimp only
  split_ifs with hgrow hroom
  · rfl
  · exact absurd (Int.not_lt.1 hroom) (hgrows hgrow)
  · exact storeBytes_nil v content off

/-- **A write that meets the condition.** -/
theorem good_writeFile {v : Vfs} {i : Inodes} (h : Good (v, i)) (limit : ℕ) {fd : ℤ} {src : List UInt8}
    {offset : ℤ} (hk : WriteKeeps limit v fd src offset) :
    Good ((writeFile limit v fd src offset).1,
      unlessFailed i (i.write v fd src offset) (writeFile limit v fd src offset).2) := by
  unfold writeFile
  cases hfile : v.openFiles.get? fd with
  | none => exact h
  | some file =>
      dsimp only
      by_cases hnull : file.special = some .null
      · -- nothing is written to the null device, which is no file
        rw [if_pos hnull]
        have hhandle : i.handle fd = none := by
          refine (h.same.bound (.inl fd)).1 ?_
          simp [refs, hfile, bufferOf, hnull]
        rw [unlessFailed_nat, Inodes.write, hhandle]
        exact h
      · rw [if_neg hnull]
        cases hcontent : file.content with
        | none => exact h
        | some content =>
            obtain ⟨hdevice, hgrows⟩ := hk file content hfile hnull hcontent
            have hoff : writeOffset v file offset =
                if file.append then ((bytesOf v content).length : ℤ) else offset := by
              rw [writeOffset, hcontent]
              rfl
            dsimp only
            rw [← hoff]
            by_cases hspecial : file.special = none
            · have hc : refs v (.inl fd) = some content := by
                rw [refs, hfile, Option.bind_some, bufferOf, if_pos hspecial, hcontent]
              obtain ⟨n, hn⟩ := h.same.exists_right hc
              have hhandle : i.handle fd = some n := hn
              have hbytes : i.content n = bytesOf v content := (h.same.value _ content n hc hn).symm
              have hwrite : i.write v fd src offset =
                  i.setContent n (writeAt (bytesOf v content) (writeOffset v file offset).toNat src) := by
                simp only [Inodes.write, hhandle, hfile, hbytes]
              rw [hwrite]
              exact good_writeContent h limit hfile hspecial hcontent hhandle hgrows
            · -- nothing is written, and the buffer keeps its length
              have hsrc : src = [] := by
                by_contra hne
                exact hspecial (hdevice hne)
              subst hsrc
              have hhandle : i.handle fd = none := by
                refine (h.same.bound (.inl fd)).1 ?_
                simp [refs, hfile, bufferOf, hspecial]
              have hsame : (writeContent limit v fd file.path content [] (writeOffset v file offset)).1 = v := by
                refine writeContent_nil limit fun hgrow hroom => ?_
                obtain ⟨-, content', hbuf, -⟩ := hgrows hgrow hroom
                rw [bufferOf, if_neg hspecial] at hbuf
                cases hbuf
              rw [hsame, Inodes.write, hhandle]
              dsimp only
              rw [unlessFailed_self]
              exact h

theorem writeContent_result (limit : ℕ) (v : Vfs) (fd : ℤ) (path : Path) (content : Buf) (src : List UInt8)
    (off : ℤ) :
    (writeContent limit v fd path content src off).2 = none ∨
      (writeContent limit v fd path content src off).2 = some (src.length : ℤ) := by
  have hstore : ∀ v content, (storeBytes v content src off).2 = none ∨
      (storeBytes v content src off).2 = some (src.length : ℤ) := by
    intro v content
    unfold storeBytes
    split
    · exact Or.inl rfl
    · exact Or.inr rfl
  unfold writeContent
  dsimp only
  split_ifs
  · exact Or.inl rfl
  · exact hstore _ _
  · exact hstore _ _

/-- A write to an open file throws or writes all bytes. -/
theorem writeFile_result (limit : ℕ) {v : Vfs} {fd : ℤ} {file : OpenFile}
    (hfile : v.openFiles.get? fd = some file) (src : List UInt8) (offset : ℤ) :
    (writeFile limit v fd src offset).2 = none ∨
      (writeFile limit v fd src offset).2 = some (src.length : ℤ) := by
  unfold writeFile
  rw [hfile]
  dsimp only
  by_cases hnull : file.special = some .null
  · rw [if_pos hnull]
    exact Or.inr rfl
  · rw [if_neg hnull]
    cases file.content with
    | none => exact Or.inl rfl
    | some content => exact writeContent_result limit v fd file.path content src _

theorem get?_seek {v : Vfs} {fd : ℤ} {file : OpenFile} (hfile : v.openFiles.get? fd = some file)
    (position : ℤ) : (seek v fd position).openFiles.get? fd = some { file with position } := by
  simp only [seek, updateFile, hfile, JsMap.get?_set_self]

theorem seek_frame (v : Vfs) (fd position : ℤ) :
    (seek v fd position).files = v.files ∧ (seek v fd position).buffers = v.buffers := by
  unfold seek updateFile
  split <;> exact ⟨rfl, rfl⟩

/-- Where a write at the position of a file goes, after the position was set for it. -/
theorem writeOffset_seek {v : Vfs} {fd : ℤ} {file : OpenFile} {position : ℤ}
    (hstart : startPosition v file = some position) :
    writeOffset (seek v fd position) { file with position } position = writeOffset v file file.position := by
  have hbytes : bytesOf (seek v fd position) = bytesOf v := bytesOf_congr (seek_frame v fd position).2
  unfold startPosition at hstart
  unfold writeOffset
  rw [hbytes]
  split_ifs at hstart ⊢
  · rfl
  · exact (Option.some_inj.1 hstart).symm

theorem writeKeeps_seek {limit : ℕ} {v : Vfs} {fd : ℤ} {file : OpenFile} (hfile : v.openFiles.get? fd = some file)
    {position : ℤ} (hstart : startPosition v file = some position) {src : List UInt8}
    (hk : WriteKeeps limit v fd src file.position) : WriteKeeps limit (seek v fd position) fd src position := by
  obtain ⟨hfiles, hbuffers⟩ := seek_frame v fd position
  intro file' content hfile' hnull hcontent
  rw [get?_seek hfile] at hfile'
  obtain rfl := Option.some_inj.1 hfile'
  obtain ⟨hspecial, hgrows⟩ := hk file content hfile hnull hcontent
  refine ⟨hspecial, ?_⟩
  rw [writeOffset_seek hstart, bytesOf_congr hbuffers]
  intro hgrow hroom
  obtain ⟨hpos, content', hbuf, hpath, honly⟩ := hgrows hgrow hroom
  refine ⟨hpos, content', hbuf, ?_, ?_⟩
  · rw [hfiles]
    exact hpath
  · have hrefs : refs (seek v fd position) = refs v := refs_updateFile v fd fun _ => rfl
    rw [hrefs]
    exact honly

/-- **A write at the position of a file that meets the condition.** -/
theorem good_writeNext {v : Vfs} {i : Inodes} (h : Good (v, i)) (limit : ℕ) {fd : ℤ} {buf : List UInt8}
    (length : ℕ) (hk : WriteKeeps limit v fd buf (((v.openFiles.get? fd).map OpenFile.position).getD 0)) :
    Good ((writeNext limit v fd buf length).1,
      unlessFailed i (i.write v fd buf (((v.openFiles.get? fd).map OpenFile.position).getD 0))
        (writeNext limit v fd buf length).2) := by
  unfold writeNext
  cases hfile : v.openFiles.get? fd with
  | none => exact h
  | some file =>
      dsimp only
      rw [hfile] at hk
      simp only [Option.map_some, Option.getD_some] at hk ⊢
      cases hstart : startPosition v file with
      | none => exact h
      | some position =>
          have hwrite := good_writeFile (good_seek h fd position) limit (writeKeeps_seek hfile hstart hk)
          have hsame : i.write (seek v fd position) fd buf position = i.write v fd buf file.position := by
            rw [Inodes.write, Inodes.write, get?_seek hfile, hfile]
            cases i.handle fd with
            | none => rfl
            | some n =>
                dsimp only
                rw [writeOffset_seek hstart]
          rw [hsame] at hwrite
          have hres := writeFile_result limit (get?_seek hfile position) buf position
          dsimp only
          generalize writeFile limit (seek v fd position) fd buf position = r at hwrite hres ⊢
          obtain ⟨v', result⟩ := r
          dsimp only at hwrite hres
          rcases hres with rfl | rfl
          · exact hwrite
          · rw [unlessFailed_nat] at hwrite
            rw [unlessFailed_nat]
            exact good_seek hwrite fd _

/-! ### Changing the length -/

theorem setContent_self {i : Inodes} {n : ℕ} {bytes : List UInt8} (h : i.content n = bytes) :
    i.setContent n bytes = i := by
  rw [Inodes.setContent, ← h, Function.update_eq_self]

/-- Bytes that have the length already. -/
theorem resize_self (bytes : List UInt8) : resize bytes bytes.length = bytes := by
  rw [resize, List.take_length, padTo_self (Nat.le_refl _)]

/-- A new buffer under a path with a name. -/
theorem resizeFile_eq (limit : ℕ) {v : Vfs} {fd : ℤ} {file : OpenFile} (hfile : v.openFiles.get? fd = some file)
    {path : Path} (hpath : path ≠ []) {content : Buf} {len : ℕ} (hlen : len ≠ (bytesOf v content).length)
    (hlimit : ¬ limit < len) :
    resizeFile limit v fd path content len =
      ({ v with
          buffers := v.buffers ++ [resize (bytesOf v content) len]
          openFiles := v.openFiles.set fd { file with content := some v.buffers.length }
          files := v.files.set path v.buffers.length }, some 0) := by
  simp only [resizeFile, if_neg hlen, if_neg hlimit, if_neg hpath, newBuffer, setContent, updateFile, hfile,
    resize]

/-- The part of a change of the length about the buffer. -/
theorem good_resizeFile {v : Vfs} {i : Inodes} (h : Good (v, i)) (limit : ℕ) {fd : ℤ} {file : OpenFile}
    (hfile : v.openFiles.get? fd = some file) (hspecial : file.special = none) {content : Buf} {n len : ℕ}
    (hbuf : bufferOf file = some content) (hn : i.handle fd = some n)
    (hbytes : i.content n = bytesOf v content)
    (hpath : len = (bytesOf v content).length → v.files.get? file.path = some content)
    (honly : len ≠ (bytesOf v content).length → len ≤ limit → OnlyHere v fd file) :
    Good ((resizeFile limit v fd file.path content len).1,
      unlessFailed i (i.setContent n (resize (bytesOf v content) len))
        (resizeFile limit v fd file.path content len).2) := by
  have hnamed : v.files.get? file.path = some content → file.path ≠ [] := fun hpath =>
    (h.visible _ (JsMap.has_iff.2 ⟨content, hpath⟩)).1
  by_cases hlen : len = (bytesOf v content).length
  · have hset : refs { v with files := v.files.set file.path content } = refs v := by
      rw [@refs_setPath v { v with files := v.files.set file.path content } file.path content rfl rfl,
        Function.update_eq_self_iff]
      exact (hpath hlen).symm
    rw [resizeFile]
    dsimp only
    rw [if_pos hlen, if_neg (hnamed (hpath hlen)), hlen, resize_self, setContent_self hbytes]
    exact h.congr hset rfl rfl rfl
  · by_cases hlimit : limit < len
    · rw [resizeFile]
      dsimp only
      rw [if_neg hlen, if_pos hlimit]
      exact h
    · have hhere := honly hlen (Nat.not_lt.1 hlimit)
      have hcontent : v.files.get? file.path = some content := by
        obtain ⟨content', hbuf', hpath', -⟩ := hhere
        rwa [← Option.some_inj.1 (hbuf'.symm.trans hbuf)]
      rw [resizeFile_eq limit hfile (hnamed hcontent) hlen hlimit]
      exact good_newBuffer h hfile hhere hn hspecial rfl rfl rfl rfl rfl

/-- **A change of the length that meets the condition.** -/
theorem good_truncateFile {v : Vfs} {i : Inodes} (h : Good (v, i)) (limit : ℕ) {fd : ℤ} {len : ℕ}
    (hk : TruncateKeeps limit v fd len) :
    Good ((truncateFile limit v fd len).1,
      unlessFailed i (i.truncate fd len) (truncateFile limit v fd len).2) := by
  unfold truncateFile
  cases hfile : v.openFiles.get? fd with
  | none => exact h
  | some file =>
      dsimp only
      cases hdir : file.isDir with
      | true => exact h
      | false =>
          cases hspecial : file.special with
          | some special =>
              -- the special files are no files
              have hhandle : i.handle fd = none := by
                refine (h.same.bound (.inl fd)).1 ?_
                simp [refs, hfile, bufferOf, hspecial]
              have htruncate : i.truncate fd len = i := by
                rw [Inodes.truncate, hhandle]
              rw [htruncate]
              exact h
          | none =>
              cases hcontent : file.content with
              | none => exact h
              | some content =>
                  have hbuf : bufferOf file = some content := by
                    rw [bufferOf, if_pos hspecial, hcontent]
                  obtain ⟨hpath, honly⟩ := hk file content hfile hbuf hdir
                  have hc : refs v (.inl fd) = some content := by
                    rw [refs, hfile, Option.bind_some, hbuf]
                  obtain ⟨n, hn⟩ := h.same.exists_right hc
                  have hhandle : i.handle fd = some n := hn
                  have hbytes : i.content n = bytesOf v content := (h.same.value _ content n hc hn).symm
                  have htruncate : i.truncate fd len = i.setContent n (resize (bytesOf v content) len) := by
                    simp only [Inodes.truncate, hhandle, hbytes]
                  rw [htruncate]
                  exact good_resizeFile h limit hfile hspecial hbuf hhandle hbytes hpath honly

/-! ### Opening -/

/-- A new buffer that nothing names. -/
theorem Good.newBuffer {v : Vfs} {i : Inodes} (h : Good (v, i)) (bytes : List UInt8) :
    Good ((newBuffer v bytes).1, i) where
  same := by
    have hbytes : bytesOf (VirtualFs.newBuffer v bytes).1 = Function.update (bytesOf v) v.buffers.length bytes :=
      bytesOf_append rfl
    rw [hbytes]
    refine h.same.congr ?_ fun _ _ _ => rfl
    intro x c hx
    rw [Function.update_of_ne (Nat.ne_of_lt (h.lt x c hx))]
  lt := by
    intro x c hx
    have hlt := h.lt x c hx
    simp only [VirtualFs.newBuffer, List.length_append, List.length_singleton]
    exact Nat.lt_succ_of_lt hlt
  ltNext := h.ltNext
  visible := h.visible
  nextFd := h.nextFd

/-- A new descriptor for something else than a file. -/
theorem good_installOther {v : Vfs} {i : Inodes} (h : Good (v, i)) {file : OpenFile}
    (hbuf : bufferOf file = none) : Good ((install v file).1, i.setHandle v.nextFd none) := by
  have hrefs : refs (install v file).1 = Function.update (refs v) (.inl v.nextFd) none := by
    rw [← hbuf]
    exact refs_setFile rfl rfl
  refine ⟨?_, ?_, ?_, h.visible, Int.add_nonneg h.nextFd (by decide)⟩
  · dsimp only
    rw [hrefs, refs_setHandle]
    exact h.same.drop _
  · intro x content hx
    dsimp only at hx
    rw [hrefs, Function.update_apply] at hx
    split_ifs at hx
    exact h.lt x content hx
  · intro x n hx
    dsimp only at hx
    rw [refs_setHandle, Function.update_apply] at hx
    split_ifs at hx
    exact h.ltNext x n hx

/-- A new descriptor for the file at a path. -/
theorem good_installFile {v : Vfs} {i : Inodes} (h : Good (v, i)) {file : OpenFile} {content : Buf}
    (hbuf : bufferOf file = some content) {path : Path} (hpath : v.files.get? path = some content) {n : ℕ}
    (hn : i.path path = some n) : Good ((install v file).1, i.setHandle v.nextFd (some n)) := by
  have hc : refs v (.inr path) = some content := hpath
  have hrefs : refs (install v file).1 = Function.update (refs v) (.inl v.nextFd) (some content) := by
    rw [← hbuf]
    exact refs_setFile rfl rfl
  refine ⟨?_, ?_, ?_, h.visible, Int.add_nonneg h.nextFd (by decide)⟩
  · dsimp only
    rw [hrefs, refs_setHandle]
    exact h.same.share _ hc hn
  · intro x c hx
    dsimp only at hx
    rw [hrefs, Function.update_apply] at hx
    split_ifs at hx
    · rw [← Option.some_inj.1 hx]
      exact h.lt _ content hc
    · exact h.lt x c hx
  · intro x m hx
    dsimp only at hx
    rw [refs_setHandle, Function.update_apply] at hx
    split_ifs at hx
    · rw [← Option.some_inj.1 hx]
      exact h.ltNext (.inr path) n hn
    · exact h.ltNext x m hx

/-- A file without a descriptor is cut off. -/
theorem good_cutOff {v : Vfs} {i : Inodes} (h : Good (v, i)) {path : Path} {content : Buf}
    (hpath : v.files.get? path = some content) (honly : ∀ x, refs v x = some content → x = .inr path) {n : ℕ}
    (hn : i.path path = some n) :
    Good ({ v with buffers := v.buffers ++ [[]], files := v.files.set path v.buffers.length },
      i.setContent n []) := by
  have hc : refs v (.inr path) = some content := hpath
  have hset := @refs_setPath v
    { v with buffers := v.buffers ++ [[]], files := v.files.set path v.buffers.length } path v.buffers.length
    rfl rfl
  have hrefs : Function.update (refs v) (.inr path) (some v.buffers.length) =
      fun x => if refs v x = some content then some v.buffers.length else refs v x := by
    funext x
    rw [Function.update_apply]
    by_cases hx : x = .inr path
    · rw [if_pos hx, hx, if_pos hc]
    · rw [if_neg hx, if_neg fun hx' => hx (honly x hx')]
  have hfresh : ∀ x, refs v x ≠ some v.buffers.length := by
    intro x hx
    exact Nat.lt_irrefl _ (h.lt x _ hx)
  refine ⟨?_, ?_, h.ltNext, ?_, h.nextFd⟩
  · dsimp only
    rw [hset, hrefs, @bytesOf_append v _ [] rfl]
    exact h.same.move hc hn hfresh []
  · intro x c hx
    dsimp only at hx ⊢
    rw [hset, Function.update_apply] at hx
    rw [List.length_append, List.length_singleton]
    split_ifs at hx
    · rw [← Option.some_inj.1 hx]
      exact Nat.lt_succ_self _
    · exact Nat.lt_succ_of_lt (h.lt x c hx)
  · intro q hq
    refine h.visible q ?_
    rw [has_files, hset, Function.update_apply] at hq
    rw [has_files]
    split_ifs at hq with hx
    · rw [hx, hc]
      exact Option.some_ne_none _
    · exact hq

/-- A path without a file gets one. -/
theorem good_created {v v' : Vfs} {i : Inodes} (h : Good (v, i)) {path : Path} (hnamed : path ≠ [])
    (ho : v'.openFiles = v.openFiles) (hf : v'.files = v.files.set path v.buffers.length)
    (hb : v'.buffers = v.buffers ++ [[]]) (hw : v'.whiteouts = v.whiteouts.delete path)
    (hn : v'.nextFd = v.nextFd) : Good (v', i.create path) := by
  have hset := refs_setPath ho hf
  have hrefs : (i.create path).refs = Function.update i.refs (.inr path) (some i.next) :=
    refs_setPath' i path (some i.next)
  have hfresh : ∀ x, refs v x ≠ some v.buffers.length := by
    intro x hx
    exact Nat.lt_irrefl _ (h.lt x _ hx)
  have hnew : ∀ x, i.refs x ≠ some i.next := by
    intro x hx
    exact Nat.lt_irrefl _ (h.ltNext x _ hx)
  refine ⟨?_, ?_, ?_, ?_, ?_⟩
  · have hcontent : (i.create path).content = Function.update i.content i.next [] := rfl
    dsimp only
    rw [hset, hrefs, bytesOf_append hb, hcontent]
    -- the new content is at a buffer and at a file that nothing refers to yet
    refine (h.same.congr ?_ ?_).bindFresh _ hfresh hnew ?_
    · intro x c hx
      have hne : c ≠ v.buffers.length := by
        rintro rfl
        exact hfresh x hx
      rw [Function.update_of_ne hne]
    · intro x n hx
      have hne : n ≠ i.next := by
        rintro rfl
        exact hnew x hx
      rw [Function.update_of_ne hne]
    · rw [Function.update_self, Function.update_self]
  · intro x c hx
    dsimp only at hx ⊢
    rw [hset, Function.update_apply] at hx
    rw [hb, List.length_append, List.length_singleton]
    split_ifs at hx
    · rw [← Option.some_inj.1 hx]
      exact Nat.lt_succ_self _
    · exact Nat.lt_succ_of_lt (h.lt x c hx)
  · intro x n hx
    dsimp only at hx ⊢
    rw [hrefs, Function.update_apply] at hx
    split_ifs at hx
    · rw [← Option.some_inj.1 hx]
      exact Nat.lt_succ_self _
    · exact Nat.lt_succ_of_lt (h.ltNext x n hx)
  · intro q hq
    dsimp only at hq ⊢
    rw [hf, JsMap.has, JsMap.get?_set] at hq
    rw [hw, JsMap.has, JsMap.get?_delete]
    split_ifs at hq ⊢ with hpath
    · rw [hpath]
      exact ⟨hnamed, rfl⟩
    · exact h.visible q hq
  · dsimp only
    rw [hn]
    exact h.nextFd

/-- The buffer of a good state that an opening takes, and the file that it stands for. -/
theorem good_openContent {v : Vfs} {i : Inodes} (h : Good (v, i)) {path : Path} (hnamed : path ≠ [])
    {flags : Int32} (mode : Int32) (hk : hasFlag flags oTrunc = true → NotOpen v path) :
    match (openContent v path flags mode).2 with
    | none => (openContent v path flags mode).1 = v ∧ ∀ fd, i.open path flags fd = i.setHandle fd none
    | some content => ∃ i' n, Good ((openContent v path flags mode).1, i') ∧
        (openContent v path flags mode).1.files.get? path = some content ∧ i'.path path = some n ∧
          ∀ fd, i.open path flags fd = i'.setHandle fd (some n) := by
  unfold openContent
  cases hpath : v.files.get? path with
  | some content =>
      obtain ⟨n, hn⟩ := h.same.exists_right (x := .inr path) hpath
      have hpath' : i.path path = some n := hn
      dsimp only
      cases htrunc : hasFlag flags oTrunc with
      | false =>
          simp only [Option.isSome_some, Bool.false_eq_true, and_false, if_false]
          refine ⟨i, n, h, hpath, hpath', fun fd => ?_⟩
          simp only [Inodes.open, hpath', htrunc, Bool.false_eq_true, if_false]
      | true =>
          simp only [Option.isSome_some, and_self, if_true]
          refine ⟨i.setContent n [], n, good_cutOff h hpath (hk htrunc content hpath) hpath',
            JsMap.get?_set_self _ _ _, hpath', fun fd => ?_⟩
          simp only [Inodes.open, hpath', htrunc, if_true]
  | none =>
      have hpath' : i.path path = none := (h.same.bound (.inr path)).1 hpath
      dsimp only
      cases hcreat : hasFlag flags oCreat with
      | false =>
          simp only [Option.isSome_none, Bool.false_eq_true, false_and, if_false]
          refine ⟨trivial, fun fd => ?_⟩
          simp only [Inodes.open, hpath', hcreat, Bool.false_eq_true, if_false]
      | true =>
          obtain ⟨dirs, children, metadata, hframe⟩ := createFile_frame v path mode
          have hcreated : Good ((createFile v path mode).1, i.create path) := by
            rw [hframe]
            exact good_created h hnamed rfl rfl rfl rfl rfl
          have hget : (createFile v path mode).1.files.get? path = some v.buffers.length := by
            rw [hframe]
            exact JsMap.get?_set_self _ _ _
          have hnew : (i.create path).path path = some i.next := Function.update_self _ _ _
          have hopen : ∀ fd, i.open path flags fd = (i.create path).setHandle fd (some i.next) := by
            intro fd
            simp only [Inodes.open, hpath', hcreat, if_true]
          have hsnd : (createFile v path mode).2 = v.buffers.length := by
            rw [hframe]
          simp only [if_true, hsnd, Option.isSome_some, true_and]
          cases htrunc : hasFlag flags oTrunc with
          | false => exact ⟨i.create path, i.next, hcreated, hget, hnew, hopen⟩
          | true =>
              -- the new file is cut off once more
              have honly : ∀ x, refs (createFile v path mode).1 x = some v.buffers.length → x = .inr path := by
                intro x hx
                have hset := @refs_setPath v (createFile v path mode).1 path v.buffers.length
                  (by rw [hframe]) (by rw [hframe])
                rw [hset, Function.update_apply] at hx
                split_ifs at hx with he
                · exact he
                · exact absurd (h.lt x _ hx) (Nat.lt_irrefl _)
              have hcut := good_cutOff hcreated hget honly hnew
              rw [setContent_self (Function.update_self _ _ _)] at hcut
              exact ⟨i.create path, i.next, hcut, JsMap.get?_set_self _ _ _, hnew, hopen⟩

theorem resolvePath_ne_nil (symlinks : JsMap Path Path) (path : Path) : resolvePath symlinks path ≠ [] := by
  have hfuel : ∀ fuel path, resolveFuel symlinks fuel path ≠ [] := by
    intro fuel
    induction fuel with
    | zero =>
        intro path
        exact List.cons_ne_nil _ _
    | succ fuel ih =>
        intro path
        unfold resolveFuel
        dsimp only
        split_ifs
        · exact List.cons_ne_nil _ _
        · split
          · exact List.cons_ne_nil _ _
          · exact ih _
  exact hfuel 41 path

/-- **An opening that meets the condition.** -/
theorem good_openFile {v : Vfs} {i : Inodes} (h : Good (v, i)) {path : Path} {flags : Int32} (mode : Int32)
    (hk : CutsOff path flags → NotOpen v (resolvePath v.symlinks (absolute path))) :
    Good ((openFile v path flags mode).1,
      i.perform v (.open path flags mode) (some (openFile v path flags mode).2)) := by
  have hnext : 0 ≤ v.nextFd := h.nextFd
  have hperform : ∀ fd, 0 ≤ fd → i.perform v (.open path flags mode) (some fd) =
      if isDevice (absolute path) ∨ hasFlag flags oDirectory then i.setHandle fd none
      else i.open (resolvePath v.symlinks (absolute path)) flags fd := by
    intro fd hfd
    rw [Inodes.perform, if_neg (Int.not_lt.2 hfd)]
  have hdevice : ∀ (r : Vfs × ℤ), isDevice (absolute path) →
      (∃ file, bufferOf file = none ∧ r = install (newBuffer v []).1 file) →
        Good (r.1, i.perform v (.open path flags mode) (some r.2)) := by
    rintro r hdev ⟨file, hbuf, rfl⟩
    have hfd : (install (newBuffer v []).1 file).2 = v.nextFd := rfl
    rw [hfd, hperform _ hnext, if_pos (Or.inl hdev)]
    exact good_installOther (h.newBuffer []) hbuf
  unfold openFile
  dsimp only
  by_cases hnull : absolute path = "/dev/null".toList
  · rw [if_pos hnull]
    exact hdevice _ (Or.inl hnull) ⟨_, rfl, rfl⟩
  rw [if_neg hnull]
  by_cases hrandom : absolute path = "/dev/urandom".toList ∨ absolute path = "/dev/random".toList
  · rw [if_pos hrandom]
    exact hdevice _ (Or.inr hrandom) ⟨_, rfl, rfl⟩
  rw [if_neg hrandom]
  have hdev : ¬ isDevice (absolute path) := not_or.2 ⟨hnull, hrandom⟩
  have hother : ∀ (file : OpenFile), bufferOf file = none →
      i.perform v (.open path flags mode) (some (install v file).2) = i.setHandle v.nextFd none →
        Good ((install v file).1, i.perform v (.open path flags mode) (some (install v file).2)) := by
    intro file hbuf heq
    rw [heq]
    exact good_installOther h hbuf
  have hopen : (hasFlag flags oTrunc = true → NotOpen v (resolvePath v.symlinks (absolute path))) → _ :=
    good_openContent h (resolvePath_ne_nil v.symlinks (absolute path)) mode
  have htable := sameTable_openContent v (resolvePath v.symlinks (absolute path)) flags mode
  -- from here on only the resolved path matters
  generalize resolvePath v.symlinks (absolute path) = resolved at hk hopen htable hperform ⊢
  by_cases hhidden : v.whiteouts.has resolved = true ∧ ¬ hasFlag flags oCreat = true
  · rw [if_pos hhidden]
    exact h
  rw [if_neg hhidden]
  by_cases hdir : hasFlag flags oDirectory = true
  · rw [if_pos hdir]
    split_ifs
    · refine hother _ rfl ?_
      rw [install, hperform _ hnext, if_pos (Or.inr hdir)]
    · exact h
  rw [if_neg hdir]
  by_cases hexcl : hasFlag flags oCreat = true ∧ hasFlag flags oExcl = true ∧
      (v.files.has resolved = true ∨ v.dirs.has resolved = true)
  · rw [if_pos hexcl]
    exact h
  rw [if_neg hexcl]
  -- what is left is an opening of a file, which may cut it off
  have hopen := hopen fun htrunc content hget => hk ⟨htrunc, Bool.eq_false_iff.2 hdir,
    fun h => hexcl ⟨h.1, h.2, Or.inl (JsMap.has_iff.2 ⟨content, hget⟩)⟩, hdev⟩ content hget
  have hneither : ¬ (isDevice (absolute path) ∨ hasFlag flags oDirectory = true) := not_or.2 ⟨hdev, hdir⟩
  cases hcontent : (openContent v resolved flags mode).2 with
  | none =>
      rw [hcontent] at hopen
      obtain ⟨hsame, hopen⟩ := hopen
      dsimp only
      rw [hsame]
      split_ifs
      · refine hother _ rfl ?_
        rw [install, hperform _ hnext, if_neg hneither, hopen]
      · exact h
  | some content =>
      rw [hcontent] at hopen
      obtain ⟨i', n, hgood, hget, hn, hopen⟩ := hopen
      have hfd : (openContent v resolved flags mode).1.nextFd = v.nextFd := htable.1
      have hinstall : ∀ file, bufferOf file = some content →
          Good ((install (openContent v resolved flags mode).1 file).1,
            i.perform v (.open path flags mode)
              (some (install (openContent v resolved flags mode).1 file).2)) := by
        intro file hbuf
        rw [install, hperform _ (hfd ▸ hnext), if_neg hneither, hopen]
        exact good_installFile hgood hbuf hget hn
      exact hinstall _ rfl

/-! ### Other paths -/

/-- Without files below it, a directory takes none along. -/
theorem moveBelow_eq {v : Vfs} {i : Inodes} (h : Good (v, i)) {source target : Path}
    (hnone : ∀ rest, v.files.get? (source ++ '/' :: rest) = none) : i.moveBelow source target = i := by
  have hbelow : ∀ rest, i.path (source ++ '/' :: rest) = none := fun rest =>
    (h.same.bound (.inr (source ++ '/' :: rest))).1 (hnone rest)
  have hpath : (i.moveBelow source target).path = i.path := by
    funext path
    simp only [Inodes.moveBelow]
    split_ifs with hsource htarget
    · obtain ⟨rest, rfl⟩ := hsource
      rw [List.append_assoc]
      exact (hbelow rest).symm
    · obtain ⟨rest, rfl⟩ := htarget
      have hdrop : (target ++ ['/'] ++ rest).drop target.length = '/' :: rest := by
        rw [List.append_assoc, List.drop_left]
        rfl
      rw [hdrop, hbelow]
      rfl
    · rfl
  rw [Inodes.moveBelow] at hpath ⊢
  simp only at hpath
  rw [hpath]

/-- A file gets another path. -/
theorem good_moved {v v' : Vfs} {i : Inodes} (h : Good (v, i)) {source target : Path} (hnamed : target ≠ [])
    {content : Buf} (hsource : v.files.get? source = some content)
    (ho : v'.openFiles = v.openFiles) (hf : v'.files = (v.files.set target content).delete source)
    (hb : v'.buffers = v.buffers) (hw : v'.whiteouts = (v.whiteouts.set source ()).delete target)
    (hn : v'.nextFd = v.nextFd) {n : ℕ} (hpath : i.path source = some n) :
    Good (v', (i.setPath target (some n)).setPath source none) := by
  have hc : refs v (.inr source) = some content := hsource
  have hset := @refs_setPath v { v with files := v.files.set target content } target content rfl rfl
  have hrefs : refs v' =
      Function.update (Function.update (refs v) (.inr target) (some content)) (.inr source) none := by
    rw [← hset]
    exact refs_deletePath ho hf
  refine ⟨?_, ?_, ?_, ?_, ?_⟩
  · dsimp only
    -- the goal gets the file of the source, then the source loses it
    rw [hrefs, refs_setPath', refs_setPath', bytesOf_congr hb]
    exact (h.same.share _ hc hpath).drop _
  · intro x c hx
    dsimp only at hx ⊢
    rw [hrefs, Function.update_apply, Function.update_apply] at hx
    rw [hb]
    split_ifs at hx
    · rw [← Option.some_inj.1 hx]
      exact h.lt _ content hc
    · exact h.lt x c hx
  · intro x m hx
    dsimp only at hx
    rw [refs_setPath', refs_setPath', Function.update_apply, Function.update_apply] at hx
    split_ifs at hx
    · rw [← Option.some_inj.1 hx]
      exact h.ltNext (.inr source) n hpath
    · exact h.ltNext x m hx
  · intro q hq
    dsimp only at hq ⊢
    rw [hf, JsMap.has, JsMap.get?_delete, JsMap.get?_set] at hq
    rw [hw, JsMap.has, JsMap.get?_delete, JsMap.get?_set]
    by_cases hqs : q = source
    · rw [if_pos hqs] at hq
      cases hq
    · by_cases hqt : q = target
      · rw [if_pos hqt, hqt]
        exact ⟨hnamed, rfl⟩
      · rw [if_neg hqs, if_neg hqt] at hq
        rw [if_neg hqt, if_neg hqs]
        exact h.visible q hq
  · dsimp only
    rw [hn]
    exact h.nextFd

/-- **A rename that meets the condition.** -/
theorem good_rename {v : Vfs} {i : Inodes} (h : Good (v, i)) {source target : Path}
    (hk : RenameKeeps v (normalizePath source) (normalizePath target)) :
    Good (rename v source target, i.rename (normalizePath source) (normalizePath target)) := by
  obtain ⟨dirs, children, hframe⟩ := rename_frame v source target
  have hnamed : normalizePath target ≠ [] := List.cons_ne_nil _ _
  rw [hframe]
  clear hframe
  generalize normalizePath source = source at hk ⊢
  generalize normalizePath target = target at hk hnamed ⊢
  cases hsource : v.files.get? source with
  | none =>
      -- a rename of what is no file moves no file, for there is none below either
      have hpath : i.path source = none := (h.same.bound (.inr source)).1 hsource
      have hrename : i.rename source target = i := by
        rw [Inodes.rename]
        split_ifs with heq
        · rfl
        · rw [RenameKeeps, if_neg heq] at hk
          simp only [moveBelow_eq h hk, hpath]
      have hmove : moveKey v.files source target = v.files := by
        rw [moveKey, hsource]
      rw [hrename, hmove]
      refine ⟨h.same, h.lt, h.ltNext, ?_, h.nextFd⟩
      intro q hq
      refine ⟨(h.visible q hq).1, ?_⟩
      have hqs : q ≠ source := by
        rintro rfl
        rw [JsMap.has, hsource] at hq
        cases hq
      have hvis := (h.visible q hq).2
      rw [JsMap.has] at hvis
      dsimp only
      rw [JsMap.has, JsMap.get?_delete, JsMap.get?_set_ne hqs]
      split_ifs
      · rfl
      · exact hvis
  | some content =>
      have hne : source ≠ target := by
        rintro rfl
        rw [RenameKeeps, if_pos rfl, hsource] at hk
        cases hk
      rw [RenameKeeps, if_neg hne] at hk
      obtain ⟨n, hn⟩ := h.same.exists_right (x := .inr source) hsource
      have hpath : i.path source = some n := hn
      have hrename : i.rename source target = (i.setPath target (some n)).setPath source none := by
        simp only [Inodes.rename, if_neg hne, moveBelow_eq h hk, hpath]
      have hmove : moveKey v.files source target = (v.files.set target content).delete source := by
        rw [moveKey, hsource]
      rw [hrename, hmove]
      refine good_moved h hnamed hsource ?_ ?_ ?_ ?_ ?_ hpath <;> rfl

/-! ### Runs -/

/-- **An operation that meets the condition keeps the filesystem and the files in agreement.** -/
theorem good_after (limit : ℕ) {s : State} {op : Op} (h : Good s) (hk : Keeps limit s op) :
    Good (after limit s op) := by
  obtain ⟨v, i⟩ := s
  cases op with
  | «open» path flags mode => exact good_openFile h mode hk
  | seek fd position =>
      have hseek := good_seek h fd position
      rw [after, perform, Inodes.perform]
      split_ifs <;> exact hseek
  | write fd buf length => exact good_writeNext h limit length hk
  | pwrite fd src offset => exact good_writeFile h limit hk
  | ftruncate fd len => exact good_truncateFile h limit hk
  | rename source target => exact good_rename h hk
  | unlink path =>
      obtain ⟨children, hframe⟩ := unlink_frame v path
      have hunlink : Good (unlink v path, i.setPath (normalizePath path) none) := by
        rw [hframe]
        exact good_unlink h rfl rfl rfl rfl rfl
      exact hunlink
  | close fd => exact good_close h fd

theorem starts_newVfs : Starts newVfs where
  lt := by
    rintro (fd | path) content hx
    · obtain ⟨file, hfile, hbuf⟩ := Option.bind_eq_some_iff.1 hx
      simp only [newVfs, JsMap.get?_set, JsMap.get?_empty] at hfile
      split_ifs at hfile <;> · rw [← Option.some_inj.1 hfile] at hbuf; cases hbuf
    · cases hx
  visible := by
    intro path hpath
    cases hpath
  nextFd := by decide

/-- A file is made, written to, renamed, and written to where it has bytes. -/
def writtenAfterRename : List Op :=
  [.open "/f".toList 0x40 0, .write 4 [1, 2] 2, .rename "/f".toList "/g".toList, .pwrite 4 [3] 1]

/-- The filesystem after some operations. -/
def performAll (limit : ℕ) (v : Vfs) (ops : List Op) : Vfs := ops.foldl (fun v op => (perform limit v op).1) v

/-- A file is opened twice, and written to through the first descriptor. -/
def openedTwice : List Op :=
  [.open "/f".toList 0x40 0, .open "/f".toList 0 0, .write 4 [1] 1]

end FileContents
