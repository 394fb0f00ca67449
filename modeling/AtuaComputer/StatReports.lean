/-
**What the stat calls report.**

`stat`, `lstat` and `fstat` write one structure of 112 bytes.  The device and the inode number in it are the
identity of a file: by them a program tells whether two references lead to the same one.  The number comes
from three places: from the text of a path, from the number of a descriptor, and for a pipe there is none.

Main definitions:

* `StatReports.Ref`, `StatReports.report` — the references, and what is written for them;
* `StatReports.identity` — the device and the inode number of a structure;
* `StatReports.SameNumber` — what decides whether the two identities are equal.

Main results:

* `StatReports.run_sysFstat`, `StatReports.run_statPath` — the handlers write the reports;
* `StatReports.identity_eq_iff` — **two references have the same identity when their numbers are the same**;
* `StatReports.pathIno_cons_ne` — another slash in front of a path gives another number.
-/

import AtuaComputer.FileOutcomes
import AtuaComputer.RenameLaw
import AtuaComputer.Syscalls

set_option relaxedAutoImplicit false
set_option autoImplicit false

namespace StatReports

open VirtualFs Kernel FileIo FileOutcomes Syscalls NameTree RenameLaw

/-! ### References -/

/-- What a program can ask about: a path, a path whose last link is not followed, a descriptor of a
process. -/
inductive Ref where
  | path (path : Path)
  | link (path : Path)
  | fd (pid fd : ℤ)

/-- The filesystem. -/
abbrev vfs (s : Syscalls.State) : Vfs := s.io.kernel.vfs

/-- What `stat` and `lstat` write for a path. -/
def pathReport (s : Syscalls.State) (path : Path) (followSymlinks : Bool) : Option (List UInt8) :=
  (VirtualFs.stat (vfs s) path followSymlinks).map fun info =>
    statBuf s.bootTime info.size info.type
      (infoAt (vfs s) (if followSymlinks then resolvePath (vfs s).symlinks (absolute path) else absolute path))
      (pathIno (absolute path))

/-- What `fstat` writes for a descriptor. -/
def kindReport (s : Syscalls.State) (fd : ℤ) : FdKind → Option (List UInt8)
  | .special _ => some (statBuf s.bootTime 0 .chardev default (fd + 1000))
  | .pipe _ _ => some pipeBuf
  | .file vfsFd | .dir vfsFd =>
    ((vfs s).openFiles.get? vfsFd).map fun file =>
      statBuf s.bootTime (contentLength (vfs s) file) (fileType file)
        (if file.path = [] then default else infoAt (vfs s) file.path) (fd + 1000)

/-- **What the call on a reference writes**, if it succeeds. -/
def report (s : Syscalls.State) : Ref → Option (List UInt8)
  | .path path => pathReport s path true
  | .link path => pathReport s path false
  | .fd pid fd => (kindAt s.io.kernel pid fd).bind (kindReport s fd)

/-! ### The handlers -/

/-- The end of the two handlers. -/
def writeReport (pid : ℤ) (p : Proc) (buf : Int32) (missing : ℤ) : Option (List UInt8) → Io ℤ
  | none => return missing
  | some bytes => do
    storeGuest pid p (unsigned buf) bytes
    return 0

theorem run_read {α : Type} (f : FileIo.State → Io α) (io : FileIo.State) :
    ((get : Io FileIo.State) >>= f).run.run io = (f io).run.run io := rfl

theorem run_getFile {α : Type} (vfsFd : ℤ) (f : Option OpenFile → Io α) (io : FileIo.State) :
    (getFile vfsFd >>= f).run.run io = (f (io.kernel.vfs.openFiles.get? vfsFd)).run.run io := rfl

/-- `SYS_fstat` writes the report on the descriptor. -/
theorem run_sysFstat {s : Syscalls.State} {pid : ℤ} {p : Proc}
    (hp : s.io.kernel.processTable.get? pid = some p) (a b : Int32) :
    (sysFstat s.bootTime pid p a b).run.run s.io =
      (writeReport pid p b (-9) (report s (.fd pid a.toInt))).run.run s.io := by
  unfold sysFstat withEntry
  show _ = (writeReport pid p b (-9) ((kindAt s.io.kernel pid a.toInt).bind (kindReport s a.toInt))).run.run s.io
  rw [kindAt, entryAt_eq hp]
  cases p.fdTable.get? a.toInt with
  | none => rfl
  | some entry =>
    obtain ⟨kind, cell⟩ := entry
    have hfile (vfsFd : ℤ) :
        (withFile vfsFd fun file => do
          let v := (← get).kernel.vfs
          let info := if file.path = [] then default else (v.metadata.get? file.path).getD default
          storeGuest pid p (unsigned b)
            (statBuf s.bootTime (contentLength v file) (fileType file) info (a.toInt + 1000))
          return 0).run.run s.io =
        (writeReport pid p b (-9) (kindReport s a.toInt (.file vfsFd))).run.run s.io := by
      unfold withFile kindReport vfs
      rw [run_getFile]
      dsimp only
      cases s.io.kernel.vfs.openFiles.get? vfsFd with
      | none => rfl
      | some file =>
        dsimp only [Option.map_some]
        rw [run_read]
        rfl
    cases kind with
    | special name => rfl
    | pipe fdEnd ringOffset => rfl
    | file vfsFd => exact hfile vfsFd
    | dir vfsFd => exact hfile vfsFd

/-- The three calls on paths write the report on the path. -/
theorem run_statPath (s : Syscalls.State) (pid : ℤ) (p : Proc) (path : Path) (followSymlinks : Bool) (b : Int32) :
    (statPath s.bootTime pid p path followSymlinks b).run.run s.io =
      (writeReport pid p b (-2) (pathReport s (readCString p path) followSymlinks)).run.run s.io := by
  unfold statPath pathReport
  rw [run_read]
  dsimp only
  have habs : VirtualFs.stat s.io.kernel.vfs (absolute (readCString p path)) followSymlinks =
      VirtualFs.stat s.io.kernel.vfs (readCString p path) followSymlinks := by
    unfold VirtualFs.stat
    rw [absolute_absolute]
  rw [habs]
  cases VirtualFs.stat s.io.kernel.vfs (readCString p path) followSymlinks with
  | none => rfl
  | some info => cases followSymlinks <;> rfl

/-! ### Fields -/

/-- The device and the inode number. -/
def identity (bytes : List UInt8) : List UInt8 := bytes.take 16

/-- The inode number, the mode and the size. -/
def inoField (bytes : List UInt8) : List UInt8 := (bytes.drop 8).take 8
def modeField (bytes : List UInt8) : List UInt8 := (bytes.drop 20).take 4
def sizeField (bytes : List UInt8) : List UInt8 := (bytes.drop 48).take 8

/-- `ino || 1` -/
def inode (n : ℤ) : ℤ := if n = 0 then 1 else n

/-- The permission bits of `writeStatBuf`. -/
def permBits (type : NodeType) (info : Meta) : ℕ :=
  match info.mode with
  | some mode => (mode % 0o10000).toNat
  | none => if type = .chardev then 0o666 else 0o755

section Fields

variable (bootTime : ℤ) (size : ℕ) (type : NodeType) (info : Meta) (n : ℤ)

/-- The first half of the structure. -/
theorem statBuf_eq : ∃ times,
    statBuf bootTime size type info n =
      wordBytes 8 1 ++ (wordBytes 8 (inode n) ++ (wordBytes 4 (if type = .dir then 2 else 1) ++
        (wordBytes 4 (typeBits type + permBits type info : ℕ) ++ (wordBytes 4 (info.uid.getD 0) ++
          (wordBytes 4 (info.gid.getD 0) ++ (List.replicate 16 0 ++ (wordBytes 8 size ++ times))))))) := by
  unfold statBuf
  simp only [List.append_assoc]
  exact ⟨_, rfl⟩

theorem identity_statBuf : identity (statBuf bootTime size type info n) = wordBytes 8 1 ++ wordBytes 8 (inode n) := by
  obtain ⟨times, h⟩ := statBuf_eq bootTime size type info n
  rw [identity, h]
  simp [List.take_append, List.take_of_length_le]

theorem inoField_statBuf : inoField (statBuf bootTime size type info n) = wordBytes 8 (inode n) := by
  obtain ⟨times, h⟩ := statBuf_eq bootTime size type info n
  rw [inoField, h]
  simp

theorem modeField_statBuf :
    modeField (statBuf bootTime size type info n) = wordBytes 4 (typeBits type + permBits type info : ℕ) := by
  obtain ⟨times, h⟩ := statBuf_eq bootTime size type info n
  rw [modeField, h]
  simp [List.drop_append, List.drop_of_length_le]

theorem sizeField_statBuf : sizeField (statBuf bootTime size type info n) = wordBytes 8 size := by
  obtain ⟨times, h⟩ := statBuf_eq bootTime size type info n
  rw [sizeField, h]
  simp [List.drop_append, List.drop_of_length_le]

end Fields

theorem permBits_lt (type : NodeType) (info : Meta) : permBits type info < 0o10000 := by
  unfold permBits
  split
  · omega
  · split_ifs <;> decide

/-- The mode says what the type is, and the permissions. -/
theorem mode_eq_iff {type type' : NodeType} {info info' : Meta} :
    wordBytes 4 (typeBits type + permBits type info : ℕ) = wordBytes 4 (typeBits type' + permBits type' info' : ℕ) ↔
      type = type' ∧ permBits type info = permBits type' info' := by
  have hlt := permBits_lt type info
  have hlt' := permBits_lt type' info'
  rw [wordBytes_eq_iff, Int.ModEq]
  constructor
  · intro h
    have hsum : typeBits type + permBits type info = typeBits type' + permBits type' info' := by
      have hle (t : NodeType) : typeBits t ≤ 0o120000 := by cases t <;> decide
      have := hle type
      have := hle type'
      omega
    have htype : type = type' := by
      cases type <;> cases type' <;> first | rfl | (simp only [typeBits] at hsum; omega)
    subst htype
    exact ⟨rfl, Nat.add_left_cancel hsum⟩
  · rintro ⟨rfl, h⟩
    rw [h]

/-! ### Numbers -/

/-- The number that the inode number is made of. -/
def Ref.number : Ref → ℤ
  | .path text | .link text => pathIno (absolute text)
  | .fd _ n => n + 1000

/-- The reference is a descriptor of a pipe. -/
def IsPipe (s : Syscalls.State) : Ref → Prop
  | .fd pid fd => ∃ fdEnd ringOffset, kindAt s.io.kernel pid fd = some (.pipe fdEnd ringOffset)
  | _ => False

/-- All pipes have the same identity; for other references it depends on the number. -/
def SameNumber (s : Syscalls.State) (r r' : Ref) : Prop :=
  IsPipe s r ∧ IsPipe s r' ∨
    ¬ IsPipe s r ∧ ¬ IsPipe s r' ∧ inode r.number ≡ inode r'.number [ZMOD 2 ^ 64]

theorem identity_of_report {s : Syscalls.State} {r : Ref} {bytes : List UInt8} (h : report s r = some bytes) :
    IsPipe s r ∧ identity bytes = List.replicate 16 0 ∨
      ¬ IsPipe s r ∧ identity bytes = wordBytes 8 1 ++ wordBytes 8 (inode r.number) := by
  have hpath (path : Path) (follow : Bool) (h : pathReport s path follow = some bytes) :
      identity bytes = wordBytes 8 1 ++ wordBytes 8 (inode (pathIno (absolute path))) := by
    obtain ⟨info, -, rfl⟩ := Option.map_eq_some_iff.1 h
    exact identity_statBuf _ _ _ _ _
  cases r with
  | path path => exact .inr ⟨id, hpath path true h⟩
  | link path => exact .inr ⟨id, hpath path false h⟩
  | fd pid fd =>
    obtain ⟨kind, hkind, hreport⟩ := Option.bind_eq_some_iff.1 h
    have hnot (hne : ∀ fdEnd ringOffset, kind ≠ .pipe fdEnd ringOffset) : ¬ IsPipe s (.fd pid fd) := by
      rintro ⟨fdEnd, ringOffset, hpipe⟩
      exact hne fdEnd ringOffset (Option.some.inj (hkind.symm.trans hpipe))
    cases kind with
    | special name =>
      obtain rfl := Option.some.inj hreport
      exact .inr ⟨hnot nofun, identity_statBuf _ _ _ _ _⟩
    | pipe fdEnd ringOffset =>
      obtain rfl := Option.some.inj hreport
      exact .inl ⟨⟨fdEnd, ringOffset, hkind⟩, rfl⟩
    | file vfsFd | dir vfsFd =>
      obtain ⟨file, -, rfl⟩ := Option.map_eq_some_iff.1 hreport
      exact .inr ⟨hnot nofun, identity_statBuf _ _ _ _ _⟩

/-- **Two references have the same identity exactly when their numbers are the same.** -/
theorem identity_eq_iff {s : Syscalls.State} {r r' : Ref} {bytes bytes' : List UInt8}
    (h : report s r = some bytes) (h' : report s r' = some bytes') :
    identity bytes = identity bytes' ↔ SameNumber s r r' := by
  have hpipe (n : ℤ) : List.replicate 16 0 ≠ wordBytes 8 1 ++ wordBytes 8 n := by
    intro heq
    have htake := congrArg (List.take 8) heq
    rw [List.take_append_of_le_length (by simp)] at htake
    exact absurd htake (by decide +kernel)
  have hfile (m n : ℤ) :
      wordBytes 8 1 ++ wordBytes 8 m = wordBytes 8 1 ++ wordBytes 8 n ↔ m ≡ n [ZMOD 2 ^ 64] := by
    rw [List.append_cancel_left_eq, wordBytes_eq_iff]
    exact Iff.rfl
  unfold SameNumber
  obtain ⟨hr, hid⟩ | ⟨hr, hid⟩ := identity_of_report h <;>
    obtain ⟨hr', hid'⟩ | ⟨hr', hid'⟩ := identity_of_report h'
  · rw [hid, hid']
    exact iff_of_true rfl (.inl ⟨hr, hr'⟩)
  · rw [hid, hid']
    exact iff_of_false (hpipe _) (by tauto)
  · rw [hid, hid']
    exact iff_of_false (fun heq => hpipe _ heq.symm) (by tauto)
  · rw [hid, hid', hfile]
    tauto

/-! ### The hash of a path -/

/-- The hash from a value on. -/
def hashFrom (ino : UInt32) (path : Path) : UInt32 :=
  (path.flatMap utf16).foldl (fun ino c => (ino <<< 5) - ino + UInt32.ofNat c) ino

/-- One step is a bijection, since 31 is odd. -/
theorem hashStep_injective (c : ℕ) :
    Function.Injective fun ino : UInt32 => (ino <<< 5) - ino + UInt32.ofNat c := by
  intro x y h
  have hnat := congrArg UInt32.toNat h
  simp only [UInt32.toNat_add, UInt32.toNat_sub, UInt32.toNat_shiftLeft, Nat.shiftLeft_eq] at hnat
  have hx := x.toNat_lt
  have hy := y.toNat_lt
  have hc := (UInt32.ofNat c).toNat_lt
  apply UInt32.toNat.inj
  simp at hnat
  omega

theorem hashFrom_injective (path : Path) : Function.Injective fun ino => hashFrom ino path := by
  unfold hashFrom
  induction path.flatMap utf16 with
  | nil => exact fun x y h => h
  | cons c cs ih => exact fun x y h => hashStep_injective c (ih h)

/-- **Another slash in front gives another hash.** -/
theorem pathIno_cons_ne (path : Path) : pathIno ('/' :: path) ≠ pathIno path := by
  intro h
  have hfrom : hashFrom 47 path = hashFrom 0 path := UInt32.toNat.inj h
  exact absurd (hashFrom_injective path hfrom) (by decide)

/-- Of three spellings of a path, two have different inode numbers. -/
theorem inode_spellings (path : Path) :
    ¬ inode (pathIno path) ≡ inode (pathIno ('/' :: path)) [ZMOD 2 ^ 64] ∨
      ¬ inode (pathIno ('/' :: path)) ≡ inode (pathIno ('/' :: '/' :: path)) [ZMOD 2 ^ 64] := by
  have htwo : pathIno ('/' :: '/' :: path) ≠ pathIno path := by
    intro h
    have hfrom : hashFrom 1504 path = hashFrom 0 path := UInt32.toNat.inj h
    exact absurd (hashFrom_injective path hfrom) (by decide)
  have hone := pathIno_cons_ne path
  have hnext := pathIno_cons_ne ('/' :: path)
  have hlt (p : Path) : pathIno p < 2 ^ 32 := UInt32.toNat_lt _
  have h₀ := hlt path
  have h₁ := hlt ('/' :: path)
  have h₂ := hlt ('/' :: '/' :: path)
  unfold inode Int.ModEq
  -- zero and one are the same inode number, so one more slash can be needed
  split_ifs <;> omega

end StatReports
