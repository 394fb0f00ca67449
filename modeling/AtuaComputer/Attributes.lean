/-
**The attributes of a file.**

The mode, the owner and the two times of a path are kept in a map of their own, with a field for each that may
be missing.  What is missing is made up when the structure of the stat calls is written: a time that is not
there, or is 0, becomes the time of the boot.

Main definitions:

* `Attributes.Attrs`, `Attributes.attrsOf` — the attributes, as the structure has them;
* `Attributes.Change` — what a call asks for: `apply` is what it means, `update` is what is stored;
* `Attributes.keyOf` — the path under which the attributes of a reference are kept;
* `Attributes.nodeAt` — what is at a name, with its attributes.

Main results:

* `Attributes.attrsOf_statBuf` — what the structure says;
* `Attributes.shown_update_iff` — when the change that is stored is the one that is meant;
* `Attributes.report_stored` — what a reference reports after a change;
* `Attributes.report_of_nodeAt` — the stat calls report what is at a name.
-/

import AtuaComputer.StatReports

set_option relaxedAutoImplicit false
set_option autoImplicit false

namespace Attributes

open VirtualFs Kernel FileIo FileOutcomes Syscalls NameTree RenameLaw StatReports

/-! ### Fields -/

/-- The permissions, the owner, and the times in whole seconds. -/
structure Attrs where
  mode : ℕ
  uid : ℕ
  gid : ℕ
  atime : ℤ
  mtime : ℤ
deriving DecidableEq

/-- Four bytes of a structure. -/
def word (bytes : List UInt8) (offset : ℕ) : ℕ := leNat ((bytes.drop offset).take 4)

/-- The attributes in a structure of the stat calls.  The times are signed words. -/
def attrsOf (bytes : List UInt8) : Attrs where
  mode := word bytes 20 % 0o10000
  uid := word bytes 24
  gid := word bytes 28
  atime := (word bytes 72 : ℤ).bmod (2 ^ 32)
  mtime := (word bytes 80 : ℤ).bmod (2 ^ 32)

/-- The structure is one of a file or of a directory. -/
def OnNode (bytes : List UInt8) : Prop := word bytes 20 / 0o10000 = 0o10 ∨ word bytes 20 / 0o10000 = 0o4

/-- What the structure says of metadata. -/
def shown (bootTime : ℤ) (type : NodeType) (info : Meta) : Attrs where
  mode := permBits type info
  uid := info.uid.getD 0 % 2 ^ 32
  gid := info.gid.getD 0 % 2 ^ 32
  atime := (orElse info.atime bootTime).bmod (2 ^ 32)
  mtime := (orElse info.mtime bootTime).bmod (2 ^ 32)

theorem word_append {bytes rest : List UInt8} {offset : ℕ} (h : bytes.length ≤ offset) :
    word (bytes ++ rest) offset = word rest (offset - bytes.length) := by
  rw [word, List.drop_append, List.drop_of_length_le h, List.nil_append, word]

theorem word_wordBytes (n : ℤ) (rest : List UInt8) : word (wordBytes 4 n ++ rest) 0 = (n % 2 ^ 32).toNat := by
  have hlt : (n % 256 ^ 4).toNat < 256 ^ 4 := by omega
  rw [word, List.drop_zero, List.take_left' (length_wordBytes 4 n), wordBytes, leNat_leBytes hlt]
  rfl

section Structure

variable (bootTime : ℤ) (size : ℕ) (type : NodeType) (info : Meta) (n : ℤ)

/-- The words that the attributes are in. -/
theorem words_statBuf :
    word (statBuf bootTime size type info n) 20 = typeBits type + permBits type info ∧
      word (statBuf bootTime size type info n) 24 = info.uid.getD 0 % 2 ^ 32 ∧
      word (statBuf bootTime size type info n) 28 = info.gid.getD 0 % 2 ^ 32 ∧
      (word (statBuf bootTime size type info n) 72 : ℤ) = orElse info.atime bootTime % 2 ^ 32 ∧
      (word (statBuf bootTime size type info n) 80 : ℤ) = orElse info.mtime bootTime % 2 ^ 32 := by
  have hmode : typeBits type + permBits type info < 2 ^ 32 := by
    have hperm := permBits_lt type info
    cases type <;> simp only [typeBits] <;> omega
  unfold statBuf
  simp only [List.append_assoc]
  simp only [word_append, word_wordBytes, length_wordBytes, List.length_replicate, Nat.reduceLeDiff, Nat.reduceSub]
  refine ⟨?_, ?_, ?_, ?_, ?_⟩
  · show (((typeBits type + permBits type info : ℕ) : ℤ) % 2 ^ 32).toNat = _
    omega
  all_goals omega

/-- **What the structure says.** -/
theorem attrsOf_statBuf : attrsOf (statBuf bootTime size type info n) = shown bootTime type info := by
  obtain ⟨hmode, huid, hgid, hatime, hmtime⟩ := words_statBuf bootTime size type info n
  have hbits : typeBits type % 0o10000 = 0 := by cases type <;> rfl
  have hperm := permBits_lt type info
  have htime (t : ℤ) : (t % 2 ^ 32).bmod (2 ^ 32) = t.bmod (2 ^ 32) := Int.emod_bmod t (2 ^ 32)
  unfold attrsOf shown
  rw [hmode, huid, hgid, hatime, hmtime, htime, htime, Nat.add_mod, hbits, Nat.zero_add, Nat.mod_mod,
    Nat.mod_eq_of_lt hperm]

theorem onNode_statBuf : OnNode (statBuf bootTime size type info n) ↔ type = .file ∨ type = .dir := by
  obtain ⟨hmode, -⟩ := words_statBuf bootTime size type info n
  have hperm := permBits_lt type info
  unfold OnNode
  rw [hmode]
  cases type <;> simp [typeBits] <;> omega

end Structure

theorem not_onNode_pipeBuf : ¬ OnNode pipeBuf := by
  unfold OnNode
  decide +kernel

/-! ### Changes -/

/-- What a call asks for.  An id of -1 is left as it is, and so is a time that is not given. -/
inductive Change where
  | mode (bits : ℕ)
  | owner (uid gid : Int32)
  | times (atime mtime : Option ℤ)

/-- **What a change means**: the values that are given are set, and the others stay. -/
def Change.apply : Change → Attrs → Attrs
  | .mode bits, attrs => { attrs with mode := bits % 0o10000 }
  | .owner uid gid, attrs =>
    { attrs with
      uid := if uid = -1 then attrs.uid else unsigned uid
      gid := if gid = -1 then attrs.gid else unsigned gid }
  | .times atime mtime, attrs =>
    { attrs with atime := atime.getD attrs.atime, mtime := mtime.getD attrs.mtime }

/-- What is stored for a change. -/
def Change.update : Change → Meta → Meta
  | .mode bits, info => { info with mode := some bits }
  | .owner uid gid, info => { info with uid := some (unsigned uid), gid := some (unsigned gid) }
  | .times atime mtime, info => { info with atime := atime.or info.atime, mtime := mtime.or info.mtime }

/-- An id can be stored: an id of -1 is stored as it is. -/
def IdKept (asked : Int32) (id : ℕ) : Prop := asked = -1 → id = 2 ^ 32 - 1

/-- A time can be stored: it is a signed word, and not 0 unless that is the time of the boot. -/
def TimeKept (bootTime : ℤ) (asked : Option ℤ) : Prop :=
  ∀ t, asked = some t → (-2 ^ 31 ≤ t ∧ t < 2 ^ 31) ∧ (t = 0 → (2 : ℤ) ^ 32 ∣ bootTime)

/-- A change that is told by what is stored for it. -/
def Change.Told (bootTime : ℤ) (attrs : Attrs) : Change → Prop
  | .mode _ => True
  | .owner uid gid => IdKept uid attrs.uid ∧ IdKept gid attrs.gid
  | .times atime mtime => TimeKept bootTime atime ∧ TimeKept bootTime mtime

/-- A change to values that are there already. -/
def Change.Idle (attrs : Attrs) : Change → Prop
  | .mode bits => attrs.mode = bits % 0o10000
  | .owner uid gid => (uid ≠ -1 → attrs.uid = unsigned uid) ∧ (gid ≠ -1 → attrs.gid = unsigned gid)
  | .times atime mtime => (∀ t, atime = some t → attrs.atime = t) ∧ (∀ t, mtime = some t → attrs.mtime = t)

theorem Attrs.ext_iff {attrs attrs' : Attrs} : attrs = attrs' ↔
    attrs.mode = attrs'.mode ∧ attrs.uid = attrs'.uid ∧ attrs.gid = attrs'.gid ∧ attrs.atime = attrs'.atime ∧
      attrs.mtime = attrs'.mtime := by
  cases attrs
  cases attrs'
  simp only [Attrs.mk.injEq]

theorem apply_eq_iff (change : Change) (attrs : Attrs) : change.apply attrs = attrs ↔ change.Idle attrs := by
  have hid (asked : Int32) (id : ℕ) :
      (if asked = -1 then id else unsigned asked) = id ↔ (asked ≠ -1 → id = unsigned asked) := by
    split_ifs with h
    · exact iff_of_true rfl fun hne => absurd h hne
    · exact ⟨fun h _ => h.symm, fun h' => (h' h).symm⟩
  have htime (asked : Option ℤ) (time : ℤ) : asked.getD time = time ↔ ∀ t, asked = some t → time = t := by
    cases asked with
    | none => exact iff_of_true rfl nofun
    | some t => exact ⟨fun h t' ht => by rw [← Option.some.inj ht]; exact h.symm, fun h => (h t rfl).symm⟩
  rw [Attrs.ext_iff]
  cases change with
  | mode bits =>
    show bits % 0o10000 = attrs.mode ∧ _ ↔ attrs.mode = bits % 0o10000
    exact ⟨fun h => h.1.symm, fun h => ⟨h.symm, rfl, rfl, rfl, rfl⟩⟩
  | owner uid gid =>
    refine Iff.trans ?_ (and_congr (hid uid attrs.uid) (hid gid attrs.gid))
    exact ⟨fun h => ⟨h.2.1, h.2.2.1⟩, fun h => ⟨rfl, h.1, h.2, rfl, rfl⟩⟩
  | times atime mtime =>
    refine Iff.trans ?_ (and_congr (htime atime attrs.atime) (htime mtime attrs.mtime))
    exact ⟨fun h => ⟨h.2.2.2.1, h.2.2.2.2⟩, fun h => ⟨rfl, rfl, rfl, h.1, h.2⟩⟩

theorem bmod_eq_self_iff (t : ℤ) : t.bmod (2 ^ 32) = t ↔ -2 ^ 31 ≤ t ∧ t < 2 ^ 31 := by
  rw [Int.bmod_def]
  constructor
  · intro h
    split_ifs at h <;> omega
  · intro h
    split_ifs <;> omega

/-- **When the change that is stored is the one that is meant.** -/
theorem shown_update_iff (bootTime : ℤ) (type : NodeType) (change : Change) (info : Meta) :
    shown bootTime type (change.update info) = change.apply (shown bootTime type info) ↔
      change.Told bootTime (shown bootTime type info) := by
  have hid (asked : Int32) (id : ℕ) :
      unsigned asked % 2 ^ 32 = (if asked = -1 then id else unsigned asked) ↔ IdKept asked id := by
    have hlt : unsigned asked < 2 ^ 32 := asked.toUInt32.toNat_lt
    rw [Nat.mod_eq_of_lt hlt, IdKept]
    split_ifs with h
    · subst h
      exact ⟨fun heq _ => heq.symm, fun heq => (heq rfl).symm⟩
    · exact iff_of_true rfl fun heq => absurd heq h
  have htime (asked old : Option ℤ) :
      (orElse (asked.or old) bootTime).bmod (2 ^ 32) = asked.getD ((orElse old bootTime).bmod (2 ^ 32)) ↔
        TimeKept bootTime asked := by
    cases asked with
    | none => exact iff_of_true rfl nofun
    | some t =>
      have hkept : TimeKept bootTime (some t) ↔ t.bmod (2 ^ 32) = t ∧ (t = 0 → (2 : ℤ) ^ 32 ∣ bootTime) := by
        rw [bmod_eq_self_iff]
        exact ⟨fun h => h t rfl, fun h t' ht => Option.some.inj ht ▸ h⟩
      rw [hkept]
      show (if t = 0 then bootTime else t).bmod (2 ^ 32) = t ↔ _
      split_ifs with hzero
      · subst hzero
        have hdvd : bootTime.bmod (2 ^ 32) = 0 ↔ (2 : ℤ) ^ 32 ∣ bootTime := by
          rw [Int.bmod_def]
          split_ifs <;> omega
        rw [hdvd]
        exact ⟨fun h => ⟨rfl, fun _ => h⟩, fun h => h.2 rfl⟩
      · exact ⟨fun h => ⟨h, fun hz => absurd hz hzero⟩, And.left⟩
  rw [Attrs.ext_iff]
  cases change with
  | mode bits => exact iff_of_true ⟨rfl, rfl, rfl, rfl, rfl⟩ trivial
  | owner uid gid =>
    refine Iff.trans ?_ (and_congr (hid uid (shown bootTime type info).uid) (hid gid (shown bootTime type info).gid))
    exact ⟨fun h => ⟨h.2.1, h.2.2.1⟩, fun h => ⟨rfl, h.1, h.2, rfl, rfl⟩⟩
  | times atime mtime =>
    refine Iff.trans ?_ (and_congr (htime atime info.atime) (htime mtime info.mtime))
    exact ⟨fun h => ⟨h.2.2.2.1, h.2.2.2.2⟩, fun h => ⟨rfl, rfl, rfl, h.1, h.2⟩⟩

/-! ### Where attributes are kept -/

/-- The file behind a descriptor of a file or a directory. -/
def fileOf (v : Vfs) : FdKind → Option OpenFile
  | .file vfsFd | .dir vfsFd => v.openFiles.get? vfsFd
  | _ => none

/-- The path a file was opened on, if it has one. -/
def openedOn (file : OpenFile) : Option Path := if file.path = [] then none else some file.path

/-- **The path under which the attributes of a reference are kept**: what a path resolves to, or what the file was
opened on. -/
def keyOf (s : Syscalls.State) : Ref → Option Path
  | .path path => some (resolvePath (vfs s).symlinks (absolute path))
  | .link path => some (absolute path)
  | .fd pid fd => (kindAt s.io.kernel pid fd).bind fun kind => (fileOf (vfs s) kind).bind openedOn

/-- The metadata under a key. -/
def infoOf (v : Vfs) : Option Path → Meta
  | none => default
  | some key => infoAt v key

/-- The size, the type and the number that are reported for a descriptor. -/
def describeKind (v : Vfs) (fd : ℤ) : FdKind → Option (ℕ × NodeType × ℤ)
  | .special _ => some (0, .chardev, fd + 1000)
  | .pipe _ _ => none
  | .file vfsFd | .dir vfsFd =>
    (v.openFiles.get? vfsFd).map fun file => (contentLength v file, fileType file, fd + 1000)

/-- The size, the type and the number in a report. -/
def describe (s : Syscalls.State) : Ref → Option (ℕ × NodeType × ℤ)
  | .path path => (VirtualFs.stat (vfs s) path true).map fun info => (info.size, info.type, pathIno (absolute path))
  | .link path => (VirtualFs.stat (vfs s) path false).map fun info => (info.size, info.type, pathIno (absolute path))
  | .fd pid fd => (kindAt s.io.kernel pid fd).bind (describeKind (vfs s) fd)

/-- The structure that is written for a description. -/
def structureOf (bootTime : ℤ) (info : Meta) (d : ℕ × NodeType × ℤ) : List UInt8 :=
  statBuf bootTime d.1 d.2.1 info d.2.2

theorem kindReport_eq (s : Syscalls.State) (fd : ℤ) {kind : FdKind}
    (hkind : ∀ fdEnd ringOffset, kind ≠ .pipe fdEnd ringOffset) :
    kindReport s fd kind =
      (describeKind (vfs s) fd kind).map
        (structureOf s.bootTime (infoOf (vfs s) ((fileOf (vfs s) kind).bind openedOn))) := by
  cases kind with
  | special name => rfl
  | pipe fdEnd ringOffset => exact absurd rfl (hkind fdEnd ringOffset)
  | file vfsFd | dir vfsFd =>
    unfold kindReport describeKind fileOf
    dsimp only
    cases (vfs s).openFiles.get? vfsFd with
    | none => rfl
    | some file =>
      dsimp only [Option.map_some, Option.bind_some]
      unfold structureOf infoOf openedOn
      split_ifs <;> rfl

/-- A report is the description with the metadata, but for pipes. -/
theorem report_eq {s : Syscalls.State} {r : Ref} (hr : ¬ IsPipe s r) :
    report s r = (describe s r).map (structureOf s.bootTime (infoOf (vfs s) (keyOf s r))) := by
  cases r with
  | path path =>
    show pathReport s path true = _
    unfold pathReport describe
    dsimp only
    rw [Option.map_map]
    rfl
  | link path =>
    show pathReport s path false = _
    unfold pathReport describe
    dsimp only
    rw [Option.map_map]
    rfl
  | fd pid fd =>
    unfold report describe keyOf
    dsimp only
    cases hkind : kindAt s.io.kernel pid fd with
    | none => rfl
    | some kind => exact kindReport_eq s fd fun fdEnd ringOffset h => hr ⟨fdEnd, ringOffset, h ▸ hkind⟩

theorem report_pipe {s : Syscalls.State} {r : Ref} (hr : IsPipe s r) : report s r = some pipeBuf := by
  cases r with
  | path path | link path => exact absurd hr id
  | fd pid fd =>
    obtain ⟨fdEnd, ringOffset, hkind⟩ := hr
    show (kindAt s.io.kernel pid fd).bind (kindReport s fd) = _
    rw [hkind]
    rfl

/-- What is reported of a file or a directory. -/
theorem reported {s : Syscalls.State} {r : Ref} {bytes : List UInt8} (h : report s r = some bytes)
    (hnode : OnNode bytes) :
    ¬ IsPipe s r ∧ ∃ d, describe s r = some d ∧
      bytes = structureOf s.bootTime (infoOf (vfs s) (keyOf s r)) d ∧ (d.2.1 = .file ∨ d.2.1 = .dir) := by
  have hr : ¬ IsPipe s r := by
    intro hpipe
    rw [report_pipe hpipe] at h
    exact not_onNode_pipeBuf (Option.some.inj h ▸ hnode)
  rw [report_eq hr] at h
  obtain ⟨d, hd, rfl⟩ := Option.map_eq_some_iff.1 h
  exact ⟨hr, d, hd, rfl, (onNode_statBuf _ _ _ _ _).1 hnode⟩

/-! ### A change of metadata -/

/-- The state after metadata has been stored under a key, if there is one. -/
def storeMeta (s : Syscalls.State) (key : Option Path) (f : Meta → Meta) : Syscalls.State :=
  match key with
  | none => s
  | some key => { s with io := withVfs s.io (setMeta (vfs s) key f) }

theorem infoAt_setMeta (v : Vfs) (key path : Path) (f : Meta → Meta) :
    infoAt (setMeta v key f) path = if path = key then f (infoAt v key) else infoAt v path := by
  unfold infoAt setMeta
  dsimp only
  rw [JsMap.get?_set]
  split_ifs <;> rfl

/-- The size and the type do not depend on metadata. -/
theorem stat_setMeta (v : Vfs) (key path : Path) (f : Meta → Meta) (follow : Bool) :
    (VirtualFs.stat (setMeta v key f) path follow).map (fun info => (info.size, info.type)) =
      (VirtualFs.stat v path follow).map fun info => (info.size, info.type) := by
  have hresolved (path resolved : Path) :
      (statResolved (setMeta v key f) path resolved).map (fun info => (info.size, info.type)) =
        (statResolved v path resolved).map fun info => (info.size, info.type) := by
    unfold statResolved setMeta
    dsimp only
    split_ifs
    · rfl
    · cases v.files.get? resolved <;> rfl
    · cases v.files.get? resolved <;> rfl
    · cases v.files.get? resolved <;> rfl
  have hlinks : (setMeta v key f).symlinks = v.symlinks := rfl
  unfold VirtualFs.stat
  rw [hlinks]
  dsimp only
  split_ifs
  · rfl
  · cases v.symlinks.get? (absolute path) with
    | none => exact hresolved _ _
    | some target => exact hresolved _ _
  · cases v.symlinks.get? (absolute path) with
    | none => exact hresolved _ _
    | some target => rfl

theorem describe_storeMeta (s : Syscalls.State) (key : Option Path) (f : Meta → Meta) (r : Ref) :
    describe (storeMeta s key f) r = describe s r := by
  cases key with
  | none => rfl
  | some key =>
    have hstat (path : Path) (follow : Bool) :
        ((VirtualFs.stat (setMeta (vfs s) key f) path follow).map fun info =>
          (info.size, info.type, (pathIno (absolute path) : ℤ))) =
          (VirtualFs.stat (vfs s) path follow).map fun info =>
            (info.size, info.type, (pathIno (absolute path) : ℤ)) := by
      have h := congrArg (Option.map fun d : ℕ × NodeType => (d.1, d.2, (pathIno (absolute path) : ℤ)))
        (stat_setMeta (vfs s) key path f follow)
      rwa [Option.map_map, Option.map_map] at h
    cases r with
    | path path => exact hstat path true
    | link path => exact hstat path false
    | fd pid fd => rfl

theorem keyOf_storeMeta (s : Syscalls.State) (key : Option Path) (f : Meta → Meta) (r : Ref) :
    keyOf (storeMeta s key f) r = keyOf s r := by
  cases key with
  | none => rfl
  | some key => cases r <;> rfl

theorem infoOf_storeMeta (s : Syscalls.State) (key : Option Path) (f : Meta → Meta) (found : Option Path) :
    infoOf (vfs (storeMeta s key f)) found =
      if ∃ path, key = some path ∧ found = some path then f (infoOf (vfs s) found) else infoOf (vfs s) found := by
  cases key with
  | none => rw [if_neg nofun]; rfl
  | some key =>
    cases found with
    | none => rw [if_neg nofun]; rfl
    | some path =>
      show infoAt (setMeta (vfs s) key f) path = _
      rw [infoAt_setMeta]
      by_cases h : path = key
      · subst h
        rw [if_pos rfl, if_pos ⟨path, rfl, rfl⟩]
        rfl
      · rw [if_neg h, if_neg fun ⟨_, hkey, hpath⟩ => h (Option.some.inj (hpath.trans hkey.symm))]
        rfl

/-- **What a reference reports after a change.** -/
theorem report_stored {s : Syscalls.State} {r : Ref} {bytes : List UInt8} (key : Option Path) (change : Change)
    (h : report s r = some bytes) (hnode : OnNode bytes) :
    (∃ bytes', report (storeMeta s key change.update) r = some bytes' ∧ attrsOf bytes' = change.apply (attrsOf bytes)) ↔
      if ∃ path, key = some path ∧ keyOf s r = some path then change.Told s.bootTime (attrsOf bytes)
      else change.Idle (attrsOf bytes) := by
  obtain ⟨hr, d, hd, rfl, -⟩ := reported h hnode
  have hboot : (storeMeta s key change.update).bootTime = s.bootTime := by cases key <;> rfl
  have hpipe : ¬ IsPipe (storeMeta s key change.update) r := by
    cases key with
    | none => exact hr
    | some key => cases r <;> exact hr
  rw [report_eq hpipe, describe_storeMeta, hd, keyOf_storeMeta, infoOf_storeMeta, hboot]
  have hsome (info : Meta) :
      (∃ bytes', Option.map (structureOf s.bootTime info) (some d) = some bytes' ∧
          attrsOf bytes' = change.apply (attrsOf (structureOf s.bootTime (infoOf (vfs s) (keyOf s r)) d))) ↔
        shown s.bootTime d.2.1 info = change.apply (shown s.bootTime d.2.1 (infoOf (vfs s) (keyOf s r))) := by
    rw [structureOf, attrsOf_statBuf]
    constructor
    · rintro ⟨bytes', hbytes, happly⟩
      rwa [← Option.some.inj hbytes, structureOf, attrsOf_statBuf] at happly
    · intro happly
      exact ⟨_, rfl, by rw [structureOf, attrsOf_statBuf]; exact happly⟩
  rw [hsome, structureOf, attrsOf_statBuf]
  split_ifs with hkey
  · exact shown_update_iff s.bootTime d.2.1 change _
  · rw [eq_comm, apply_eq_iff]

/-! ### Names -/

/-- The type and the attributes of a file or a directory. -/
def nodeOf (bootTime : ℤ) : Object → Option (NodeType × Attrs)
  | .file _ info => some (.file, shown bootTime .file info)
  | .dir info => some (.dir, shown bootTime .dir info)
  | .symlink _ _ => none

/-- **What is at a name, with its attributes**, if that is a file or a directory. -/
def nodeAt (bootTime : ℤ) (v : Vfs) (p : List Component) : Option (NodeType × Attrs) :=
  (objectAt v p).bind (nodeOf bootTime)

/-- What the maps say where a file or a directory is. -/
theorem nodeAt_eq_some_iff {bootTime : ℤ} {v : Vfs} {p : List Component} {type : NodeType} {attrs : Attrs} :
    nodeAt bootTime v p = some (type, attrs) ↔
      v.symlinks.has (pathOf p) = false ∧ v.whiteouts.has (pathOf p) = false ∧
        (v.files.has (pathOf p) = true ∧ type = .file ∨
          v.files.has (pathOf p) = false ∧ v.dirs.has (pathOf p) = true ∧ type = .dir) ∧
        attrs = shown bootTime type (infoAt v (pathOf p)) := by
  unfold nodeAt objectAt lookup JsMap.has
  cases v.symlinks.get? (pathOf p) with
  | some target => simp [nodeOf]
  | none =>
    cases v.whiteouts.get? (pathOf p) with
    | some mark => simp
    | none =>
      cases v.files.get? (pathOf p) with
      | some content =>
        simp only [nodeOf, Option.isSome_none, Option.isSome_some, Bool.false_eq_true, if_false, Option.bind_some,
          Option.some.injEq, Prod.mk.injEq, true_and, Bool.true_eq_false, false_and, or_false]
        constructor
        · rintro ⟨rfl, rfl⟩
          exact ⟨rfl, rfl⟩
        · rintro ⟨rfl, rfl⟩
          exact ⟨rfl, rfl⟩
      | none =>
        cases v.dirs.get? (pathOf p) with
        | none => simp
        | some mark =>
          simp only [nodeOf, Option.isSome_none, Option.isSome_some, Bool.false_eq_true, if_false, if_true,
            Option.bind_some, Option.some.injEq, Prod.mk.injEq, true_and, false_and, false_or]
          constructor
          · rintro ⟨rfl, rfl⟩
            exact ⟨rfl, rfl⟩
          · rintro ⟨rfl, rfl⟩
            exact ⟨rfl, rfl⟩

/-- **The stat calls report what is at a name**, where no link is above it. -/
theorem report_of_nodeAt {s : Syscalls.State} {p : List Component} {type : NodeType} {attrs : Attrs}
    (h : nodeAt s.bootTime (vfs s) p = some (type, attrs)) (hdev : ¬ isDevice (pathOf p))
    (hres : resolvePath (vfs s).symlinks (pathOf p) = pathOf p) :
    ∃ bytes, report s (.path (pathOf p)) = some bytes ∧ OnNode bytes ∧ attrsOf bytes = attrs := by
  obtain ⟨hlink, hwhite, hkind, rfl⟩ := nodeAt_eq_some_iff.1 h
  have hstat : VirtualFs.stat (vfs s) (pathOf p) true = statResolved (vfs s) (pathOf p) (pathOf p) := by
    rw [stat_of_not_isDevice (by rwa [absolute_pathOf]), absolute_pathOf, hres]
  have hinfo : infoOf (vfs s) (keyOf s (.path (pathOf p))) = infoAt (vfs s) (pathOf p) := by
    show infoAt (vfs s) (resolvePath (vfs s).symlinks (absolute (pathOf p))) = _
    rw [absolute_pathOf, hres]
  have htype : ∃ info, VirtualFs.stat (vfs s) (pathOf p) true = some info ∧ info.type = type := by
    rw [hstat]
    unfold statResolved
    dsimp only
    rw [if_neg (by simp [hwhite])]
    obtain ⟨hfile, rfl⟩ | ⟨hfile, hdir, rfl⟩ := hkind
    · obtain ⟨content, hcontent⟩ := JsMap.has_iff.1 hfile
      rw [hcontent]
      exact ⟨_, rfl, rfl⟩
    · rw [JsMap.has_eq_false_iff.1 hfile, if_pos hdir]
      exact ⟨_, rfl, rfl⟩
  obtain ⟨info, hsome, htype⟩ := htype
  have hnode : type = .file ∨ type = .dir := hkind.imp And.right fun h => h.2.2
  have hreport : report s (.path (pathOf p)) =
      some (structureOf s.bootTime (infoAt (vfs s) (pathOf p)) (info.size, type, pathIno (absolute (pathOf p)))) := by
    rw [report_eq id, hinfo]
    unfold describe
    dsimp only
    rw [hsome, ← htype]
    rfl
  exact ⟨_, hreport, (onNode_statBuf _ _ _ _ _).2 hnode, attrsOf_statBuf _ _ _ _ _⟩

end Attributes
