/-
**Loading an archive.**

The members of an archive are taken one after the other, and each is stored under its name as it stands there,
less a leading `./` and the slashes at its end.  Every lookup normalizes the path it is given, and follows the
links of the archive.  So what is stored under a name with two slashes or with `..` in it is never found, and
neither is what is stored below a link; hard links are not stored at all.

What the archive says is a tree of its own, in which each member is put at its normalized name and a later
member takes the place of an earlier one.

Main definitions:

* `TarArchive.contents` — what an archive says is at a name;
* `TarArchive.Complete` — all of that is found in a filesystem;
* `TarArchive.bytesUnder`, `TarArchive.DirUnder`, `TarArchive.NameUnder` — what is stored of an archive;
* `TarArchive.Fits` — the condition.

Main results:

* `TarArchive.loaded` — what is in the maps after a load;
* `TarArchive.complete_iff` — **the archives that are loaded completely**.
-/

import AtuaComputer.LinkNames
import AtuaComputer.Persistence

set_option relaxedAutoImplicit false
set_option autoImplicit false

namespace TarArchive

open VirtualFs NameTree VfsTables TreeCoherence

/-! ### What an archive says -/

/-- What a member of an archive is. -/
inductive MemberKind where
  | regular
  | hardLink
  | dir
  | symlink
  | other
deriving DecidableEq

/-- The kind of a member.  One without a type is a directory if its name ends in a slash. -/
def memberKind (entry : TarEntry) : MemberKind :=
  if entry.type = ['5'] ∨ (entry.type = [] ∧ entry.name.getLast? = some '/') then .dir
  else if entry.type = ['2'] then .symlink
  else if entry.type = ['1'] then .hardLink
  else if entry.type = ['0'] ∨ entry.type = [] then .regular
  else .other

/-- What can be at a name. -/
inductive Node where
  | file (bytes : List UInt8)
  | dir
  | symlink
deriving DecidableEq

/-- A member is put at its normalized name.  A hard link has the bytes of the member that it names. -/
def extract (tree : List Component → Option Node) (entry : TarEntry) : List Component → Option Node :=
  match memberKind entry with
  | .regular => Function.update tree (components entry.name) (some (.file entry.bytes))
  | .hardLink =>
    match tree (components entry.linkname) with
    | some (.file bytes) => Function.update tree (components entry.name) (some (.file bytes))
    | _ => tree
  | .dir => Function.update tree (components entry.name) (some .dir)
  | .symlink => Function.update tree (components entry.name) (some .symlink)
  | .other => tree

/-- **What an archive says**: the last member of a name is at it. -/
def contents (entries : List TarEntry) : List Component → Option Node := entries.foldl extract fun _ => none

/-! ### What is found -/

/-- The description that `open` makes. -/
def opened (v : Vfs) (path : Path) (flags : Int32) : Option OpenFile :=
  if 0 ≤ (openFile v path flags 0).2 then (openFile v path flags 0).1.openFiles.get? (openFile v path flags 0).2
  else none

/-- The name opens as a file with the bytes. -/
def OpensWith (v : Vfs) (p : List Component) (bytes : List UInt8) : Prop :=
  ∃ file content, opened v (pathOf p) 0 = some file ∧ file.special = none ∧ file.content = some content ∧
    bytesOf (openFile v (pathOf p) 0 0).1 content = bytes

/-- The name is one of a directory for `stat`. -/
def StatsDir (v : Vfs) (p : List Component) : Prop :=
  ∃ info, VirtualFs.stat v (pathOf p) true = some info ∧ info.type = .dir

/-- The directory can be opened, and the name is among those that are listed then. -/
def Listed (v : Vfs) (d : List Component) (n : Component) : Prop :=
  ∃ file path, opened v (pathOf d) oDirectory = some file ∧ file.dirPath = some path ∧
    n.val ∈ (readdir v path).map Prod.fst

/-- **What is in the tree is found in the filesystem**, and is listed by its parent. -/
def Complete (v : Vfs) (tree : List Component → Option Node) : Prop :=
  ∀ p,
    match tree p with
    | some (.file bytes) => OpensWith v p bytes ∧ ∀ d n, p = d ++ [n] → Listed v d n
    | some .dir => StatsDir v p ∧ ∀ d n, p = d ++ [n] → Listed v d n
    | _ => True

/-! ### What is stored -/

/-- The links, under the names they are stored by. -/
def linksOf (entries : List TarEntry) : JsMap Path Path :=
  entries.foldl
    (fun links entry =>
      if entryKind entry = .link then links.set (tarName entry.name) (tarTarget (tarName entry.name) entry.linkname)
      else links)
    JsMap.empty

/-- The bytes of the last file that is stored by a name. -/
def bytesUnder (entries : List TarEntry) (key : Path) : Option (List UInt8) :=
  entries.foldl
    (fun found entry => if entryKind entry = .file ∧ tarName entry.name = key then some entry.bytes else found) none

/-- The names that a member makes directories. -/
def dirKeys (entry : TarEntry) : List Path :=
  match entryKind entry with
  | .skipped => []
  | .dir | .link => [tarName entry.name]
  | .file => parents (tarName entry.name)

/-- The names that a member enters into their directories. -/
def nameKeys (entry : TarEntry) : List Path :=
  match entryKind entry with
  | .skipped => []
  | .dir | .link => [tarName entry.name]
  | .file => parents (tarName entry.name) ++ [tarName entry.name]

/-- The name is stored as one of a directory. -/
def DirUnder (entries : List TarEntry) (key : Path) : Prop := ∃ entry ∈ entries, key ∈ dirKeys entry

/-- Where a name is entered: before its last slash, and after it. -/
def Home (key dir name : Path) : Prop := key ≠ ['/'] ∧ parentOf key = dir ∧ baseName key = name

/-- The name is entered into the directory. -/
def NameUnder (entries : List TarEntry) (dir name : Path) : Prop :=
  ∃ entry ∈ entries, ∃ key ∈ nameKeys entry, Home key dir name

/-! ### Entering names -/

/-- The name is in the set of the directory. -/
def Enters (v : Vfs) (dir name : Path) : Prop := (namesIn v.children dir).has name = true

/-- Every directory is in the set of its parent. -/
def Indexed (v : Vfs) : Prop := ∀ key, v.dirs.has key = true → ∀ dir name, Home key dir name → Enters v dir name

/-- The last slash of an absolute path. -/
theorem exists_last_slash {path : Path} (h : '/' ∈ path) : ∃ a n, path = a ++ '/' :: n ∧ '/' ∉ n := by
  obtain ⟨n, a, hsplit, hn⟩ := List.eq_append_cons_of_mem (List.mem_reverse.2 h)
  refine ⟨a.reverse, n.reverse, ?_, fun hmem => hn (List.mem_reverse.1 hmem)⟩
  rw [← List.reverse_reverse path, hsplit]
  simp

theorem slash_mem {path : Path} (h : path.head? = some '/') : '/' ∈ path := List.mem_of_head? h

theorem enters_addChild {key : Path} (hkey : key.head? = some '/') (v : Vfs) (dir name : Path) :
    Enters (addChild v key) dir name ↔ Enters v dir name ∨ Home key dir name := by
  obtain ⟨a, n, rfl, hn⟩ := exists_last_slash (slash_mem hkey)
  unfold Enters Home addChild parentOf
  rw [splitLast_slash hn, baseName_slash hn]
  dsimp only
  by_cases ha : a = []
  · subst ha
    rw [if_pos rfl, List.nil_append]
    dsimp only
    by_cases hroot : '/' :: n = ['/']
    · rw [if_pos hroot, namesIn_addNone]
      simp [hroot]
    · rw [if_neg hroot, has_namesIn_addName]
      simp only [hroot, ne_eq, not_false_iff, true_and, List.drop_succ_cons, List.drop_zero]
      tauto
  · have hne : a ++ '/' :: n ≠ ['/'] := by
      intro h
      cases a with
      | nil => exact ha rfl
      | cons c a => simp at h
    rw [if_neg ha, has_namesIn_addName]
    simp only [hne, ne_eq, not_false_iff, true_and]
    tauto

theorem has_dirs_registerDir (v : Vfs) (key x : Path) :
    (registerDir v key).dirs.has x = true ↔ x = key ∨ v.dirs.has x = true := by
  have h := LinkNames.has_dirs_foldl_registerDir [key] v x
  rwa [List.mem_singleton] at h

theorem enters_registerDir {v : Vfs} (hi : Indexed v) {key : Path} (hkey : key.head? = some '/') (dir name : Path) :
    Enters (registerDir v key) dir name ↔ Enters v dir name ∨ Home key dir name := by
  unfold registerDir
  split_ifs with hdir
  · exact (or_iff_left_of_imp fun h => hi key hdir dir name h).symm
  · dsimp only
    split_ifs with hchildren
    · exact enters_addChild hkey _ dir name
    · rw [enters_addChild hkey]
      unfold Enters
      rw [namesIn_fresh (Bool.eq_false_iff.2 hchildren)]

theorem indexed_registerDir {v : Vfs} (hi : Indexed v) {key : Path} (hkey : key.head? = some '/') :
    Indexed (registerDir v key) := by
  intro x hx dir name hhome
  rw [enters_registerDir hi hkey]
  obtain rfl | hold := (has_dirs_registerDir v key x).1 hx
  · exact .inr hhome
  · exact .inl (hi x hold dir name hhome)

/-- Entering some directories, one after the other. -/
theorem enters_foldl_registerDir {keys : List Path} (hkeys : ∀ key ∈ keys, key.head? = some '/') {v : Vfs}
    (hi : Indexed v) (dir name : Path) :
    Enters (keys.foldl registerDir v) dir name ↔ Enters v dir name ∨ ∃ key ∈ keys, Home key dir name := by
  induction keys generalizing v with
  | nil => simp
  | cons key keys ih =>
    have hkey := hkeys key List.mem_cons_self
    rw [List.foldl_cons, ih (fun x hx => hkeys x (List.mem_cons_of_mem _ hx)) (indexed_registerDir hi hkey),
      enters_registerDir hi hkey, or_assoc]
    simp only [List.mem_cons, exists_eq_or_imp]

/-! ### What a load does -/

/-- What is in the maps after some members have been loaded. -/
structure Loaded (v : Vfs) (entries : List TarEntry) : Prop where
  whiteouts : v.whiteouts = JsMap.empty
  nextFd : v.nextFd = 4
  links : v.symlinks = linksOf entries
  bytes : ∀ key, (v.files.get? key).map (bytesOf v) = bytesUnder entries key
  /-- The buffers are there. -/
  stored : ∀ key content, v.files.get? key = some content → content < v.buffers.length
  dirs : ∀ key, v.dirs.has key = true ↔ DirUnder entries key
  names : ∀ dir name, Enters v dir name ↔ NameUnder entries dir name

theorem mem_nameKeys {entry : TarEntry} {key : Path} (h : key ∈ dirKeys entry) : key ∈ nameKeys entry := by
  unfold dirKeys at h
  unfold nameKeys
  cases hkind : entryKind entry with
  | skipped | dir | link => rwa [hkind] at h
  | file =>
    rw [hkind] at h
    exact List.mem_append_left _ h

theorem Loaded.indexed {v : Vfs} {entries : List TarEntry} (h : Loaded v entries) : Indexed v := by
  intro key hdir dir name hhome
  obtain ⟨entry, hentry, hkey⟩ := (h.dirs key).1 hdir
  exact (h.names dir name).2 ⟨entry, hentry, key, mem_nameKeys hkey, hhome⟩

theorem dirUnder_append (entries : List TarEntry) (entry : TarEntry) (key : Path) :
    DirUnder (entries ++ [entry]) key ↔ DirUnder entries key ∨ key ∈ dirKeys entry := by
  simp only [DirUnder, List.mem_append, List.mem_singleton, or_and_right, exists_or, exists_eq_left]

theorem nameUnder_append (entries : List TarEntry) (entry : TarEntry) (dir name : Path) :
    NameUnder (entries ++ [entry]) dir name ↔
      NameUnder entries dir name ∨ ∃ key ∈ nameKeys entry, Home key dir name := by
  simp only [NameUnder, List.mem_append, List.mem_singleton, or_and_right, exists_or, exists_eq_left]

theorem linksOf_append (entries : List TarEntry) (entry : TarEntry) :
    linksOf (entries ++ [entry]) =
      if entryKind entry = .link then
        (linksOf entries).set (tarName entry.name) (tarTarget (tarName entry.name) entry.linkname)
      else linksOf entries := List.foldl_append

theorem bytesUnder_append (entries : List TarEntry) (entry : TarEntry) (key : Path) :
    bytesUnder (entries ++ [entry]) key =
      if entryKind entry = .file ∧ tarName entry.name = key then some entry.bytes else bytesUnder entries key :=
  List.foldl_append

/-- The names of members are absolute. -/
theorem head?_tarName {entry : TarEntry} (h : entryKind entry ≠ .skipped) : (tarName entry.name).head? = some '/' := by
  have hne : tarName entry.name ≠ [] := by
    intro hnil
    refine h ?_
    unfold entryKind
    dsimp only
    rw [if_pos (.inl hnil)]
  have hhead (path : Path) (hpath : stripSlashes path ≠ []) : (stripSlashes path).head? = path.head? := by
    have hprefix : stripSlashes path <+: path := by
      have hsuffix := List.dropWhile_suffix (l := path.reverse) fun c => decide (c = '/')
      rw [← List.reverse_prefix, List.reverse_reverse] at hsuffix
      exact hsuffix
    obtain ⟨rest, hrest⟩ := hprefix
    cases hstrip : stripSlashes path with
    | nil => exact absurd hstrip hpath
    | cons c cs =>
      rw [hstrip] at hrest
      rw [← hrest]
      rfl
  unfold tarName at hne ⊢
  dsimp only at hne ⊢
  rw [hhead _ hne]
  exact head?_absolute _

/-- The directories above a file are entered, and the file. -/
theorem loadEntry_file (v : Vfs) {entry : TarEntry} (h : entryKind entry = .file) :
    ∃ metadata, loadEntry v entry =
      { addChild
          (registerParents
            { v with
              buffers := v.buffers ++ [entry.bytes]
              files := v.files.set (tarName entry.name) v.buffers.length } (tarName entry.name))
          (tarName entry.name) with metadata } := by
  unfold entryKind at h
  dsimp only at h
  unfold loadEntry newBuffer
  dsimp only
  generalize (if entry.mode.getD 0 = 0 then 0o755 else entry.mode.getD 0) = mode
  split_ifs at h ⊢
  · exact ⟨_, rfl⟩
  · exact ⟨_, rfl⟩

/-- A member that is a directory or a link. -/
theorem Loaded.enter {v w : Vfs} {entries : List TarEntry} {entry : TarEntry} (h : Loaded v entries)
    (hkeys : nameKeys entry = dirKeys entry) (hfile : entryKind entry ≠ .file)
    (hsame : w.whiteouts = v.whiteouts ∧ w.nextFd = v.nextFd ∧ w.files = v.files ∧ w.buffers = v.buffers)
    (hlinks : w.symlinks = linksOf (entries ++ [entry]))
    (hdirs : ∀ key, w.dirs.has key = true ↔ v.dirs.has key = true ∨ key ∈ dirKeys entry)
    (hnames : ∀ dir name, Enters w dir name ↔ Enters v dir name ∨ ∃ key ∈ dirKeys entry, Home key dir name) :
    Loaded w (entries ++ [entry]) where
  whiteouts := hsame.1.trans h.whiteouts
  nextFd := hsame.2.1.trans h.nextFd
  links := hlinks
  bytes key := by
    have hbytes : bytesOf w = bytesOf v := by
      funext content
      rw [bytesOf, hsame.2.2.2, bytesOf]
    rw [bytesUnder_append, if_neg fun hboth => hfile hboth.1, hsame.2.2.1, hbytes, h.bytes]
  stored key content hget := by
    rw [hsame.2.2.2]
    exact h.stored key content (hsame.2.2.1 ▸ hget)
  dirs key := by rw [hdirs, h.dirs, dirUnder_append]
  names dir name := by rw [hnames, h.names, nameUnder_append, hkeys]

theorem loaded_dir {v : Vfs} {entries : List TarEntry} {entry : TarEntry} (h : Loaded v entries)
    (hkind : entryKind entry = .dir) : Loaded (registerDir v (tarName entry.name)) (entries ++ [entry]) := by
  have hkey : (tarName entry.name).head? = some '/' := head?_tarName (by rw [hkind]; decide)
  have hdir : dirKeys entry = [tarName entry.name] := by rw [dirKeys, hkind]
  obtain ⟨dirs, children, hframe⟩ := registerDir_frame v (tarName entry.name)
  refine h.enter ?_ (by rw [hkind]; decide) ?_ ?_ (fun key => ?_) fun dir name => ?_
  · rw [hdir, nameKeys, hkind]
  · rw [hframe]
    exact ⟨rfl, rfl, rfl, rfl⟩
  · rw [hframe, linksOf_append, if_neg (by rw [hkind]; decide)]
    exact h.links
  · rw [has_dirs_registerDir, hdir, List.mem_singleton]
    exact or_comm
  · rw [enters_registerDir h.indexed hkey, hdir]
    simp

theorem loaded_link {v : Vfs} {entries : List TarEntry} {entry : TarEntry} (h : Loaded v entries)
    (hkind : entryKind entry = .link) :
    Loaded (setLink v (tarTarget (tarName entry.name) entry.linkname) (tarName entry.name)) (entries ++ [entry]) := by
  have hkey : (tarName entry.name).head? = some '/' := head?_tarName (by rw [hkind]; decide)
  have hdir : dirKeys entry = [tarName entry.name] := by rw [dirKeys, hkind]
  refine h.enter ?_ (by rw [hkind]; decide) ⟨rfl, rfl, rfl, rfl⟩ ?_ (fun key => ?_) fun dir name => ?_
  · rw [hdir, nameKeys, hkind]
  · rw [linksOf_append, if_pos hkind, ← h.links]
    rfl
  · show (v.dirs.set (tarName entry.name) ()).has key = true ↔ _
    rw [JsMap.has_set, hdir, List.mem_singleton]
    exact or_comm
  · unfold setLink
    rw [enters_addChild hkey, hdir]
    simp only [List.mem_singleton, exists_eq_left]
    exact Iff.rfl

theorem loaded_file {v : Vfs} {entries : List TarEntry} {entry : TarEntry} (h : Loaded v entries)
    (hkind : entryKind entry = .file) : Loaded (loadEntry v entry) (entries ++ [entry]) := by
  have hkey : (tarName entry.name).head? = some '/' := head?_tarName (by rw [hkind]; decide)
  have hdir : dirKeys entry = parents (tarName entry.name) := by rw [dirKeys, hkind]
  have hname : nameKeys entry = parents (tarName entry.name) ++ [tarName entry.name] := by rw [nameKeys, hkind]
  obtain ⟨metadata, hload⟩ := loadEntry_file v hkind
  rw [hload]
  generalize hw : ({ v with
    buffers := v.buffers ++ [entry.bytes]
    files := v.files.set (tarName entry.name) v.buffers.length } : Vfs) = w
  obtain ⟨dirs, children, hframe⟩ := registerParents_frame w (tarName entry.name)
  have hindexed : Indexed w := by
    subst hw
    exact h.indexed
  have hdirs (key : Path) : (registerParents w (tarName entry.name)).dirs.has key = true ↔
      v.dirs.has key = true ∨ key ∈ dirKeys entry := by
    unfold registerParents
    rw [LinkNames.has_dirs_foldl_registerDir, hdir, or_comm, ← hw]
  have hnames (dir name : Path) :
      Enters (addChild (registerParents w (tarName entry.name)) (tarName entry.name)) dir name ↔
        Enters v dir name ∨ ∃ key ∈ nameKeys entry, Home key dir name := by
    rw [enters_addChild hkey]
    unfold registerParents
    rw [enters_foldl_registerDir (Persistence.rooted_parents hkey) hindexed, hname, or_assoc, ← hw]
    simp only [List.mem_append, List.mem_singleton, or_and_right, exists_or, exists_eq_left]
    exact Iff.rfl
  -- the new buffer is behind all others, so an earlier file keeps its bytes
  have hbytes (key : Path) : ((v.files.set (tarName entry.name) v.buffers.length).get? key).map
      (fun content => (v.buffers ++ [entry.bytes]).getD content []) = bytesUnder (entries ++ [entry]) key := by
    rw [JsMap.get?_set, bytesUnder_append]
    by_cases hsame : key = tarName entry.name
    · rw [if_pos hsame, if_pos ⟨hkind, hsame.symm⟩]
      simp
    · rw [if_neg hsame, if_neg fun hboth => hsame hboth.2.symm, ← h.bytes]
      cases hget : v.files.get? key with
      | none => rfl
      | some content =>
        have hlt := h.stored key content hget
        rw [Option.map_some, Option.map_some, bytesOf, List.getD_eq_getElem?_getD, List.getElem?_append_left hlt,
          List.getD_eq_getElem?_getD]
  refine ⟨?_, ?_, ?_, ?_, ?_, fun key => ?_, fun dir name => ?_⟩
  · rw [hframe, ← hw]
    exact h.whiteouts
  · rw [hframe, ← hw]
    exact h.nextFd
  · rw [hframe, ← hw, linksOf_append, if_neg (by rw [hkind]; decide)]
    exact h.links
  · rw [hframe, ← hw]
    exact hbytes
  · rw [hframe, ← hw]
    intro key content hget
    show content < (v.buffers ++ [entry.bytes]).length
    rw [List.length_append, List.length_singleton]
    have hget' : (v.files.set (tarName entry.name) v.buffers.length).get? key = some content := hget
    rw [JsMap.get?_set] at hget'
    split_ifs at hget' with hsame
    · rw [← Option.some.inj hget']
      exact Nat.lt_succ_self _
    · exact Nat.lt_succ_of_lt (h.stored key content hget')
  · rw [dirUnder_append, ← h.dirs, ← hdirs]
    exact Iff.rfl
  · rw [nameUnder_append, ← h.names, ← hnames]
    exact Iff.rfl

/-- **What is in the maps after a load.** -/
theorem loaded (entries : List TarEntry) : Loaded (loadTar newVfs entries) entries := by
  induction entries using List.reverseRecOn with
  | nil =>
    refine ⟨rfl, rfl, rfl, fun _ => rfl, nofun, fun key => ?_, fun dir name => ?_⟩
    · exact iff_of_false nofun nofun
    · exact iff_of_false nofun nofun
  | append_singleton entries entry ih =>
    have hlast : loadTar newVfs (entries ++ [entry]) = loadEntry (loadTar newVfs entries) entry := List.foldl_append
    rw [hlast]
    have hcases := loadEntry_cases (loadTar newVfs entries) entry
    cases hkind : entryKind entry with
    | skipped =>
      rw [hkind] at hcases
      rw [hcases]
      refine ih.enter ?_ (by rw [hkind]; decide) ⟨rfl, rfl, rfl, rfl⟩ ?_ (fun key => ?_) fun dir name => ?_
      · rw [nameKeys, dirKeys, hkind]
      · rw [linksOf_append, if_neg (by rw [hkind]; decide)]
        exact ih.links
      · rw [dirKeys, hkind]
        simp
      · rw [dirKeys, hkind]
        simp
    | dir =>
      rw [hkind] at hcases
      rw [hcases]
      exact loaded_dir ih hkind
    | link =>
      rw [hkind] at hcases
      rw [hcases]
      exact loaded_link ih hkind
    | file => exact loaded_file ih hkind

/-! ### The condition -/

/-- What a name resolves to, with the links of the archive. -/
def reached (entries : List TarEntry) (p : List Component) : Path := resolvePath (linksOf entries) (pathOf p)

/-- The name is no device, and it or what it resolves to is stored as one of a directory. -/
def DirShown (entries : List TarEntry) (p : List Component) : Prop :=
  ¬ isDevice (pathOf p) ∧ (DirUnder entries (reached entries p) ∨ DirUnder entries (pathOf p))

/-- The directory is shown, and what it resolves to has the name. -/
def NameShown (entries : List TarEntry) (d : List Component) (n : Component) : Prop :=
  DirShown entries d ∧ NameUnder entries (reached entries d) n.val

/-- **The condition**: a file is stored by what its name resolves to, with its bytes as the last ones, a directory
too and no file, and each of them is entered into what its parent resolves to. -/
def Fits (entries : List TarEntry) : Prop :=
  ∀ p,
    match contents entries p with
    | some (.file bytes) =>
      (¬ isDevice (pathOf p) ∧ bytesUnder entries (reached entries p) = some bytes) ∧
        ∀ d n, p = d ++ [n] → NameShown entries d n
    | some .dir =>
      (DirShown entries p ∧ bytesUnder entries (reached entries p) = none) ∧
        ∀ d n, p = d ++ [n] → NameShown entries d n
    | _ => True

theorem exists_resolvePath_eq (symlinks : JsMap Path Path) (path : Path) :
    ∃ q, resolvePath symlinks path = pathOf q := by
  have hfuel : ∀ fuel path, ∃ q, resolveFuel symlinks fuel path = pathOf q := by
    intro fuel
    induction fuel with
    | zero => exact fun path => ⟨_, normalizePath_eq path⟩
    | succ fuel ih =>
      intro path
      rw [resolveFuel]
      dsimp only
      split_ifs
      · exact ⟨_, normalizePath_eq path⟩
      · split
        · exact ⟨_, normalizePath_eq path⟩
        · exact ih _
  exact hfuel 41 path

section Found

variable {v : Vfs} {entries : List TarEntry}

/-- Opening a name that is no device. -/
theorem openFile_name (h : Loaded v entries) {p : List Component} (hdev : ¬ isDevice (pathOf p)) :
    openFile v (pathOf p) 0 0 =
      match v.files.get? (reached entries p) with
      | some content =>
        install v { content := some content, path := reached entries p, append := false, cloexec := false }
      | none =>
        if v.dirs.has (reached entries p) ∨ v.dirs.has (pathOf p) then
          install v
            { isDir := true, dirPath := some (reached entries p), path := reached entries p, cloexec := false }
        else (v, -1) := by
  have hnull : ¬ pathOf p = "/dev/null".toList := fun hp => hdev (.inl hp)
  have hrandom : ¬ (pathOf p = "/dev/urandom".toList ∨ pathOf p = "/dev/random".toList) := fun hp => hdev (.inr hp)
  have hcreat : hasFlag 0 oCreat = false := by decide
  have hdirectory : hasFlag 0 oDirectory = false := by decide
  have htrunc : hasFlag 0 oTrunc = false := by decide
  have happend : hasFlag 0 oAppend = false := by decide
  have hcloexec : hasFlag 0 oCloexec = false := by decide
  have hwhite : v.whiteouts.has (reached entries p) = false := by rw [h.whiteouts]; rfl
  unfold openFile
  rw [absolute_pathOf]
  dsimp only
  have hreached : resolvePath (linksOf entries) (pathOf p) = reached entries p := rfl
  rw [if_neg hnull, if_neg hrandom, h.links, hreached]
  simp only [hwhite, hcreat, hdirectory, happend, hcloexec, Bool.false_eq_true, false_and, if_false]
  unfold openContent
  rw [hcreat, htrunc]
  cases v.files.get? (reached entries p) <;> rfl

theorem opened_install {path : Path} {flags : Int32} {file : OpenFile} (h : Loaded v entries)
    (hopen : openFile v path flags 0 = install v file) : opened v path flags = some file := by
  unfold opened
  rw [hopen]
  show (if 0 ≤ v.nextFd then (v.openFiles.set v.nextFd file).get? v.nextFd else none) = _
  rw [if_pos (by rw [h.nextFd]; decide), JsMap.get?_set_self]

theorem opened_refused {path : Path} {flags : Int32} (hopen : openFile v path flags 0 = (v, -1)) :
    opened v path flags = none := by
  unfold opened
  rw [hopen]
  rfl

/-- A device is opened as a special file, which is no directory. -/
theorem opened_device (h : Loaded v entries) {path : Path} (hdev : isDevice path) (habs : absolute path = path)
    (flags : Int32) : ∃ file, opened v path flags = some file ∧ file.special ≠ none ∧ file.dirPath = none := by
  have hnew (file : OpenFile) (hopen : openFile v path flags 0 = install (newBuffer v []).1 file) :
      opened v path flags = some file := by
    unfold opened
    rw [hopen]
    show (if 0 ≤ v.nextFd then (v.openFiles.set v.nextFd file).get? v.nextFd else none) = _
    rw [if_pos (by rw [h.nextFd]; decide), JsMap.get?_set_self]
  by_cases hnull : path = "/dev/null".toList
  · refine
      ⟨_, hnew
        { content := some v.buffers.length, path, special := some .null, cloexec := hasFlag flags oCloexec } ?_,
        nofun, rfl⟩
    unfold openFile
    rw [habs]
    dsimp only
    rw [if_pos hnull]
    rfl
  · have hrandom : path = "/dev/urandom".toList ∨ path = "/dev/random".toList := hdev.resolve_left hnull
    refine
      ⟨_, hnew
        { content := some v.buffers.length, path, special := some .urandom, cloexec := hasFlag flags oCloexec } ?_,
        nofun, rfl⟩
    unfold openFile
    rw [habs]
    dsimp only
    rw [if_neg hnull, if_pos hrandom]
    rfl

theorem opensWith_iff (h : Loaded v entries) (p : List Component) (bytes : List UInt8) :
    OpensWith v p bytes ↔ ¬ isDevice (pathOf p) ∧ bytesUnder entries (reached entries p) = some bytes := by
  unfold OpensWith
  by_cases hdev : isDevice (pathOf p)
  · obtain ⟨file, hopen, hspecial, -⟩ := opened_device h hdev (absolute_pathOf p) 0
    refine iff_of_false ?_ fun hboth => hboth.1 hdev
    rintro ⟨file', content, hopen', hnone, -⟩
    rw [hopen] at hopen'
    exact hspecial (Option.some.inj hopen' ▸ hnone)
  · have hopen := openFile_name h hdev
    rw [and_iff_right hdev, ← h.bytes]
    cases hget : v.files.get? (reached entries p) with
    | some content =>
      rw [hget] at hopen
      rw [opened_install h hopen, hopen, Option.map_some, Option.some.injEq]
      constructor
      · rintro ⟨file, content', hfile, -, hcontent, hbytes⟩
        rw [← Option.some.inj hfile] at hcontent
        rw [← Option.some.inj hcontent] at hbytes
        exact hbytes
      · intro hbytes
        exact ⟨_, content, rfl, rfl, rfl, hbytes⟩
    | none =>
      rw [hget] at hopen
      refine iff_of_false ?_ nofun
      rintro ⟨file, content, hfile, -, hcontent, -⟩
      dsimp only at hopen
      split_ifs at hopen
      · rw [opened_install h hopen] at hfile
        rw [← Option.some.inj hfile] at hcontent
        cases hcontent
      · rw [opened_refused hopen] at hfile
        cases hfile

theorem statsDir_iff (h : Loaded v entries) (p : List Component) :
    StatsDir v p ↔ DirShown entries p ∧ bytesUnder entries (reached entries p) = none := by
  unfold StatsDir DirShown
  by_cases hdev : isDevice (pathOf p)
  · refine iff_of_false ?_ fun hboth => hboth.1.1 hdev
    rintro ⟨info, hstat, htype⟩
    unfold VirtualFs.stat at hstat
    rw [absolute_pathOf] at hstat
    dsimp only at hstat
    rw [if_pos hdev] at hstat
    rw [← Option.some.inj hstat] at htype
    cases htype
  · have hwhite : ¬ v.whiteouts.has (reached entries p) = true := by rw [h.whiteouts]; nofun
    rw [RenameLaw.stat_of_not_isDevice (by rwa [absolute_pathOf]), absolute_pathOf, h.links, ← h.bytes, ← h.dirs,
      ← h.dirs]
    show (∃ info, statResolved v (pathOf p) (reached entries p) = some info ∧ _) ↔ _
    unfold statResolved
    dsimp only
    rw [if_neg hwhite]
    cases v.files.get? (reached entries p) with
    | some content =>
      refine iff_of_false ?_ (by simp)
      rintro ⟨info, hstat, htype⟩
      rw [← Option.some.inj hstat] at htype
      cases htype
    | none =>
      dsimp only
      split_ifs with hdir hself
      · simp [hdev, hdir]
      · simp [hdev, hself]
      · simp [hdir, hself]

/-- Opening a directory. -/
theorem openFile_directory (h : Loaded v entries) {d : List Component} (hdev : ¬ isDevice (pathOf d)) :
    openFile v (pathOf d) oDirectory 0 =
      if v.dirs.has (reached entries d) ∨ v.dirs.has (pathOf d) then
        install v { isDir := true, dirPath := some (reached entries d), path := reached entries d, cloexec := false }
      else (v, -1) := by
  have hnull : ¬ pathOf d = "/dev/null".toList := fun hp => hdev (.inl hp)
  have hrandom : ¬ (pathOf d = "/dev/urandom".toList ∨ pathOf d = "/dev/random".toList) := fun hp => hdev (.inr hp)
  have hdirectory : hasFlag oDirectory oDirectory = true := by decide
  have hcloexec : hasFlag oDirectory oCloexec = false := by decide
  have hwhite : v.whiteouts.has (reached entries d) = false := by rw [h.whiteouts]; rfl
  unfold openFile
  rw [absolute_pathOf]
  dsimp only
  have hreached : resolvePath (linksOf entries) (pathOf d) = reached entries d := rfl
  rw [if_neg hnull, if_neg hrandom, h.links, hreached]
  simp only [hwhite, hdirectory, hcloexec, Bool.false_eq_true, false_and, if_false, if_true]

theorem listed_iff (h : Loaded v entries) (d : List Component) (n : Component) :
    Listed v d n ↔ NameShown entries d n := by
  unfold Listed NameShown DirShown
  by_cases hdev : isDevice (pathOf d)
  · obtain ⟨file, hopen, -, hpath⟩ := opened_device h hdev (absolute_pathOf d) oDirectory
    refine iff_of_false ?_ fun hboth => hboth.1.1 hdev
    rintro ⟨file', path, hopen', hpath', -⟩
    rw [hopen] at hopen'
    rw [← Option.some.inj hopen', hpath] at hpath'
    cases hpath'
  · have hopen := openFile_directory h hdev
    rw [and_iff_right hdev, ← h.dirs, ← h.dirs, ← h.names]
    split_ifs at hopen with hdir
    · rw [and_iff_right hdir, opened_install h hopen]
      obtain ⟨q, hq⟩ := exists_resolvePath_eq (linksOf entries) (pathOf d)
      have hlist : n.val ∈ (readdir v (reached entries d)).map Prod.fst ↔ Enters v (reached entries d) n.val := by
        rw [reached, hq, List.mem_map]
        obtain ⟨hne, -, hdot, hdots⟩ := n.ok
        constructor
        · rintro ⟨⟨name, type⟩, hmem, rfl⟩
          obtain ⟨hname | hname, -⟩ | ⟨hhas, -⟩ := (mem_readdir v q _ type).1 hmem
          · exact absurd hname hdot
          · exact absurd hname hdots
          · exact hhas
        · intro henters
          refine ⟨(n.val, _), (mem_readdir v q n.val _).2 (.inr ⟨henters, ?_, hdot, hdots, rfl⟩), rfl⟩
          rw [h.whiteouts]
          exact Bool.false_ne_true
      rw [← hlist]
      constructor
      · rintro ⟨file, path, hfile, hpath, hmem⟩
        rw [← Option.some.inj hfile] at hpath
        rw [← Option.some.inj hpath] at hmem
        exact hmem
      · intro hmem
        exact ⟨_, _, rfl, rfl, hmem⟩
    · rw [opened_refused hopen]
      refine iff_of_false ?_ fun hboth => hdir hboth.1
      rintro ⟨file, path, hfile, -⟩
      cases hfile

end Found

/-- **The archives that are loaded completely.** -/
theorem complete_iff (entries : List TarEntry) :
    Complete (loadTar newVfs entries) (contents entries) ↔ Fits entries := by
  have h := loaded entries
  refine forall_congr' fun p => ?_
  cases contents entries p with
  | none => exact Iff.rfl
  | some node =>
    cases node with
    | file bytes =>
      exact and_congr (opensWith_iff h p bytes)
        (forall_congr' fun d => forall_congr' fun n => imp_congr_right fun _ => listed_iff h d n)
    | dir =>
      exact and_congr (statsDir_iff h p)
        (forall_congr' fun d => forall_congr' fun n => imp_congr_right fun _ => listed_iff h d n)
    | symlink => exact Iff.rfl

/-- A file, and a hard link to it. -/
def hardLinked : List TarEntry :=
  [{ name := "a".toList, type := ['0'], linkname := [], mode := none, bytes := [1] },
    { name := "b".toList, type := ['1'], linkname := "a".toList, mode := none, bytes := [] }]

/-- **A hard link is not loaded.** -/
theorem not_complete_hardLinked :
    ¬ ∀ entries, Complete (loadTar newVfs entries) (contents entries) := by
  intro hall
  have hcontents : contents hardLinked (components "/b".toList) = some (.file [1]) := by decide +kernel
  have hb := hall hardLinked (components "/b".toList)
  rw [hcontents] at hb
  have hbytes := ((opensWith_iff (loaded hardLinked) _ _).1 hb.1).2
  exact absurd hbytes (by decide +kernel)

end TarArchive
