/-
**The saved overlay.**

The filesystem can be flushed to the browser's storage and loaded again: what is kept of the namespace goes
into one file, and each file's contents into a blob whose name is the path with a token in place of every
slash.  A load takes every blob there is.  A flush writes blobs but removes none, so what was deleted since
an earlier flush comes back, and a path that spells the token comes back as another one.

Main definitions:

* `Persistence.flushToOPFS`, `Persistence.loadFromOPFS` — the two methods;
* `Persistence.Restored` — a loaded filesystem is the one that was flushed;
* `Persistence.Kept` — the condition.

Main results:

* `Persistence.content_load` — what file a load puts at a path;
* `Persistence.roundTrip_iff_kept` — **when a flush can be loaded again**.
-/

import AtuaComputer.Escaping
import AtuaComputer.JsObject
import AtuaComputer.TreeCoherence

set_option relaxedAutoImplicit false
set_option autoImplicit false

namespace Persistence

open VirtualFs Runs

/-! ### Names of blobs -/

/-- The token of a slash. -/
def token : Path := "__SLASH__".toList

/-- `path.replace(/\//g, '__SLASH__')` -/
def safeName (path : Path) : Path := Escaping.escape '/' token path

/-- `safeName.replace(/__SLASH__/g, '/')` -/
def pathOfName (name : Path) : Path := Escaping.unescape '/' token name

/-- The path spells neither the token nor a part of it that the token of a slash completes. -/
def Clear (path : Path) : Prop :=
  ¬ "__SLASH__".toList <:+: path ∧ ¬ "__SLASH_/".toList <:+: path ∧ ¬ "__SLASH/".toList <:+: path

instance (path : Path) : Decidable (Clear path) := inferInstanceAs (Decidable (_ ∧ _ ∧ _))

theorem token_ne_nil : token ≠ [] := by decide

theorem slash_notMem_token : '/' ∉ token := by decide

/-- Another symbol is itself in an escaped path. -/
theorem cons_prefix_safeName {c : Char} {t path : Path} (hc : c ≠ '_') (hs : c ≠ '/') :
    c :: t <+: safeName path ↔ ∃ rest, path = c :: rest ∧ t <+: safeName rest := by
  cases path with
  | nil => simp [safeName]
  | cons d rest =>
      by_cases hd : d = '/'
      · subst hd
        have htoken : safeName ('/' :: rest) = '_' :: (token.tail ++ safeName rest) :=
          Escaping.escape_cons_self
        rw [htoken, List.cons_prefix_cons]
        simp [hc, Ne.symm hs]
      · rw [safeName, Escaping.escape_cons_of_ne hd, List.cons_prefix_cons]
        simp only [List.cons.injEq, safeName]
        constructor
        · rintro ⟨rfl, h⟩
          exact ⟨rest, ⟨rfl, rfl⟩, h⟩
        · rintro ⟨rest, ⟨rfl, rfl⟩, h⟩
          exact ⟨rfl, h⟩

/-- An underscore is itself, or the first one of a token. -/
theorem underscore_prefix_safeName {t path : Path} :
    '_' :: t <+: safeName path ↔
      (∃ rest, path = '_' :: rest ∧ t <+: safeName rest) ∨
        ∃ rest, path = '/' :: rest ∧ t <+: token.tail ++ safeName rest := by
  cases path with
  | nil => simp [safeName]
  | cons d rest =>
      by_cases hd : d = '/'
      · subst hd
        have htoken : safeName ('/' :: rest) = '_' :: (token.tail ++ safeName rest) :=
          Escaping.escape_cons_self
        rw [htoken, List.cons_prefix_cons]
        simp
      · rw [safeName, Escaping.escape_cons_of_ne hd, List.cons_prefix_cons]
        simp only [List.cons.injEq, safeName]
        constructor
        · rintro ⟨rfl, h⟩
          exact .inl ⟨rest, ⟨rfl, rfl⟩, h⟩
        · rintro (⟨rest, ⟨rfl, rfl⟩, h⟩ | ⟨rest, ⟨rfl, rfl⟩, h⟩)
          · exact ⟨rfl, h⟩
          · exact absurd rfl hd

/-- The letters of a token are themselves. -/
theorem letters_prefix_safeName {t path : Path} :
    "SLASH".toList ++ t <+: safeName path ↔ ∃ rest, path = "SLASH".toList ++ rest ∧ t <+: safeName rest := by
  have hcons : "SLASH".toList ++ t = 'S' :: 'L' :: 'A' :: 'S' :: 'H' :: t := rfl
  rw [hcons]
  simp (disch := decide) only [cons_prefix_safeName]
  constructor
  · rintro ⟨_, rfl, _, rfl, _, rfl, _, rfl, rest, rfl, ht⟩
    exact ⟨rest, rfl, ht⟩
  · rintro ⟨rest, rfl, ht⟩
    exact ⟨_, rfl, _, rfl, _, rfl, _, rfl, rest, rfl, ht⟩

/-- The end of a token is itself, or it ends in the token of a slash. -/
theorem end_prefix_safeName {path : Path} :
    ['_', '_'] <+: safeName path ↔ ['_', '_'] <+: path ∨ ['_', '/'] <+: path ∨ ['/'] <+: path := by
  rw [underscore_prefix_safeName]
  constructor
  · rintro (⟨rest, rfl, hrest⟩ | ⟨rest, rfl, -⟩)
    · rcases underscore_prefix_safeName.1 hrest with ⟨rest, rfl, -⟩ | ⟨rest, rfl, -⟩
      · exact .inl ⟨rest, rfl⟩
      · exact .inr (.inl ⟨rest, rfl⟩)
    · exact .inr (.inr ⟨rest, rfl⟩)
  · rintro (⟨rest, rfl⟩ | ⟨rest, rfl⟩ | ⟨rest, rfl⟩)
    · exact .inl ⟨_, rfl, underscore_prefix_safeName.2 (.inl ⟨rest, rfl, List.nil_prefix⟩)⟩
    · exact .inl ⟨_, rfl, underscore_prefix_safeName.2 (.inr ⟨rest, rfl, List.nil_prefix⟩)⟩
    · exact .inr ⟨rest, rfl, ⟨_, rfl⟩⟩

/-- Where an escaped path begins with the token although the path begins with no slash. -/
theorem token_prefix_safeName {path : Path} (h : path.head? ≠ some '/') :
    token <+: safeName path ↔ ∃ rest, path = "__SLASH".toList ++ rest ∧
      (['_', '_'] <+: rest ∨ ['_', '/'] <+: rest ∨ ['/'] <+: rest) := by
  have htoken : token = '_' :: '_' :: ("SLASH".toList ++ ['_', '_']) := rfl
  rw [htoken]
  constructor
  · intro hprefix
    rcases underscore_prefix_safeName.1 hprefix with ⟨rest, rfl, hrest⟩ | ⟨rest, rfl, -⟩
    · rcases underscore_prefix_safeName.1 hrest with ⟨rest, rfl, hletters⟩ | ⟨rest, rfl, hletters⟩
      · obtain ⟨rest, rfl, hend⟩ := letters_prefix_safeName.1 hletters
        exact ⟨rest, rfl, end_prefix_safeName.1 hend⟩
      · -- the token of a slash goes on with another underscore
        exact absurd (List.cons_prefix_cons.1 hletters).1 (by decide)
    · exact absurd rfl h
  · rintro ⟨rest, rfl, hrest⟩
    have hletters := letters_prefix_safeName.2 ⟨rest, rfl, end_prefix_safeName.2 hrest⟩
    exact underscore_prefix_safeName.2 (.inl ⟨_, rfl, underscore_prefix_safeName.2 (.inl ⟨_, rfl, hletters⟩)⟩)

/-- A word that begins with the beginning of the token occurs in a path. -/
theorem infix_iff (w path : Path) :
    "__SLASH".toList ++ w <:+: path ↔ ∃ s rest, s <:+ path ∧ s = "__SLASH".toList ++ rest ∧ w <+: rest := by
  rw [List.infix_iff_prefix_suffix]
  constructor
  · rintro ⟨s, ⟨rest, rfl⟩, hs⟩
    exact ⟨_, w ++ rest, hs, List.append_assoc _ _ _, List.prefix_append _ _⟩
  · rintro ⟨_, _, hs, rfl, rest, rfl⟩
    exact ⟨_, ⟨rest, List.append_assoc _ _ _⟩, hs⟩

theorem plain_iff_clear (path : Path) : Escaping.Plain '/' token path ↔ Clear path := by
  have hclear : Clear path ↔ ¬ "__SLASH".toList ++ ['_', '_'] <:+: path ∧
      ¬ "__SLASH".toList ++ ['_', '/'] <:+: path ∧ ¬ "__SLASH".toList ++ ['/'] <:+: path := Iff.rfl
  rw [hclear, infix_iff, infix_iff, infix_iff]
  constructor
  · intro h
    have hnot : ∀ s rest, s <:+ path → s = "__SLASH".toList ++ rest →
        ¬ (['_', '_'] <+: rest ∨ ['_', '/'] <+: rest ∨ ['/'] <+: rest) := by
      rintro s rest hs rfl hrest
      have hhead : ("__SLASH".toList ++ rest).head? ≠ some '/' := by simp
      exact h _ hs hhead ((token_prefix_safeName hhead).2 ⟨rest, rfl, hrest⟩)
    exact ⟨fun ⟨s, rest, hs, heq, hw⟩ => hnot s rest hs heq (.inl hw),
      fun ⟨s, rest, hs, heq, hw⟩ => hnot s rest hs heq (.inr (.inl hw)),
      fun ⟨s, rest, hs, heq, hw⟩ => hnot s rest hs heq (.inr (.inr hw))⟩
  · rintro ⟨h₁, h₂, h₃⟩ s hs hhead htoken
    obtain ⟨rest, heq, hw | hw | hw⟩ := (token_prefix_safeName hhead).1 htoken
    · exact h₁ ⟨s, rest, hs, heq, hw⟩
    · exact h₂ ⟨s, rest, hs, heq, hw⟩
    · exact h₃ ⟨s, rest, hs, heq, hw⟩

/-- **The path of a blob is the path it was named after, if that one is clear.** -/
theorem pathOfName_safeName_iff {path : Path} : pathOfName (safeName path) = path ↔ Clear path :=
  (Escaping.unescape_escape_iff token_ne_nil).trans (plain_iff_clear path)

theorem safeName_pathOfName {name : Path} (h : '/' ∉ name) : safeName (pathOfName name) = name :=
  Escaping.escape_unescape token_ne_nil h

theorem slash_notMem_safeName (path : Path) : '/' ∉ safeName path :=
  Escaping.symbol_notMem_escape slash_notMem_token

/-! ### Flushing and loading -/

/-- What `state.json` holds.  The text of it keeps strings, numbers, arrays and objects as they are. -/
structure StateJson where
  dirs : List Path
  symlinks : JsMap Path Path
  whiteouts : List Path
  metadata : JsMap Path Meta
  children : JsMap Path (List Path)
  fileList : List Path

/-- The directory `overlay` of the storage: `state.json`, and the blobs in `files`. -/
structure Overlay where
  state : Option StateJson
  files : JsMap Path (List UInt8)

/-- The state that `flushToOPFS` writes. -/
def stateOf (v : Vfs) : StateJson where
  dirs := v.dirs.keys
  symlinks := JsObject.fromEntries v.symlinks.entries
  whiteouts := v.whiteouts.keys
  metadata := JsObject.fromEntries v.metadata.entries
  children := JsObject.assignAll JsMap.empty (v.children.entries.map fun e => (e.1, e.2.keys))
  fileList := v.files.keys

/-- The blobs that `flushToOPFS` writes, in its order. -/
def blobsOf (v : Vfs) : List (Path × List UInt8) :=
  v.files.entries.map fun e => (safeName e.1, bytesOf v e.2)

/-- `flushToOPFS` -/
def flushToOPFS (v : Vfs) (overlay : Overlay) : Overlay where
  state := some (stateOf v)
  files := overlay.files.setAll (blobsOf v)

/-- The maps and sets of `loadFromOPFS`. -/
def loadState (v : Vfs) (state : StateJson) : Vfs :=
  { v with
    dirs := v.dirs.setAll (state.dirs.map fun d => (d, ()))
    whiteouts := v.whiteouts.setAll (state.whiteouts.map fun w => (w, ()))
    symlinks := v.symlinks.setAll (JsObject.entries state.symlinks)
    metadata := v.metadata.setAll (JsObject.entries state.metadata)
    children :=
      v.children.setAll ((JsObject.entries state.children).map fun e => (e.1, JsMap.ofKeys e.2)) }

/-- One round of the loop of `loadFromOPFS` over the blobs. -/
def loadBlob (v : Vfs) (blob : Path × List UInt8) : Vfs :=
  let (v, buf) := newBuffer v blob.2
  { v with files := v.files.set (pathOfName blob.1) buf }

/-- `loadFromOPFS`, which visits the blobs in the order of `listing`; whether there was an overlay. -/
def loadFromOPFS (v : Vfs) (overlay : Overlay) (listing : List (Path × List UInt8)) : Vfs × Bool :=
  match overlay.state with
  | none => (v, false)
  | some state => (listing.foldl loadBlob (loadState v state), true)

/-- The contents of the file at a path. -/
def content (v : Vfs) (path : Path) : Option (List UInt8) := (v.files.get? path).map (bytesOf v)

/-- A loaded filesystem is the one that was flushed. -/
structure Restored (flushed loaded : Vfs) : Prop where
  files : ∀ path, content loaded path = content flushed path
  dirs : ∀ path, loaded.dirs.has path = flushed.dirs.has path
  symlinks : ∀ path, loaded.symlinks.get? path = flushed.symlinks.get? path
  whiteouts : ∀ path, loaded.whiteouts.has path = flushed.whiteouts.has path
  metadata : ∀ path, loaded.metadata.get? path = flushed.metadata.get? path
  listings : ∀ dirPath, readdir loaded dirPath = readdir flushed dirPath

/-! ### Runs -/

/-- The filesystem and the storage. -/
structure State where
  vfs : Vfs
  overlay : Overlay

/-- The operations: those that change the namespace and the contents, what the kernel does with an open file
and with metadata, and the flush. -/
inductive Op where
  | vfs (op : TreeCoherence.Op)
  | ftruncate (fd : ℤ) (len : ℕ)
  | close (fd : ℤ)
  | setMetadata (path : Path) (info : Meta)
  | flush

/-- The state after an operation. -/
def after (limit : ℕ) (s : State) : Op → State
  | .vfs op => { s with vfs := TreeCoherence.after limit s.vfs op }
  | .ftruncate fd len => { s with vfs := (truncateFile limit s.vfs fd len).1 }
  | .close fd => { s with vfs := closeFile s.vfs fd }
  | .setMetadata path info => { s with vfs := { s.vfs with metadata := s.vfs.metadata.set path info } }
  | .flush => { s with overlay := flushToOPFS s.vfs s.overlay }

/-- The step relation. -/
def Step (limit : ℕ) (s : State) (op : Op) (s' : State) : Prop := s' = after limit s op

/-- A new filesystem and an empty storage. -/
def fresh : State where
  vfs := newVfs
  overlay := { state := none, files := JsMap.empty }

/-- A flush now, and a load into a new filesystem after it, would give the filesystem again, in whatever
order the storage lists the blobs. -/
def RoundTrip (s : State) : Prop :=
  ∀ listing, listing.Perm (flushToOPFS s.vfs s.overlay).files.entries →
    Restored s.vfs (loadFromOPFS newVfs (flushToOPFS s.vfs s.overlay) listing).1

/-- No path of a file spells the token, and every blob of an earlier flush has the name of a file that is
still there. -/
structure Kept (s : State) : Prop where
  clear : ∀ path, s.vfs.files.has path = true → Clear path
  named : ∀ name, s.overlay.files.has name = true → ∃ path, s.vfs.files.has path = true ∧ safeName path = name

/-! ### What a load puts where -/

/-- The buffers that the files name are in the store. -/
def Stored (v : Vfs) : Prop := ∀ path buf, v.files.get? path = some buf → buf < v.buffers.length

theorem content_loadBlob {v : Vfs} (h : Stored v) (blob : Path × List UInt8) (path : Path) :
    content (loadBlob v blob) path =
      if path = pathOfName blob.1 then some blob.2 else content v path := by
  have hget : (loadBlob v blob).files.get? path =
      if path = pathOfName blob.1 then some v.buffers.length else v.files.get? path :=
    JsMap.get?_set _ _ _ _
  have hbuffers : (loadBlob v blob).buffers = v.buffers ++ [blob.2] := rfl
  rw [content, hget]
  split_ifs with hpath
  · simp [bytesOf, hbuffers]
  · rw [content]
    cases hold : v.files.get? path with
    | none => rfl
    | some buf => simp [bytesOf, hbuffers, List.getElem?_append_left (h path buf hold)]

theorem stored_loadBlob {v : Vfs} (h : Stored v) (blob : Path × List UInt8) : Stored (loadBlob v blob) := by
  intro path buf hget
  have hset : (v.files.set (pathOfName blob.1) v.buffers.length).get? path = some buf := hget
  have hlength : (loadBlob v blob).buffers.length = v.buffers.length + 1 := by simp [loadBlob, newBuffer]
  rw [hlength]
  rw [JsMap.get?_set] at hset
  split_ifs at hset
  · cases hset
    exact Nat.lt_succ_self _
  · exact Nat.lt_succ_of_lt (h path buf hset)

/-- The files after the loop are those of a map that is filled with the blobs. -/
theorem content_foldl_loadBlob {v : Vfs} (h : Stored v) {m : JsMap Path (List UInt8)}
    (hm : ∀ path, content v path = m.get? path) (listing : List (Path × List UInt8)) (path : Path) :
    content (listing.foldl loadBlob v) path =
      (m.setAll (listing.map fun blob => (pathOfName blob.1, blob.2))).get? path := by
  induction listing generalizing v m with
  | nil => exact hm path
  | cons blob listing ih =>
      rw [List.foldl_cons, List.map_cons, JsMap.setAll_cons]
      refine ih (stored_loadBlob h blob) fun path => ?_
      rw [content_loadBlob h, JsMap.get?_set, hm]

/-- The loop over the blobs changes only files. -/
theorem foldl_loadBlob_frame (v : Vfs) (listing : List (Path × List UInt8)) :
    ∃ buffers files, listing.foldl loadBlob v = { v with buffers, files } := by
  induction listing generalizing v with
  | nil => exact ⟨_, _, rfl⟩
  | cons blob listing ih =>
      obtain ⟨buffers, files, hrest⟩ := ih (loadBlob v blob)
      exact ⟨buffers, files, by rw [List.foldl_cons, hrest]; rfl⟩

/-- The keys of the index are paths. -/
def Rooted (children : JsMap Path (JsMap Path Unit)) : Prop :=
  ∀ dir, children.has dir = true → dir.head? = some '/'

theorem get?_children_load {v : Vfs} (h : Rooted v.children) (dir : Path) :
    (loadState newVfs (stateOf v)).children.get? dir = v.children.get? dir := by
  have hne : ∀ e ∈ v.children.entries.map fun e => (e.1, e.2.keys), e.1 ≠ "__proto__".toList := by
    intro e he heq
    obtain ⟨⟨dir, names⟩, hmem, rfl⟩ := List.mem_map.1 he
    have hroot := h dir (JsMap.has_iff.2 ⟨names, JsMap.mem_entries.1 hmem⟩)
    have hdir : dir = "__proto__".toList := heq
    rw [hdir] at hroot
    exact absurd hroot (by decide)
  have hnodup : ((JsObject.entries (stateOf v).children).map Prod.fst).Nodup :=
    ((JsObject.perm_entries _).map Prod.fst).nodup_iff.2 (stateOf v).children.nodup
  have hstate : (stateOf v).children.get? dir = (v.children.get? dir).map JsMap.keys := by
    show (JsObject.assignAll JsMap.empty _).get? dir = _
    rw [JsObject.assignAll_eq hne, JsMap.get?_setAll_map _ v.children.nodup, JsMap.setAll_entries]
  show (JsMap.empty.setAll _).get? dir = _
  rw [JsMap.get?_setAll_map _ hnodup, JsObject.get?_setAll_entries, hstate, Option.map_map]
  cases v.children.get? dir with
  | none => rfl
  | some names => exact congrArg some (JsMap.ofKeys_keys names)

/-- What `readdir` looks at. -/
theorem readdir_congr {v v' : Vfs} (hchildren : ∀ dir, v'.children.get? dir = v.children.get? dir)
    (hwhiteouts : ∀ path, v'.whiteouts.has path = v.whiteouts.has path)
    (hsymlinks : ∀ path, v'.symlinks.get? path = v.symlinks.get? path)
    (hdirs : ∀ path, v'.dirs.has path = v.dirs.has path) (dirPath : Path) :
    readdir v' dirPath = readdir v dirPath := by
  have hlinks : ∀ path, v'.symlinks.has path = v.symlinks.has path := by
    intro path
    rw [JsMap.has, JsMap.has, hsymlinks]
  have htype : ∀ path, entryType v' path = entryType v path := by
    intro path
    rw [entryType, entryType, hlinks, hdirs]
  unfold readdir
  simp only [hchildren, hwhiteouts, htype]

/-- **Everything but the files is restored by every load.** -/
theorem restored_iff {v : Vfs} (h : Rooted v.children) (overlay : Overlay) (listing : List (Path × List UInt8)) :
    Restored v (loadFromOPFS newVfs (flushToOPFS v overlay) listing).1 ↔
      ∀ path, content (loadFromOPFS newVfs (flushToOPFS v overlay) listing).1 path = content v path := by
  refine ⟨Restored.files, fun hfiles => ?_⟩
  obtain ⟨buffers, files, hframe⟩ := foldl_loadBlob_frame (loadState newVfs (stateOf v)) listing
  have hload : (loadFromOPFS newVfs (flushToOPFS v overlay) listing).1 =
      { loadState newVfs (stateOf v) with buffers, files } := hframe
  rw [hload] at hfiles ⊢
  have hdirs : ∀ path, (JsMap.ofKeys v.dirs.keys).has path = v.dirs.has path := by simp
  have hwhiteouts : ∀ path, (JsMap.ofKeys v.whiteouts.keys).has path = v.whiteouts.has path := by simp
  have hsymlinks : ∀ path, (JsMap.empty.setAll (JsObject.entries (stateOf v).symlinks)).get? path =
      v.symlinks.get? path := by
    intro path
    rw [JsObject.get?_setAll_entries]
    exact congrArg (JsMap.get? · path) (JsMap.setAll_entries v.symlinks)
  have hmetadata : ∀ path, (JsMap.empty.setAll (JsObject.entries (stateOf v).metadata)).get? path =
      v.metadata.get? path := by
    intro path
    rw [JsObject.get?_setAll_entries]
    exact congrArg (JsMap.get? · path) (JsMap.setAll_entries v.metadata)
  exact
    { files := hfiles
      dirs := hdirs
      symlinks := hsymlinks
      whiteouts := hwhiteouts
      metadata := hmetadata
      listings := readdir_congr (get?_children_load h) hwhiteouts hsymlinks hdirs }

/-- **What file a load puts at a path**: the blob with its name, if that name stands for it. -/
theorem content_load {v : Vfs} {overlay : Overlay} {state : StateJson} (hstate : overlay.state = some state)
    (hnames : ∀ name, overlay.files.has name = true → '/' ∉ name) {listing : List (Path × List UInt8)}
    (hperm : listing.Perm overlay.files.entries) (hv : v.files = JsMap.empty) (path : Path) :
    content (loadFromOPFS v overlay listing).1 path =
      if Clear path then overlay.files.get? (safeName path) else none := by
  have hload : (loadFromOPFS v overlay listing).1 = listing.foldl loadBlob (loadState v state) := by
    rw [loadFromOPFS, hstate]
  have hfiles : ∀ path, (loadState v state).files.get? path = none := by
    intro path
    rw [show (loadState v state).files = v.files from rfl, hv, JsMap.get?_empty]
  have hstored : Stored (loadState v state) := by
    intro path buf hget
    rw [hfiles] at hget
    cases hget
  have hslash : ∀ e ∈ listing, '/' ∉ e.1 := fun e he =>
    hnames e.1 (JsMap.has_iff.2 ⟨e.2, JsMap.mem_entries.1 (hperm.mem_iff.1 he)⟩)
  -- names without a slash are read as different paths
  have hnodup : ((listing.map fun blob => (pathOfName blob.1, blob.2)).map Prod.fst).Nodup := by
    rw [List.map_map]
    have hkeys : (listing.map Prod.fst).Nodup := (hperm.map Prod.fst).nodup_iff.2 overlay.files.nodup
    have hinj : ∀ e ∈ listing, ∀ e' ∈ listing, pathOfName e.1 = pathOfName e'.1 → e.1 = e'.1 := by
      intro e he e' he' heq
      rw [← safeName_pathOfName (hslash e he), heq, safeName_pathOfName (hslash e' he')]
    rw [List.Nodup, List.pairwise_map] at hkeys ⊢
    exact hkeys.imp_of_mem fun he he' hne heq => hne (hinj _ he _ he' heq)
  rw [hload, content_foldl_loadBlob hstored (m := JsMap.empty) (fun path => by rw [content, hfiles]; rfl)]
  ext bytes
  rw [JsMap.get?_setAll_empty hnodup, List.mem_map]
  constructor
  · rintro ⟨⟨name, bytes⟩, hmem, heq⟩
    cases heq
    have hname := safeName_pathOfName (hslash _ hmem)
    have hclear : Clear (pathOfName name) := pathOfName_safeName_iff.1 (congrArg pathOfName hname)
    rw [if_pos hclear, hname]
    exact JsMap.mem_entries.1 (hperm.mem_iff.1 hmem)
  · intro hget
    split_ifs at hget with hclear
    exact ⟨(safeName path, bytes), hperm.mem_iff.2 (JsMap.mem_entries.2 hget),
      Prod.ext (pathOfName_safeName_iff.2 hclear) rfl⟩

/-- The names in the storage contain no slash. -/
def Named (overlay : Overlay) : Prop := ∀ name, overlay.files.has name = true → '/' ∉ name

theorem mem_keys_blobsOf {v : Vfs} {name : Path} :
    name ∈ (blobsOf v).map Prod.fst ↔ ∃ path, v.files.has path = true ∧ safeName path = name := by
  rw [blobsOf, List.map_map, List.mem_map]
  constructor
  · rintro ⟨⟨path, buf⟩, hmem, rfl⟩
    exact ⟨path, JsMap.has_iff.2 ⟨buf, JsMap.mem_entries.1 hmem⟩, rfl⟩
  · rintro ⟨path, hpath, rfl⟩
    obtain ⟨buf, hget⟩ := JsMap.has_iff.1 hpath
    exact ⟨(path, buf), JsMap.mem_entries.2 hget, rfl⟩

theorem named_flushToOPFS {v : Vfs} {overlay : Overlay} (h : Named overlay) :
    Named (flushToOPFS v overlay) := by
  intro name hname
  rcases JsMap.has_setAll.1 hname with hmem | hold
  · obtain ⟨path, -, rfl⟩ := mem_keys_blobsOf.1 hmem
    exact slash_notMem_safeName path
  · exact h name hold

/-- The blob of a file with a clear path, when all paths are clear. -/
theorem get?_flushToOPFS {v : Vfs} (overlay : Overlay) (h : ∀ path, v.files.has path = true → Clear path)
    {path : Path} {buf : Buf} (hget : v.files.get? path = some buf) :
    (flushToOPFS v overlay).files.get? (safeName path) = some (bytesOf v buf) := by
  have hnodup : ((blobsOf v).map Prod.fst).Nodup := by
    have hkeys := v.files.nodup
    rw [blobsOf, List.map_map, List.Nodup, List.pairwise_map]
    rw [List.Nodup, List.pairwise_map] at hkeys
    refine hkeys.imp_of_mem fun {e e'} he he' hne heq => hne ?_
    have hclear : ∀ e ∈ v.files.entries, pathOfName (safeName e.1) = e.1 := fun e he =>
      pathOfName_safeName_iff.2 (h e.1 (JsMap.has_iff.2 ⟨e.2, JsMap.mem_entries.1 he⟩))
    rw [← hclear e he, ← hclear e' he']
    exact congrArg pathOfName heq
  exact JsMap.get?_setAll hnodup (List.mem_map.2 ⟨(path, buf), JsMap.mem_entries.2 hget, rfl⟩)

theorem content_isSome {v : Vfs} {path : Path} : (content v path).isSome = v.files.has path := by
  rw [content, Option.isSome_map, JsMap.has]

/-- **When a flush can be loaded again**: when the paths of the files are clear, and no blob is left over. -/
theorem roundTrip_iff_kept {s : State} (hroot : Rooted s.vfs.children) (hnamed : Named s.overlay) :
    RoundTrip s ↔ Kept s := by
  have hload : ∀ listing : List (Path × List UInt8),
      listing.Perm (flushToOPFS s.vfs s.overlay).files.entries → ∀ path,
        content (loadFromOPFS newVfs (flushToOPFS s.vfs s.overlay) listing).1 path =
          if Clear path then (flushToOPFS s.vfs s.overlay).files.get? (safeName path) else none :=
    fun listing hperm path => content_load rfl (named_flushToOPFS hnamed) hperm rfl path
  constructor
  · intro h
    have hfiles := (h _ (List.Perm.refl _)).files
    simp only [hload _ (List.Perm.refl _)] at hfiles
    have hclear : ∀ path, s.vfs.files.has path = true → Clear path := by
      intro path hpath
      rw [← content_isSome, ← hfiles path] at hpath
      split_ifs at hpath with hclear
      · exact hclear
      · cases hpath
    refine ⟨hclear, fun name hname => ?_⟩
    have hslash := hnamed name hname
    have hback := safeName_pathOfName hslash
    have hclear : Clear (pathOfName name) := pathOfName_safeName_iff.1 (congrArg pathOfName hback)
    refine ⟨pathOfName name, ?_, hback⟩
    rw [← content_isSome, ← hfiles, if_pos hclear, hback]
    exact JsMap.has_setAll.2 (.inr hname)
  · intro h listing hperm
    rw [restored_iff hroot]
    intro path
    rw [hload listing hperm path]
    cases hget : s.vfs.files.get? path with
    | some buf =>
        rw [if_pos (h.clear path (JsMap.has_iff.2 ⟨buf, hget⟩)), get?_flushToOPFS _ h.clear hget, content, hget]
        rfl
    | none =>
        rw [content, hget, Option.map_none]
        split_ifs with hclear
        · rw [← JsMap.has_eq_false_iff, Bool.eq_false_iff]
          intro hname
          -- a blob with this name would belong to a file with this path
          obtain ⟨path', hpath', heq⟩ : ∃ path', s.vfs.files.has path' = true ∧ safeName path' = safeName path := by
            rcases JsMap.has_setAll.1 hname with hmem | hold
            · exact mem_keys_blobsOf.1 hmem
            · exact h.named _ hold
          have hsame := congrArg pathOfName heq
          rw [pathOfName_safeName_iff.2 hclear, pathOfName_safeName_iff.2 (h.clear path' hpath')] at hsame
          rw [hsame, JsMap.has, hget] at hpath'
          cases hpath'
        · rfl

/-! ### The keys of the index -/

theorem Rooted.set {children : JsMap Path (JsMap Path Unit)} (h : Rooted children) {dir : Path}
    (hdir : dir.head? = some '/') (names : JsMap Path Unit) : Rooted (children.set dir names) := by
  intro d hd
  rcases JsMap.has_set.1 hd with rfl | hd
  · exact hdir
  · exact h d hd

theorem Rooted.delete {children : JsMap Path (JsMap Path Unit)} (h : Rooted children) (dir : Path) :
    Rooted (children.delete dir) := fun d hd => h d (JsMap.has_delete.1 hd).2

theorem splitLast_head {path parent name : Path} (h : splitLast path = some (parent, name)) :
    parent.head? = path.head? := by
  unfold splitLast at h
  dsimp only at h
  split_ifs at h with hparent
  cases h
  generalize path.length - _ - 1 = n at hparent ⊢
  cases n with
  | zero => exact absurd rfl hparent
  | succ n => cases path <;> rfl

theorem rooted_addChild {v : Vfs} (h : Rooted v.children) {path : Path} (hpath : path.head? = some '/') :
    Rooted (addChild v path).children := by
  unfold addChild addName
  cases hsplit : splitLast path with
  | none => exact h.set rfl _
  | some e => exact h.set ((splitLast_head hsplit).trans hpath) _

theorem rooted_registerDir {v : Vfs} (h : Rooted v.children) {path : Path} (hpath : path.head? = some '/') :
    Rooted (registerDir v path).children := by
  unfold registerDir
  split_ifs
  · exact h
  · dsimp only
    split_ifs
    · exact rooted_addChild (v := { v with dirs := v.dirs.set path () }) h hpath
    · exact rooted_addChild (h.set hpath _) hpath

theorem rooted_parents {path : Path} (h : path.head? = some '/') :
    ∀ dir ∈ parents path, dir.head? = some '/' := by
  intro dir hdir
  cases path with
  | nil => cases h
  | cons c path =>
      cases h
      unfold parents at hdir
      obtain ⟨i, -, rfl⟩ := List.mem_map.1 hdir
      have hsplit : ([] ++ '/' :: path).splitOn '/' = [] :: path.splitOn '/' :=
        List.splitOn_append_cons_self_of_not_mem List.not_mem_nil path
      rw [List.nil_append] at hsplit
      rw [hsplit, List.take_succ_cons]
      split_ifs with hnil
      · rfl
      · cases htake : (path.splitOn '/').take i with
        | nil =>
            rw [htake] at hnil
            exact absurd rfl hnil
        | cons part rest =>
            rw [slash_join _ (List.cons_ne_nil _ _)]
            rfl

theorem rooted_registerParents {v : Vfs} (h : Rooted v.children) {path : Path} (hpath : path.head? = some '/') :
    Rooted (registerParents v path).children := by
  have hdirs := rooted_parents hpath
  unfold registerParents
  generalize parents path = dirs at hdirs
  induction dirs generalizing v with
  | nil => exact h
  | cons dir dirs ih =>
      exact ih (rooted_registerDir h (hdirs dir List.mem_cons_self))
        fun d hd => hdirs d (List.mem_cons_of_mem _ hd)

theorem rooted_removeChild {v : Vfs} (h : Rooted v.children) (path : Path) : Rooted (removeChild v path).children := by
  unfold removeChild
  split
  · exact h
  · next names hget => exact h.set (h _ (JsMap.has_iff.2 ⟨names, hget⟩)) _

theorem rooted_addFile {v : Vfs} (h : Rooted v.children) (path : Path) (bytes : List UInt8) :
    Rooted (addFile v path bytes).children := by
  have hpath := head?_absolute path
  unfold addFile
  refine rooted_addChild (rooted_registerParents ?_ hpath) hpath
  exact h

theorem rooted_mkdir {v : Vfs} (h : Rooted v.children) (path : Path) : Rooted (mkdir v path).children := by
  have hpath := head?_normalizePath path
  exact rooted_registerParents (rooted_registerDir h hpath) hpath

theorem rooted_unlink {v : Vfs} (h : Rooted v.children) (path : Path) : Rooted (unlink v path).children := by
  unfold unlink
  refine rooted_removeChild ?_ _
  exact h

theorem rooted_rmdir {v : Vfs} (h : Rooted v.children) (path : Path) : Rooted (rmdir v path).children := by
  unfold rmdir
  refine rooted_removeChild ?_ _
  exact h.delete _

theorem rooted_setLink {v : Vfs} (h : Rooted v.children) (target : Path) {path : Path}
    (hpath : path.head? = some '/') : Rooted (setLink v target path).children := by
  unfold setLink
  refine rooted_addChild ?_ hpath
  exact h

theorem rooted_moveDir {v : Vfs} (h : Rooted v.children) (source : Path) {target : Path}
    (ht : target.head? = some '/') : Rooted (moveDir v source target).children := by
  unfold moveDir
  split_ifs
  · dsimp only
    split
    · exact h
    · exact (h.delete source).set ht _
  · exact h

theorem rooted_rename {v : Vfs} (h : Rooted v.children) (source target : Path) :
    Rooted (rename v source target).children := by
  have hroot := head?_normalizePath target
  unfold rename
  refine rooted_registerParents (rooted_addChild (rooted_removeChild ?_ _) hroot) hroot
  refine rooted_moveDir ?_ _ hroot
  exact h

theorem rooted_tarName {name : Path} (h : tarName name ≠ []) : (tarName name).head? = some '/' := by
  obtain ⟨path, htar⟩ : ∃ path, tarName name = stripSlashes (absolute path) := ⟨_, rfl⟩
  have hprefix : stripSlashes (absolute path) <+: absolute path := by
    have hsuffix := List.dropWhile_suffix (l := (absolute path).reverse) fun c => decide (c = '/')
    rw [← List.reverse_prefix, List.reverse_reverse] at hsuffix
    exact hsuffix
  rw [htar] at h ⊢
  obtain ⟨rest, hrest⟩ := hprefix
  have hroot := head?_absolute path
  cases hstrip : stripSlashes (absolute path) with
  | nil => exact absurd hstrip h
  | cons c tail =>
      rw [← hrest, hstrip] at hroot
      exact hroot

theorem rooted_loadEntry {v : Vfs} (h : Rooted v.children) (entry : TarEntry) :
    Rooted (loadEntry v entry).children := by
  by_cases hname : tarName entry.name = []
  · rw [loadEntry, hname, if_pos (.inl rfl)]
    exact h
  · have hpath := rooted_tarName hname
    have hfile (v : Vfs) (hv : Rooted v.children) :
        Rooted (addChild (registerParents v (tarName entry.name)) (tarName entry.name)).children :=
      rooted_addChild (rooted_registerParents hv hpath) hpath
    unfold loadEntry
    generalize tarName entry.name = name at hpath hfile
    dsimp only
    split_ifs
    · exact h
    · exact rooted_registerDir h hpath
    · exact rooted_setLink h _ hpath
    all_goals first | exact h | exact hfile _ h

theorem rooted_createFile {v : Vfs} (h : Rooted v.children) {path : Path} (hpath : path.head? = some '/')
    (mode : Int32) : Rooted (createFile v path mode).1.children := by
  have hnew (v : Vfs) (hv : Rooted v.children) : Rooted (addChild (registerParents v path) path).children :=
    rooted_addChild (rooted_registerParents hv hpath) hpath
  unfold createFile
  dsimp only
  split_ifs
  · exact hnew _ h
  · exact hnew _ h

theorem rooted_openContent {v : Vfs} (h : Rooted v.children) {path : Path} (hpath : path.head? = some '/')
    (flags mode : Int32) : Rooted (openContent v path flags mode).1.children := by
  have hcreate := rooted_createFile h hpath mode
  unfold openContent
  cases v.files.get? path with
  | some content =>
      dsimp only
      split_ifs <;> exact h
  | none =>
      dsimp only
      split_ifs
      · exact hcreate
      · exact hcreate
      · exact h
      · exact h

theorem rooted_openFile {v : Vfs} (h : Rooted v.children) (path : Path) (flags mode : Int32) :
    Rooted (openFile v path flags mode).1.children := by
  have hopen := rooted_openContent h (head?_resolvePath v.symlinks (absolute path)) flags mode
  unfold openFile
  dsimp only
  split_ifs
  · exact h
  · exact h
  · exact h
  · exact h
  · exact h
  · exact h
  all_goals
    split
    · first | exact h | exact hopen
    · exact hopen

/-- A change of the contents of an open file leaves the index alone. -/
theorem children_updateFile (v : Vfs) (fd : ℤ) (f : OpenFile → OpenFile) :
    (updateFile v fd f).children = v.children := by
  unfold updateFile
  split <;> rfl

theorem children_storeBytes (v : Vfs) (content : Buf) (src : List UInt8) (off : ℤ) :
    (storeBytes v content src off).1.children = v.children := by
  unfold storeBytes
  split <;> rfl

theorem children_writeFile (limit : ℕ) (v : Vfs) (fd : ℤ) (src : List UInt8) (offset : ℤ) :
    (writeFile limit v fd src offset).1.children = v.children := by
  have hcontent (path : Path) (content : Buf) (off : ℤ) :
      (writeContent limit v fd path content src off).1.children = v.children := by
    unfold writeContent
    dsimp only
    split_ifs
    · rfl
    · rw [children_storeBytes]
      exact children_updateFile _ _ _
    · exact children_storeBytes _ _ _ _
  unfold writeFile
  split
  · rfl
  · dsimp only
    split_ifs
    · rfl
    all_goals
      split
      · rfl
      · exact hcontent _ _ _

theorem children_truncateFile (limit : ℕ) (v : Vfs) (fd : ℤ) (len : ℕ) :
    (truncateFile limit v fd len).1.children = v.children := by
  have hresize (path : Path) (content : Buf) :
      (resizeFile limit v fd path content len).1.children = v.children := by
    unfold resizeFile
    dsimp only
    split_ifs
    · rfl
    · rfl
    · rfl
    · exact children_updateFile _ _ _
    · exact children_updateFile _ _ _
  unfold truncateFile
  split
  · rfl
  · split_ifs
    · rfl
    · rfl
    · split
      · rfl
      · exact hresize _ _

theorem rooted_after {v : Vfs} (h : Rooted v.children) (limit : ℕ) (op : TreeCoherence.Op) :
    Rooted (TreeCoherence.after limit v op).children := by
  cases op with
  | loadTar entries =>
      show Rooted (entries.foldl loadEntry v).children
      induction entries generalizing v with
      | nil => exact h
      | cons entry entries ih => exact ih (rooted_loadEntry h entry)
  | addFile path bytes => exact rooted_addFile h path bytes
  | «open» path flags mode => exact rooted_openFile h path flags mode
  | mkdir path => exact rooted_mkdir h path
  | unlink path => exact rooted_unlink h path
  | rmdir path => exact rooted_rmdir h path
  | createSymlink text linkpath =>
      unfold TreeCoherence.after createSymlink
      refine rooted_setLink ?_ _ (head?_normalizePath linkpath)
      exact h
  | rename source goal => exact rooted_rename h source goal
  | write fd src offset =>
      rw [TreeCoherence.after, children_writeFile]
      exact h

/-! ### The main result -/

/-- The invariant: the index has paths as keys, and the names in the storage contain no slash. -/
structure Inv (s : State) : Prop where
  rooted : Rooted s.vfs.children
  named : Named s.overlay

theorem inv_fresh : Inv fresh where
  rooted := fun _ h => by cases h
  named := fun _ h => by cases h

theorem inv_after {limit : ℕ} {s : State} (h : Inv s) (op : Op) : Inv (after limit s op) := by
  cases op with
  | vfs op => exact ⟨rooted_after h.rooted limit op, h.named⟩
  | ftruncate fd len =>
      refine ⟨?_, h.named⟩
      rw [after, children_truncateFile]
      exact h.rooted
  | close fd => exact ⟨h.rooted, h.named⟩
  | setMetadata path info => exact ⟨h.rooted, h.named⟩
  | flush => exact ⟨h.rooted, named_flushToOPFS h.named⟩

/-- **When a flush can be loaded again**: in every state of every run, exactly when the paths of the files
are clear and no blob of an earlier flush has outlived its file. -/
theorem roundTrip_iff {limit : ℕ} {tr : List (Op × State)} (hrun : IsRun (Step limit) fresh tr) :
    Throughout (fun s => RoundTrip s ↔ Kept s) fresh tr := by
  have hstep : ∀ s op s', Inv s → Step limit s op s' → Inv s' := by
    rintro s op _ h rfl
    exact inv_after h op
  exact (throughout_of_isRun hstep inv_fresh hrun).mono fun s h => roundTrip_iff_kept h.rooted h.named

/-- A file is made and written, flushed, renamed back and forth, and flushed again. -/
theorem roundTrip_iff_renamedBack :
    Throughout (fun s => RoundTrip s ↔ Kept s) fresh
      (trace (after 4096) fresh
        [.vfs (.open "/a".toList oCreat 0o644), .vfs (.write 4 [104, 105] 0), .flush,
          .vfs (.rename "/a".toList "/b".toList), .vfs (.rename "/b".toList "/a".toList), .flush]) :=
  roundTrip_iff (isRun_trace _ _ _)

/-- A file is flushed and then removed: the next flush leaves its blob, and a load brings it back. -/
theorem not_roundTrip_removedFile :
    ¬ Throughout RoundTrip fresh
      (trace (after 4096) fresh
        [.vfs (.addFile "/a".toList [104, 105]), .flush, .vfs (.unlink "/a".toList)]) := by
  intro h
  have hload := (h.final _ (List.Perm.refl _)).files "/a".toList
  rw [final_trace] at hload
  exact absurd hload (by decide)

end Persistence
