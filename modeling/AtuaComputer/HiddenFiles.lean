/-
**Open files that a call does not name.**

A syscall reaches the table of open files through handles: those of its descriptors, and those that it is
given as numbers.  A change of the table that cannot be told through these handles is not seen by the call at
all.  It returns the same, leaves the same behind up to the change, and so has neither read nor written the
part of the table that was changed.

Main definitions:

* `HiddenFiles.Hides` — a change of the table that cannot be told through some handles;
* `HiddenFiles.Sees`, `HiddenFiles.Names` — the handles of a process, and those that a call is given.

Main results:

* `HiddenFiles.skips_rename`, … — the namespace is changed without the table;
* `HiddenFiles.commutes_writeFile`, … — what is done through a handle;
* `HiddenFiles.unseen_fileHandler`, `HiddenFiles.unseen_handler` — **calls do not see what is hidden**.
-/

import AtuaComputer.Blindness
import AtuaComputer.Syscalls

set_option relaxedAutoImplicit false
set_option autoImplicit false

namespace HiddenFiles

open VirtualFs Kernel Bridge FileIo Syscalls Blindness

/-! ### Changes of the namespace -/

/-- A filesystem with another table of open files. -/
def withTable (v : Vfs) (nextFd : ℤ) (openFiles : JsMap ℤ OpenFile) : Vfs := { v with nextFd, openFiles }

/-- A change that neither reads nor writes the table of open files. -/
def Skips (f : Vfs → Vfs) : Prop := ∀ v n m, f (withTable v n m) = withTable (f v) n m

theorem Skips.sameTable {f : Vfs → Vfs} (h : Skips f) (v : Vfs) : SameTable v (f v) := by
  have hself : f v = withTable (f v) v.nextFd v.openFiles := h v v.nextFd v.openFiles
  refine ⟨?_, ?_⟩
  · rw [hself]
    rfl
  · rw [hself]
    rfl

theorem Skips.comp {f g : Vfs → Vfs} (hf : Skips f) (hg : Skips g) : Skips fun v => g (f v) := by
  intro v n m
  show g (f (withTable v n m)) = _
  rw [hf, hg]

theorem skips_ite {c : Vfs → Prop} [∀ v, Decidable (c v)] (hc : ∀ v n m, c (withTable v n m) ↔ c v)
    {f g : Vfs → Vfs} (hf : Skips f) (hg : Skips g) : Skips fun v => if c v then f v else g v := by
  intro v n m
  show (if c (withTable v n m) then f (withTable v n m) else g (withTable v n m)) =
    withTable (if c v then f v else g v) n m
  by_cases h : c v
  · rw [if_pos h, if_pos ((hc v n m).2 h), hf]
  · rw [if_neg h, if_neg fun h' => h ((hc v n m).1 h'), hg]

theorem skips_id : Skips fun v => v := fun _ _ _ => rfl

theorem skips_addChild (path : Path) : Skips fun v => addChild v path := fun _ _ _ => rfl

theorem skips_registerDir (path : Path) : Skips fun v => registerDir v path := by
  refine skips_ite (fun _ _ _ => Iff.rfl) skips_id ?_
  refine Skips.comp (g := fun v => addChild v path) ?_ (skips_addChild path)
  refine Skips.comp (f := fun v => { v with dirs := v.dirs.set path () })
    (g := fun v => if v.children.has path then v else { v with children := v.children.set path JsMap.empty })
    (fun _ _ _ => rfl) ?_
  exact skips_ite (fun _ _ _ => Iff.rfl) skips_id fun _ _ _ => rfl

theorem skips_registerParents (path : Path) : Skips fun v => registerParents v path := by
  unfold registerParents
  induction parents path with
  | nil => exact skips_id
  | cons dir dirs ih => exact (skips_registerDir dir).comp ih

theorem skips_removeChild (path : Path) : Skips fun v => removeChild v path := by
  intro v n m
  unfold removeChild
  cases h : v.children.get? (parentOf path) with
  | none => simp [withTable, h]
  | some names => simp [withTable, h]

theorem skips_addFile (path : Path) (bytes : List UInt8) : Skips fun v => addFile v path bytes := by
  refine Skips.comp (g := fun v => addChild v (absolute path)) ?_ (skips_addChild _)
  refine Skips.comp (g := fun v => registerParents v (absolute path)) ?_ (skips_registerParents _)
  exact fun _ _ _ => rfl

theorem skips_mkdir (path : Path) : Skips fun v => VirtualFs.mkdir v path := by
  refine Skips.comp (f := fun v => registerParents (registerDir v (normalizePath path)) (normalizePath path))
    (g := fun v => { v with whiteouts := v.whiteouts.delete (normalizePath path) }) ?_ fun _ _ _ => rfl
  exact (skips_registerDir _).comp (skips_registerParents _)

theorem skips_unlink (path : Path) : Skips fun v => VirtualFs.unlink v path := by
  refine Skips.comp (g := fun v => removeChild v (normalizePath path)) ?_ (skips_removeChild _)
  exact fun _ _ _ => rfl

theorem skips_rmdir (path : Path) : Skips fun v => VirtualFs.rmdir v path := by
  refine Skips.comp (g := fun v => removeChild v (normalizePath path)) ?_ (skips_removeChild _)
  exact fun _ _ _ => rfl

theorem skips_createSymlink (target linkpath : Path) : Skips fun v => createSymlink v target linkpath := by
  refine Skips.comp (g := fun v => addChild v (normalizePath linkpath)) ?_ (skips_addChild _)
  exact fun _ _ _ => rfl

theorem skips_moveDir (source target : Path) : Skips fun v => moveDir v source target := by
  refine skips_ite (fun _ _ _ => Iff.rfl) ?_ skips_id
  intro v n m
  dsimp only
  cases h : v.children.get? source with
  | none => simp [withTable, h]
  | some names => simp [withTable, h]

theorem skips_rename (source target : Path) : Skips fun v => VirtualFs.rename v source target := by
  unfold VirtualFs.rename
  generalize normalizePath source = a
  generalize normalizePath target = b
  have hkeys : Skips fun v => { v with files := moveKey v.files a b, symlinks := moveKey v.symlinks a b } :=
    fun _ _ _ => rfl
  have hmeta : Skips fun v => { v with metadata := moveKey v.metadata a b } := fun _ _ _ => rfl
  have hwhite : Skips fun v => { v with whiteouts := (v.whiteouts.set a ()).delete b } := fun _ _ _ => rfl
  have hmoved := ((hkeys.comp (skips_moveDir a b)).comp hmeta).comp (skips_removeChild a)
  exact ((hmoved.comp (skips_addChild b)).comp (skips_registerParents b)).comp hwhite

theorem skips_setMeta (path : Path) (f : Meta → Meta) : Skips fun v => setMeta v path f := fun _ _ _ => rfl

/-- What is done at a resolved path: links are read, not the table. -/
theorem skips_resolved {f : Path → Vfs → Vfs} (hf : ∀ path, Skips (f path)) (path : Path) :
    Skips fun v => f (resolvePath v.symlinks path) v := by
  intro v n m
  exact hf (resolvePath v.symlinks path) v n m

/-! ### Changes of the table -/

/-- The table of open files. -/
abbrev Table := JsMap ℤ OpenFile

/-- The listings of the open directories. -/
abbrev Cursors := JsMap ℤ Cursor

/-- What is put in the place of a part of the state: another table, other listings, and another kernel around
the filesystem. -/
structure Mask where
  change : Table → Table
  turn : Cursors → Cursors
  rest : Kernel.State

/-- A condition on the table, with the counter that numbers it, and on the listings. -/
structure Cond where
  table : ℤ → Table → Prop
  cursors : Cursors → Prop

/-- **A mask that cannot be told through the handles that are seen**, for the tables and listings that meet a
condition: what is looked up there is the same, and what is written there is written to either. -/
structure Hides (mask : Mask) (cond : Cond) (seen : ℤ → Prop) : Prop where
  get? : ∀ m fd, seen fd → (mask.change m).get? fd = m.get? fd
  set : ∀ n m fd file, cond.table n m → seen fd → m.has fd = true →
    mask.change (m.set fd file) = (mask.change m).set fd file ∧ cond.table n (m.set fd file)
  cursor? : ∀ m fd, seen fd → (mask.turn m).get? fd = m.get? fd
  setCursor : ∀ m fd cursor, cond.cursors m → seen fd →
    mask.turn (m.set fd cursor) = (mask.turn m).set fd cursor ∧ cond.cursors (m.set fd cursor)

/-- The change in a filesystem. -/
def onTable (change : Table → Table) (v : Vfs) : Vfs := { v with openFiles := change v.openFiles }

/-- The condition on a filesystem. -/
def Meets (cond : ℤ → Table → Prop) (v : Vfs) : Prop := cond v.nextFd v.openFiles

/-- Something done on the filesystem that does not see the change. -/
def Commutes {α : Type} (change : Table → Table) (cond : ℤ → Table → Prop) (f : Vfs → Vfs × α) : Prop :=
  ∀ v, Meets cond v → f (onTable change v) = (onTable change (f v).1, (f v).2) ∧ Meets cond (f v).1

section Handles

variable {mask : Mask} {cond : Cond} {seen : ℤ → Prop}

theorem commutes_skips {α : Type} {f : Vfs → Vfs} (hf : Skips f) (a : α) :
    Commutes mask.change cond.table fun v => (f v, a) := by
  intro v hv
  obtain ⟨hn, ho⟩ := hf.sameTable v
  have hself : withTable (f v) v.nextFd (mask.change v.openFiles) = onTable mask.change (f v) := by
    unfold withTable onTable
    rw [hn, ho]
  refine ⟨?_, ?_⟩
  · have hrun := hf v v.nextFd (mask.change v.openFiles)
    rw [hself] at hrun
    exact congrArg (fun w => (w, a)) hrun
  · show cond.table (f v).nextFd (f v).openFiles
    rw [hn, ho]
    exact hv

variable (hh : Hides mask cond seen) {fd : ℤ} (hfd : seen fd)
include hh hfd

theorem onTable_updateFile {v : Vfs} (hv : Meets cond.table v) (f : OpenFile → OpenFile) :
    updateFile (onTable mask.change v) fd f = onTable mask.change (updateFile v fd f) ∧
      Meets cond.table (updateFile v fd f) := by
  unfold updateFile
  have hget : (onTable mask.change v).openFiles.get? fd = v.openFiles.get? fd := hh.get? _ fd hfd
  rw [hget]
  cases hfile : v.openFiles.get? fd with
  | none => exact ⟨rfl, hv⟩
  | some file =>
      obtain ⟨hset, hcond⟩ := hh.set v.nextFd v.openFiles fd (f file) hv hfd (JsMap.has_iff.2 ⟨file, hfile⟩)
      refine ⟨?_, hcond⟩
      unfold onTable
      rw [hset]

theorem onTable_setContent {v : Vfs} (hv : Meets cond.table v) (content : Buf) :
    setContent (onTable mask.change v) fd content = onTable mask.change (setContent v fd content) ∧
      Meets cond.table (setContent v fd content) :=
  onTable_updateFile hh hfd hv _

theorem onTable_seek {v : Vfs} (hv : Meets cond.table v) (position : ℤ) :
    seek (onTable mask.change v) fd position = onTable mask.change (seek v fd position) ∧
      Meets cond.table (seek v fd position) :=
  onTable_updateFile hh hfd hv _

theorem commutes_growFile (path : Path) (bytes : List UInt8) :
    Commutes mask.change cond.table fun v => growFile v fd path bytes := by
  intro v hv
  have hnew : Meets cond.table (newBuffer v bytes).1 := hv
  obtain ⟨hset, hcond⟩ := onTable_setContent hh hfd hnew v.buffers.length
  refine ⟨?_, hcond⟩
  show ({ setContent (onTable mask.change (newBuffer v bytes).1) fd v.buffers.length with
      files := (setContent (onTable mask.change (newBuffer v bytes).1) fd v.buffers.length).files.set path
        v.buffers.length }, v.buffers.length) = _
  rw [hset]
  rfl

omit hh hfd in
theorem commutes_storeBytes (content : Buf) (src : List UInt8) (off : ℤ) :
    Commutes mask.change cond.table fun v => storeBytes v content src off := by
  intro v hv
  have hbytes : bytesOf (onTable mask.change v) content = bytesOf v content := rfl
  unfold storeBytes
  dsimp only
  rw [hbytes]
  cases setBytes (bytesOf v content) src off with
  | none => exact ⟨rfl, hv⟩
  | some bytes => exact ⟨rfl, hv⟩

theorem commutes_writeContent (limit : ℕ) (path : Path) (content : Buf) (src : List UInt8) (off : ℤ) :
    Commutes mask.change cond.table fun v => writeContent limit v fd path content src off := by
  intro v hv
  have hbytes : bytesOf (onTable mask.change v) content = bytesOf v content := rfl
  unfold writeContent
  dsimp only
  rw [hbytes]
  split
  · split
    · exact ⟨rfl, hv⟩
    · obtain ⟨hgrow, hcond⟩ :=
        commutes_growFile hh hfd path (padTo (off + src.length).toNat (bytesOf v content)) v hv
      dsimp only at hgrow hcond
      rw [hgrow]
      exact commutes_storeBytes _ src off _ hcond
  · exact commutes_storeBytes content src off v hv

theorem commutes_writeFile (limit : ℕ) (src : List UInt8) (offset : ℤ) :
    Commutes mask.change cond.table fun v => writeFile limit v fd src offset := by
  intro v hv
  unfold writeFile
  dsimp only
  have hget : (onTable mask.change v).openFiles.get? fd = v.openFiles.get? fd := hh.get? _ fd hfd
  rw [hget]
  cases v.openFiles.get? fd with
  | none => exact ⟨rfl, hv⟩
  | some file =>
      dsimp only
      split
      · exact ⟨rfl, hv⟩
      · cases file.content with
        | none => exact ⟨rfl, hv⟩
        | some content => exact commutes_writeContent hh hfd limit file.path content src _ v hv

theorem commutes_writeNext (limit : ℕ) (buf : List UInt8) (length : ℕ) :
    Commutes mask.change cond.table fun v => writeNext limit v fd buf length := by
  intro v hv
  unfold writeNext
  dsimp only
  have hget : (onTable mask.change v).openFiles.get? fd = v.openFiles.get? fd := hh.get? _ fd hfd
  rw [hget]
  cases v.openFiles.get? fd with
  | none => exact ⟨rfl, hv⟩
  | some file =>
      have hstart : startPosition (onTable mask.change v) file = startPosition v file := rfl
      dsimp only
      rw [hstart]
      cases startPosition v file with
      | none => exact ⟨rfl, hv⟩
      | some position =>
          obtain ⟨hseek, hcond⟩ := onTable_seek hh hfd hv position
          obtain ⟨hwrite, hcond'⟩ := commutes_writeFile hh hfd limit buf position _ hcond
          dsimp only at hwrite hcond' ⊢
          rw [hseek, hwrite]
          revert hcond'
          obtain ⟨v', result⟩ := writeFile limit (seek v fd position) fd buf position
          intro hcond'
          cases result with
          | none => exact ⟨rfl, hcond'⟩
          | some written =>
              obtain ⟨hseek', hcond''⟩ := onTable_seek hh hfd hcond' (position + length)
              exact ⟨congrArg (fun w => (w, _)) hseek', hcond''⟩

theorem commutes_resizeFile (limit : ℕ) (path : Path) (content : Buf) (len : ℕ) :
    Commutes mask.change cond.table fun v => resizeFile limit v fd path content len := by
  intro v hv
  have hbytes : bytesOf (onTable mask.change v) content = bytesOf v content := rfl
  unfold resizeFile
  dsimp only
  rw [hbytes]
  split
  · split
    · exact ⟨rfl, hv⟩
    · exact ⟨rfl, hv⟩
  · split
    · exact ⟨rfl, hv⟩
    · have hnew : Meets cond.table (newBuffer v (padTo len ((bytesOf v content).take len))).1 := hv
      obtain ⟨hset, hcond⟩ := onTable_setContent hh hfd hnew v.buffers.length
      have hset' : setContent (newBuffer (onTable mask.change v) (padTo len ((bytesOf v content).take len))).1 fd
          (newBuffer (onTable mask.change v) (padTo len ((bytesOf v content).take len))).2 = _ := hset
      rw [hset']
      split
      · exact ⟨rfl, hcond⟩
      · exact ⟨rfl, hcond⟩

theorem commutes_truncateFile (limit len : ℕ) :
    Commutes mask.change cond.table fun v => truncateFile limit v fd len := by
  intro v hv
  unfold truncateFile
  dsimp only
  have hget : (onTable mask.change v).openFiles.get? fd = v.openFiles.get? fd := hh.get? _ fd hfd
  rw [hget]
  cases v.openFiles.get? fd with
  | none => exact ⟨rfl, hv⟩
  | some file =>
      dsimp only
      split
      · exact ⟨rfl, hv⟩
      · split
        · exact ⟨rfl, hv⟩
        · cases file.content with
          | none => exact ⟨rfl, hv⟩
          | some content => exact commutes_resizeFile hh hfd limit file.path content len v hv

/-- What is read through a handle that is seen. -/
theorem readFile_onTable {v : Vfs} (entropy : ℕ → UInt8) (count : ℕ) (offset : ℤ) :
    readFile (onTable mask.change v) entropy fd count offset = readFile v entropy fd count offset := by
  have hget : (onTable mask.change v).openFiles.get? fd = v.openFiles.get? fd := hh.get? _ fd hfd
  unfold readFile
  rw [hget]
  rfl

end Handles

/-! ### The state of the handlers -/

/-- The state of the handlers with what the mask puts in it. -/
def hide (mask : Mask) (s : FileIo.State) : FileIo.State :=
  { s with
    kernel := { mask.rest with vfs := onTable mask.change s.kernel.vfs }
    cursors := mask.turn s.cursors }

/-- The condition on the state of the handlers. -/
def Holds (cond : Cond) (s : FileIo.State) : Prop :=
  Meets cond.table s.kernel.vfs ∧ cond.cursors s.cursors

/-- A handler that does not see the mask. -/
abbrev Unseen {α : Type} (mask : Mask) (cond : Cond) (x : Io α) : Prop := Blind (hide mask) (Holds cond) x

section Primitives

variable {mask : Mask} {cond : Cond} {seen : ℤ → Prop}

theorem unseen_alloc (n : ℕ) : Unseen mask cond (alloc n) :=
  blind_get fun s hs => blind_ite (blind_throw ()) (blind_pure ()) s hs

theorem unseen_guestMemory (pid : ℤ) (p : Proc) : Unseen mask cond (guestMemory pid p) :=
  blind_ite (blind_get fun s hs => blind_pure (s.memory pid) s hs) (blind_throw ())

theorem unseen_storeGuest (pid : ℤ) (p : Proc) (addr : ℕ) (bytes : List UInt8) :
    Unseen mask cond (storeGuest pid p addr bytes) := by
  refine blind_bind (unseen_guestMemory pid p) fun wasm => ?_
  split
  · exact blind_throw ()
  · exact blind_modify (fun _ _ => rfl) fun _ hs => hs

theorem unseen_viewGuest (pid : ℤ) (p : Proc) (addr count : ℕ) :
    Unseen mask cond (viewGuest pid p addr count) :=
  blind_bind (unseen_guestMemory pid p) fun _ => blind_pure _

theorem unseen_sliceGuest (pid : ℤ) (p : Proc) (addr count : ℕ) :
    Unseen mask cond (sliceGuest pid p addr count) := by
  refine blind_bind (unseen_viewGuest pid p addr count) fun bytes => ?_
  exact blind_bind (unseen_alloc _) fun _ => blind_pure _

/-- A word that is read where the memory has it. -/
theorem unseen_load {n : ℕ} {α : Type} (pid : ℤ) (p : Proc) (addr : ℕ) (value : List UInt8 → α) :
    Unseen mask cond (do
      let wasm ← guestMemory pid p
      if wasm.length < addr + n then throw ()
      return value wasm) := by
  refine blind_bind (unseen_guestMemory pid p) fun wasm => ?_
  split
  · exact blind_bind (blind_throw ()) fun _ => blind_pure _
  · exact blind_pure _

theorem unseen_loadWord (pid : ℤ) (p : Proc) (addr : ℕ) : Unseen mask cond (loadWord pid p addr) :=
  unseen_load pid p addr _

theorem unseen_loadBig (pid : ℤ) (p : Proc) (addr : ℕ) : Unseen mask cond (loadBig pid p addr) :=
  unseen_load pid p addr _

theorem unseen_randomBytes (n : ℕ) : Unseen mask cond (randomBytes n) := by
  unfold randomBytes
  split_ifs
  · exact blind_bind (blind_throw ()) fun _ _ hs => ⟨rfl, hs⟩
  · exact fun _ hs => ⟨rfl, hs⟩

theorem unseen_storeWord (pid : ℤ) (p : Proc) (w addr : ℕ) (n : ℤ) :
    Unseen mask cond (storeWord pid p w addr n) :=
  unseen_storeGuest pid p addr _

theorem unseen_clearGuest (pid : ℤ) (p : Proc) (addr count : ℕ) :
    Unseen mask cond (clearGuest pid p addr count) := by
  refine blind_bind (unseen_guestMemory pid p) fun wasm => ?_
  exact blind_ite (unseen_storeGuest pid p addr _) (blind_pure ())

theorem unseen_storeCString (pid : ℤ) (p : Proc) (addr : ℕ) (str : Path) :
    Unseen mask cond (storeCString pid p addr str) := by
  refine blind_bind (unseen_storeGuest pid p addr _) fun _ => ?_
  refine blind_bind (unseen_guestMemory pid p) fun wasm => ?_
  exact blind_ite (unseen_storeGuest pid p _ _) (blind_pure ())

theorem unseen_storeFields (pid : ℤ) (p : Proc) (off : ℕ) (fields : List Path) :
    Unseen mask cond (storeFields pid p off fields) := by
  induction fields generalizing off with
  | nil => exact blind_pure ()
  | cons field fields ih => exact blind_bind (unseen_storeCString pid p off field) fun _ => ih _

theorem unseen_loadIov (pid : ℤ) (p : Proc) (iov i : ℕ) : Unseen mask cond (loadIov pid p iov i) := by
  refine blind_bind (unseen_loadWord pid p _) fun _ => ?_
  exact blind_bind (unseen_loadWord pid p _) fun _ => blind_pure _

theorem unseen_iovLoop {pid : ℤ} {p : Proc} {iov : ℕ} {round : ℤ → ℕ → ℕ → Io ℤ} {stops : Bool}
    (hr : ∀ total iovBase iovLen, Unseen mask cond (round total iovBase iovLen)) (rounds i : ℕ)
    (total : ℤ) : Unseen mask cond (iovLoop pid p iov round stops rounds i total) := by
  induction rounds generalizing i total with
  | zero => exact blind_pure _
  | succ rounds ih =>
      refine blind_bind (unseen_loadIov pid p iov i) fun words => ?_
      refine blind_bind (hr total words.1 words.2) fun n => ?_
      exact blind_ite (blind_pure _) (ih (i + 1) (total + n))

theorem unseen_gather (pid : ℤ) (p : Proc) (iov rounds i : ℕ) :
    Unseen mask cond (gather pid p iov rounds i) := by
  induction rounds generalizing i with
  | zero => exact blind_pure _
  | succ rounds ih =>
      refine blind_bind (unseen_loadIov pid p iov i) fun words => ?_
      refine blind_bind (unseen_viewGuest pid p _ _) fun piece => ?_
      exact blind_bind (ih (i + 1)) fun _ => blind_pure _

/-- Something done on the filesystem that does not see the change. -/
theorem unseen_onVfs {f : ℕ → Vfs → Vfs × Option ℤ} (hf : ∀ limit, Commutes mask.change cond.table (f limit)) :
    Unseen mask cond (onVfs f) := by
  refine blind_get fun s hs => ?_
  obtain ⟨hrun, hcond⟩ := hf s.limit s.kernel.vfs hs.1
  have hrun' : f (hide mask s).limit (hide mask s).kernel.vfs = _ := hrun
  dsimp only
  rw [hrun']
  have hset : Alike (hide mask) (Holds cond)
      (setVfs (onTable mask.change (f s.limit s.kernel.vfs).1)) (setVfs (f s.limit s.kernel.vfs).1) s :=
    ⟨rfl, hcond, hs.2⟩
  refine alike_bind hset fun _ s' hs' => ?_
  dsimp only
  split
  · exact blind_throw () s' hs'
  · exact blind_pure _ s' hs'

/-- A change of the namespace. -/
theorem unseen_change {f : Vfs → Vfs} (hf : Skips f) : Unseen mask cond (Syscalls.change f) :=
  unseen_onVfs fun _ => commutes_skips hf (some 0)

variable (hh : Hides mask cond seen) {fd : ℤ} (hfd : seen fd)
include hh hfd

theorem unseen_getFile : Unseen mask cond (getFile fd) := by
  refine blind_get fun s hs => ?_
  have hget : (hide mask s).kernel.vfs.openFiles.get? fd = s.kernel.vfs.openFiles.get? fd :=
    hh.get? _ fd hfd
  rw [hget]
  exact blind_pure _ s hs

theorem unseen_getCursor (file : OpenFile) : Unseen mask cond (getCursor fd file) := by
  refine blind_get fun s hs => ?_
  have hcursors : (hide mask s).cursors.get? fd = s.cursors.get? fd := hh.cursor? _ fd hfd
  have hreaddir : ∀ path, readdir (hide mask s).kernel.vfs path = readdir s.kernel.vfs path := fun _ => rfl
  rw [hcursors]
  split
  · exact blind_pure _ s hs
  · exact blind_throw () s hs
  · rw [hreaddir]
    exact blind_pure _ s hs

theorem unseen_setCursor (cursor : Cursor) :
    Unseen mask cond (modify fun s => { s with cursors := s.cursors.set fd cursor }) := by
  refine blind_modify (fun s hs => ?_) fun s hs => ?_
  · have hset := (hh.setCursor s.cursors fd cursor hs.2 hfd).1
    unfold hide
    rw [hset]
  · exact ⟨hs.1, (hh.setCursor s.cursors fd cursor hs.2 hfd).2⟩

theorem unseen_setPosition (position : ℤ) : Unseen mask cond (setPosition fd position) := by
  refine blind_get fun s hs => ?_
  obtain ⟨hseek, hcond⟩ := onTable_seek hh hfd hs.1 position
  have hseek' : seek (hide mask s).kernel.vfs fd position = _ := hseek
  rw [hseek']
  exact ⟨rfl, hcond, hs.2⟩

theorem unseen_vfsRead (count : ℕ) (offset : ℤ) : Unseen mask cond (vfsRead fd count offset) := by
  refine blind_bind (unseen_alloc count) fun _ => ?_
  refine blind_get fun s hs => ?_
  have hget : (hide mask s).kernel.vfs.openFiles.get? fd = s.kernel.vfs.openFiles.get? fd :=
    hh.get? _ fd hfd
  have hread : readFile (hide mask s).kernel.vfs (hide mask s).entropy fd count offset =
      readFile s.kernel.vfs s.entropy fd count offset :=
    readFile_onTable hh hfd s.entropy count offset
  rw [hget, hread]
  exact blind_ite (blind_bind (unseen_randomBytes count) fun _ => blind_pure _) (blind_pure _) s hs

theorem unseen_withFile {body : OpenFile → Io ℤ} (hb : ∀ file, Unseen mask cond (body file)) :
    Unseen mask cond (withFile fd body) := by
  refine blind_bind (unseen_getFile hh hfd) fun file => ?_
  split
  · exact blind_pure _
  · exact hb _

end Primitives

/-! ### Calls through descriptors -/

/-- All descriptors of a process have handles that are seen. -/
def Sees (seen : ℤ → Prop) (p : Proc) : Prop :=
  ∀ fd entry vfsFd, p.fdTable.get? fd = some entry → entry.kind.handle? = some vfsFd → seen vfsFd

section Calls

variable {mask : Mask} {cond : Cond} {seen : ℤ → Prop}

theorem unseen_withEntry {p : Proc} (hsees : Sees seen p) {a : Int32} {missing : Io ℤ}
    {body : FdKind → Io ℤ} (hm : Unseen mask cond missing)
    (hb : ∀ kind, (∀ vfsFd, kind.handle? = some vfsFd → seen vfsFd) → Unseen mask cond (body kind)) :
    Unseen mask cond (withEntry p a missing body) := by
  unfold withEntry
  cases he : p.fdTable.get? a.toInt with
  | none => exact hm
  | some entry => exact hb entry.kind fun vfsFd hv => hsees a.toInt entry vfsFd he hv

/-- What the reading calls do with what they read. -/
theorem unseen_storeRead (pid : ℤ) (p : Proc) (addr : ℕ) (r : ℤ × List UInt8) :
    Unseen mask cond (do
      if 0 < r.1 then
        storeGuest pid p addr r.2
        return r.1
      return r.1) :=
  blind_ite (blind_bind (unseen_storeGuest pid p addr r.2) fun _ => blind_pure _) (blind_pure _)

variable (hh : Hides mask cond seen)
include hh

/-- Reading at the position of the file. -/
theorem unseen_readNext (pid : ℤ) (p : Proc) {vfsFd : ℤ} (hfd : seen vfsFd) (count addr : ℕ) :
    Unseen mask cond (withFile vfsFd fun file => do
      let (n, bytes) ← vfsRead vfsFd count file.position
      setPosition vfsFd (file.position + n)
      if 0 < n then storeGuest pid p addr bytes
      return n) := by
  refine unseen_withFile hh hfd fun file => ?_
  refine blind_bind (unseen_vfsRead hh hfd _ _) fun r => ?_
  exact blind_bind (unseen_setPosition hh hfd _) fun _ => unseen_storeRead pid p _ r

/-- Reading at a given offset. -/
theorem unseen_readAt (pid : ℤ) (p : Proc) {vfsFd : ℤ} (hfd : seen vfsFd) (count addr : ℕ) (offset : ℤ) :
    Unseen mask cond (do
      let (n, bytes) ← vfsRead vfsFd count offset
      if 0 < n then storeGuest pid p addr bytes
      return n) :=
  blind_bind (unseen_vfsRead hh hfd _ _) fun r => unseen_storeRead pid p _ r

variable {p : Proc} (hsees : Sees seen p)
include hsees

theorem unseen_sysRead (pid : ℤ) (a b c : Int32) : Unseen mask cond (sysRead pid p a b c) := by
  refine unseen_withEntry hsees (blind_pure _) fun kind hkind => ?_
  dsimp only
  split
  · exact blind_pure _
  · refine blind_bind (unseen_alloc _) fun _ => ?_
    refine blind_bind (unseen_randomBytes _) fun _ => ?_
    exact blind_bind (unseen_storeGuest pid p _ _) fun _ => blind_pure _
  · exact blind_pure _
  · exact blind_pure _
  · exact unseen_readNext hh pid p (hkind _ rfl) _ _
  · exact unseen_readNext hh pid p (hkind _ rfl) _ _

theorem unseen_sysWrite (pid : ℤ) (a b c : Int32) : Unseen mask cond (sysWrite pid p a b c) := by
  refine unseen_withEntry hsees (blind_pure _) fun kind hkind => ?_
  refine blind_bind (unseen_sliceGuest pid p _ _) fun buf => ?_
  split
  · exact blind_bind (blind_modify (fun _ _ => rfl) fun _ hs => hs) fun _ => blind_pure _
  · exact blind_bind (blind_modify (fun _ _ => rfl) fun _ hs => hs) fun _ => blind_pure _
  · exact blind_pure _
  · exact blind_pure _
  · exact unseen_onVfs fun limit => commutes_writeNext hh (hkind _ rfl) limit buf _
  · exact blind_pure _

theorem unseen_sysLseek (a b c : Int32) : Unseen mask cond (sysLseek p a b c) := by
  refine unseen_withEntry hsees (blind_pure _) fun kind hkind => ?_
  split
  · exact blind_pure _
  · exact blind_pure _
  all_goals
    refine unseen_withFile hh (hkind _ rfl) fun file => ?_
    -- the length of the content is the same
    refine blind_get fun s hs => ?_
    exact blind_bind (unseen_setPosition hh (hkind _ rfl) _) (fun _ => blind_pure _) s hs

theorem unseen_sysPread64 (pid : ℤ) (a b c d e : Int32) :
    Unseen mask cond (sysPread64 pid p a b c d e) := by
  refine unseen_withEntry hsees (blind_pure _) fun kind hkind => ?_
  split
  · exact unseen_withFile hh (hkind _ rfl) fun _ => unseen_readAt hh pid p (hkind _ rfl) _ _ _
  · exact unseen_withFile hh (hkind _ rfl) fun _ => unseen_readAt hh pid p (hkind _ rfl) _ _ _
  · exact blind_pure _

theorem unseen_sysPreadv (pid : ℤ) (a b c d e : Int32) :
    Unseen mask cond (sysPreadv pid p a b c d e) := by
  refine unseen_withEntry hsees (blind_pure _) fun kind hkind => ?_
  split
  · refine unseen_withFile hh (hkind _ rfl) fun _ => unseen_iovLoop (fun total iovBase iovLen => ?_) _ _ _
    exact unseen_readAt hh pid p (hkind _ rfl) _ _ _
  · refine unseen_withFile hh (hkind _ rfl) fun _ => unseen_iovLoop (fun total iovBase iovLen => ?_) _ _ _
    exact unseen_readAt hh pid p (hkind _ rfl) _ _ _
  · exact blind_pure _

theorem unseen_sysReadv (pid : ℤ) (a b c : Int32) : Unseen mask cond (sysReadv pid p a b c) := by
  refine unseen_withEntry hsees (blind_pure _) fun kind hkind => ?_
  split
  · exact blind_pure _
  · refine unseen_iovLoop (fun total iovBase iovLen => ?_) _ _ _
    refine blind_bind (unseen_alloc _) fun _ => ?_
    refine blind_bind (unseen_randomBytes _) fun _ => ?_
    exact blind_bind (unseen_storeGuest pid p _ _) fun _ => blind_pure _
  · exact blind_pure _
  · exact blind_pure _
  all_goals
    refine unseen_withFile hh (hkind _ rfl) fun _ => unseen_iovLoop (fun total iovBase iovLen => ?_) _ _ _
    exact unseen_readNext hh pid p (hkind _ rfl) _ _

theorem unseen_sysWritev (pid : ℤ) (a b c : Int32) : Unseen mask cond (sysWritev pid p a b c) := by
  refine unseen_withEntry hsees (blind_pure _) fun kind hkind => ?_
  have hsum : Unseen mask cond
      (iovLoop pid p (unsigned b) (fun _ _ iovLen => return iovLen) false c.toInt.toNat 0 0) :=
    unseen_iovLoop (fun _ _ _ => blind_pure _) _ _ _
  have hout : Unseen mask cond (do
      let totalLen ←
        iovLoop pid p (unsigned b) (fun _ _ iovLen => return iovLen) false c.toInt.toNat 0 0
      alloc totalLen.toNat
      let gathered ← gather pid p (unsigned b) c.toInt.toNat 0
      modify fun s => { s with stdout := s.stdout ++ [gathered] }
      return totalLen) := by
    refine blind_bind hsum fun totalLen => ?_
    refine blind_bind (unseen_alloc _) fun _ => ?_
    refine blind_bind (unseen_gather pid p _ _ _) fun gathered => ?_
    exact blind_bind (blind_modify (fun _ _ => rfl) fun _ hs => hs) fun _ => blind_pure _
  dsimp only
  split
  · exact hout
  · exact hout
  · exact hsum
  · exact blind_pure _
  · exact blind_pure _
  · refine unseen_withFile hh (hkind _ rfl) fun _ => unseen_iovLoop (fun total iovBase iovLen => ?_) _ _ _
    refine blind_bind (unseen_sliceGuest pid p _ _) fun buf => ?_
    exact unseen_onVfs fun limit => commutes_writeNext hh (hkind _ rfl) limit buf _
  · exact blind_pure _

theorem unseen_sysPwrite64 (pid : ℤ) (a b c d e : Int32) :
    Unseen mask cond (sysPwrite64 pid p a b c d e) := by
  refine unseen_withEntry hsees (blind_pure _) fun kind hkind => ?_
  split
  · refine unseen_withFile hh (hkind _ rfl) fun _ => ?_
    refine blind_bind (unseen_sliceGuest pid p _ _) fun src => ?_
    refine blind_bind (unseen_onVfs fun limit => ?_) fun _ => blind_pure _
    exact commutes_writeFile hh (hkind _ rfl) limit src _
  · exact blind_pure _

theorem unseen_sysFtruncate (a b : Int32) : Unseen mask cond (sysFtruncate p a b) := by
  refine unseen_withEntry hsees (blind_pure _) fun kind hkind => ?_
  split
  · exact unseen_onVfs fun limit => commutes_truncateFile hh (hkind _ rfl) limit _
  · exact blind_pure _

omit hsees in
/-- Reading a directory that is open under a number that is seen. -/
theorem unseen_listDir (pid : ℤ) (b c : Int32) {vfsFd : ℤ} (hfd : seen vfsFd) :
    Unseen mask cond (withFile vfsFd fun file => do
      if ¬ file.isDir then return -9
      let cursor ← getCursor vfsFd file
      modify fun s => { s with cursors := s.cursors.set vfsFd cursor }
      alloc (unsigned c)
      let (tmpBuf, index) :=
        fillDirents (unsigned c) cursor.dirOffset (cursor.dirEntries.drop cursor.dirOffset) []
      modify fun s => { s with cursors := s.cursors.set vfsFd { cursor with dirOffset := index } }
      if tmpBuf ≠ [] then storeGuest pid p (unsigned b) tmpBuf
      return (tmpBuf.length : ℤ)) := by
  refine unseen_withFile hh hfd fun file => ?_
  refine blind_ite (blind_pure _) ?_
  refine blind_bind (unseen_getCursor hh hfd file) fun cursor => ?_
  refine blind_bind (unseen_setCursor hh hfd cursor) fun _ => ?_
  refine blind_bind (unseen_alloc _) fun _ => ?_
  refine blind_bind (unseen_setCursor hh hfd { cursor with dirOffset := _ }) fun _ => ?_
  refine blind_ite ?_ (blind_pure _)
  exact blind_bind (unseen_storeGuest pid p _ _) fun _ => blind_pure _

theorem unseen_sysGetdents64 (pid : ℤ) (a b c : Int32) :
    Unseen mask cond (sysGetdents64 pid p a b c) := by
  refine unseen_withEntry hsees (blind_pure _) fun kind hkind => ?_
  split
  · exact unseen_listDir hh pid b c (hkind _ rfl)
  · exact unseen_listDir hh pid b c (hkind _ rfl)
  · exact blind_pure _

/-- **Calls on files see the handles of their process only.** -/
theorem unseen_fileHandler (pid : ℤ) (a : Int32) (call : FileCall) :
    Unseen mask cond (fileHandler pid p a call) := by
  cases call with
  | read b c => exact unseen_sysRead hh hsees pid a b c
  | write b c => exact unseen_sysWrite hh hsees pid a b c
  | readv b c => exact unseen_sysReadv hh hsees pid a b c
  | writev b c => exact unseen_sysWritev hh hsees pid a b c
  | pread64 b c d e => exact unseen_sysPread64 hh hsees pid a b c d e
  | preadv b c d e => exact unseen_sysPreadv hh hsees pid a b c d e
  | pwrite64 b c d e => exact unseen_sysPwrite64 hh hsees pid a b c d e
  | lseek b c => exact unseen_sysLseek hh hsees a b c
  | ftruncate b => exact unseen_sysFtruncate hh hsees a b
  | getdents64 b c => exact unseen_sysGetdents64 hh hsees pid a b c

end Calls

/-! ### The other calls -/

/-- The handles that a call is given as numbers are seen. -/
def Names (seen : ℤ → Prop) (p : Proc) : Syscalls.Call → Prop
  | .mmap _ _ d e _ => hasFlag d 0x20 = false → seen e.toInt
  | .sendfile a _ _ _ => seen a.toInt
  | .readlinkat _ path _ _ => ∀ n : ℕ, procFd (absolute (readCString p path)) = some n → seen n
  | .fsRead a _ _ _ _ | .fsWrite a _ _ _ _ | .fsFstat a => seen a.toInt
  | _ => True

section Others

variable {mask : Mask} {cond : Cond} {seen : ℤ → Prop}

theorem unseen_atPath (dirfd : Int32) (path : Path) (error : ℤ) {body : Path → Io ℤ}
    (hb : Unseen mask cond (body (absolute path))) : Unseen mask cond (atPath dirfd path error body) :=
  blind_ite (blind_pure _) hb

theorem unseen_changeMeta (path : Path) (f : Meta → Meta) : Unseen mask cond (changeMeta path f) :=
  unseen_change (skips_resolved (fun path => skips_setMeta path f) path)

theorem unseen_statPath (bootTime : ℤ) (pid : ℤ) (p : Proc) (path : Path) (followSymlinks : Bool)
    (buf : Int32) : Unseen mask cond (statPath bootTime pid p path followSymlinks buf) := by
  refine blind_get fun s hs => ?_
  have hstat : ∀ path, VirtualFs.stat (hide mask s).kernel.vfs path followSymlinks =
      VirtualFs.stat s.kernel.vfs path followSymlinks := fun _ => rfl
  dsimp only
  rw [hstat]
  cases VirtualFs.stat s.kernel.vfs (absolute (readCString p path)) followSymlinks with
  | none => exact blind_pure _ s hs
  | some info => exact blind_bind (unseen_storeGuest pid p _ _) (fun _ => blind_pure _) s hs

theorem unseen_sysFaccessat (p : Proc) (path : Path) : Unseen mask cond (sysFaccessat p path) :=
  blind_get fun s hs =>
    blind_pure (if (VirtualFs.stat s.kernel.vfs (readCString p path) true).isSome then 0 else -2) s hs

theorem unseen_sysStatx (pid : ℤ) (p : Proc) (path : Path) (e : Int32) :
    Unseen mask cond (sysStatx pid p path e) := by
  refine blind_get fun s hs => ?_
  have hstat : VirtualFs.stat (hide mask s).kernel.vfs (readCString p path) true =
      VirtualFs.stat s.kernel.vfs (readCString p path) true := rfl
  rw [hstat]
  cases VirtualFs.stat s.kernel.vfs (readCString p path) true with
  | none => exact blind_pure _ s hs
  | some info => exact blind_bind (unseen_storeGuest pid p _ _) (fun _ => blind_pure _) s hs

theorem skips_makeDir (path : Path) (mode : Int32) : Skips fun v => makeDir v path mode := by
  refine skips_resolved (f := fun path v =>
    if mode = 0 then VirtualFs.mkdir v path
    else setMeta (VirtualFs.mkdir v path) path fun info =>
      { info with mode := some (unsigned mode % 0o10000) }) (fun path => ?_) path
  refine skips_ite (fun _ _ _ => Iff.rfl) (skips_mkdir path) ?_
  exact (skips_mkdir path).comp (skips_setMeta path _)

theorem skips_removePath (path : Path) (flags : Int32) : Skips fun v => removePath v path flags := by
  refine skips_resolved (f := fun path v =>
    if hasFlag flags 0x200 then VirtualFs.rmdir v path else VirtualFs.unlink v path) (fun path => ?_) path
  exact skips_ite (fun _ _ _ => Iff.rfl) (skips_rmdir path) (skips_unlink path)

theorem skips_renamePath (oldPath newPath : Path) : Skips fun v => renamePath v oldPath newPath := by
  intro v n m
  exact skips_rename (resolvePath v.symlinks oldPath) (resolvePath v.symlinks newPath) v n m

theorem unseen_sysMkdir {p : Proc} (path : Path) (b : Int32) :
    Unseen mask cond (sysMkdir p path b) :=
  unseen_change (skips_makeDir (absolute (readCString p path)) b)

theorem unseen_sysMkdirat {p : Proc} (a : Int32) (path : Path) (c : Int32) :
    Unseen mask cond (sysMkdirat p a path c) := by
  refine unseen_atPath a _ _ ?_
  exact unseen_change (skips_makeDir (absolute (readCString p path)) c)

theorem unseen_sysUnlink {p : Proc} (path : Path) : Unseen mask cond (sysUnlink p path) :=
  unseen_change (skips_removePath (absolute (readCString p path)) 0)

theorem unseen_sysUnlinkat {p : Proc} (a : Int32) (path : Path) (c : Int32) :
    Unseen mask cond (sysUnlinkat p a path c) := by
  refine unseen_atPath a _ _ ?_
  exact unseen_change (skips_removePath (absolute (readCString p path)) c)

theorem unseen_sysRename {p : Proc} (oldPath newPath : Path) :
    Unseen mask cond (sysRename p oldPath newPath) :=
  unseen_change
    (skips_renamePath (absolute (readCString p oldPath)) (absolute (readCString p newPath)))

theorem unseen_sysRenameat {p : Proc} (a : Int32) (oldPath : Path) (c : Int32) (newPath : Path) :
    Unseen mask cond (sysRenameat p a oldPath c newPath) := by
  refine unseen_atPath a _ _ (unseen_atPath c _ _ ?_)
  exact unseen_change
    (skips_renamePath (absolute (readCString p oldPath)) (absolute (readCString p newPath)))

theorem unseen_sysFchmodat {p : Proc} (a : Int32) (path : Path) (c : Int32) :
    Unseen mask cond (sysFchmodat p a path c) := by
  refine unseen_atPath a _ _ ?_
  exact unseen_changeMeta (absolute (readCString p path)) _

theorem unseen_sysFchownat {p : Proc} (a : Int32) (path : Path) (c d : Int32) :
    Unseen mask cond (sysFchownat p a path c d) := by
  refine unseen_atPath a _ _ ?_
  exact unseen_changeMeta (absolute (readCString p path)) _

theorem unseen_sysSymlinkat {p : Proc} (target : Path) (b : Int32) (linkpath : Path) :
    Unseen mask cond (sysSymlinkat p target b linkpath) := by
  refine unseen_atPath b _ _ ?_
  exact unseen_change (skips_createSymlink (readCString p target) (absolute (readCString p linkpath)))

theorem unseen_storeLink (pid : ℤ) (p : Proc) (buf size : Int32) (target : Path) :
    Unseen mask cond (storeLink pid p buf size target) :=
  blind_bind (unseen_storeGuest pid p _ _) fun _ => blind_pure _

theorem unseen_readTarget (pid : ℤ) (p : Proc) (path : Path) (buf size : Int32) :
    Unseen mask cond (readTarget pid p path buf size) := by
  refine blind_get fun s hs => ?_
  have hlink : linkTarget (hide mask s).kernel.vfs path = linkTarget s.kernel.vfs path := rfl
  rw [hlink]
  cases linkTarget s.kernel.vfs path with
  | none => exact blind_pure _ s hs
  | some target => exact unseen_storeLink pid p buf size target s hs

theorem unseen_sysReadlink (pid : ℤ) (p : Proc) (path : Path) (b c : Int32) :
    Unseen mask cond (sysReadlink pid p path b c) :=
  blind_ite (unseen_storeLink pid p b c _) (unseen_readTarget pid p _ b c)

theorem unseen_sysLinkat (p : Proc) (a : Int32) (oldpath : Path) (c : Int32) (newpath : Path) :
    Unseen mask cond (sysLinkat p a oldpath c newpath) := by
  refine unseen_atPath a _ _ (unseen_atPath c _ _ ?_)
  refine blind_get fun s hs => ?_
  have hfile : ∀ path, (hide mask s).kernel.vfs.files.get?
      (resolvePath (hide mask s).kernel.vfs.symlinks path) =
        s.kernel.vfs.files.get? (resolvePath s.kernel.vfs.symlinks path) := fun _ => rfl
  dsimp only
  rw [hfile]
  cases s.kernel.vfs.files.get? (resolvePath s.kernel.vfs.symlinks (absolute (readCString p oldpath))) with
  | none => exact blind_pure _ s hs
  | some content => exact unseen_change (fun v n m => skips_addFile _ _ v n m) s hs

theorem unseen_sysUtimensat (now : ℕ) (pid : ℤ) (p : Proc) (a b : Int32) (path : Path) (c : Int32) :
    Unseen mask cond (sysUtimensat now pid p a b path c) := by
  refine blind_ite (blind_pure _) (unseen_atPath a _ _ (blind_ite (blind_pure _) ?_))
  refine blind_bind (unseen_loadBig pid p _) fun atimeSec => ?_
  refine blind_bind (unseen_loadBig pid p _) fun atimeNsec => ?_
  refine blind_bind (unseen_loadBig pid p _) fun mtimeSec => ?_
  refine blind_bind (unseen_loadBig pid p _) fun mtimeNsec => ?_
  exact unseen_changeMeta _ _

/-- Two words written one after the other, if there is somewhere to write them. -/
theorem unseen_storeWords (pid : ℤ) (p : Proc) (w addr addr' : ℕ) (n m : ℤ) :
    Unseen mask cond (do
      storeWord pid p w addr n
      storeWord pid p w addr' m
      return (0 : ℤ)) :=
  blind_bind (unseen_storeWord pid p w addr n) fun _ =>
    blind_bind (unseen_storeWord pid p w addr' m) fun _ => blind_pure _

theorem unseen_sysNanosleep (pid : ℤ) (p : Proc) (a : Int32) :
    Unseen mask cond (sysNanosleep pid p a) :=
  blind_bind (unseen_loadBig pid p _) fun _ =>
    blind_bind (unseen_loadBig pid p _) fun _ => blind_pure _

theorem unseen_sysGetrandom (pid : ℤ) (p : Proc) (a b : Int32) :
    Unseen mask cond (sysGetrandom pid p a b) := by
  refine blind_bind (unseen_alloc _) fun _ => ?_
  refine blind_bind (unseen_randomBytes _) fun _ => ?_
  exact blind_bind (unseen_storeGuest pid p _ _) fun _ => blind_pure _

theorem unseen_storeIds (pid : ℤ) (p : Proc) (a b c : Int32) :
    Unseen mask cond (storeIds pid p a b c) := by
  refine blind_bind (unseen_storeWord pid p 4 _ 0) fun _ => ?_
  exact unseen_storeWords pid p 4 _ _ 0 0

variable (hh : Hides mask cond seen) {p : Proc}
include hh

theorem unseen_sysMmap (pid : ℤ) (a b d e f : Int32) (hnames : hasFlag d 0x20 = false → seen e.toInt) :
    Unseen mask cond (sysMmap pid p a b d e f) := by
  unfold sysMmap
  cases hd : hasFlag d 0x20 with
  | true => exact blind_pure 0
  | false =>
      refine blind_bind (unseen_getFile hh (hnames hd)) fun file => ?_
      split
      · exact blind_pure 0
      · refine blind_ite (blind_get fun s hs => ?_) (blind_pure 0)
        refine blind_ite ?_ (blind_pure 0) s hs
        exact blind_bind (unseen_storeGuest pid p _ _) fun _ => blind_pure 0

theorem unseen_sysFsRead (pid : ℤ) (a b c d e : Int32) (hfd : seen a.toInt) :
    Unseen mask cond (sysFsRead pid p a b c d e) :=
  unseen_readAt hh pid p hfd _ _ _

theorem unseen_sysFsWrite (pid : ℤ) (a b c d e : Int32) (hfd : seen a.toInt) :
    Unseen mask cond (sysFsWrite pid p a b c d e) := by
  refine blind_bind (unseen_sliceGuest pid p _ _) fun src => ?_
  exact unseen_onVfs fun limit => commutes_writeFile hh hfd limit src _

theorem unseen_sysFsFstat (a : Int32) (hfd : seen a.toInt) : Unseen mask cond (sysFsFstat a) := by
  refine blind_bind (unseen_getFile hh hfd) fun file => ?_
  split
  · exact blind_pure _
  · exact blind_get fun s hs => blind_pure _ s hs

theorem unseen_sysReadlinkat (pid : ℤ) (a : Int32) (path : Path) (c d : Int32)
    (hnames : ∀ n : ℕ, procFd (absolute (readCString p path)) = some n → seen n) :
    Unseen mask cond (sysReadlinkat pid p a path c d) := by
  refine unseen_atPath a _ _ ?_
  refine blind_ite (unseen_storeLink pid p c d _) ?_
  cases hn : procFd (absolute (readCString p path)) with
  | none => exact unseen_readTarget pid p _ c d
  | some n =>
      refine blind_bind (unseen_getFile hh (hnames n hn)) fun file => ?_
      exact unseen_storeLink pid p c d _

theorem unseen_sendBytes (a : Int32) {outFd : ℤ} (ha : seen a.toInt) (hout : seen outFd)
    (bytes : List UInt8) (avail : ℤ) : Unseen mask cond (sendBytes a outFd bytes avail) := by
  refine blind_bind (unseen_getFile hh hout) fun file => ?_
  split
  · exact blind_pure ()
  · refine blind_bind (unseen_onVfs fun limit => commutes_writeFile hh ha limit bytes _) fun _ => ?_
    exact unseen_setPosition hh hout _

variable (hsees : Sees seen p)
include hsees

theorem unseen_sysFstat (bootTime : ℤ) (pid : ℤ) (a b : Int32) :
    Unseen mask cond (sysFstat bootTime pid p a b) := by
  refine unseen_withEntry hsees (blind_pure _) fun kind hkind => ?_
  split
  · exact blind_bind (unseen_storeGuest pid p _ _) fun _ => blind_pure _
  · exact blind_bind (unseen_storeGuest pid p _ _) fun _ => blind_pure _
  all_goals
    refine unseen_withFile hh (hkind _ rfl) fun file => ?_
    -- the metadata and the length of the content are the same
    refine blind_get fun s hs => ?_
    exact blind_bind (unseen_storeGuest pid p _ _) (fun _ => blind_pure _) s hs

theorem unseen_changeFile (a : Int32) (f : Meta → Meta) : Unseen mask cond (changeFile p a f) := by
  refine unseen_withEntry hsees (blind_pure _) fun kind hkind => ?_
  split
  iterate 2
    refine blind_bind (unseen_getFile hh (hkind _ rfl)) fun file => ?_
    split
    · exact blind_pure _
    · exact blind_ite (blind_pure _) (unseen_change (skips_setMeta _ f))
  exact blind_pure _

/-- An open file that is found through a descriptor has a handle that is seen. -/
theorem unseen_regularFile {α : Type} (a : Int32) {f : Option (ℤ × OpenFile) → Io α}
    (hf : ∀ r, (∀ vfsFd file, r = some (vfsFd, file) → seen vfsFd) → Unseen mask cond (f r)) :
    Unseen mask cond (regularFile p a >>= f) := by
  unfold regularFile
  split
  · rename_i vfsFd cell he
    have hfd : seen vfsFd := hsees a.toInt _ vfsFd he rfl
    rw [bind_assoc]
    refine blind_bind (unseen_getFile hh hfd) fun file => ?_
    rw [pure_bind]
    refine hf _ fun vfsFd' file' hr => ?_
    cases file with
    | none => cases hr
    | some file =>
        obtain ⟨rfl, -⟩ := Prod.mk.inj (Option.some.inj hr)
        exact hfd
  · rw [pure_bind]
    exact hf none fun _ _ hr => by cases hr

theorem unseen_sysSendfile (pid : ℤ) (a b c d : Int32) (ha : seen a.toInt) :
    Unseen mask cond (sysSendfile pid p a b c d) := by
  refine blind_ite (blind_pure _) ?_
  refine unseen_regularFile hh hsees a fun out hout => ?_
  refine unseen_regularFile hh hsees b fun inp hinp => ?_
  split
  · rename_i outFd outFile inFd inFile
    have hin : seen inFd := hinp inFd inFile rfl
    have hsend : ∀ offset : ℤ, Unseen mask cond (do
        let v := (← get).kernel.vfs
        let avail := min (unsigned d : ℤ) (contentLength v inFile - offset)
        if avail ≤ 0 then return 0
        let bytes := (inFile.content.map (bytesOf v)).getD []
        sendBytes a outFd (subarray bytes offset (offset + avail)) avail
        if c = 0 then setPosition inFd (offset + avail)
        else storeWord pid p 8 (unsigned c) (offset + avail)
        return avail) := by
      intro offset
      refine blind_get fun s hs => ?_
      refine blind_ite (blind_pure _) ?_ s hs
      refine blind_bind (unseen_sendBytes hh a ha (hout outFd outFile rfl) _ _) fun _ => ?_
      refine blind_ite ?_ ?_
      · exact blind_bind (unseen_setPosition hh hin _) fun _ => blind_pure _
      · exact blind_bind (unseen_storeWord pid p 8 _ _) fun _ => blind_pure _
    refine blind_ite ?_ ?_
    · exact blind_bind (blind_pure _) hsend
    · exact blind_bind (unseen_loadBig pid p _) hsend
  · exact blind_pure _

/-- **The other calls see the handles of their process and those that they are given.** -/
theorem unseen_handler (bootTime : ℤ) (pid : ℤ) {call : Syscalls.Call} (hnames : Names seen p call) :
    Unseen mask cond (handler bootTime pid p call) := by
  cases call with
  | mmap a b d e f => exact unseen_sysMmap hh pid a b d e f hnames
  | fstat a b => exact unseen_sysFstat hh hsees bootTime pid a b
  | stat path b => exact unseen_statPath bootTime pid p path true b
  | lstat path b => exact unseen_statPath bootTime pid p path false b
  | fstatat path c d => exact unseen_statPath bootTime pid p path _ c
  | clockGettime now b => exact unseen_storeWords pid p 8 _ _ _ _
  | clockGetres b => exact blind_ite (unseen_storeWords pid p 8 _ _ _ _) (blind_pure _)
  | nanosleep a => exact unseen_sysNanosleep pid p a
  | getrandom a b => exact unseen_sysGetrandom pid p a b
  | uname a => exact blind_bind (unseen_storeFields pid p _ _) fun _ => blind_pure _
  | faccessat path => exact unseen_sysFaccessat p path
  | statx path e => exact unseen_sysStatx pid p path e
  | prlimit64 d => exact blind_ite (unseen_storeWords pid p 8 _ _ _ _) (blind_pure _)
  | mkdir path b => exact unseen_sysMkdir path b
  | mkdirat a path c => exact unseen_sysMkdirat a path c
  | unlink path => exact unseen_sysUnlink path
  | unlinkat a path c => exact unseen_sysUnlinkat a path c
  | rename oldPath newPath => exact unseen_sysRename oldPath newPath
  | renameat a oldPath c newPath => exact unseen_sysRenameat a oldPath c newPath
  | readlink path b c => exact unseen_sysReadlink pid p path b c
  | readlinkat a path c d => exact unseen_sysReadlinkat hh pid a path c d hnames
  | gettimeofday now a => exact blind_ite (unseen_storeWords pid p 8 _ _ _ _) (blind_pure _)
  | getrusage b => exact blind_bind (unseen_clearGuest pid p _ _) fun _ => blind_pure _
  | times a =>
      exact blind_ite (blind_bind (unseen_clearGuest pid p _ _) fun _ => blind_pure _) (blind_pure _)
  | getresuid a b c => exact unseen_storeIds pid p a b c
  | getresgid a b c => exact unseen_storeIds pid p a b c
  | chmod path b => exact unseen_changeMeta (absolute (readCString p path)) _
  | fchmod a b => exact unseen_changeFile hh hsees a _
  | chown path b c => exact unseen_changeMeta (absolute (readCString p path)) _
  | fchown a b c => exact unseen_changeFile hh hsees a _
  | fchmodat a path c => exact unseen_sysFchmodat a path c
  | fchownat a path c d => exact unseen_sysFchownat a path c d
  | utimensat now a b path c => exact unseen_sysUtimensat now pid p a b path c
  | statfs b => exact blind_bind (unseen_storeGuest pid p _ _) fun _ => blind_pure _
  | fstatfs b => exact blind_bind (unseen_storeGuest pid p _ _) fun _ => blind_pure _
  | symlinkat target b linkpath => exact unseen_sysSymlinkat target b linkpath
  | linkat a oldpath c newpath => exact unseen_sysLinkat p a oldpath c newpath
  | sendfile a b c d => exact unseen_sysSendfile hh hsees pid a b c d hnames
  | fsRead a b c d e => exact unseen_sysFsRead hh pid a b c d e hnames
  | fsWrite a b c d e => exact unseen_sysFsWrite hh pid a b c d e hnames
  | fsFstat a => exact unseen_sysFsFstat hh a hnames

end Others

end HiddenFiles
