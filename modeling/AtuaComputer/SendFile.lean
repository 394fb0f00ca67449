/-
**`sendfile` against a read and a write.**

`sendfile` moves bytes from one open file to another without the guest's memory: it reads at a position or at an
offset that the guest has stored, writes, and moves the position or the offset on.  A read and a `SYS_write` do the
same in two steps.  The kernel's `sendfile` takes the number of the output's descriptor for that of its handle; it
does not look for the end of a file that is appended to, counts the bytes that an offset in front of the file
selects wrongly, and where both descriptors are of one handle, moves its position once.

Main definitions:

* `SendFile.readThenWrite` — the two steps;
* `SendFile.View`, `SendFile.Agree` — what a program sees, and that it sees the same;
* `SendFile.Reaches`, `SendFile.Stores` — where bytes go that are written through some number;
* `SendFile.Fits` — the condition.

Main results:

* `SendFile.writeFile_through` — a write through any number, seen from the output;
* `SendFile.sent_iff_fits` — **when `sendfile` is a read and a write**.
-/

import AtuaComputer.VectoredFiles

set_option relaxedAutoImplicit false
set_option autoImplicit false

namespace SendFile

open VirtualFs Kernel FileIo Syscalls FileContents Outcomes FileOutcomes ByteFile FilePieces VectoredFiles

/-! ### Two steps -/

/-- A read at the position or at the stored offset, which moves on, and then the lines of `SYS_write` on the output. -/
def readThenWrite (pid : ℤ) (p : Proc) (a b c d : Int32) : Io ℤ := do
  match ← regularFile p a, ← regularFile p b with
  | some (outFd, _), some (inFd, inFile) =>
    let offset ← if c = 0 then pure inFile.position else loadBig pid p (unsigned c)
    let s ← get
    let (n, bytes) := readFile s.kernel.vfs s.entropy inFd (unsigned d) offset
    if c = 0 then setPosition inFd (offset + n) else storeWord pid p 8 (unsigned c) (offset + n)
    onVfs fun limit v => writeNext limit v outFd bytes n.toNat
  | _, _ => return -9

/-- The bytes behind a handle. -/
def contentsOf (v : Vfs) (h : ℤ) : List UInt8 :=
  (((v.openFiles.get? h).bind OpenFile.content).map (bytesOf v)).getD []

/-- The position of a handle. -/
def positionOf (v : Vfs) (h : ℤ) : Option ℤ := (v.openFiles.get? h).map OpenFile.position

/-- What a program sees of the two files, and of its memory with the stored offset. -/
structure View where
  bytes : List UInt8
  outPosition : Option ℤ
  inPosition : Option ℤ
  memory : List UInt8
deriving DecidableEq

/-- The view of a state. -/
def view (s : FileIo.State) (pid outFd inFd : ℤ) : View where
  bytes := contentsOf s.kernel.vfs outFd
  outPosition := positionOf s.kernel.vfs outFd
  inPosition := positionOf s.kernel.vfs inFd
  memory := s.memory pid

/-- **A program sees no difference.** -/
def Agree (s : Syscalls.State) (pid : ℤ) (p : Proc) (a b c d : Int32) (outFd inFd : ℤ) : Prop :=
  let sent := attempt s (handler s.bootTime pid p (.sendfile a b c d))
  let pair := attempt s (readThenWrite pid p a b c d)
  sent.2 = pair.2 ∧ view sent.1.io pid outFd inFd = view pair.1.io pid outFd inFd

/-- The two descriptors are of open regular files. -/
structure Setting (s : FileIo.State) (p : Proc) (a b : Int32) (outFd inFd : ℤ) (outFile inFile : OpenFile)
    (outContent inContent : Buf) : Prop where
  output : ∃ cell, p.fdTable.get? a.toInt = some ⟨.file outFd, cell⟩
  input : ∃ cell, p.fdTable.get? b.toInt = some ⟨.file inFd, cell⟩
  out : Regular s.kernel.vfs outFd outFile outContent
  inp : Regular s.kernel.vfs inFd inFile inContent

/-- Where the bytes are read: at the position, or at the offset that is stored. -/
def offsetOf (s : FileIo.State) (pid : ℤ) (p : Proc) (c : Int32) (position : ℤ) : Option ℤ :=
  if c = 0 then some position
  else if p.wasmMemory ∧ unsigned c + 8 ≤ (s.memory pid).length then
    some (signed64 (((s.memory pid).drop (unsigned c)).take 8))
  else none

/-- Bytes that are written through the number `g` at `start` get into the content of the output: the number is
that of its handle, or that of another handle of the same buffer, which has room for them. -/
def Reaches (v : Vfs) (outFd : ℤ) (outContent : Buf) (g : ℤ) (start n : ℕ) : Prop :=
  g = outFd ∨
    (v.openFiles.get? g).any (fun file =>
      file.special ≠ some .null ∧ file.content = some outContent ∧ ¬ file.append) = true ∧
      start + n ≤ (bytesOf v outContent).length

instance (v : Vfs) (outFd : ℤ) (outContent : Buf) (g : ℤ) (start n : ℕ) :
    Decidable (Reaches v outFd outContent g start n) := inferInstanceAs (Decidable (_ ∨ _))

/-- A write of `n` bytes at `start` through the number `g` does not throw: there is no handle of this number, or
one of the null device, or of a file with room for the bytes. -/
def Stores (limit : ℕ) (v : Vfs) (g : ℤ) (start n : ℕ) : Prop :=
  (v.openFiles.get? g).all (fun file =>
    file.special = some .null ∨
      file.content.any fun content =>
        let length := (bytesOf v content).length
        let stop := (if file.append then length else start) + n
        stop ≤ length ∨ stop ≤ limit) = true

instance (limit : ℕ) (v : Vfs) (g : ℤ) (start n : ℕ) : Decidable (Stores limit v g start n) :=
  inferInstanceAs (Decidable (_ = true))

/-- The condition.  The offset cannot be loaded; or there is nothing to send, and the output is at a place where a
write of nothing changes nothing; or the descriptors do not share a position, the output is at a position that is
not negative, at the end if it is appended to, with room for the bytes, the write through the descriptor's number
does not throw, and the output gets the bytes, with zeros that are there already for those that the offset does
not select, or has them already. -/
def Fits (s : FileIo.State) (pid : ℤ) (p : Proc) (a c d : Int32) (outFd inFd : ℤ) (outFile inFile : OpenFile)
    (outContent inContent : Buf) : Prop :=
  match offsetOf s pid p c inFile.position with
  | none => True
  | some offset =>
    let v := s.kernel.vfs
    let bytes := bytesOf v outContent
    let source := bytesOf v inContent
    let n := min (unsigned d) (source.length - offset).toNat
    let selected := subarray source offset (offset + n)
    let start := outFile.position.toNat
    0 ≤ outFile.position ∧ (outFile.append → outFile.position = bytes.length) ∧
      if n = 0 then outFile.position ≤ bytes.length
      else
        ¬ (c = 0 ∧ inFd = outFd) ∧ (start + n ≤ bytes.length ∨ start + n ≤ s.limit) ∧
          Stores s.limit v a.toInt start selected.length ∧
          if Reaches v outFd outContent a.toInt start selected.length then
            slice bytes (start + selected.length) (n - selected.length) = List.replicate (n - selected.length) 0
          else slice bytes start n = padTo n selected

/-! ### Positions and contents -/

section Handles

variable {v : Vfs} {g h outFd : ℤ} {file outFile : OpenFile} {content : Buf}

theorem contentsOf_eq (hr : Regular v h file content) : contentsOf v h = bytesOf v content := by
  rw [contentsOf, hr.opened, Option.bind_some, hr.holds, Option.map_some, Option.getD_some]

theorem positionOf_eq (hr : Regular v h file content) : positionOf v h = some file.position := by
  rw [positionOf, hr.opened, Option.map_some]

/-- A seek moves one position. -/
theorem positionOf_seek (hopen : (positionOf v g).isSome = true) (position : ℤ) (h : ℤ) :
    positionOf (seek v g position) h = if h = g then some position else positionOf v h := by
  rw [positionOf, Option.isSome_map] at hopen
  obtain ⟨file, hfile⟩ := Option.isSome_iff_exists.1 hopen
  unfold positionOf seek updateFile
  rw [hfile]
  dsimp only
  rw [JsMap.get?_set]
  split_ifs <;> rfl

theorem contentsOf_seek (v : Vfs) (g position h : ℤ) : contentsOf (seek v g position) h = contentsOf v h := by
  have hbytes : bytesOf (seek v g position) = bytesOf v := bytesOf_congr (seek_frame v g position).2
  have hcontent : ((seek v g position).openFiles.get? h).bind OpenFile.content =
      (v.openFiles.get? h).bind OpenFile.content := by
    unfold seek updateFile
    cases hfile : v.openFiles.get? g with
    | none => rfl
    | some file =>
        dsimp only
        rw [JsMap.get?_set]
        split_ifs with hsame
        · subst hsame
          rw [hfile]
          rfl
        · rfl
  rw [contentsOf, hbytes, hcontent, contentsOf]

/-- A grown buffer moves no position. -/
theorem positionOf_growFile (hfile : v.openFiles.get? g = some file) (path : Path) (bytes : List UInt8) (h : ℤ) :
    positionOf (growFile v g path bytes).1 h = positionOf v h := by
  rw [growFile_eq hfile, positionOf, JsMap.get?_set, positionOf]
  split_ifs with hsame
  · rw [hsame, hfile]
    rfl
  · rfl

/-- A grown buffer is the content of its handle only. -/
theorem contentsOf_growFile (hfile : v.openFiles.get? g = some file) (hr : Regular v outFd outFile content)
    (path : Path) (bytes : List UInt8) :
    contentsOf (growFile v g path bytes).1 outFd = if g = outFd then bytes else bytesOf v content := by
  rw [growFile_eq hfile]
  unfold contentsOf bytesOf
  dsimp only
  rw [JsMap.get?_set]
  by_cases hsame : outFd = g
  · rw [if_pos hsame, if_pos hsame.symm, Option.bind_some, Option.map_some, Option.getD_some,
      List.getD_append_right _ _ _ _ (Nat.le_refl _), Nat.sub_self, List.getD_cons_zero]
  · rw [if_neg hsame, if_neg fun h => hsame h.symm, hr.opened, Option.bind_some, hr.holds, Option.map_some,
      Option.getD_some, List.getD_append _ _ _ _ hr.stored]

theorem positionOf_storeBytes (v : Vfs) (content : Buf) (src : List UInt8) (off h : ℤ) :
    positionOf (storeBytes v content src off).1 h = positionOf v h := by
  unfold storeBytes
  cases setBytes (bytesOf v content) src off with
  | none => rfl
  | some bytes => rfl

theorem positionOf_writeContent (limit : ℕ) (hfile : v.openFiles.get? g = some file) (path : Path) (content : Buf)
    (src : List UInt8) (off h : ℤ) :
    positionOf (writeContent limit v g path content src off).1 h = positionOf v h := by
  unfold writeContent
  dsimp only
  split_ifs
  · rfl
  · exact (positionOf_storeBytes _ _ _ _ h).trans (positionOf_growFile hfile path _ h)
  · exact positionOf_storeBytes v content src off h

/-- No write moves a position. -/
theorem positionOf_writeFile (limit : ℕ) (v : Vfs) (g : ℤ) (src : List UInt8) (offset h : ℤ) :
    positionOf (writeFile limit v g src offset).1 h = positionOf v h := by
  unfold writeFile
  cases hfile : v.openFiles.get? g with
  | none => rfl
  | some file =>
      dsimp only
      by_cases hnull : file.special = some .null
      · rw [if_pos hnull]
      · rw [if_neg hnull]
        cases file.content with
        | none => rfl
        | some content => exact positionOf_writeContent limit hfile file.path content src _ h

theorem stores_iff {limit : ℕ} (hfile : v.openFiles.get? g = some file) (start n : ℕ) :
    Stores limit v g start n ↔ file.special = some .null ∨ ∃ content, file.content = some content ∧
      ((if file.append then (bytesOf v content).length else start) + n ≤ (bytesOf v content).length ∨
        (if file.append then (bytesOf v content).length else start) + n ≤ limit) := by
  unfold Stores
  rw [hfile, Option.all_some, decide_eq_true_iff, Option.any_eq_true]
  simp only [decide_eq_true_iff]

theorem reaches_iff (hfile : v.openFiles.get? g = some file) (start n : ℕ) :
    Reaches v outFd content g start n ↔ g = outFd ∨
      (file.special ≠ some .null ∧ file.content = some content ∧ ¬ file.append) ∧
        start + n ≤ (bytesOf v content).length := by
  unfold Reaches
  rw [hfile, Option.any_some, decide_eq_true_iff]

/-- A write through a number that is no handle's reaches nothing. -/
theorem not_reaches_of_none (hr : Regular v outFd outFile content) (hfile : v.openFiles.get? g = none) (start n : ℕ) :
    ¬ Reaches v outFd content g start n := by
  rintro (rfl | ⟨hany, -⟩)
  · rw [hr.opened] at hfile
    cases hfile
  · rw [hfile] at hany
    cases hany

/-- A write through a number that throws. -/
theorem writeFile_of_not_stores {limit start : ℕ} {src : List UInt8} (hst : ¬ Stores limit v g start src.length) :
    (writeFile limit v g src start).2 = none := by
  cases hfile : v.openFiles.get? g with
  | none => exact absurd (by rw [Stores, hfile, Option.all_none]) hst
  | some file =>
      rw [stores_iff hfile, not_or] at hst
      obtain ⟨hnull, hst⟩ := hst
      unfold writeFile
      rw [hfile]
      dsimp only
      rw [if_neg hnull]
      cases hcontent : file.content with
      | none => rfl
      | some buf =>
          have hroom := fun h => hst ⟨buf, hcontent, h⟩
          dsimp only
          have hoff : (if file.append = true then ((bytesOf v buf).length : ℤ) else start) =
              ((if file.append then (bytesOf v buf).length else start : ℕ) : ℤ) := by
            split_ifs <;> rfl
          rw [hoff, writeContent_full limit v g buf file.path src _ hroom]

/-- **A write through any number,** seen from the output. -/
theorem writeFile_through {limit : ℕ} (hr : Regular v outFd outFile content) {start : ℕ}
    (happend : outFile.append = true → (bytesOf v content).length = start) {src : List UInt8}
    (hst : Stores limit v g start src.length) :
    ∃ v' r, writeFile limit v g src start = (v', some r) ∧
      contentsOf v' outFd =
        if Reaches v outFd content g start src.length then writeAt (bytesOf v content) start src
        else bytesOf v content := by
  unfold writeFile
  cases hfile : v.openFiles.get? g with
  | none =>
      rw [if_neg (not_reaches_of_none hr hfile _ _)]
      exact ⟨v, -1, rfl, contentsOf_eq hr⟩
  | some file =>
      have hown (h : g = outFd) : file = outFile := by
        subst h
        exact Option.some_inj.1 (hfile.symm.trans hr.opened)
      have hreach := @reaches_iff v g outFd file content hfile start src.length
      rw [stores_iff hfile] at hst
      dsimp only
      by_cases hnull : file.special = some .null
      · have hother : ¬ Reaches v outFd content g start src.length := by
          rw [hreach]
          rintro (h | ⟨⟨hspecial, -⟩, -⟩)
          · rw [hown h, hr.special] at hnull
            cases hnull
          · exact hspecial hnull
        rw [if_pos hnull, if_neg hother]
        exact ⟨v, _, rfl, contentsOf_eq hr⟩
      obtain ⟨buf, hbuf, hroom⟩ := hst.resolve_left hnull
      have hoff : (if file.append = true then ((bytesOf v buf).length : ℤ) else start) =
          ((if file.append then (bytesOf v buf).length else start : ℕ) : ℤ) := by
        split_ifs <;> rfl
      have hsame (h : g = outFd) : buf = content ∧ (if file.append then (bytesOf v buf).length else start) = start := by
        have hcontent : buf = content := by
          rw [hown h, hr.holds] at hbuf
          exact (Option.some_inj.1 hbuf).symm
        refine ⟨hcontent, ?_⟩
        rw [hcontent, hown h]
        split_ifs with happ
        · exact happend happ
        · rfl
      rw [if_neg hnull, hbuf]
      dsimp only
      rw [hoff]
      generalize hoff' : (if file.append then (bytesOf v buf).length else start) = off at hroom hsame
      obtain hgrow | hin := Nat.lt_or_ge (bytesOf v buf).length (off + src.length)
      · -- the buffer of that handle grows, and no other
        refine ⟨_, _, writeContent_grown limit g file.path hgrow (by omega), ?_⟩
        rw [contentsOf_growFile hfile hr]
        by_cases h : g = outFd
        · obtain ⟨rfl, rfl⟩ := hsame h
          rw [if_pos h, if_pos (hreach.2 (.inl h))]
        · rw [if_neg h, if_neg]
          rw [hreach]
          rintro (h' | ⟨⟨-, hcontent, happ⟩, hfits⟩)
          · exact h h'
          · obtain rfl : buf = content := Option.some_inj.1 (hbuf.symm.trans hcontent)
            rw [if_neg happ] at hoff'
            omega
      · refine ⟨_, _, writeContent_inPlace limit g file.path hin, ?_⟩
        have hview (bytes : List UInt8) : contentsOf { v with buffers := v.buffers.set buf bytes } outFd =
            bytesOf { v with buffers := v.buffers.set buf bytes } content := by
          unfold contentsOf
          dsimp only
          rw [hr.opened, Option.bind_some, hr.holds, Option.map_some, Option.getD_some]
        rw [hview]
        by_cases hcontent : buf = content
        · subst hcontent
          rw [bytesOf_set hr.stored rfl, Function.update_self]
          by_cases happ : file.append = true
          · rw [if_pos happ] at hoff'
            -- no byte fits behind the end of a buffer
            have hnil : src = [] := List.length_eq_zero_iff.1 (by omega)
            subst hnil
            have hquiet : writeAt (bytesOf v buf) off [] = bytesOf v buf := (writeAt_nil_iff _ _).2 hin
            rw [hquiet]
            split_ifs with h
            · obtain h | ⟨⟨-, -, happ'⟩, -⟩ := hreach.1 h
              · rw [← (hsame h).2, hquiet]
              · exact absurd happ happ'
            · rfl
          · rw [if_neg happ] at hoff'
            subst hoff'
            rw [if_pos (hreach.2 (.inr ⟨⟨hnull, hbuf, happ⟩, hin⟩))]
        · rw [if_neg]
          · show (v.buffers.set buf _).getD content [] = v.buffers.getD content []
            rw [List.getD_eq_getElem?_getD, List.getD_eq_getElem?_getD, List.getElem?_set_ne hcontent]
          · rw [hreach]
            rintro (h | ⟨⟨-, h, -⟩, -⟩)
            · exact hcontent (hsame h).1
            · exact hcontent (Option.some_inj.1 (hbuf.symm.trans h))

end Handles

/-! ### The parts of both -/

section Parts

variable {s : FileIo.State} {pid : ℤ} {p : Proc} {a c : Int32} {outFd inFd : ℤ}

theorem returns_regularFile {h : ℤ} {cell : ℕ} {file : OpenFile}
    (hentry : p.fdTable.get? a.toInt = some ⟨.file h, cell⟩) (hfile : s.kernel.vfs.openFiles.get? h = some file) :
    Returns (regularFile p a) s (some (h, file)) s := by
  unfold regularFile
  rw [hentry]
  exact (returns_getFile hfile).bind (returns_pure _ s)

/-- The stored offset is in the memory. -/
def Loads (s : FileIo.State) (pid : ℤ) (p : Proc) (c : Int32) : Prop :=
  c ≠ 0 → p.wasmMemory = true ∧ unsigned c + 8 ≤ (s.memory pid).length

theorem loads_of_offset {position offset : ℤ} (h : offsetOf s pid p c position = some offset) : Loads s pid p c := by
  intro hc
  unfold offsetOf at h
  rw [if_neg hc] at h
  split_ifs at h with hin
  exact hin

/-- The offset is loaded, or is the position, and the computation goes on. -/
theorem ends_offset {position offset : ℤ} (h : offsetOf s pid p c position = some offset) {k : ℤ → Io ℤ} {n : ℤ}
    {s' : FileIo.State} {ok : Bool} (hk : Ends (k offset) s n s' ok) :
    Ends (if c = 0 then pure position >>= k else loadBig pid p (unsigned c) >>= k) s n s' ok := by
  have hl := loads_of_offset h
  unfold offsetOf at h
  split_ifs at h ⊢ with hc hin
  · rw [← Option.some_inj.1 h] at hk
    exact .after (returns_pure position s) hk
  · rw [← Option.some_inj.1 h] at hk
    exact .after (returns_loadBig hin.1 hin.2) hk

theorem throws_offset {position : ℤ} (h : offsetOf s pid p c position = none) (k : ℤ → Io ℤ) :
    Throws (if c = 0 then pure position >>= k else loadBig pid p (unsigned c) >>= k) s () s := by
  unfold offsetOf at h
  split_ifs at h ⊢ with hc hin
  exact (throws_loadBig hin).bind

/-- The position, or the stored offset, has moved. -/
def advanced (s : FileIo.State) (pid inFd : ℤ) (c : Int32) (offset : ℤ) : FileIo.State :=
  if c = 0 then withVfs s (seek s.kernel.vfs inFd offset)
  else withMemory s pid (writeAt (s.memory pid) (unsigned c) (wordBytes 8 offset))

theorem ends_advance (hl : Loads s pid p c) (offset : ℤ) {k : Io ℤ} {n : ℤ} {s' : FileIo.State} {ok : Bool}
    (hk : Ends k (advanced s pid inFd c offset) n s' ok) :
    Ends (if c = 0 then setPosition inFd offset >>= fun _ => k
      else storeWord pid p 8 (unsigned c) offset >>= fun _ => k) s n s' ok := by
  unfold advanced at hk
  split_ifs at hk ⊢ with hc
  · exact .after (returns_setPosition inFd offset) hk
  · obtain ⟨hp, hin⟩ := hl hc
    refine .after (returns_storeGuest hp ?_) hk
    have hfits : 0 ≤ ((unsigned c : ℕ) : ℤ) ∧ ((unsigned c : ℕ) : ℤ) + (wordBytes 8 offset).length ≤
        (s.memory pid).length := by
      rw [length_wordBytes]
      omega
    rw [setBytes, if_pos hfits, writeAt, Int.toNat_natCast, padTo_self (by omega)]

/-- What a program sees then. -/
theorem view_advanced (hin : (positionOf s.kernel.vfs inFd).isSome = true) (offset : ℤ) :
    view (advanced s pid inFd c offset) pid outFd inFd =
      { view s pid outFd inFd with
        outPosition := if c = 0 ∧ outFd = inFd then some offset else positionOf s.kernel.vfs outFd
        inPosition := if c = 0 then some offset else positionOf s.kernel.vfs inFd
        memory := if c = 0 then s.memory pid else writeAt (s.memory pid) (unsigned c) (wordBytes 8 offset) } := by
  unfold advanced view
  by_cases hc : c = 0
  · simp only [hc, if_true, true_and]
    show View.mk (contentsOf (seek _ _ _) _) (positionOf (seek _ _ _) _) (positionOf (seek _ _ _) _) _ = _
    rw [contentsOf_seek, positionOf_seek hin, positionOf_seek hin, if_pos rfl]
    rfl
  · simp only [hc, if_false, false_and]
    show View.mk _ _ _ (Function.update s.memory pid _ pid) = _
    rw [Function.update_self]
    rfl

/-- No other position moves in the lines of `SYS_write`. -/
theorem positionOf_writeNext (limit : ℕ) (v : Vfs) (g : ℤ) (buf : List UInt8) (length : ℕ) {h : ℤ} (hne : h ≠ g) :
    positionOf (writeNext limit v g buf length).1 h = positionOf v h := by
  have hseek (v : Vfs) (position : ℤ) : positionOf (seek v g position) h = positionOf v h := by
    unfold positionOf seek updateFile
    cases v.openFiles.get? g with
    | none => rfl
    | some file =>
        dsimp only
        rw [JsMap.get?_set_ne hne]
  unfold writeNext
  cases v.openFiles.get? g with
  | none => rfl
  | some file =>
      dsimp only
      cases startPosition v file with
      | none => rfl
      | some position =>
          have hwrite := positionOf_writeFile limit (seek v g position) g buf position h
          dsimp only
          generalize writeFile limit (seek v g position) g buf position = r at hwrite
          obtain ⟨v', result⟩ := r
          cases result with
          | none => exact hwrite.trans (hseek v position)
          | some n => exact (hseek v' _).trans (hwrite.trans (hseek v position))

/-- The view of a state in which the output is a file. -/
theorem view_of_has {f : FilePieces.File} {memory : List UInt8} (hh : Has s pid outFd f memory) :
    view s pid outFd inFd = ⟨f.bytes, some f.position, positionOf s.kernel.vfs inFd, memory⟩ := by
  obtain ⟨file, content, hr, hbytes, hposition, -, hmemory, -⟩ := hh
  rw [view, contentsOf_eq hr, positionOf_eq hr, hbytes, hposition, hmemory]

end Parts

/-! ### Both computations -/

section Both

variable {s : FileIo.State} {pid : ℤ} {p : Proc} {a b c d : Int32} {outFd inFd : ℤ} {outFile inFile : OpenFile}
  {outContent inContent : Buf}

/-- Where the output stands when the pair writes. -/
def beforeWrite (s : FileIo.State) (c : Int32) (outFd inFd : ℤ) (outFile : OpenFile) (outContent : Buf) (moved : ℤ) :
    FilePieces.File :=
  ⟨bytesOf s.kernel.vfs outContent, if c = 0 ∧ outFd = inFd then moved else outFile.position, outFile.append, s.limit⟩

/-- The memory after the offset was stored. -/
def movedMemory (s : FileIo.State) (pid : ℤ) (c : Int32) (moved : ℤ) : List UInt8 :=
  if c = 0 then s.memory pid else writeAt (s.memory pid) (unsigned c) (wordBytes 8 moved)

theorem Setting.has_advanced (hs : Setting s p a b outFd inFd outFile inFile outContent inContent) (moved : ℤ) :
    Has (advanced s pid inFd c moved) pid outFd (beforeWrite s c outFd inFd outFile outContent moved)
      (movedMemory s pid c moved) := by
  unfold advanced beforeWrite movedMemory
  by_cases hc : c = 0
  · simp only [hc, if_true, true_and]
    by_cases hsame : outFd = inFd
    · subst hsame
      rw [if_pos rfl]
      exact ⟨_, outContent, hs.out.seek moved, bytesOf_seek .., rfl, rfl, rfl, rfl⟩
    · rw [if_neg hsame]
      refine ⟨outFile, outContent, ⟨?_, hs.out.special, hs.out.notDir, hs.out.holds, ?_⟩, bytesOf_seek .., rfl, rfl,
        rfl,
        rfl⟩
      · show (updateFile s.kernel.vfs inFd _).openFiles.get? outFd = _
        unfold updateFile
        rw [hs.inp.opened]
        exact (JsMap.get?_set_ne hsame).trans hs.out.opened
      · show outContent < (VirtualFs.seek s.kernel.vfs inFd moved).buffers.length
        rw [(seek_frame s.kernel.vfs inFd moved).2]
        exact hs.out.stored
  · simp only [hc, if_false, false_and]
    exact ⟨outFile, outContent, ⟨hs.out.opened, hs.out.special, hs.out.notDir, hs.out.holds, hs.out.stored⟩, rfl, rfl,
      rfl, Function.update_self .., rfl⟩

/-- **The two steps.** -/
theorem Setting.ends_readThenWrite (hs : Setting s p a b outFd inFd outFile inFile outContent inContent) {offset : ℤ}
    (hoffset : offsetOf s pid p c inFile.position = some offset) {n : ℕ} {data : List UInt8}
    (hdata : readAt (bytesOf s.kernel.vfs inContent) offset (unsigned d) = data) (hn : data.length = n)
    {f : FilePieces.File} {ok : Bool}
    (hf : (beforeWrite s c outFd inFd outFile outContent (offset + n)).write data = (f, ok)) :
    ∃ s', Ends (readThenWrite pid p a b c d) s n s' ok ∧
      view s' pid outFd inFd =
        ⟨f.bytes, some f.position,
          if inFd = outFd then some f.position
          else if c = 0 then some (offset + n) else positionOf s.kernel.vfs inFd,
          movedMemory s pid c (offset + n)⟩ := by
  obtain ⟨cell, hout⟩ := hs.output
  obtain ⟨cell', hinp⟩ := hs.input
  have hl := loads_of_offset hoffset
  have hread := readFile_eq hs.inp s.entropy (unsigned d) offset
  rw [hdata, hn] at hread
  obtain ⟨v, hwrite, hhas⟩ := (hs.has_advanced (offset + n)).writeNext data
  rw [hn, hf] at hwrite
  rw [hf] at hhas
  dsimp only at hwrite hhas
  refine ⟨_, ?_, (view_of_has hhas).trans ?_⟩
  · unfold readThenWrite
    refine .after (returns_regularFile hout hs.out.opened) (.after (returns_regularFile hinp hs.inp.opened) ?_)
    refine ends_offset hoffset (.after (returns_get s) ?_)
    rw [hread]
    refine ends_advance hl (offset + n) ?_
    rw [Int.toNat_natCast]
    cases ok with
    | true => exact returns_onVfs hwrite
    | false => exact throws_onVfs hwrite
  · show View.mk _ _ (positionOf v inFd) _ = _
    congr 1
    by_cases hsame : inFd = outFd
    · rw [if_pos hsame, hsame]
      exact congrArg View.outPosition (@view_of_has _ pid outFd inFd _ _ hhas)
    · have hframe := positionOf_writeNext (advanced s pid inFd c (offset + n)).limit
        (advanced s pid inFd c (offset + n)).kernel.vfs outFd data n hsame
      have hin : (positionOf s.kernel.vfs inFd).isSome = true := by rw [positionOf_eq hs.inp]; rfl
      rw [hwrite] at hframe
      rw [if_neg hsame]
      exact hframe.trans (congrArg View.inPosition (@view_advanced s pid c outFd inFd hin (offset + n)))

theorem returns_sendBytes (hfile : s.kernel.vfs.openFiles.get? outFd = some outFile) {bytes : List UInt8} {v : Vfs}
    {r : ℤ} (hwrite : writeFile s.limit s.kernel.vfs a.toInt bytes outFile.position = (v, some r)) (avail : ℤ) :
    Returns (sendBytes a outFd bytes avail) s () (withVfs s (seek v outFd (outFile.position + avail))) :=
  (returns_getFile hfile).bind ((returns_onVfs hwrite).bind (returns_setPosition _ _))

theorem throws_sendBytes (hfile : s.kernel.vfs.openFiles.get? outFd = some outFile) {bytes : List UInt8} {v : Vfs}
    (hwrite : writeFile s.limit s.kernel.vfs a.toInt bytes outFile.position = (v, none)) (avail : ℤ) :
    Throws (sendBytes a outFd bytes avail) s () (withVfs s v) :=
  (returns_getFile hfile).throws (throws_onVfs hwrite).bind

theorem contentLength_eq {v : Vfs} {h : ℤ} {file : OpenFile} {content : Buf} (hr : Regular v h file content) :
    contentLength v file = (bytesOf v content).length := by
  unfold contentLength
  rw [hr.holds]

/-- The lines before the bytes are sent. -/
theorem Setting.ends_sysSendfile (hs : Setting s p a b outFd inFd outFile inFile outContent inContent) {offset : ℤ}
    (hoffset : offsetOf s pid p c inFile.position = some offset) {m : ℤ} {s' : FileIo.State} {ok : Bool} {avail : ℤ}
    (havail : min (unsigned d : ℤ) ((bytesOf s.kernel.vfs inContent).length - offset) = avail)
    (hrest : Ends (if avail ≤ 0 then return 0
      else do
        sendBytes a outFd (subarray (bytesOf s.kernel.vfs inContent) offset (offset + avail)) avail
        if c = 0 then setPosition inFd (offset + avail) else storeWord pid p 8 (unsigned c) (offset + avail)
        return avail : Io ℤ) s m s' ok) :
    Ends (sysSendfile pid p a b c d) s m s' ok := by
  obtain ⟨cell, hout⟩ := hs.output
  obtain ⟨cell', hinp⟩ := hs.input
  have hhas (a : Int32) {entry : FdEntry} (h : p.fdTable.get? a.toInt = some entry) : p.fdTable.has a.toInt = true :=
    JsMap.has_iff.2 ⟨entry, h⟩
  unfold sysSendfile
  rw [if_neg (by simp [hhas a hout, hhas b hinp])]
  refine .after (returns_regularFile hout hs.out.opened) (.after (returns_regularFile hinp hs.inp.opened) ?_)
  refine ends_offset hoffset (.after (returns_get s) ?_)
  dsimp only
  rw [contentLength_eq hs.inp, havail, hs.inp.holds, Option.map_some, Option.getD_some]
  exact hrest

/-- **`sendfile`** with nothing to send. -/
theorem Setting.returns_sysSendfile_zero (hs : Setting s p a b outFd inFd outFile inFile outContent inContent)
    {offset : ℤ} (hoffset : offsetOf s pid p c inFile.position = some offset)
    (hzero : min (unsigned d) ((bytesOf s.kernel.vfs inContent).length - offset).toNat = 0) :
    Returns (sysSendfile pid p a b c d) s 0 s := by
  have hends : Ends (sysSendfile pid p a b c d) s 0 s true := by
    refine hs.ends_sysSendfile hoffset rfl ?_
    rw [if_pos (by omega)]
    exact returns_pure 0 s
  exact hends

/-- **`sendfile`** with bytes to send. -/
theorem Setting.ends_sysSendfile_pos (hs : Setting s p a b outFd inFd outFile inFile outContent inContent)
    {offset : ℤ} (hoffset : offsetOf s pid p c inFile.position = some offset) {n : ℕ} (hpos : 0 < n)
    (hn : n = min (unsigned d) ((bytesOf s.kernel.vfs inContent).length - offset).toNat) {v : Vfs} {r : Option ℤ}
    (hwrite : writeFile s.limit s.kernel.vfs a.toInt (subarray (bytesOf s.kernel.vfs inContent) offset (offset + n))
      outFile.position = (v, r)) :
    Ends (sysSendfile pid p a b c d) s n
      (if r.isSome then advanced (withVfs s (seek v outFd (outFile.position + n))) pid inFd c (offset + n)
        else withVfs s v) r.isSome := by
  have havail : min (unsigned d : ℤ) ((bytesOf s.kernel.vfs inContent).length - offset) = n := by omega
  refine hs.ends_sysSendfile hoffset havail ?_
  rw [if_neg (by omega)]
  cases r with
  | none => exact (throws_sendBytes hs.out.opened hwrite n).bind
  | some r =>
      have hl : Loads (withVfs s (seek v outFd (outFile.position + n))) pid p c := loads_of_offset hoffset
      have hend (s' : FileIo.State) : Ends (pure (n : ℤ)) s' n s' true := returns_pure (n : ℤ) s'
      exact .after (returns_sendBytes hs.out.opened hwrite n) (ends_advance hl (offset + n) (hend _))

end Both

/-! ### When they agree -/

section Verdict

variable {s : Syscalls.State} {pid : ℤ} {p : Proc} {a b c d : Int32} {outFd inFd : ℤ} {outFile inFile : OpenFile}
  {outContent inContent : Buf}

/-- No offset can be loaded. -/
theorem agree_of_no_offset (hs : Setting s.io p a b outFd inFd outFile inFile outContent inContent)
    (hoffset : offsetOf s.io pid p c inFile.position = none) : Agree s pid p a b c d outFd inFd := by
  obtain ⟨cell, hout⟩ := hs.output
  obtain ⟨cell', hinp⟩ := hs.input
  have hhas (a : Int32) {entry : FdEntry} (h : p.fdTable.get? a.toInt = some entry) : p.fdTable.has a.toInt = true :=
    JsMap.has_iff.2 ⟨entry, h⟩
  have hsent : Throws (sysSendfile pid p a b c d) s.io () s.io := by
    unfold sysSendfile
    rw [if_neg (by simp [hhas a hout, hhas b hinp])]
    exact (returns_regularFile hout hs.out.opened).throws
      ((returns_regularFile hinp hs.inp.opened).throws (throws_offset hoffset _))
  have hpair : Throws (readThenWrite pid p a b c d) s.io () s.io :=
    (returns_regularFile hout hs.out.opened).throws
      ((returns_regularFile hinp hs.inp.opened).throws (throws_offset hoffset _))
  unfold Agree
  dsimp only [handler]
  rw [attempt_of_throws hsent, attempt_of_throws hpair]
  exact ⟨rfl, rfl⟩

/-- Two descriptors of one handle. -/
theorem Setting.same (hs : Setting s.io p a b outFd inFd outFile inFile outContent inContent) (h : outFd = inFd) :
    outFile = inFile ∧ outContent = inContent := by
  subst h
  have hfile : outFile = inFile := Option.some_inj.1 (hs.out.opened.symm.trans hs.inp.opened)
  subst hfile
  exact ⟨rfl, Option.some_inj.1 (hs.out.holds.symm.trans hs.inp.holds)⟩

theorem offset_of_zero {position offset : ℤ} (hoffset : offsetOf s.io pid p 0 position = some offset) :
    offset = position := (Option.some_inj.1 hoffset).symm

/-- The stored offset is stored again. -/
theorem storedOffset {position offset : ℤ} (hc : c ≠ 0) (hoffset : offsetOf s.io pid p c position = some offset)
    (m : ℤ) :
    writeAt (s.io.memory pid) (unsigned c) (wordBytes 8 m) = s.io.memory pid ↔ m ≡ offset [ZMOD 256 ^ 8] := by
  have hin := (loads_of_offset hoffset hc).2
  have hlen : (((s.io.memory pid).drop (unsigned c)).take 8).length = 8 := by
    rw [List.length_take, List.length_drop]
    omega
  have hword : wordBytes 8 offset = ((s.io.memory pid).drop (unsigned c)).take 8 := by
    unfold offsetOf at hoffset
    rw [if_neg hc] at hoffset
    split_ifs at hoffset
    rw [← Option.some_inj.1 hoffset, wordBytes_signed64 hlen]
  have hne : wordBytes 8 m ≠ [] := List.ne_nil_of_length_pos (by rw [length_wordBytes]; omega)
  rw [writeAt_eq_self_iff hne, length_wordBytes, slice, ← hword, eq_comm, wordBytes_eq_iff]

theorem ok_of_ne {n m : ℤ} (hm : m ≠ -1) {ok : Bool} (h : (if ok then n else -1) = m) : ok = true := by
  cases ok with
  | true => rfl
  | false => exact absurd h.symm hm

/-- What `sendfile` leaves when it has sent bytes. -/
theorem view_sent (hs : Setting s.io p a b outFd inFd outFile inFile outContent inContent) {v : Vfs}
    (hv : ∀ h, positionOf v h = positionOf s.io.kernel.vfs h) (position moved : ℤ) :
    view (advanced (withVfs s.io (seek v outFd position)) pid inFd c moved) pid outFd inFd =
      ⟨contentsOf v outFd, some (if c = 0 ∧ outFd = inFd then moved else position),
        some (if c = 0 then moved else if inFd = outFd then position else inFile.position),
        movedMemory s.io pid c moved⟩ := by
  have hout : (positionOf v outFd).isSome = true := by rw [hv, positionOf_eq hs.out]; rfl
  have hin : (positionOf (seek v outFd position) inFd).isSome = true := by
    rw [positionOf_seek hout, hv, positionOf_eq hs.inp]
    split_ifs <;> rfl
  have hview := @view_advanced (withVfs s.io (seek v outFd position)) pid c outFd inFd hin moved
  rw [hview, view]
  show View.mk (contentsOf (seek v outFd position) outFd) (if _ then _ else positionOf (seek v outFd position) outFd)
    (if _ then _ else positionOf (seek v outFd position) inFd) _ = _
  rw [contentsOf_seek, positionOf_seek hout, positionOf_seek hout, if_pos rfl, hv, positionOf_eq hs.inp]
  congr 1
  · split_ifs <;> rfl
  · split_ifs <;> rfl

/-- **Nothing to send.** -/
theorem agree_iff_of_zero (hs : Setting s.io p a b outFd inFd outFile inFile outContent inContent) {offset : ℤ}
    (hoffset : offsetOf s.io pid p c inFile.position = some offset)
    (hzero : min (unsigned d) ((bytesOf s.io.kernel.vfs inContent).length - offset).toNat = 0) :
    Agree s pid p a b c d outFd inFd ↔
      0 ≤ outFile.position ∧
        (outFile.append = true → outFile.position = (bytesOf s.io.kernel.vfs outContent).length) ∧
          outFile.position ≤ (bytesOf s.io.kernel.vfs outContent).length := by
  have hnil : readAt (bytesOf s.io.kernel.vfs inContent) offset (unsigned d) = [] := by
    rw [← List.length_eq_zero_iff, length_readAt, hzero]
  have hback : offset + (0 : ℕ) = offset := Int.add_zero offset
  have hmemory : movedMemory s.io pid c offset = s.io.memory pid := by
    unfold movedMemory
    split_ifs with hc
    · rfl
    · exact (storedOffset hc hoffset offset).2 rfl
  have hbefore : beforeWrite s.io c outFd inFd outFile outContent offset =
      ⟨bytesOf s.io.kernel.vfs outContent, outFile.position, outFile.append, s.io.limit⟩ := by
    unfold beforeWrite
    congr 1
    split_ifs with h
    · obtain ⟨rfl, hsame⟩ := h
      rw [offset_of_zero hoffset, (hs.same hsame).1]
    · rfl
  -- the pair writes an empty buffer, which may make the file longer or move the position
  have hquiet := write_nil_iff ⟨bytesOf s.io.kernel.vfs outContent, outFile.position, outFile.append, s.io.limit⟩
  rw [← hback] at hbefore
  generalize hf : (beforeWrite s.io c outFd inFd outFile outContent (offset + (0 : ℕ))).write [] = w
  obtain ⟨f, ok⟩ := w
  obtain ⟨s', hpair, hview⟩ := hs.ends_readThenWrite (d := d) hoffset hnil List.length_nil hf
  rw [hback, hmemory] at hview
  rw [hbefore] at hf
  have happend := write_append ⟨bytesOf s.io.kernel.vfs outContent, outFile.position, outFile.append, s.io.limit⟩ []
  have hlimit := write_limit ⟨bytesOf s.io.kernel.vfs outContent, outFile.position, outFile.append, s.io.limit⟩ []
  rw [hf] at hquiet happend hlimit
  have hinput : (if inFd = outFd then some outFile.position
      else if c = 0 then some offset else some inFile.position) = some inFile.position := by
    split_ifs with hsame hc
    · rw [(hs.same hsame.symm).1]
    · subst hc
      rw [offset_of_zero hoffset]
    · rfl
  unfold Agree
  dsimp only [handler]
  rw [attempt_of_returns (hs.returns_sysSendfile_zero hoffset hzero), attempt_of_ends hpair]
  dsimp only
  rw [hview, view, contentsOf_eq hs.out, positionOf_eq hs.out, positionOf_eq hs.inp, View.mk.injEq]
  rw [← hquiet]
  constructor
  · rintro ⟨hres, hbytes, hposition, -, -⟩
    have hok : ok = true := ok_of_ne (by decide) hres.symm
    exact Prod.ext (File.ext hbytes.symm (Option.some_inj.1 hposition).symm happend hlimit) hok
  · intro h
    obtain ⟨rfl, rfl⟩ := Prod.mk.inj h
    exact ⟨rfl, rfl, rfl, hinput.symm, rfl⟩

/-- Of one handle without a stored offset, the pair writes elsewhere than it has read. -/
theorem start_ne_of_shared (hs : Setting s.io p a b outFd inFd outFile inFile outContent inContent) {offset : ℤ}
    {n : ℕ} (hpos : 0 < n)
    (hn : n = min (unsigned d) ((bytesOf s.io.kernel.vfs inContent).length - offset).toNat) (hc : c = 0)
    (hsame : outFd = inFd) : (beforeWrite s.io c outFd inFd outFile outContent (offset + n)).start ≠ offset := by
  obtain ⟨-, hcontent⟩ := hs.same hsame
  unfold File.start beforeWrite
  dsimp only
  rw [hcontent]
  split_ifs with happend hshared
  · omega
  · omega
  · exact absurd ⟨hc, hsame⟩ hshared

/-- What is sent, and what the pair writes, as conditions on the output. -/
theorem agree_iff_of_pos (hs : Setting s.io p a b outFd inFd outFile inFile outContent inContent) {offset : ℤ}
    (hoffset : offsetOf s.io pid p c inFile.position = some offset) {n : ℕ} (hpos : 0 < n)
    (hn : n = min (unsigned d) ((bytesOf s.io.kernel.vfs inContent).length - offset).toNat) {v : Vfs} {r : Option ℤ}
    (hwrite : writeFile s.io.limit s.io.kernel.vfs a.toInt
      (subarray (bytesOf s.io.kernel.vfs inContent) offset (offset + n)) outFile.position = (v, r)) :
    Agree s pid p a b c d outFd inFd ↔
      0 ≤ outFile.position ∧
        (outFile.append = true → outFile.position = (bytesOf s.io.kernel.vfs outContent).length) ∧
          ¬ (c = 0 ∧ inFd = outFd) ∧
            (outFile.position + n ≤ (bytesOf s.io.kernel.vfs outContent).length ∨ outFile.position + n ≤ s.io.limit) ∧
              r.isSome = true ∧
                contentsOf v outFd = writeAt (bytesOf s.io.kernel.vfs outContent) outFile.position.toNat
                  (readAt (bytesOf s.io.kernel.vfs inContent) offset (unsigned d)) := by
  have hlen : (readAt (bytesOf s.io.kernel.vfs inContent) offset (unsigned d)).length = n := by
    rw [length_readAt, hn]
  have hmoves (h : ℤ) : positionOf v h = positionOf s.io.kernel.vfs h := by
    have hsame := positionOf_writeFile s.io.limit s.io.kernel.vfs a.toInt
      (subarray (bytesOf s.io.kernel.vfs inContent) offset (offset + n)) outFile.position h
    rwa [hwrite] at hsame
  have hsent := hs.ends_sysSendfile_pos hoffset hpos hn hwrite
  generalize hdata : readAt (bytesOf s.io.kernel.vfs inContent) offset (unsigned d) = data at hlen ⊢
  have hstart : (beforeWrite s.io c outFd inFd outFile outContent (offset + n)).start =
      if outFile.append = true then ((bytesOf s.io.kernel.vfs outContent).length : ℤ)
      else if c = 0 ∧ outFd = inFd then offset + n else outFile.position := rfl
  have hok := @write_eq_of_room (beforeWrite s.io c outFd inFd outFile outContent (offset + n)) data
  have hfull := @write_of_not_room (beforeWrite s.io c outFd inFd outFile outContent (offset + n)) data
  generalize hf : (beforeWrite s.io c outFd inFd outFile outContent (offset + n)).write data = w at hok hfull
  obtain ⟨f, ok⟩ := w
  obtain ⟨s', hpair, hview⟩ := hs.ends_readThenWrite hoffset hdata hlen hf
  unfold Agree
  dsimp only [handler]
  rw [attempt_of_ends hsent, attempt_of_ends hpair]
  dsimp only
  rw [hview]
  cases r with
  | none =>
      -- the pair has moved the position or the offset, `sendfile` has not
      refine iff_of_false ?_ fun h => by cases h.2.2.2.2.1
      rintro ⟨hres, hsame⟩
      have hfailed : ok = false := by
        cases ok with
        | true => cases hres
        | false => rfl
      have hposition : f.position = (beforeWrite s.io c outFd inFd outFile outContent (offset + n)).start := by
        refine (hfull fun hroom => ?_).2
        have htrue := congrArg Prod.snd (hok hroom.1 hroom.2)
        rw [hfailed] at htrue
        cases htrue
      have hin : positionOf v inFd = _ := congrArg View.inPosition hsame
      have hmemory : s.io.memory pid = movedMemory s.io pid c (offset + n) := congrArg View.memory hsame
      dsimp only at hin
      rw [hmoves, positionOf_eq hs.inp] at hin
      by_cases hc : c = 0
      · subst hc
        have hback := offset_of_zero hoffset
        rw [if_pos rfl] at hin
        split_ifs at hin with hboth
        · refine start_ne_of_shared hs hpos hn rfl hboth.symm ?_
          rw [hback, ← hback, ← hposition, hback]
          exact (Option.some_inj.1 hin).symm
        · have := Option.some_inj.1 hin
          omega
      · rw [movedMemory, if_neg hc, eq_comm, storedOffset hc hoffset, Int.ModEq] at hmemory
        have hbound := unsigned_eq d
        omega
  | some r =>
      have hne : ((n : ℕ) : ℤ) ≠ -1 := by omega
      have hwritten (htrue : ok = true) : 0 ≤ (beforeWrite s.io c outFd inFd outFile outContent (offset + n)).start ∧
          (beforeWrite s.io c outFd inFd outFile outContent (offset + n)).Room
            ((beforeWrite s.io c outFd inFd outFile outContent (offset + n)).start + data.length) := by
        by_contra hnot
        have hfalse : ok = false := (hfull hnot).1
        rw [htrue] at hfalse
        cases hfalse
      simp only [Option.isSome_some, if_true]
      rw [view_sent hs hmoves]
      by_cases hshared : c = 0 ∧ outFd = inFd
      · -- the position moves once, and in the pair twice
        refine iff_of_false ?_ fun h => h.2.2.1 ⟨hshared.1, hshared.2.symm⟩
        rintro ⟨hres, hsame⟩
        obtain ⟨hstart', hroom⟩ := hwritten (ok_of_ne hne hres.symm)
        have hposition : f.position = _ := congrArg (fun w : File × Bool => w.1.position) (hok hstart' hroom)
        have hout := Option.some_inj.1 (congrArg View.outPosition hsame)
        dsimp only at hout hposition
        rw [if_pos hshared, hposition, hlen] at hout
        exact start_ne_of_shared hs hpos hn hshared.1 hshared.2 (by omega)
      · rw [if_neg hshared] at hstart ⊢
        have hiff : (beforeWrite s.io c outFd inFd outFile outContent (offset + n)).start = outFile.position ↔
            (outFile.append = true → outFile.position = (bytesOf s.io.kernel.vfs outContent).length) := by
          rw [hstart]
          split_ifs with happend
          · exact ⟨fun h _ => h.symm, fun h => (h happend).symm⟩
          · exact iff_of_true rfl fun h => absurd h happend
        constructor
        · rintro ⟨hres, hsame⟩
          obtain ⟨hstart', hroom⟩ := hwritten (ok_of_ne hne hres.symm)
          have hfile := congrArg Prod.fst (hok hstart' hroom)
          have hposition : f.position = _ := congrArg File.position hfile
          have hbytes : f.bytes = _ := congrArg File.bytes hfile
          have hout := Option.some_inj.1 (congrArg View.outPosition hsame)
          dsimp only at hout hposition hbytes
          have hbegin : (beforeWrite s.io c outFd inFd outFile outContent (offset + n)).start = outFile.position := by
            omega
          rw [hbegin] at hstart' hroom hbytes
          rw [hlen] at hroom
          exact ⟨hstart', hiff.1 hbegin, fun h => hshared ⟨h.1, h.2.symm⟩, hroom, trivial,
            (congrArg View.bytes hsame).trans hbytes⟩
        · rintro ⟨hnat, happend, -, hroom, -, hcontents⟩
          have hbegin := hiff.2 happend
          rw [hbegin, hlen] at hok
          obtain ⟨rfl, rfl⟩ := Prod.mk.inj (hok hnat hroom)
          refine ⟨rfl, ?_⟩
          rw [View.mk.injEq]
          refine ⟨hcontents, rfl, ?_, rfl⟩
          rw [positionOf_eq hs.inp]
          by_cases hsame : inFd = outFd
          · rw [if_pos hsame, if_neg fun h => hshared ⟨h, hsame.symm⟩, if_pos hsame]
          · rw [if_neg hsame, if_neg hsame]
            split_ifs <;> rfl

/-- The write of `sendfile`, seen from the output. -/
theorem sends_iff (hs : Setting s.io p a b outFd inFd outFile inFile outContent inContent) {start : ℕ}
    (happend : outFile.append = true → (bytesOf s.io.kernel.vfs outContent).length = start) {selected : List UInt8}
    {n : ℕ} (hpos : 0 < n) (hle : selected.length ≤ n) :
    (writeFile s.io.limit s.io.kernel.vfs a.toInt selected start).2.isSome = true ∧
        contentsOf (writeFile s.io.limit s.io.kernel.vfs a.toInt selected start).1 outFd =
          writeAt (bytesOf s.io.kernel.vfs outContent) start (padTo n selected) ↔
      Stores s.io.limit s.io.kernel.vfs a.toInt start selected.length ∧
        if Reaches s.io.kernel.vfs outFd outContent a.toInt start selected.length then
          slice (bytesOf s.io.kernel.vfs outContent) (start + selected.length) (n - selected.length) =
            List.replicate (n - selected.length) 0
        else slice (bytesOf s.io.kernel.vfs outContent) start n = padTo n selected := by
  by_cases hst : Stores s.io.limit s.io.kernel.vfs a.toInt start selected.length
  · obtain ⟨v, r, hwrite, hcontents⟩ := writeFile_through hs.out happend hst
    have hpad : (padTo n selected).length = n := length_padTo hle
    have hne : padTo n selected ≠ [] := List.ne_nil_of_length_pos (by omega)
    rw [hwrite, hcontents]
    refine and_congr (iff_of_true rfl hst) ?_
    split_ifs
    · have htail := writeAt_append_eq_iff (bytesOf s.io.kernel.vfs outContent) start selected
        (List.replicate (n - selected.length) 0)
      rw [List.length_replicate] at htail
      exact eq_comm.trans htail
    · have hself := @writeAt_eq_self_iff (bytesOf s.io.kernel.vfs outContent) (padTo n selected) start hne
      rw [hpad] at hself
      exact eq_comm.trans hself
  · rw [writeFile_of_not_stores hst]
    exact iff_of_false (fun h => by cases h.1) fun h => hst h.1

/-- **When `sendfile` is a read and a write.** -/
theorem sent_iff_fits (hs : Setting s.io p a b outFd inFd outFile inFile outContent inContent) :
    Agree s pid p a b c d outFd inFd ↔ Fits s.io pid p a c d outFd inFd outFile inFile outContent inContent := by
  unfold Fits
  cases hoffset : offsetOf s.io pid p c inFile.position with
  | none => exact iff_of_true (agree_of_no_offset hs hoffset) trivial
  | some offset =>
      dsimp only
      generalize hn : min (unsigned d) ((bytesOf s.io.kernel.vfs inContent).length - offset).toNat = n
      by_cases hzero : n = 0
      · rw [if_pos hzero]
        exact agree_iff_of_zero hs hoffset (hn.trans hzero)
      have hpos : 0 < n := Nat.pos_of_ne_zero hzero
      have hle : (subarray (bytesOf s.io.kernel.vfs inContent) offset (offset + n)).length ≤ n :=
        length_subarray_le _ (by omega)
      rw [if_neg hzero, agree_iff_of_pos hs hoffset hpos hn.symm rfl, readAt_eq_padTo _ _ hn.symm]
      refine and_congr_right fun hnat => and_congr_right fun happend => and_congr_right fun _ => and_congr ?_ ?_
      · omega
      · obtain ⟨start, hstart⟩ := Int.eq_ofNat_of_zero_le hnat
        rw [hstart] at happend ⊢
        rw [Int.toNat_natCast]
        exact sends_iff hs (fun h => Int.ofNat_inj.1 (happend h).symm) hpos hle

end Verdict

/-! ### A descriptor that is not the number of its handle -/

/-- Process 1 opens a second file, duplicates its descriptor, writes two bytes into the first one and goes back. -/
def duplicating : List Syscalls.Event :=
  [.syscall 1 (.kernel (.open "/g".toList oCreat 0) .answered), .syscall 1 (.kernel (.dup 5) .answered),
    .syscall 1 (.file 4 (.write 0 2)), .syscall 1 (.file 4 (.lseek 0 0))]

/-- The state after these. -/
def duplicated : Syscalls.State := duplicating.foldl Syscalls.after Isolation.opened

theorem regular_of_any {v : Vfs} {h : ℤ} {content : Buf}
    (hany : (v.openFiles.get? h).any (fun file =>
      file.special = none ∧ file.isDir = false ∧ file.content = some content ∧ content < v.buffers.length) = true) :
    ∃ file, Regular v h file content := by
  obtain ⟨file, hopened, hprop⟩ := (Option.any_eq_true _ _).1 hany
  obtain ⟨hspecial, hdir, hholds, hstored⟩ := of_decide_eq_true hprop
  exact ⟨file, hopened, hspecial, hdir, hholds, hstored⟩

theorem setting_duplicated :
    ∃ p outFile inFile, duplicated.io.kernel.processTable.get? 1 = some p ∧
      Setting duplicated.io p 6 4 5 4 outFile inFile 1 2 := by
  have hproc : (duplicated.io.kernel.processTable.get? 1).any (fun p =>
      ((p.fdTable.get? 6).any fun entry => entry.kind = .file 5) ∧
        (p.fdTable.get? 4).any fun entry => entry.kind = .file 4) = true := by decide +kernel
  obtain ⟨p, hp, hprop⟩ := (Option.any_eq_true _ _).1 hproc
  obtain ⟨hout, hin⟩ := of_decide_eq_true hprop
  obtain ⟨⟨kind, cell⟩, hget, hkind⟩ := (Option.any_eq_true _ _).1 hout
  obtain ⟨⟨kind', cell'⟩, hget', hkind'⟩ := (Option.any_eq_true _ _).1 hin
  obtain rfl : kind = .file 5 := of_decide_eq_true hkind
  obtain rfl : kind' = .file 4 := of_decide_eq_true hkind'
  obtain ⟨outFile, hr⟩ : ∃ file, Regular duplicated.io.kernel.vfs 5 file 1 := regular_of_any (by decide +kernel)
  obtain ⟨inFile, hr'⟩ : ∃ file, Regular duplicated.io.kernel.vfs 4 file 2 := regular_of_any (by decide +kernel)
  exact ⟨p, outFile, inFile, hp, ⟨cell, hget⟩, ⟨cell', hget'⟩, hr, hr'⟩

theorem sent_iff_fits_duplicated :
    ∃ p outFile inFile, Setting duplicated.io p 6 4 5 4 outFile inFile 1 2 ∧
      (Agree duplicated 1 p 6 4 0 2 5 4 ↔ Fits duplicated.io 1 p 6 0 2 5 4 outFile inFile 1 2) := by
  obtain ⟨p, outFile, inFile, -, hs⟩ := setting_duplicated
  exact ⟨p, outFile, inFile, hs, sent_iff_fits hs⟩

/-- **Through a duplicated descriptor `sendfile` sends nothing,** and returns the number of the bytes. -/
theorem not_agree_duplicated :
    ¬ ∀ (s : Syscalls.State) (pid : ℤ) (p : Proc) (a b c d : Int32) (outFd inFd : ℤ) (outFile inFile : OpenFile)
      (outContent inContent : Buf), s.io.kernel.processTable.get? pid = some p →
        Setting s.io p a b outFd inFd outFile inFile outContent inContent → Agree s pid p a b c d outFd inFd := by
  intro hall
  obtain ⟨p, outFile, inFile, hp, hs⟩ := setting_duplicated
  obtain ⟨-, hview⟩ := hall duplicated 1 p 6 4 0 2 5 4 outFile inFile 1 2 hp hs
  have hbytes := congrArg View.bytes hview
  have hdiffer : (duplicated.io.kernel.processTable.get? 1).all (fun p =>
      contentsOf (attempt duplicated (handler duplicated.bootTime 1 p (.sendfile 6 4 0 2))).1.io.kernel.vfs 5 ≠
        contentsOf (attempt duplicated (readThenWrite 1 p 6 4 0 2)).1.io.kernel.vfs 5) = true := by decide +kernel
  rw [hp, Option.all_some] at hdiffer
  exact of_decide_eq_true hdiffer hbytes

end SendFile
