/-
**What a write leaves behind.**

`vfs.write` may throw before it has done anything, or after it has made the file longer, and the kernel moves the
position before and after it.  The position and the length of the file tell whether anything is left: a sequence of
writes at the position of a file has left everything as it was exactly if these two are as they were.

Main definitions:

* `WriteMarks.Written` — the five outcomes of `vfs.write` on the content of a file;
* `WriteMarks.Mark`, `WriteMarks.advance` — the position and the length, and what a write does to them;
* `WriteMarks.Since` — a file after writes at its position.

Main results:

* `WriteMarks.written_writeContent` — the outcomes;
* `WriteMarks.advances_writeNext` — a write advances the mark;
* `WriteMarks.Since.view_iff` — **the mark tells**.
-/

import AtuaComputer.FileContents
import AtuaComputer.Observations

set_option relaxedAutoImplicit false
set_option autoImplicit false

namespace WriteMarks

open VirtualFs FileIo Observations FileContents

/-! ### Outcomes -/

/-- The outcomes of the part of `write` about the buffer: there is no room; the file gets longer before the bytes turn
out to start before it; it gets longer, with the bytes; the bytes start before it; they fit. -/
inductive Written (limit : ℕ) (v : Vfs) (h : ℤ) (path : Path) (content : Buf) (src : List UInt8) (off : ℤ) :
    Vfs × Option ℤ → Prop where
  | full (hgrows : (bytesOf v content).length < off + src.length) (hroom : limit < off + src.length) :
      Written limit v h path content src off (v, none)
  | torn (hgrows : (bytesOf v content).length < off + src.length) (hroom : off + src.length ≤ limit) (hoff : off < 0)
      (bytes : List UInt8) (hlength : (bytes.length : ℤ) = off + src.length) :
      Written limit v h path content src off ((growFile v h path bytes).1, none)
  | grown (hgrows : (bytesOf v content).length < off + src.length) (hroom : off + src.length ≤ limit) (hoff : 0 ≤ off)
      (bytes : List UInt8) (hlength : (bytes.length : ℤ) = off + src.length) :
      Written limit v h path content src off ((growFile v h path bytes).1, some src.length)
  | before (hfits : off + src.length ≤ (bytesOf v content).length) (hoff : off < 0) :
      Written limit v h path content src off (v, none)
  | inPlace (hfits : off + src.length ≤ (bytesOf v content).length) (hoff : 0 ≤ off) :
      Written limit v h path content src off ((storeBytes v content src off).1, some src.length)

theorem written_writeContent (limit : ℕ) (v : Vfs) (h : ℤ) (path : Path) (content : Buf) (src : List UInt8) (off : ℤ) :
    Written limit v h path content src off (writeContent limit v h path content src off) := by
  unfold writeContent
  dsimp only
  split_ifs with hgrows hroom
  · exact .full hgrows hroom
  · have hneeded : ((off + src.length).toNat : ℤ) = off + src.length := by omega
    rw [storeBytes_growFile]
    by_cases hoff : 0 ≤ off
    · rw [setBytes_grown hoff hgrows]
      refine .grown hgrows (Int.not_lt.1 hroom) hoff _ ?_
      rw [length_writeAt]
      omega
    · have hset : setBytes (padTo (off + src.length).toNat (bytesOf v content)) src off = none := by
        unfold setBytes
        rw [if_neg fun h => hoff h.1]
      rw [hset]
      refine .torn hgrows (Int.not_lt.1 hroom) (Int.not_le.1 hoff) _ ?_
      rw [length_padTo (by omega), hneeded]
  · have hfits : off + src.length ≤ (bytesOf v content).length := Int.not_lt.1 hgrows
    by_cases hoff : 0 ≤ off
    · have hresult : (storeBytes v content src off).2 = some (src.length : ℤ) := by
        unfold storeBytes setBytes
        rw [if_pos ⟨hoff, hfits⟩]
      have heq : storeBytes v content src off = ((storeBytes v content src off).1, some (src.length : ℤ)) := by
        rw [← hresult]
      rw [heq]
      exact .inPlace hfits hoff
    · have hnone : storeBytes v content src off = (v, none) := by
        unfold storeBytes setBytes
        rw [if_neg fun h => hoff h.1]
      rw [hnone]
      exact .before hfits (Int.not_le.1 hoff)

/-! ### Positions and lengths -/

/-- The position of an open file, and the length of its content. -/
structure Mark where
  position : ℤ
  length : ℕ
deriving DecidableEq

/-- The mark of an open file. -/
def markOf (v : Vfs) (file : OpenFile) : Mark := ⟨file.position, contentLength v file⟩

/-- `file.append ? file.content.length : file.position` -/
def startOf (file : OpenFile) (m : Mark) : ℤ := if file.append then m.length else m.position

/-- The mark after a write of `count` bytes at the position that counts for `length` bytes.  The write may throw. -/
def advance (limit : ℕ) (file : OpenFile) (m : Mark) (count length : ℕ) : Except Mark Mark :=
  let start := startOf file m
  if file.content = none ∧ (file.append ∨ file.special ≠ some .null) then .error m
  else if file.special = some .null then .ok ⟨start + length, m.length⟩
  else if m.length < start + count then
    if limit < start + count then .error ⟨start, m.length⟩
    else if start < 0 then .error ⟨start, (start + count).toNat⟩
    else .ok ⟨start + length, (start + count).toNat⟩
  else if start < 0 then .error ⟨start, m.length⟩
  else .ok ⟨start + length, m.length⟩

/-- What a write does not change of an open file. -/
structure SameKind (file file' : OpenFile) : Prop where
  append : file'.append = file.append
  special : file'.special = file.special
  content : file'.content = none ↔ file.content = none

theorem SameKind.refl (file : OpenFile) : SameKind file file := ⟨rfl, rfl, Iff.rfl⟩

theorem SameKind.trans {f g i : OpenFile} (h : SameKind f g) (h' : SameKind g i) : SameKind f i :=
  ⟨h'.append.trans h.append, h'.special.trans h.special, h'.content.trans h.content⟩

theorem SameKind.advance_eq {file file' : OpenFile} (h : SameKind file file') (limit : ℕ) (m : Mark)
    (count length : ℕ) : advance limit file' m count length = advance limit file m count length := by
  unfold advance startOf
  simp only [h.append, h.special, h.content]

/-! ### Views of a file -/

section Views

variable {v w : Vfs} {h : ℤ} {file file' : OpenFile}

theorem fsView_opened (hfile : v.openFiles.get? h = some file) :
    (fsView v).opened h = some (file.position, file.content.map (bytesOf v)) := by
  show (v.openFiles.get? h).map _ = _
  rw [hfile, Option.map_some]

theorem contentLength_eq (v : Vfs) (file : OpenFile) :
    contentLength v file = ((file.content.map (bytesOf v)).map List.length).getD 0 := by
  unfold contentLength
  cases file.content <;> rfl

/-- The view tells the mark. -/
theorem markOf_of_view (hv : v.openFiles.get? h = some file) (hw : w.openFiles.get? h = some file')
    (hview : (fsView v).opened h = (fsView w).opened h) : markOf v file = markOf w file' := by
  rw [fsView_opened hv, fsView_opened hw, Option.some_inj, Prod.mk.injEq] at hview
  rw [markOf, markOf, contentLength_eq, contentLength_eq, hview.1, hview.2]

theorem fsView_seek (hfile : v.openFiles.get? h = some file) (position : ℤ) :
    fsView (seek v h position) =
      { fsView v with
        opened := Function.update (fsView v).opened h (some (position, file.content.map (bytesOf v))) } := by
  have hseek : seek v h position = { v with openFiles := v.openFiles.set h { file with position } } := by
    rw [seek, updateFile, hfile]
  rw [hseek]
  unfold fsView
  congr 1
  funext fd
  rw [JsMap.get?_set, Function.update_apply]
  split_ifs <;> rfl

theorem fsView_seek_self (hfile : v.openFiles.get? h = some file) : fsView (seek v h file.position) = fsView v := by
  rw [fsView_seek hfile, ← fsView_opened hfile, Function.update_eq_self]

/-- A seek looks the same from filesystems that look the same. -/
theorem fsView_seek_congr (hv : v.openFiles.get? h = some file) (hw : w.openFiles.get? h = some file')
    (hview : fsView v = fsView w) (position : ℤ) : fsView (seek v h position) = fsView (seek w h position) := by
  have hopened := congrArg (fun x => x.opened h) hview
  rw [fsView_opened hv, fsView_opened hw, Option.some_inj, Prod.mk.injEq] at hopened
  rw [fsView_seek hv, fsView_seek hw, hview, hopened.2]

theorem fsView_seek_seek (hfile : v.openFiles.get? h = some file) (position position' : ℤ) :
    fsView (seek (seek v h position) h position') = fsView (seek v h position') := by
  have hbytes : bytesOf (seek v h position) = bytesOf v := bytesOf_congr (seek_frame v h position).2
  rw [fsView_seek (get?_seek hfile position), fsView_seek hfile, fsView_seek hfile, hbytes]
  simp only [Function.update_idem]

theorem contentLength_seek (v : Vfs) (h position position' : ℤ) (file : OpenFile) :
    contentLength (seek v h position) { file with position := position' } = contentLength v file := by
  rw [contentLength_eq, contentLength_eq, bytesOf_congr (seek_frame v h position).2]

theorem markOf_seek (v : Vfs) (h position : ℤ) (file : OpenFile) :
    markOf (seek v h position) { file with position } = ⟨position, (markOf v file).length⟩ := by
  rw [markOf, contentLength_seek, markOf]

theorem openFiles_storeBytes (v : Vfs) (content : Buf) (src : List UInt8) (off : ℤ) :
    (storeBytes v content src off).1.openFiles = v.openFiles := by
  unfold storeBytes
  split <;> rfl

theorem length_storeBytes (v : Vfs) (content : Buf) (src : List UInt8) (off : ℤ) :
    (bytesOf (storeBytes v content src off).1 content).length = (bytesOf v content).length := by
  unfold storeBytes
  cases hset : setBytes (bytesOf v content) src off with
  | none => rfl
  | some bytes =>
      dsimp only
      by_cases hin : content < v.buffers.length
      · rw [bytesOf_set hin rfl, Function.update_self]
        unfold setBytes at hset
        split_ifs at hset with hfits
        rw [← Option.some_inj.1 hset]
        simp only [List.length_append, List.length_take, List.length_drop]
        omega
      · rw [bytesOf, bytesOf, List.set_eq_of_length_le (Nat.le_of_not_lt hin)]

end Views

/-! ### Writes at the position of a file -/

/-- A file after writes at its position: it has only moved on, unless it is appended to, it has only become longer
where it has not moved on, and nothing else was left behind where its length is the same. -/
structure Since (v₀ v : Vfs) (h : ℤ) (file₀ file : OpenFile) : Prop where
  opened : v.openFiles.get? h = some file
  kind : SameKind file₀ file
  later : file₀.append = false → file₀.position ≤ file.position
  longer : file₀.append = true ∨ file.position = file₀.position → contentLength v₀ file₀ ≤ contentLength v file
  same : file₀.append = true ∨ file.position = file₀.position → contentLength v file = contentLength v₀ file₀ →
    fsView (seek v h file₀.position) = fsView v₀

section Since

variable {v₀ v v' : Vfs} {h : ℤ} {file₀ file file' : OpenFile}

theorem Since.refl (hfile : v.openFiles.get? h = some file) : Since v v h file file where
  opened := hfile
  kind := SameKind.refl file
  later := fun _ => Int.le_refl _
  longer := fun _ => Nat.le_refl _
  same := fun _ _ => fsView_seek_self hfile

/-- **The mark tells** whether anything was left behind. -/
theorem Since.view_iff (hs : Since v₀ v h file₀ file) (hfile : v₀.openFiles.get? h = some file₀) :
    fsView v = fsView v₀ ↔ markOf v file = markOf v₀ file₀ := by
  constructor
  · intro hview
    exact markOf_of_view hs.opened hfile (congrArg (fun x => x.opened h) hview)
  · intro hmark
    obtain ⟨hposition, hlength⟩ := Mark.mk.inj hmark
    rw [← hs.same (Or.inr hposition) hlength, ← hposition, fsView_seek_self hs.opened]

/-- A position that is back was not left before. -/
theorem Since.earlier (hs : Since v₀ v h file₀ file) (hlater : file.append = false → file.position ≤ file'.position)
    (hor : file₀.append = true ∨ file'.position = file₀.position) :
    file₀.append = true ∨ file.position = file₀.position := by
  cases happend : file₀.append with
  | true => exact Or.inl rfl
  | false =>
      have hback : file'.position = file₀.position := hor.resolve_left (by rw [happend]; exact Bool.false_ne_true)
      have hbefore : file₀.position ≤ file.position := hs.later happend
      have hafter : file.position ≤ file'.position := hlater (hs.kind.append.trans happend)
      exact Or.inr (by omega)

/-- The position alone may have changed. -/
theorem Since.moved (hs : Since v₀ v h file₀ file) (hopened : v'.openFiles.get? h = some file')
    (hkind : SameKind file file') (hlater : file.append = false → file.position ≤ file'.position)
    (hview : fsView v' = fsView (seek v h file'.position)) : Since v₀ v' h file₀ file' := by
  have hlength : contentLength v' file' = contentLength v file := by
    have hmark := markOf_of_view hopened (get?_seek hs.opened file'.position)
      (congrArg (fun x => x.opened h) hview)
    rw [← contentLength_seek v h file'.position file'.position file]
    exact (Mark.mk.inj hmark).2
  refine ⟨hopened, hs.kind.trans hkind, ?_, ?_, ?_⟩
  · intro happend
    exact Int.le_trans (hs.later happend) (hlater (hs.kind.append.trans happend))
  · intro hor
    rw [hlength]
    exact hs.longer (hs.earlier hlater hor)
  · intro hor hsame
    rw [fsView_seek_congr hopened (get?_seek hs.opened _) hview, fsView_seek_seek hs.opened]
    exact hs.same (hs.earlier hlater hor) (hlength.symm.trans hsame)

/-- The file has become longer. -/
theorem Since.grown (hs : Since v₀ v h file₀ file) (hopened : v'.openFiles.get? h = some file')
    (hkind : SameKind file file') (hlater : file.append = false → file.position ≤ file'.position)
    (hlonger : contentLength v file < contentLength v' file') : Since v₀ v' h file₀ file' := by
  have hbefore (hor : file₀.append = true ∨ file'.position = file₀.position) :
      contentLength v₀ file₀ ≤ contentLength v file := hs.longer (hs.earlier hlater hor)
  refine ⟨hopened, hs.kind.trans hkind, ?_, ?_, ?_⟩
  · intro happend
    exact Int.le_trans (hs.later happend) (hlater (hs.kind.append.trans happend))
  · intro hor
    exact Nat.le_of_lt (Nat.lt_of_le_of_lt (hbefore hor) hlonger)
  · intro hor hsame
    have hle := hbefore hor
    omega

/-- The position has passed the one at the start. -/
theorem Since.past (hs : Since v₀ v h file₀ file) (hopened : v'.openFiles.get? h = some file')
    (hkind : SameKind file file') (happend : file.append = false) (hpast : file.position < file'.position) :
    Since v₀ v' h file₀ file' := by
  have happend₀ : file₀.append = false := hs.kind.append.symm.trans happend
  have hne : ¬ (file₀.append = true ∨ file'.position = file₀.position) := by
    have hle := hs.later happend₀
    rw [happend₀]
    rintro (habsurd | hback)
    · exact Bool.false_ne_true habsurd
    · omega
  refine ⟨hopened, hs.kind.trans hkind, ?_, fun hor => absurd hor hne, fun hor => absurd hor hne⟩
  intro _
  exact Int.le_of_lt (Int.lt_of_le_of_lt (hs.later happend₀) hpast)

/-- Where a write starts, if it does. -/
theorem startPosition_eq (v : Vfs) (file : OpenFile) :
    startPosition v file =
      if file.content = none ∧ file.append = true then none else some (startOf file (markOf v file)) := by
  unfold startPosition startOf
  cases happend : file.append with
  | false => simp [markOf]
  | true =>
      cases hcontent : file.content with
      | none => simp
      | some content => simp [markOf, contentLength, hcontent]

theorem writeNext_eq (hfile : v.openFiles.get? h = some file) {start : ℤ} (hstart : startPosition v file = some start)
    (limit : ℕ) (buf : List UInt8) (length : ℕ) :
    writeNext limit v h buf length =
      match writeFile limit (seek v h start) h buf start with
      | (w, none) => (w, none)
      | (w, some _) => (seek w h (start + length), some (length : ℤ)) := by
  rcases hwrite : writeFile limit (seek v h start) h buf start with ⟨w, _ | n⟩ <;>
    simp only [writeNext, hfile, hstart, hwrite]

/-- The outcome of a write at the position, with the mark that it leads to. -/
def Advances (v₀ : Vfs) (h : ℤ) (file₀ : OpenFile) (length : ℕ) (out : Vfs × Option ℤ) (after : Except Mark Mark) :
    Prop :=
  ∃ file', Since v₀ out.1 h file₀ file' ∧
    match after with
    | .ok m => out.2 = some (length : ℤ) ∧ markOf out.1 file' = m
    | .error m => out.2 = none ∧ markOf out.1 file' = m

/-- A write that only moves the position. -/
theorem Since.seeks (hs : Since v₀ v h file₀ file) {position : ℤ}
    (hlater : file.append = false → file.position ≤ position) :
    Since v₀ (seek v h position) h file₀ { file with position } :=
  hs.moved (get?_seek hs.opened position) ⟨rfl, rfl, Iff.rfl⟩ hlater rfl

/-- The buffer of the file is replaced by a longer one. -/
theorem Since.grows (hs : Since v₀ v h file₀ file) (hcontent : file.content ≠ none) {bytes : List UInt8}
    (hlonger : (markOf v file).length < bytes.length) :
    Since v₀ (growFile v h file.path bytes).1 h file₀ { file with content := some v.buffers.length } ∧
      markOf (growFile v h file.path bytes).1 { file with content := some v.buffers.length } =
        ⟨file.position, bytes.length⟩ := by
  have heq := growFile_eq hs.opened file.path bytes
  have hopened : (growFile v h file.path bytes).1.openFiles.get? h =
      some { file with content := some v.buffers.length } := by
    rw [heq]
    exact JsMap.get?_set_self _ _ _
  have hmark : markOf (growFile v h file.path bytes).1 { file with content := some v.buffers.length } =
      ⟨file.position, bytes.length⟩ := by
    rw [markOf, contentLength]
    dsimp only
    rw [bytesOf_append (by rw [heq]), Function.update_self]
  refine ⟨hs.grown hopened ⟨rfl, rfl, ?_⟩ (fun _ => Int.le_refl _) ?_, hmark⟩
  · exact iff_of_false (Option.some_ne_none _) hcontent
  · exact Nat.lt_of_lt_of_eq hlonger (Mark.mk.inj hmark).2.symm

/-- A write to a file with a content, after the position was set for it. -/
theorem advances_writeContent (hs : Since v₀ v h file₀ file) (limit : ℕ) {content : Buf}
    (hcontent : file.content = some content) (hnull : file.special ≠ some .null) {buf : List UInt8} {length : ℕ}
    (hlength : buf.length ≤ length) {start : ℤ} (hstart : startOf file (markOf v file) = start) :
    Advances v₀ h file₀ length
      (match writeContent limit (seek v h start) h file.path content buf start with
        | (w, none) => (w, none)
        | (w, some _) => (seek w h (start + length), some (length : ℤ)))
      (advance limit file (markOf v file) buf.length length) := by
  have hbytes : bytesOf (seek v h start) = bytesOf v := bytesOf_congr (seek_frame v h start).2
  have hmark : (markOf v file).length = (bytesOf v content).length := by
    rw [markOf, contentLength, hcontent]
  have hlater : file.append = false → file.position ≤ start := by
    intro happend
    rw [← hstart, startOf, happend]
    exact Int.le_refl _
  have hadvance : advance limit file (markOf v file) buf.length length =
      if (markOf v file).length < start + buf.length then
        if limit < start + buf.length then .error ⟨start, (markOf v file).length⟩
        else if start < 0 then .error ⟨start, (start + buf.length).toNat⟩
        else .ok ⟨start + length, (start + buf.length).toNat⟩
      else if start < 0 then .error ⟨start, (markOf v file).length⟩
      else .ok ⟨start + length, (markOf v file).length⟩ := by
    unfold advance
    dsimp only
    rw [if_neg (by rw [hcontent]; simp), if_neg hnull, hstart]
  have hone : Since v₀ (seek v h start) h file₀ { file with position := start } := hs.seeks hlater
  have honeMark : markOf (seek v h start) { file with position := start } = ⟨start, (markOf v file).length⟩ :=
    markOf_seek v h start file
  -- the file that has got longer
  have hgrow (bytes : List UInt8) (hgrows : (markOf v file).length < start + buf.length)
      (hneeded : (bytes.length : ℤ) = start + buf.length) :
      ∃ file', Since v₀ (growFile (seek v h start) h file.path bytes).1 h file₀ file' ∧
        markOf (growFile (seek v h start) h file.path bytes).1 file' = ⟨start, (start + buf.length).toNat⟩ := by
    have hlonger : (markOf (seek v h start) { file with position := start }).length < bytes.length := by
      rw [honeMark]
      dsimp only
      omega
    obtain ⟨hsince, hmark'⟩ := hone.grows (by rw [hcontent]; exact Option.some_ne_none content) hlonger
    refine ⟨_, hsince, hmark'.trans ?_⟩
    congr 1
    omega
  rw [hadvance]
  have hout := written_writeContent limit (seek v h start) h file.path content buf start
  revert hout
  generalize writeContent limit (seek v h start) h file.path content buf start = out
  intro hout
  cases hout with
  | full hgrows hroom =>
      rw [hbytes, ← hmark] at hgrows
      rw [if_pos hgrows, if_pos hroom]
      exact ⟨_, hone, rfl, honeMark⟩
  | torn hgrows hroom hoff bytes hneeded =>
      rw [hbytes, ← hmark] at hgrows
      rw [if_pos hgrows, if_neg (Int.not_lt.2 hroom), if_pos hoff]
      obtain ⟨file', hsince, hmark'⟩ := hgrow bytes hgrows hneeded
      exact ⟨file', hsince, rfl, hmark'⟩
  | grown hgrows hroom hoff bytes hneeded =>
      rw [hbytes, ← hmark] at hgrows
      rw [if_pos hgrows, if_neg (Int.not_lt.2 hroom), if_neg (Int.not_lt.2 hoff)]
      obtain ⟨file', hsince, hmark'⟩ := hgrow bytes hgrows hneeded
      have hposition : file'.position = start := (Mark.mk.inj hmark').1
      refine ⟨_, hsince.seeks fun _ => by omega, rfl, ?_⟩
      rw [markOf_seek, hmark']
  | before hfits hoff =>
      rw [hbytes, ← hmark] at hfits
      rw [if_neg (Int.not_lt.2 hfits), if_pos hoff]
      exact ⟨_, hone, rfl, honeMark⟩
  | inPlace hfits hoff =>
      rw [hbytes, ← hmark] at hfits
      rw [if_neg (Int.not_lt.2 hfits), if_neg (Int.not_lt.2 hoff)]
      by_cases hempty : buf = []
      · rw [hempty, storeBytes_nil]
        refine ⟨_, hone.seeks fun _ => ?_, rfl, ?_⟩
        · show start ≤ start + length
          omega
        · rw [markOf_seek, honeMark]
      · have hpos : 0 < buf.length := List.length_pos_iff.2 hempty
        have happend : file.append = false := by
          cases happ : file.append with
          | false => rfl
          | true =>
              rw [startOf, happ] at hstart
              have hend : ((markOf v file).length : ℤ) = start := hstart
              omega
        have hposition : file.position = start := by
          rw [startOf, happend] at hstart
          exact hstart
        have hopened : (storeBytes (seek v h start) content buf start).1.openFiles.get? h =
            some { file with position := start } := by
          rw [openFiles_storeBytes]
          exact get?_seek hs.opened start
        refine ⟨{ file with position := start + length }, hs.past ?_ ⟨rfl, rfl, Iff.rfl⟩ happend ?_, rfl, ?_⟩
        · exact get?_seek hopened (start + length)
        · show file.position < start + length
          omega
        · have hmoved := markOf_seek (storeBytes (seek v h start) content buf start).1 h (start + length) file
          rw [hmoved, markOf, contentLength, hcontent]
          dsimp only
          rw [length_storeBytes, hbytes, ← hmark]

/-- **A write advances the mark.** -/
theorem advances_writeNext (hs : Since v₀ v h file₀ file) (limit : ℕ) {buf : List UInt8} {length : ℕ}
    (hlength : buf.length ≤ length) :
    Advances v₀ h file₀ length (writeNext limit v h buf length)
      (advance limit file (markOf v file) buf.length length) := by
  by_cases hstuck : file.content = none ∧ file.append = true
  · have hnext : writeNext limit v h buf length = (v, none) := by
      unfold writeNext
      rw [hs.opened]
      dsimp only
      rw [startPosition_eq, if_pos hstuck]
    have hadvance : advance limit file (markOf v file) buf.length length = .error (markOf v file) := by
      unfold advance
      dsimp only
      rw [if_pos ⟨hstuck.1, Or.inl hstuck.2⟩]
    rw [hnext, hadvance]
    exact ⟨file, hs, rfl, rfl⟩
  have hstart : startPosition v file = some (startOf file (markOf v file)) := by
    rw [startPosition_eq, if_neg hstuck]
  have hlater : file.append = false → file.position ≤ startOf file (markOf v file) := by
    intro happend
    rw [startOf, happend]
    exact Int.le_refl _
  rw [writeNext_eq hs.opened hstart]
  have hopened := get?_seek hs.opened (startOf file (markOf v file))
  -- the null device takes everything and keeps no bytes
  by_cases hnull : file.special = some .null
  · have hwrite : writeFile limit (seek v h (startOf file (markOf v file))) h buf (startOf file (markOf v file)) =
        (seek v h (startOf file (markOf v file)), some (buf.length : ℤ)) := by
      unfold writeFile
      rw [hopened]
      dsimp only
      rw [if_pos hnull]
    have hadvance : advance limit file (markOf v file) buf.length length =
        .ok ⟨startOf file (markOf v file) + length, (markOf v file).length⟩ := by
      unfold advance
      dsimp only
      rw [if_neg fun h => h.2.elim (fun happend => hstuck ⟨h.1, happend⟩) fun hne => hne hnull, if_pos hnull]
    rw [hwrite, hadvance]
    have hone := hs.seeks hlater
    refine ⟨_, hone.seeks fun _ => ?_, rfl, ?_⟩
    · show startOf file (markOf v file) ≤ startOf file (markOf v file) + length
      omega
    · rw [markOf_seek, markOf_seek]
  cases hcontent : file.content with
  | none =>
      have happend : file.append = false := Bool.eq_false_iff.2 fun happend => hstuck ⟨hcontent, happend⟩
      have hwrite : writeFile limit (seek v h (startOf file (markOf v file))) h buf (startOf file (markOf v file)) =
          (seek v h (startOf file (markOf v file)), none) := by
        unfold writeFile
        rw [hopened]
        dsimp only
        rw [if_neg hnull, hcontent]
      have hadvance : advance limit file (markOf v file) buf.length length = .error (markOf v file) := by
        unfold advance
        dsimp only
        rw [if_pos ⟨hcontent, Or.inr hnull⟩]
      rw [hwrite, hadvance]
      refine ⟨_, hs.seeks hlater, rfl, ?_⟩
      rw [markOf_seek, startOf, happend]
      rfl
  | some content =>
      -- an appending write begins at the end of the file, where `startOf` is too
      have hoff : (if file.append then ((bytesOf (seek v h (startOf file (markOf v file))) content).length : ℤ)
          else startOf file (markOf v file)) = startOf file (markOf v file) := by
        split_ifs with happend
        · rw [bytesOf_congr (seek_frame v h _).2, startOf, if_pos happend, markOf, contentLength, hcontent]
        · rfl
      have hwrite : writeFile limit (seek v h (startOf file (markOf v file))) h buf (startOf file (markOf v file)) =
          writeContent limit (seek v h (startOf file (markOf v file))) h file.path content buf
            (startOf file (markOf v file)) := by
        unfold writeFile
        rw [hopened]
        dsimp only
        rw [if_neg hnull, hcontent]
        dsimp only
        rw [hoff]
      rw [hwrite]
      exact advances_writeContent hs limit hcontent hnull hlength rfl

end Since

end WriteMarks
