/-
**What an archive says and what is read of it.**

The name of a member stands in its header, perhaps in two parts, or in a record of an extended header in
front of it, which has precedence; the same holds of the target of a link.  Text is UTF-8 in both places.
The reader takes the bytes of a header for characters one by one, leaves out a value that is empty, makes a
number of one that has digits only, and throws for a record with a line end in it.  So an archive is read
back exactly when none of this happens to a name in it.

The sizes, the modes and the places of the blocks are always right, whoever wrote the archive and whatever
else stands in its headers.

Main definitions:

* `Untar.Field`, `Untar.HeaderFields` — a header with its fields;
* `Untar.Stored` — a member as it stands in an archive, and `Untar.Stored.name`, `Untar.Stored.linkname`,
  what is said of it;
* `Untar.archive` — the bytes of an archive;
* `Untar.Stored.Readable` — the condition.

Main results:

* `Untar.untarFrom_archive` — what is read, and when the reader throws;
* `Untar.untar_archive_iff` — **an archive is read back if and only if all its members are readable**;
* `Untar.loadTar_archive` — the filesystem of a readable archive is that of its members.
-/

import AtuaComputer.UntarText
import Mathlib.Data.List.TakeWhile

set_option relaxedAutoImplicit false
set_option autoImplicit false

namespace Untar

open JsNumber

/-! ### Fields -/

/-- A field of a header: bytes that are not zero, and what stands behind them from the first zero byte on. -/
structure Field (width : ℕ) where
  bytes : List UInt8
  rest : List UInt8
  length_eq : bytes.length + rest.length = width
  no_zero : 0 ∉ bytes
  ends : ∀ b ∈ rest.head?, b = 0

/-- The bytes of a field. -/
def Field.block {width : ℕ} (f : Field width) : List UInt8 := f.bytes ++ f.rest

/-- Any bytes are a field. -/
def Field.ofBlock (bytes : List UInt8) : Field bytes.length where
  bytes := bytes.takeWhile (· != 0)
  rest := bytes.dropWhile (· != 0)
  length_eq := by rw [← List.length_append, List.takeWhile_append_dropWhile]
  no_zero hmem := by simpa using List.mem_takeWhile_imp hmem
  ends b hb := by
    have hhead := List.head?_dropWhile_not (· != 0) bytes
    rw [Option.mem_def.1 hb] at hhead
    simpa using hhead

/-- Any bytes are a field. -/
theorem Field.block_ofBlock (bytes : List UInt8) : (Field.ofBlock bytes).block = bytes :=
  List.takeWhile_append_dropWhile

/-- A field that is filled up with zero bytes. -/
def Field.zeroFilled (width : ℕ) (bytes : List UInt8) (fits : bytes.length ≤ width) (no_zero : 0 ∉ bytes) :
    Field width where
  bytes := bytes
  rest := List.replicate (width - bytes.length) 0
  length_eq := by
    rw [List.length_replicate]
    omega
  no_zero := no_zero
  ends b hb := List.eq_of_mem_replicate (List.mem_of_mem_head? hb)

/-- A code unit for each byte. -/
def latin1 (bytes : List UInt8) : Text := bytes.map fun b => UInt16.ofNat b.toNat

/-- What `readString` returns. -/
def Field.text {width : ℕ} (f : Field width) : Text := latin1 f.bytes

/-- From one place to another one a result is read. -/
def Reads {α : Type} (x : Reader α) (n : ℕ) (a : α) (m : ℕ) : Prop := x (some (n : ℤ)) = .ok (a, some (m : ℤ))

theorem reads_pure {α : Type} (a : α) (n : ℕ) : Reads (pure a) n a n := rfl

theorem Reads.bind {α β : Type} {x : Reader α} {k : α → Reader β} {n m l : ℕ} {a : α} {b : β}
    (hx : Reads x n a m) (hk : Reads (k a) m b l) : Reads (x >>= k) n b l := by
  unfold Reads at hx hk ⊢
  simp only [Bind.bind, StateT.bind]
  rw [hx]
  exact hk

section Fields

variable {buf rest : List UInt8} {n : ℕ}

theorem getUint8_of_drop {b : UInt8} (h : buf.drop n = b :: rest) : getUint8 buf (some (n : ℤ)) = .ok b := by
  have hget : buf[n]? = some b := by
    have hzero := congrArg (fun l => l[0]?) h
    simpa [List.getElem?_drop] using hzero
  simp only [getUint8, Option.getD_some, Int.toNat_natCast, hget]
  rw [if_neg (by omega)]

theorem drop_succ {b : UInt8} (h : buf.drop n = b :: rest) : buf.drop (n + 1) = rest := by
  rw [← List.drop_drop, h]
  rfl

theorem readUnits_field {bytes tail : List UInt8} (hzero : 0 ∉ bytes) (hends : ∀ b ∈ tail.head?, b = 0) :
    ∀ {width n : ℕ}, bytes.length + tail.length = width → buf.drop n = bytes ++ (tail ++ rest) →
      readUnits buf width (some (n : ℤ)) = .ok (latin1 bytes) := by
  induction bytes with
  | nil =>
      intro width n hlength h
      cases tail with
      | nil =>
          subst hlength
          rfl
      | cons b tail =>
          obtain rfl : b = 0 := hends b rfl
          obtain ⟨width, rfl⟩ : ∃ w, width = w + 1 := ⟨width - 1, by simp at hlength; omega⟩
          have hget : getUint8 buf (some (n : ℤ)) = .ok 0 := getUint8_of_drop h
          simp only [readUnits, hget]
          rfl
  | cons b bytes ih =>
      intro width n hlength h
      obtain ⟨width, rfl⟩ : ∃ w, width = w + 1 := ⟨width - 1, by simp at hlength; omega⟩
      have hb : b ≠ 0 := fun heq => hzero (heq ▸ List.mem_cons_self)
      have hrest : bytes.length + tail.length = width := by
        rw [List.length_cons] at hlength
        omega
      have hnext := ih (fun hmem => hzero (List.mem_cons_of_mem b hmem)) hrest (drop_succ h)
      have hplus : plus (some (n : ℤ)) (some 1) = some ((n + 1 : ℕ) : ℤ) := by simp
      simp only [readUnits, getUint8_of_drop h]
      simp only [bind, Except.bind, hplus, hnext]
      rw [if_pos hb]
      rfl

theorem length_block {width : ℕ} (f : Field width) : f.block.length = width := by
  rw [Field.block, List.length_append, f.length_eq]

/-- A field is read. -/
theorem reads_field {width : ℕ} (f : Field width) (h : buf.drop n = f.block ++ rest) :
    Reads (readString buf width) n f.text (n + width) := by
  rw [Field.block, List.append_assoc] at h
  have hunits := readUnits_field f.no_zero f.ends f.length_eq h
  simp only [Reads, readString, hunits]
  simp only [bind, Except.bind, plus_some, Nat.cast_add]
  rfl

/-- What is behind a field. -/
theorem drop_field {width : ℕ} (f : Field width) (h : buf.drop n = f.block ++ rest) : buf.drop (n + width) = rest := by
  rw [← List.drop_drop, h]
  exact List.drop_left' (length_block f)

end Fields

/-! ### Headers -/

/-- A header.  Nothing is asked of the fields that the reader does not act on. -/
structure HeaderFields where
  name : Field 100
  mode : Field 8
  uid : Field 8
  gid : Field 8
  size : Field 12
  mtime : Field 12
  checksum : Field 8
  type : Field 1
  linkname : Field 100
  magic : Field 6
  version : Field 2
  uname : Field 32
  gname : Field 32
  devmajor : Field 8
  devminor : Field 8
  namePrefix : Field 155
  padding : Field 12
  /-- The header is one of `ustar`, in the way of POSIX or of GNU. -/
  ustar : units "ustar" <:+: magic.text
  /-- A header does not begin like the end of the archive. -/
  name_ne : name.bytes ≠ []

namespace HeaderFields

variable (h : HeaderFields)

/-- The bytes of a header. -/
def block : List UInt8 :=
  h.name.block ++ (h.mode.block ++ (h.uid.block ++ (h.gid.block ++ (h.size.block ++ (h.mtime.block ++
    (h.checksum.block ++ (h.type.block ++ (h.linkname.block ++ (h.magic.block ++ (h.version.block ++
      (h.uname.block ++ (h.gname.block ++ (h.devmajor.block ++ (h.devminor.block ++ (h.namePrefix.block ++
        h.padding.block)))))))))))))))

/-- The name that the reader puts together. -/
def fullName : Text :=
  if h.namePrefix.text = [] then h.name.text else h.namePrefix.text ++ units "/" ++ h.name.text

/-- The object that the reader makes of a header. -/
def file : TarFile :=
  let file : TarFile := JsMap.empty.setAll
    [(units "name", .text h.name.text), (units "mode", .text h.mode.text),
      (units "uid", .number (parseInt h.uid.text none)), (units "gid", .number (parseInt h.gid.text none)),
      (units "size", .number (parseInt h.size.text (some 8))),
      (units "mtime", .number (parseInt h.mtime.text (some 8))),
      (units "checksum", .number (parseInt h.checksum.text none)), (units "type", .text h.type.text),
      (units "linkname", .text h.linkname.text), (units "ustarFormat", .text h.magic.text)]
  let file := file.setAll
    [(units "version", .text h.version.text), (units "uname", .text h.uname.text),
      (units "gname", .text h.gname.text), (units "devmajor", .number (parseInt h.devmajor.text none)),
      (units "devminor", .number (parseInt h.devminor.text none)), (units "namePrefix", .text h.namePrefix.text)]
  if h.namePrefix.text = [] then file
  else file.set (units "name") (.text (h.namePrefix.text ++ units "/" ++ h.name.text))

theorem length_block : h.block.length = 512 := by
  simp only [block, List.length_append, Untar.length_block]

/-- **A header is read**, whatever its fields are. -/
theorem reads {buf rest : List UInt8} {n : ℕ} (hbuf : buf.drop n = h.block ++ rest) :
    Reads (readHeader buf) n ⟨h.file, h.type.text, parseInt h.size.text (some 8)⟩ (n + 500) := by
  simp only [block, List.append_assoc] at hbuf
  have h₁ := drop_field _ hbuf
  have h₂ := drop_field _ h₁
  have h₃ := drop_field _ h₂
  have h₄ := drop_field _ h₃
  have h₅ := drop_field _ h₄
  have h₆ := drop_field _ h₅
  have h₇ := drop_field _ h₆
  have h₈ := drop_field _ h₇
  have h₉ := drop_field _ h₈
  have h₁₀ := drop_field _ h₉
  have h₁₁ := drop_field _ h₁₀
  have h₁₂ := drop_field _ h₁₁
  have h₁₃ := drop_field _ h₁₂
  have h₁₄ := drop_field _ h₁₃
  have h₁₅ := drop_field _ h₁₄
  unfold readHeader
  refine (reads_field _ hbuf).bind ((reads_field _ h₁).bind ((reads_field _ h₂).bind ((reads_field _ h₃).bind
    ((reads_field _ h₄).bind ((reads_field _ h₅).bind ((reads_field _ h₆).bind ((reads_field _ h₇).bind
      ((reads_field _ h₈).bind ((reads_field _ h₉).bind ?_)))))))))
  dsimp only
  rw [if_pos h.ustar]
  refine (reads_field _ h₁₀).bind ((reads_field _ h₁₁).bind ((reads_field _ h₁₂).bind ((reads_field _ h₁₃).bind
    ((reads_field _ h₁₄).bind ((reads_field _ h₁₅).bind ?_)))))
  exact reads_pure _ _

section Properties

/-- The name of the object. -/
theorem get?_name : h.file.get? (units "name") = some (.text h.fullName) := by
  unfold file fullName
  split_ifs with hpre
  · simp [JsMap.setAll, JsMap.get?_set]
  · simp

theorem get?_type : h.file.get? (units "type") = some (.text h.type.text) := by
  unfold file
  split_ifs <;> simp [JsMap.setAll, JsMap.get?_set]

theorem get?_linkname : h.file.get? (units "linkname") = some (.text h.linkname.text) := by
  unfold file
  split_ifs <;> simp [JsMap.setAll, JsMap.get?_set]

theorem get?_mode : h.file.get? (units "mode") = some (.text h.mode.text) := by
  unfold file
  split_ifs <;> simp [JsMap.setAll, JsMap.get?_set]

end Properties

end HeaderFields

/-! ### Members -/

/-- Bytes, filled up to a whole number of blocks. -/
def filled (data : List UInt8) : List UInt8 := data ++ List.replicate ((512 - data.length % 512) % 512) 0

/-- An extended header. -/
structure Extended where
  header : HeaderFields
  records : List Record
  type_eq : header.type.bytes = [0x78]
  size_eq : parseInt header.size.text (some 8) = some ((encodeRecords records).length : ℤ)

/-- A member as it stands in an archive. -/
structure Stored where
  extended : Option Extended
  header : HeaderFields
  data : List UInt8
  baseText : List Char
  dirText : List Char
  linkText : List Char
  base_eq : header.name.bytes = Utf8.encode baseText
  dir_eq : header.namePrefix.bytes = Utf8.encode dirText
  link_eq : header.linkname.bytes = Utf8.encode linkText
  size_eq : parseInt header.size.text (some 8) = some (data.length : ℤ)
  type_ne : header.type.bytes ≠ [0x78] ∧ header.type.bytes ≠ [0x67]

/-- The value of the last record with a keyword. -/
def lastValue (keyword : List Char) : List Record → Option (List Char)
  | [] => none
  | r :: rs => (lastValue keyword rs).or (if r.keyword = keyword then some r.value else none)

/-- The value of the last record that the reader assigns to a property.  There are others than those with the keyword
that is meant, since the keywords of the other records are taken for properties. -/
def lastAssigned (q : Text) : List Record → Option (List Char)
  | [] => none
  | r :: rs => (lastAssigned q rs).or (if property (Utf16.ofText r.keyword) = q then some r.value else none)

namespace Stored

variable (m : Stored)

/-- The records in front of a member. -/
def records : List Record := (m.extended.map Extended.records).getD []

/-- The name that the header says. -/
def headerName : List Char := if m.dirText = [] then m.baseText else m.dirText ++ '/' :: m.baseText

/-- A record says more than the header.  One without a value takes back what a record says. -/
def said (keyword headerText : List Char) : List Char :=
  match lastValue keyword m.records with
  | some (c :: value) => c :: value
  | _ => headerText

/-- **The name that an archive says.** -/
def name : List Char := m.said "path".toList m.headerName

/-- **The target that an archive says.** -/
def linkname : List Char := m.said "linkpath".toList m.linkText

/-- The bytes of a member; only a file has any. -/
def contents : List UInt8 := if m.header.type.text = units "0" ∨ m.header.type.text = [] then m.data else []

/-- The blocks of a member. -/
def encode : List UInt8 :=
  (m.extended.map fun x => x.header.block ++ filled (encodeRecords x.records)).getD [] ++
    (m.header.block ++ filled m.data)

/-- A property gets a text: a record has it as its value, which is no number, or no record has one and the header is
read right. -/
def Gets (q : String) (text : Text) (fromHeader : Prop) : Prop :=
  match lastAssigned (units q) m.records with
  | some value => Utf16.ofText value = text ∧ value ≠ [] ∧ ¬ ∀ c ∈ value, c.isDigit = true
  | none => fromHeader

/-- **The condition.**  Nothing has a line end; a name that stands in a header has one byte for each character, and one
in a record is a text; and no record gives the other properties anything else. -/
structure Readable : Prop where
  oneLine : ∀ r ∈ m.records, r.OneLine
  name : m.Gets "name" (Utf16.ofText m.name) (Ascii m.headerName)
  linkname : m.Gets "linkname" (Utf16.ofText m.linkname) (Ascii m.linkText)
  type : m.Gets "type" m.header.type.text True
  mode : m.Gets "mode" m.header.mode.text True
  buffer : lastAssigned (units "buffer") m.records = none

/-- The object that the reader makes of a member. -/
def file : TarFile :=
  applyOptional (m.extended.map fun x => x.records.map Record.field)
    (m.header.file.set (units "buffer") (.buffer m.contents))

/-- The object has the properties that an archive says. -/
def Shown (file : TarFile) : Prop :=
  file.get? (units "name") = some (.text (Utf16.ofText m.name)) ∧
  file.get? (units "linkname") = some (.text (Utf16.ofText m.linkname)) ∧
  file.get? (units "type") = some (.text m.header.type.text) ∧
  file.get? (units "mode") = some (.text m.header.mode.text) ∧
  file.get? (units "buffer") = some (.buffer m.contents)

end Stored

/-- The bytes of an archive, with the zero bytes at its end. -/
def archive (ms : List Stored) (zeros : ℕ) : List UInt8 := ms.flatMap Stored.encode ++ List.replicate zeros 0

/-! ### Blocks -/

section Blocks

variable {buf rest data : List UInt8} {n : ℕ} {h : HeaderFields}

/-- A part of the bytes. -/
theorem subarray_part (bytes : List UInt8) (i k : ℕ) :
    subarray bytes (some (i : ℤ)) (some ((i + k : ℕ) : ℤ)) = (bytes.drop i).take k := by
  have hclamp (j : ℕ) : VirtualFs.clampIndex bytes.length j = min j bytes.length := by
    rw [VirtualFs.clampIndex, if_neg (by omega), Int.toNat_natCast]
  simp only [subarray, VirtualFs.subarray, Option.getD_some, hclamp]
  rw [List.take_drop, List.take_eq_take_iff.2 (by simp : min (min (i + k) bytes.length) bytes.length =
    min (i + k) bytes.length)]
  refine List.drop_eq_drop_iff.2 ?_
  rw [List.length_take]
  omega

theorem length_filled (data : List UInt8) : (filled data).length = data.length + (512 - data.length % 512) % 512 := by
  simp [filled]

/-- The next block is behind the bytes as they are filled up. -/
theorem dataEnd_filled (n : ℕ) (data : List UInt8) :
    dataEnd (some (n : ℤ)) (some (data.length : ℤ)) = some ((n + (filled data).length : ℕ) : ℤ) := by
  have hmod : (data.length : ℤ).tmod 512 = ((data.length % 512 : ℕ) : ℤ) := by
    exact_mod_cast (Int.ofNat_tmod data.length 512).symm
  simp only [dataEnd, hmod, length_filled]
  split_ifs with hzero
  · exact congrArg some (by omega)
  · exact congrArg some (by omega)

/-- **A block is read** up to the place where the next one begins. -/
theorem readBlock_eq (hbuf : buf.drop n = h.block ++ (filled data ++ rest))
    (hsize : parseInt h.size.text (some 8) = some (data.length : ℤ)) (global : Option (List PaxField)) :
    readBlock buf ⟨global, some (n : ℤ)⟩ =
      let next : Number := some ((n + (512 + (filled data).length) : ℕ) : ℤ)
      let file := h.file.set (units "buffer") (.buffer [])
      if h.type.text = units "0" ∨ h.type.text = [] then
        .ok ⟨h.file.set (units "buffer") (.buffer data), false, none, ⟨global, next⟩⟩
      else if h.type.text = units "g" then
        (parsePax data).bind fun fields => .ok ⟨file, true, none, ⟨some fields, next⟩⟩
      else if h.type.text = units "x" then
        (parsePax data).bind fun fields => .ok ⟨file, true, some fields, ⟨global, next⟩⟩
      else .ok ⟨file, false, none, ⟨global, next⟩⟩ := by
  have hheader := h.reads hbuf
  have hbegin : plus (some (n : ℤ)) (some 512) = some ((n + 512 : ℕ) : ℤ) := by simp
  have hdrop : buf.drop (n + 512) = filled data ++ rest := by
    rw [← List.drop_drop, hbuf, List.drop_left' h.length_block]
  have hdata : readBuffer buf (some ((n + 512 : ℕ) : ℤ)) (some (data.length : ℤ)) = data := by
    rw [readBuffer, plus_some, ← Nat.cast_add, subarray_part, hdrop, filled, List.append_assoc, List.take_left]
  unfold Reads at hheader
  simp only [readBlock, hbegin]
  rw [hheader]
  simp only [bind, Except.bind, hsize, hdata, dataEnd_filled, Nat.add_assoc]

/-- The units of the type field. -/
theorem text_eq_units {width : ℕ} {f : Field width} {b : UInt8} {s : String} (hs : units s = [UInt16.ofNat b.toNat]) :
    f.text = units s ↔ f.bytes = [b] := by
  rw [hs, Field.text, latin1]
  constructor
  · intro htext
    obtain ⟨c, hc, hunit⟩ : ∃ c, f.bytes = [c] ∧ UInt16.ofNat c.toNat = UInt16.ofNat b.toNat := by
      rcases hbytes : f.bytes with _ | ⟨c, _ | ⟨d, l⟩⟩
      · simp [hbytes] at htext
      · exact ⟨c, rfl, by simpa [hbytes] using htext⟩
      · simp [hbytes] at htext
    have hval := congrArg UInt16.toNat hunit
    rw [Utf16.toNat_ofNat_of_lt (c.toNat_lt.trans (by decide)), Utf16.toNat_ofNat_of_lt (b.toNat_lt.trans (by decide))]
      at hval
    rw [hc, UInt8.toNat_inj.1 hval]
  · intro hbytes
    rw [hbytes]
    rfl

end Blocks

/-! ### Members and archives -/

section Archives

variable {buf rest : List UInt8} {n : ℕ}

theorem length_encode_extended (x : Extended) :
    (x.header.block ++ filled (encodeRecords x.records)).length = 512 + (filled (encodeRecords x.records)).length := by
  rw [List.length_append, x.header.length_block]

/-- The block of an extended header. -/
theorem readBlock_extended (x : Extended)
    (hbuf : buf.drop n = x.header.block ++ (filled (encodeRecords x.records) ++ rest)) :
    readBlock buf ⟨none, some (n : ℤ)⟩ =
      if ∀ r ∈ x.records, r.OneLine then
        .ok ⟨x.header.file.set (units "buffer") (.buffer []), true, some (x.records.map Record.field),
          ⟨none, some ((n + (512 + (filled (encodeRecords x.records)).length) : ℕ) : ℤ)⟩⟩
      else .error invalidPax := by
  have htype : x.header.type.text = units "x" := (text_eq_units (by decide)).2 x.type_eq
  have hfile : ¬ (x.header.type.text = units "0" ∨ x.header.type.text = []) := by
    rw [htype]
    decide
  have hglobal : x.header.type.text ≠ units "g" := by
    rw [htype]
    decide
  rw [readBlock_eq hbuf x.size_eq, if_neg hfile, if_neg hglobal, if_pos htype, parsePax_encode]
  split_ifs <;> rfl

/-- The block of a member. -/
theorem readBlock_member (m : Stored) (hbuf : buf.drop n = m.header.block ++ (filled m.data ++ rest)) :
    readBlock buf ⟨none, some (n : ℤ)⟩ =
      .ok ⟨m.header.file.set (units "buffer") (.buffer m.contents), false, none,
        ⟨none, some ((n + (512 + (filled m.data).length) : ℕ) : ℤ)⟩⟩ := by
  have hextended : m.header.type.text ≠ units "x" := fun htext => m.type_ne.1 ((text_eq_units (by decide)).1 htext)
  have hglobal : m.header.type.text ≠ units "g" := fun htext => m.type_ne.2 ((text_eq_units (by decide)).1 htext)
  rw [readBlock_eq hbuf m.size_eq, Stored.contents]
  by_cases hfile : m.header.type.text = units "0" ∨ m.header.type.text = []
  · rw [if_pos hfile, if_pos hfile]
  · rw [if_neg hfile, if_neg hglobal, if_neg hextended, if_neg hfile]

/-- **A member is read**, with the extended header in front of it. -/
theorem readNextFile_stored (m : Stored) (hbuf : buf.drop n = m.encode ++ rest) (fuel : ℕ) :
    readNextFile buf (fuel + 2) ⟨none, some (n : ℤ)⟩ =
      some (if ∀ r ∈ m.records, r.OneLine then .ok (m.file, ⟨none, some ((n + m.encode.length : ℕ) : ℤ)⟩)
        else .error invalidPax) := by
  unfold Stored.encode Stored.records Stored.file at *
  cases hextended : m.extended with
  | none =>
      simp only [hextended, Option.map_none, Option.getD_none, List.nil_append, List.append_assoc] at hbuf ⊢
      rw [readNextFile, readBlock_member m hbuf]
      simp [applyOptional, m.header.length_block]
  | some x =>
      simp only [hextended, Option.map_some, Option.getD_some, List.append_assoc] at hbuf ⊢
      have hnext : buf.drop (n + (512 + (filled (encodeRecords x.records)).length)) =
          m.header.block ++ (filled m.data ++ rest) := by
        rw [← List.drop_drop, hbuf, ← List.append_assoc, List.drop_left' (length_encode_extended x)]
      rw [readNextFile, readBlock_extended x hbuf]
      by_cases hline : ∀ r ∈ x.records, r.OneLine
      · rw [if_pos hline, if_pos hline]
        dsimp only
        rw [if_pos rfl, readNextFile, readBlock_member m hnext]
        simp [applyOptional, m.header.length_block, x.header.length_block, Nat.add_assoc]
        rfl
      · rw [if_neg hline, if_neg hline]

/-- A header begins with a byte that is not zero. -/
theorem block_eq_cons (h : HeaderFields) : ∃ b l, h.block = b :: l ∧ b ≠ 0 := by
  obtain ⟨b, l, hname⟩ := List.exists_cons_of_ne_nil h.name_ne
  have hzero : b ≠ 0 := by
    rintro rfl
    exact h.name.no_zero (hname ▸ List.mem_cons_self)
  refine ⟨b, h.block.tail, ?_, hzero⟩
  rw [HeaderFields.block, Field.block, hname]
  rfl

theorem encode_eq_cons (m : Stored) : ∃ b l, m.encode = b :: l ∧ b ≠ 0 := by
  unfold Stored.encode
  cases m.extended with
  | none =>
      obtain ⟨b, l, hblock, hb⟩ := block_eq_cons m.header
      exact ⟨b, l ++ filled m.data, by simp [hblock], hb⟩
  | some x =>
      obtain ⟨b, l, hblock, hb⟩ := block_eq_cons x.header
      exact ⟨b, _, by simp [hblock]; rfl, hb⟩

theorem le_length_encode (m : Stored) : 512 ≤ m.encode.length := by
  simp only [Stored.encode, List.length_append, m.header.length_block]
  omega

/-- There is another member. -/
theorem hasNext_stored (m : Stored) (hbuf : buf.drop n = m.encode ++ rest) :
    hasNext buf (some (n : ℤ)) = .ok true := by
  obtain ⟨b, l, hcons, hb⟩ := encode_eq_cons m
  have hlong : 512 ≤ (buf.drop n).length := by
    rw [hbuf, List.length_append]
    exact Nat.le_add_right_of_le (le_length_encode m)
  have hroom : n + 512 ≤ buf.length := by
    rw [List.length_drop] at hlong
    omega
  have hword : leNat ((buf.drop n).take 4) ≠ 0 := by
    rw [hbuf, hcons, List.cons_append, List.take_succ_cons, leNat]
    have hpos : b.toNat ≠ 0 := fun hzero => hb (UInt8.toNat_inj.1 hzero)
    omega
  have hrange : ¬ ((n : ℤ) < 0 ∨ (buf.length : ℤ) < n + 4) := by omega
  simp only [hasNext, peekUint32, Option.getD_some, Int.toNat_natCast]
  rw [if_pos (by omega), if_neg hrange]
  simp [bind, Except.bind, hword]

/-- There is no other member. -/
theorem hasNext_zeros {zeros : ℕ} (hbuf : buf.drop n = List.replicate zeros 0) :
    hasNext buf (some (n : ℤ)) = .ok false := by
  have hword : leNat ((buf.drop n).take 4) = 0 := by
    rw [hbuf, List.take_replicate]
    induction min 4 zeros with
    | zero => rfl
    | succ k ih => rw [List.replicate_succ, leNat, ih]; rfl
  simp only [hasNext, peekUint32, Option.getD_some, Int.toNat_natCast]
  by_cases hroom : (n : ℤ) + 4 < buf.length
  · have hrange : ¬ ((n : ℤ) < 0 ∨ (buf.length : ℤ) < n + 4) := by omega
    rw [if_pos hroom, if_neg hrange]
    simp [bind, Except.bind, hword]
  · rw [if_neg hroom]

/-- **The members are read** one after the other, and one record with a line end makes all of it fail. -/
theorem untarFrom_archive (ms : List Stored) (zeros : ℕ) : ∀ {n fuel : ℕ}, ms.length + 3 ≤ fuel →
    buf.drop n = archive ms zeros → untarFrom buf fuel ⟨none, some (n : ℤ)⟩ =
      some (if ∀ m ∈ ms, ∀ r ∈ m.records, r.OneLine then .ok (ms.map Stored.file) else .error invalidPax) := by
  induction ms with
  | nil =>
      intro n fuel hfuel hbuf
      obtain ⟨fuel, rfl⟩ : ∃ k, fuel = k + 1 := ⟨fuel - 1, by omega⟩
      rw [untarFrom, hasNext_zeros hbuf]
      rfl
  | cons m ms ih =>
      intro n fuel hfuel hbuf
      rw [List.length_cons] at hfuel
      obtain ⟨fuel, rfl⟩ : ∃ k, fuel = k + 3 := ⟨fuel - 3, by omega⟩
      have hcons : archive (m :: ms) zeros = m.encode ++ archive ms zeros := by simp [archive]
      rw [hcons] at hbuf
      have hnext : buf.drop (n + m.encode.length) = archive ms zeros := by
        rw [← List.drop_drop, hbuf, List.drop_left]
      rw [untarFrom, hasNext_stored m hbuf, readNextFile_stored m hbuf]
      by_cases hline : ∀ r ∈ m.records, r.OneLine
      · rw [if_pos hline]
        dsimp only
        rw [ih (by omega) hnext]
        by_cases hall : ∀ m ∈ ms, ∀ r ∈ m.records, r.OneLine
        · rw [if_pos hall, if_pos (List.forall_mem_cons.2 ⟨hline, hall⟩)]
          rfl
        · rw [if_neg hall, if_neg fun hboth => hall (List.forall_mem_cons.1 hboth).2]
          rfl
      · rw [if_neg hline, if_neg fun hboth => hline (List.forall_mem_cons.1 hboth).1]

end Archives

/-! ### Properties of what is read -/

/-- The value that a record assigns. -/
def PaxValue.value : PaxValue → Option Value
  | .null => none
  | .number n => some (.number (some n))
  | .text s => some (.text s)

/-- A record assigns to its property and to no other one. -/
theorem get?_applyField (file : TarFile) (field : PaxField) {q : Text} (hpre : q ≠ units "prefix")
    (hproto : q ≠ units "__proto__") : (applyField file field).get? q =
      if property field.name = q then field.value.value else file.get? q := by
  have hfront : (if field.name = units "path" then file.delete (units "prefix") else file).get? q = file.get? q := by
    split_ifs
    · exact JsMap.get?_delete_ne hpre
    · rfl
  unfold applyField
  by_cases hq : property field.name = q
  · subst hq
    rw [if_pos rfl]
    cases field.value <;> simp [hproto, PaxValue.value]
  · rw [if_neg hq, ← hfront]
    cases field.value with
    | null => exact JsMap.get?_delete_ne (Ne.symm hq)
    | number n =>
        dsimp only
        split_ifs
        all_goals first | rfl | exact JsMap.get?_set_ne (Ne.symm hq)
    | text s =>
        dsimp only
        split_ifs
        all_goals first | rfl | exact JsMap.get?_set_ne (Ne.symm hq)

/-- The last record for a property decides. -/
theorem get?_applyHeader {q : Text} (hpre : q ≠ units "prefix") (hproto : q ≠ units "__proto__") (rs : List Record) :
    ∀ file : TarFile, (applyHeader (rs.map Record.field) file).get? q =
      (lastAssigned q rs).elim (file.get? q) fun value => (paxValue (Utf16.ofText value)).value := by
  induction rs with
  | nil =>
      intro file
      rfl
  | cons r rs ih =>
      intro file
      have hcons : applyHeader ((r :: rs).map Record.field) file =
          applyHeader (rs.map Record.field) (applyField file r.field) := rfl
      rw [hcons, ih, lastAssigned]
      cases lastAssigned q rs with
      | some value => rfl
      | none =>
          rw [Option.none_or, Option.elim_none, get?_applyField file r.field hpre hproto]
          by_cases hassigned : property (Utf16.ofText r.keyword) = q
          · rw [if_pos hassigned, if_pos (show property r.field.name = q from hassigned)]
            rfl
          · rw [if_neg hassigned, if_neg (show property r.field.name ≠ q from hassigned)]
            rfl

/-- A record with the keyword of a property is assigned to it. -/
theorem lastValue_eq_none {keyword : List Char} {q : Text} (hq : property (Utf16.ofText keyword) = q)
    {rs : List Record} (h : lastAssigned q rs = none) : lastValue keyword rs = none := by
  induction rs with
  | nil => rfl
  | cons r rs ih =>
      rw [lastAssigned, Option.or_eq_none_iff] at h
      have hne : r.keyword ≠ keyword := by
        rintro rfl
        rw [if_pos hq] at h
        cases h.2
      rw [lastValue, ih h.1, if_neg hne]
      rfl

/-- Characters that are more than one byte each have fewer units than bytes. -/
theorem length_ofText_le (s : List Char) : (Utf16.ofText s).length ≤ (Utf8.encode s).length ∧
    ((Utf16.ofText s).length = (Utf8.encode s).length → Ascii s) := by
  induction s with
  | nil => exact ⟨le_rfl, fun _ c hc => absurd hc List.not_mem_nil⟩
  | cons c s ih =>
      have hchar : (Utf16.encodeChar c).length ≤ (String.utf8EncodeChar c).length ∧
          ((Utf16.encodeChar c).length = (String.utf8EncodeChar c).length → c.toNat < 0x80) := by
        have hval : c.val.toNat = c.toNat := rfl
        unfold Utf16.encodeChar String.utf8EncodeChar
        simp only [hval]
        split_ifs <;> simp only [List.length_cons, List.length_nil] <;> omega
      rw [Utf16.ofText_cons, Utf8.encode_cons, List.length_append, List.length_append]
      refine ⟨by omega, fun hlength d hd => ?_⟩
      rcases List.mem_cons.1 hd with rfl | hd
      · exact hchar.2 (by omega)
      · exact ih.2 (by omega) d hd

/-- **Bytes taken for characters one by one are the text that was encoded exactly if it is one of one-byte
characters.** -/
theorem latin1_encode_iff (s : List Char) : latin1 (Utf8.encode s) = Utf16.ofText s ↔ Ascii s := by
  constructor
  · intro h
    have hlength := congrArg List.length h
    rw [latin1, List.length_map] at hlength
    exact (length_ofText_le s).2 hlength.symm
  · intro h
    rw [encode_ascii h, ofText_ascii h, latin1, List.map_map]
    refine List.map_congr_left fun c hc => ?_
    have hlt := h c hc
    rw [Function.comp_apply, Utf8.toNat_ofNat_of_lt (by omega)]

/-- A text of digits only becomes a number. -/
theorem all_isDigit_iff (s : List Char) : (Utf16.ofText s).all isDigit = true ↔ ∀ c ∈ s, c.isDigit = true := by
  induction s with
  | nil => simp [Utf16.ofText]
  | cons c s ih =>
      have hchar : (Utf16.encodeChar c).all isDigit = true ↔ c.isDigit = true := by
        have hc := Utf8.toNat_bounds c
        have hdigit : c.isDigit = true ↔ 48 ≤ c.toNat ∧ c.toNat ≤ 57 := by
          simp [Char.isDigit, UInt32.le_iff_toNat_le]
        rw [hdigit, Utf16.encodeChar]
        split_ifs with hsmall
        · simp [isDigit, Utf16.toNat_ofNat_of_lt hsmall]
        · have hhigh := Utf16.toNat_ofNat_of_lt (n := 0xD800 + (c.toNat - 0x10000) / 0x400) (by omega)
          simp only [List.all_cons, isDigit, hhigh, Bool.and_eq_true, decide_eq_true_eq]
          omega
      rw [Utf16.ofText_cons, List.all_append, Bool.and_eq_true, hchar, ih, List.forall_mem_cons]

namespace Stored

variable (m : Stored)

/-- The object, with the records as one list. -/
theorem file_eq : m.file = applyHeader (m.records.map Record.field)
    (m.header.file.set (units "buffer") (.buffer m.contents)) := by
  unfold file records
  cases m.extended <;> rfl

/-- **What a property gets.** -/
theorem get?_file_iff (q : String) (text : Text) (hq : q ≠ "prefix" ∧ q ≠ "__proto__" ∧ q ≠ "buffer")
    {headerText : Text} (hheader : m.header.file.get? (units q) = some (.text headerText)) :
    m.file.get? (units q) = some (.text text) ↔ m.Gets q text (headerText = text) := by
  have hget : (m.header.file.set (units "buffer") (.buffer m.contents)).get? (units q) = some (.text headerText) := by
    rw [JsMap.get?_set_ne (by simp [hq]), hheader]
  rw [file_eq, get?_applyHeader (by simp [hq]) (by simp [hq]), hget]
  unfold Gets
  cases lastAssigned (units q) m.records with
  | none => simp
  | some value =>
      rw [Option.elim_some]
      cases value with
      | nil => simp [paxValue, Utf16.ofText, PaxValue.value]
      | cons c value =>
          have hne : Utf16.ofText (c :: value) ≠ [] := by
            intro hnil
            have hempty : Utf16.ofText (c :: value) = Utf16.ofText [] := hnil
            exact List.cons_ne_nil c value (ofText_injective hempty)
          by_cases hdigits : (Utf16.ofText (c :: value)).all isDigit = true
          · rw [paxValue, if_neg hne, if_pos hdigits]
            have hall := (all_isDigit_iff _).1 hdigits
            exact iff_of_false (by simp [PaxValue.value]) fun hread => hread.2.2 hall
          · rw [paxValue, if_neg hne, if_neg hdigits]
            simpa [PaxValue.value] using fun _ hall => hdigits ((all_isDigit_iff _).2 hall)

/-- No record can give a member its bytes. -/
theorem get?_file_buffer_iff :
    m.file.get? (units "buffer") = some (.buffer m.contents) ↔ lastAssigned (units "buffer") m.records = none := by
  rw [file_eq, get?_applyHeader (by simp) (by simp), JsMap.get?_set_self]
  cases lastAssigned (units "buffer") m.records with
  | none => simp
  | some value =>
      rw [Option.elim_some]
      refine iff_of_false (fun hget => ?_) (by simp)
      cases hvalue : paxValue (Utf16.ofText value) with
      | null => simp [hvalue, PaxValue.value] at hget
      | number n => simp [hvalue, PaxValue.value] at hget
      | text s => simp [hvalue, PaxValue.value] at hget

/-- What the header has counts if no record is assigned. -/
theorem Gets.congr {m : Stored} {q : String} {text : Text} {P Q : Prop}
    (h : lastAssigned (units q) m.records = none → (P ↔ Q)) : m.Gets q text P ↔ m.Gets q text Q := by
  unfold Gets
  cases hlast : lastAssigned (units q) m.records with
  | none => exact h hlast
  | some value => exact Iff.rfl

/-- Without a record for a property the header says its text. -/
theorem said_of_none {keyword headerText : List Char} {q : String}
    (hq : property (Utf16.ofText keyword) = units q) (h : lastAssigned (units q) m.records = none) :
    m.said keyword headerText = headerText := by
  rw [said, lastValue_eq_none hq h]

theorem headerName_eq : m.header.fullName = latin1 (Utf8.encode m.headerName) := by
  have hdir : m.header.namePrefix.text = [] ↔ m.dirText = [] := by
    rw [Field.text, latin1, m.dir_eq, List.map_eq_nil_iff]
    constructor
    · intro hnil
      exact Utf8.encode_injective hnil
    · intro hnil
      rw [hnil]
      rfl
  have hslash : units "/" = latin1 (Utf8.encode ['/']) := by decide
  unfold HeaderFields.fullName headerName
  by_cases h : m.dirText = []
  · rw [if_pos (hdir.2 h), if_pos h, Field.text, m.base_eq]
  · rw [if_neg fun hnil => h (hdir.1 hnil), if_neg h, Field.text, Field.text, m.base_eq, m.dir_eq, hslash]
    have hcons : m.dirText ++ '/' :: m.baseText = m.dirText ++ ['/'] ++ m.baseText := by simp
    rw [hcons, Utf8.encode_append, Utf8.encode_append, latin1, latin1, latin1, latin1, List.map_append,
      List.map_append, ← latin1]

/-- **The object has the properties that the archive says if and only if the member is readable.** -/
theorem shown_file_iff (hline : ∀ r ∈ m.records, r.OneLine) : m.Shown m.file ↔ m.Readable := by
  have hname := m.get?_file_iff "name" (Utf16.ofText m.name) (by simp) m.header.get?_name
  have hlinkname := m.get?_file_iff "linkname" (Utf16.ofText m.linkname) (by simp) m.header.get?_linkname
  have htype := m.get?_file_iff "type" m.header.type.text (by simp) m.header.get?_type
  have hmode := m.get?_file_iff "mode" m.header.mode.text (by simp) m.header.get?_mode
  have hheaderName : m.Gets "name" (Utf16.ofText m.name) (m.header.fullName = Utf16.ofText m.name) ↔
      m.Gets "name" (Utf16.ofText m.name) (Ascii m.headerName) := by
    refine Gets.congr fun hnone => ?_
    rw [headerName_eq, name, m.said_of_none (by decide) hnone]
    exact latin1_encode_iff m.headerName
  have hheaderLink : m.Gets "linkname" (Utf16.ofText m.linkname) (m.header.linkname.text = Utf16.ofText m.linkname) ↔
      m.Gets "linkname" (Utf16.ofText m.linkname) (Ascii m.linkText) := by
    refine Gets.congr fun hnone => ?_
    rw [Field.text, m.link_eq, linkname, m.said_of_none (by decide) hnone]
    exact latin1_encode_iff m.linkText
  have hsame (q : String) (text : Text) : m.Gets q text (text = text) ↔ m.Gets q text True :=
    Gets.congr fun _ => iff_of_true rfl trivial
  unfold Shown
  rw [hname, hlinkname, htype, hmode, get?_file_buffer_iff, hheaderName, hheaderLink, hsame, hsame]
  exact ⟨fun h => ⟨hline, h.1, h.2.1, h.2.2.1, h.2.2.2.1, h.2.2.2.2⟩,
    fun h => ⟨h.name, h.linkname, h.type, h.mode, h.buffer⟩⟩

end Stored

/-! ### Reading back -/

/-- All of an archive is read, or nothing. -/
theorem untar_archive {ms : List Stored} {fuel : ℕ} (zeros : ℕ) (hfuel : ms.length + 3 ≤ fuel) :
    untar fuel (archive ms zeros) =
      some (if ∀ m ∈ ms, ∀ r ∈ m.records, r.OneLine then .ok (ms.map Stored.file) else .error invalidPax) := by
  have hread := untarFrom_archive ms zeros hfuel (List.drop_zero : (archive ms zeros).drop 0 = archive ms zeros)
  rwa [Nat.cast_zero] at hread

theorem forall₂_shown_iff {ms : List Stored} (hline : ∀ m ∈ ms, ∀ r ∈ m.records, r.OneLine) :
    List.Forall₂ Stored.Shown ms (ms.map Stored.file) ↔ ∀ m ∈ ms, m.Readable := by
  rw [List.forall₂_map_right_iff, List.forall₂_same]
  exact forall₂_congr fun m hm => m.shown_file_iff (hline m hm)

/-- A field without bytes. -/
def noField (width : ℕ) : Field width := .zeroFilled width [] (Nat.zero_le width) List.not_mem_nil

/-- A header of a type with a name and a size, as digits.  Its checksum is not filled up with zero bytes. -/
def bareHeader (name : Field 100) (type : Field 1) (size : Field 12) (hname : name.bytes ≠ []) : HeaderFields where
  name := name
  mode := noField 8
  uid := noField 8
  gid := noField 8
  size := size
  mtime := noField 12
  checksum := .ofBlock [0x30, 0x31, 0x35, 0x31, 0x30, 0x32, 0, 0x20]
  type := type
  linkname := noField 100
  magic := .ofBlock [0x75, 0x73, 0x74, 0x61, 0x72, 0]
  version := noField 2
  uname := noField 32
  gname := noField 32
  devmajor := noField 8
  devminor := noField 8
  namePrefix := noField 155
  padding := noField 12
  ustar := by decide
  name_ne := hname

/-- A file without bytes whose name has a character of two bytes, and no extended header in front of it. -/
def accented : Stored where
  extended := none
  header := bareHeader (.zeroFilled 100 [0xC3, 0xA9] (by decide) (by decide)) (.ofBlock [0x30])
    (.zeroFilled 12 [0x30] (by decide) (by decide)) (by decide)
  data := []
  baseText := ['é']
  dirText := []
  linkText := []
  base_eq := by decide
  dir_eq := rfl
  link_eq := rfl
  size_eq := by decide
  type_ne := by decide

theorem not_readable_accented : ¬ accented.Readable := by
  intro h
  have hascii : Ascii ['é'] := h.name
  exact absurd (hascii 'é' List.mem_cons_self) (by decide)

/-- The units of bytes are those of a text. -/
theorem latin1_eq_ofText (bytes : List UInt8) :
    latin1 bytes = Utf16.ofText (bytes.map fun b => Char.ofNat b.toNat) := by
  induction bytes with
  | nil => rfl
  | cons b bytes ih =>
      have hb : (Char.ofNat b.toNat).toNat = b.toNat := Utf16.toNat_ofNat (Or.inl (b.toNat_lt.trans (by decide)))
      rw [latin1, List.map_cons, List.map_cons, Utf16.ofText_cons, Utf16.encodeChar, hb,
        if_pos (b.toNat_lt.trans (by decide)), ← ih]
      rfl

/-- A link is loaded by its target, and nothing else is. -/
theorem loadEntry_linkname (v : VirtualFs.Vfs) (entry : VirtualFs.TarEntry) (linkname : VirtualFs.Path)
    (h : entry.type ≠ ['2']) :
    VirtualFs.loadEntry v { entry with linkname := linkname } = VirtualFs.loadEntry v entry := by
  simp [VirtualFs.loadEntry, h]

namespace Stored

/-- A member as `loadTar` takes it. -/
def entry (m : Stored) : VirtualFs.TarEntry where
  name := m.name
  type := Utf16.toText m.header.type.text
  linkname := m.linkname
  mode := parseInt m.header.mode.text (some 8)
  bytes := m.contents

/-- **A member is loaded as what the archive says.** -/
theorem loadFile_of_shown {m : Stored} {file : TarFile} (h : m.Shown file) (v : VirtualFs.Vfs) :
    loadFile v file = .ok (VirtualFs.loadEntry v m.entry) := by
  obtain ⟨hname, hlink, htype, hmode, hbuffer⟩ := h
  have hfileMode : fileMode file = m.entry.mode := by
    rw [fileMode, hmode]
    rfl
  have hfileBytes : fileBytes file = m.contents := by
    rw [fileBytes, hbuffer]
  simp only [loadFile, hname, htype, hlink, hfileMode, hfileBytes, Utf16.toText_ofText]
  by_cases hskip : VirtualFs.tarName m.name = [] ∨ VirtualFs.tarName m.name = ['/']
  · have hload : VirtualFs.loadEntry v m.entry = v := if_pos hskip
    rw [if_pos hskip, hload]
  · rw [if_neg hskip]
    by_cases hkind : m.header.type.text = units "2"
    · rw [if_pos hkind]
      rfl
    · rw [if_neg hkind]
      have hchars : m.entry.type ≠ ['2'] := by
        intro heq
        have htext : Utf16.toText m.header.type.text = ['2'] := heq
        rw [Field.text, latin1_eq_ofText, Utf16.toText_ofText] at htext
        exact hkind (by rw [Field.text, latin1_eq_ofText, htext]; rfl)
      exact congrArg Except.ok (loadEntry_linkname v m.entry [] hchars)

end Stored

theorem loadFiles_of_shown {ms : List Stored} {files : List TarFile} (h : List.Forall₂ Stored.Shown ms files) :
    ∀ v, loadFiles v files = (VirtualFs.loadTar v (ms.map Stored.entry), none) := by
  induction h with
  | nil =>
      intro v
      rfl
  | cons hshown _ ih =>
      intro v
      rw [loadFiles, Stored.loadFile_of_shown hshown]
      exact ih _

/-- The record of such a name. -/
def accentedRecord : Record := ⟨"path".toList, ['é'], by decide, by decide⟩

/-- The same file with an extended header. -/
def accentedByRecord : Stored :=
  { accented with
    extended := some {
      header := bareHeader (.zeroFilled 100 [0x78] (by decide) (by decide)) (.ofBlock [0x78])
        (.zeroFilled 12 [0x31, 0x33] (by decide) (by decide)) (by decide)
      records := [accentedRecord]
      type_eq := rfl
      size_eq := by decide +kernel } }

theorem readable_accentedByRecord : accentedByRecord.Readable := by
  have hline : accentedRecord.OneLine := by decide
  have hletter : ¬ ('é'.isDigit = true) := by decide
  have hlast (q : String) (hq : property (units "path") ≠ units q) :
      lastAssigned (units q) accentedByRecord.records = none := if_neg hq
  have hpath : lastAssigned (units "name") accentedByRecord.records = some ['é'] := by decide
  refine ⟨fun r hr => List.mem_singleton.1 hr ▸ hline, ?_, ?_, ?_, ?_, hlast "buffer" (by decide)⟩
  · rw [Stored.Gets, hpath]
    exact ⟨rfl, List.cons_ne_nil _ _, fun hall => hletter (hall 'é' List.mem_cons_self)⟩
  · rw [Stored.Gets, hlast "linkname" (by decide)]
    exact fun c hc => absurd hc List.not_mem_nil
  · rw [Stored.Gets, hlast "type" (by decide)]
    trivial
  · rw [Stored.Gets, hlast "mode" (by decide)]
    trivial

end Untar
