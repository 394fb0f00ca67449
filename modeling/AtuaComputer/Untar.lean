/-
**Reading an archive.**

An archive is a row of blocks of 512 bytes: a header, the bytes of the member, filled up to a whole number
of blocks, then the next header, until a header would begin with zero bytes.  The reader takes the fields of
a header as they stand, checks nothing, and goes on at the place that the size field gives, which may be a
place it has been at before or none at all.  An extended header is a member whose bytes are records that are
assigned to the properties of the member that comes next.

Strings are lists of code units, numbers are integers or `NaN`, and the members are objects, whose
properties the records may name.

Main definitions:

* `Untar.decodeUTF8` — the text of bytes, or what is thrown;
* `Untar.parsePax` — the records of an extended header;
* `Untar.readHeader`, `Untar.readBlock`, `Untar.readNextFile` — a header, a block, a member with the extended
  headers before it;
* `Untar.untar` — all members;
* `Untar.loadTar` — the members go into a filesystem.
-/

import AtuaComputer.ByteCodec
import AtuaComputer.JsNumber
import AtuaComputer.Utf16
import AtuaComputer.VfsOperations

set_option relaxedAutoImplicit false
set_option autoImplicit false

namespace Untar

open JsNumber

/-- A string: its code units. -/
abbrev Text := List UInt16

/-- The code units of a literal. -/
def units (s : String) : Text := Utf16.ofText s.toList

/-- What can be thrown. -/
inductive Thrown where
  /-- A string. -/
  | text (message : List Char)
  /-- An `Error`. -/
  | error (message : List Char)
  | rangeError
  | typeError
deriving DecidableEq

/-! ### Text -/

/-- `toString(16)` -/
def hex (n : ℕ) : List Char := Nat.toDigits 16 n

/-- The code units of a code point are put in front of the rest. -/
def withCodePoint (c : ℕ) (rest : Except Thrown Text) : Except Thrown Text :=
  if c ≤ 0xffff then (UInt16.ofNat c :: ·) <$> rest
  else if c ≤ 0x10ffff then
    ([UInt16.ofNat (0xd800 + (c - 0x10000) / 0x400), UInt16.ofNat (0xdc00 + (c - 0x10000) % 0x400)] ++ ·) <$> rest
  else .error (.text ("UTF-8 decode: code point 0x".toList ++ hex c ++ " exceeds UTF-16 reach".toList))

/-- A character that the end cuts off. -/
def incomplete (size : Char) : Except Thrown Text :=
  .error (.text ("UTF-8 decode: incomplete ".toList ++ size :: "-byte sequence".toList))

/-- `decodeUTF8`, from the byte with the index `i` on.  The bytes behind the first byte of a character are not
checked. -/
def decodeFrom (i : ℕ) : List UInt8 → Except Thrown Text
  | [] => .ok []
  | b :: bs =>
    let c := b.toNat
    if c ≤ 127 then withCodePoint c (decodeFrom (i + 1) bs)
    else if 191 < c ∧ c < 224 then
      match bs with
      | b₁ :: bs => withCodePoint (c % 32 * 64 + b₁.toNat % 64) (decodeFrom (i + 2) bs)
      | _ => incomplete '2'
    else if 223 < c ∧ c < 240 then
      match bs with
      | b₁ :: b₂ :: bs =>
        withCodePoint (c % 16 * 4096 + b₁.toNat % 64 * 64 + b₂.toNat % 64) (decodeFrom (i + 3) bs)
      | _ => incomplete '3'
    else if 239 < c ∧ c < 248 then
      match bs with
      | b₁ :: b₂ :: b₃ :: bs =>
        withCodePoint (c % 8 * 262144 + b₁.toNat % 64 * 4096 + b₂.toNat % 64 * 64 + b₃.toNat % 64)
          (decodeFrom (i + 4) bs)
      | _ => incomplete '4'
    else
      .error (.text ("UTF-8 decode: unknown multibyte start 0x".toList ++ hex c ++ " at index ".toList ++
        Nat.toDigits 10 i))

/-- `decodeUTF8` -/
def decodeUTF8 (bytes : List UInt8) : Except Thrown Text := decodeFrom 0 bytes

/-! ### Extended headers -/

/-- The value of a record. -/
inductive PaxValue where
  | null
  | number (n : ℕ)
  | text (s : Text)
deriving DecidableEq

/-- A record of an extended header. -/
structure PaxField where
  name : Text
  value : PaxValue
deriving DecidableEq

/-- `\d` -/
def isDigit (u : UInt16) : Bool := 48 ≤ u.toNat ∧ u.toNat ≤ 57

/-- What `.` does not match. -/
def isLineEnd (u : UInt16) : Bool := u.toNat = 0x0A ∨ u.toNat = 0x0D ∨ u.toNat = 0x2028 ∨ u.toNat = 0x2029

/-- The code unit of `=`. -/
def equalsSign : UInt16 := 0x3D

/-- `(.*)\n$` -/
def matchValue (s : Text) : Option Text :=
  if s.getLast? = some 0x0A ∧ s.dropLast.all (fun u => !isLineEnd u) = true then some s.dropLast else none

/-- `match(/^\d+ ([^=]+)=(.*)\n$/)`: the two groups. -/
def matchField (s : Text) : Option (Text × Text) :=
  match s.takeWhile isDigit, s.dropWhile isDigit with
  | _ :: _, u :: body =>
    if u = 0x20 then
      match body.takeWhile (· ≠ equalsSign), body.dropWhile (· ≠ equalsSign) with
      | c :: name, _ :: value => (matchValue value).map fun value => (c :: name, value)
      | _, _ => none
    else none
  | _, _ => none

/-- The value that a text stands for. -/
def paxValue (s : Text) : PaxValue :=
  if s = [] then .null
  else if s.all isDigit then .number (ofDigits 10 (leadingDigits 10 s))
  else .text s

/-- `subarray(start, stop)`; `NaN` counts as zero. -/
def subarray (bytes : List UInt8) (start stop : Number) : List UInt8 :=
  VirtualFs.subarray bytes (start.getD 0) (stop.getD 0)

/-- `indexOf(0x20)` -/
def spaceIndex (bytes : List UInt8) : ℤ :=
  match bytes.findIdx? (· = 0x20) with
  | some i => i
  | none => -1

/-- The loop of `PaxHeader.parse`.  Every round that does not throw takes a byte or more. -/
def parseFields : ℕ → List UInt8 → Except Thrown (List PaxField)
  | 0, _ => .ok []
  | _ + 1, [] => .ok []
  | rounds + 1, b :: rest => do
    let bytes := b :: rest
    let lengthText ← decodeUTF8 (subarray bytes (some 0) (some (spaceIndex bytes)))
    let fieldLength := parseInt lengthText none
    let fieldText ← decodeUTF8 (subarray bytes (some 0) fieldLength)
    match matchField fieldText with
    | none => .error (.error "Invalid PAX header data format.".toList)
    | some (fieldName, fieldValue) =>
      let fields ← parseFields rounds (subarray bytes fieldLength (some bytes.length))
      .ok (⟨fieldName, paxValue fieldValue⟩ :: fields)

/-- `PaxHeader.parse` -/
def parsePax (buffer : List UInt8) : Except Thrown (List PaxField) := parseFields buffer.length buffer

/-! ### Members -/

/-- The value of a property. -/
inductive Value where
  | text (s : Text)
  | number (n : Number)
  | buffer (bytes : List UInt8)
deriving DecidableEq

/-- A member: an object with the properties that its header and the records give it. -/
abbrev TarFile := JsMap Text Value

/-- The property that a record is for. -/
def property (fieldName : Text) : Text :=
  if fieldName = units "path" then units "name"
  else if fieldName = units "linkpath" then units "linkname"
  else fieldName

/-- A record is applied to a member.  An assignment of a number or a string to `__proto__` does nothing. -/
def applyField (file : TarFile) (field : PaxField) : TarFile :=
  let file := if field.name = units "path" then file.delete (units "prefix") else file
  let name := property field.name
  match field.value with
  | .null => file.delete name
  | .number n => if name = units "__proto__" then file else file.set name (.number (some n))
  | .text s => if name = units "__proto__" then file else file.set name (.text s)

/-- `applyHeader` -/
def applyHeader (fields : List PaxField) (file : TarFile) : TarFile := fields.foldl applyField file

/-- A header is applied if there is one. -/
def applyOptional (header : Option (List PaxField)) (file : TarFile) : TarFile :=
  (header.map fun fields => applyHeader fields file).getD file

/-! ### The stream -/

/-- Reading from a position on. -/
abbrev Reader := StateT Number (Except Thrown)

/-- `getUint8`; the index of `NaN` is zero. -/
def getUint8 (buf : List UInt8) (pos : Number) : Except Thrown UInt8 :=
  if pos.getD 0 < 0 then .error .rangeError
  else
    match buf[(pos.getD 0).toNat]? with
    | some b => .ok b
    | none => .error .rangeError

/-- The loop of `readString`: it ends at a zero byte. -/
def readUnits (buf : List UInt8) : ℕ → Number → Except Thrown Text
  | 0, _ => .ok []
  | n + 1, pos => do
    let charCode ← getUint8 buf pos
    if charCode ≠ 0 then
      let s ← readUnits buf n (plus pos (some 1))
      .ok (UInt16.ofNat charCode.toNat :: s)
    else .ok []

/-- `readString` -/
def readString (buf : List UInt8) (charCount : ℕ) : Reader Text := fun pos => do
  let s ← readUnits buf charCount pos
  .ok (s, plus pos (some charCount))

/-- `readBuffer` at a position. -/
def readBuffer (buf : List UInt8) (pos byteCount : Number) : List UInt8 := subarray buf pos (plus pos byteCount)

/-- `peekUint32` -/
def peekUint32 (buf : List UInt8) (pos : Number) : Except Thrown ℕ :=
  if pos.getD 0 < 0 ∨ buf.length < pos.getD 0 + 4 then .error .rangeError
  else .ok (leNat ((buf.drop (pos.getD 0).toNat).take 4))

/-- `hasNext` -/
def hasNext (buf : List UInt8) : Number → Except Thrown Bool
  | none => .ok false
  | some p =>
    if p + 4 < buf.length then do
      let word ← peekUint32 buf (some p)
      .ok (word ≠ 0)
    else .ok false

/-- What is known of a member when its header has been read. -/
structure Header where
  file : TarFile
  type : Text
  size : Number

/-- The header. -/
def readHeader (buf : List UInt8) : Reader Header := do
  let name ← readString buf 100
  let mode ← readString buf 8
  let uid ← readString buf 8
  let gid ← readString buf 8
  let sizeText ← readString buf 12
  let mtime ← readString buf 12
  let checksum ← readString buf 8
  let type ← readString buf 1
  let linkname ← readString buf 100
  let ustarFormat ← readString buf 6
  let size := parseInt sizeText (some 8)
  let file : TarFile := JsMap.empty.setAll
    [(units "name", .text name), (units "mode", .text mode), (units "uid", .number (parseInt uid none)),
      (units "gid", .number (parseInt gid none)), (units "size", .number size),
      (units "mtime", .number (parseInt mtime (some 8))), (units "checksum", .number (parseInt checksum none)),
      (units "type", .text type), (units "linkname", .text linkname), (units "ustarFormat", .text ustarFormat)]
  if units "ustar" <:+: ustarFormat then
    let version ← readString buf 2
    let uname ← readString buf 32
    let gname ← readString buf 32
    let devmajor ← readString buf 8
    let devminor ← readString buf 8
    let namePrefix ← readString buf 155
    let file := file.setAll
      [(units "version", .text version), (units "uname", .text uname), (units "gname", .text gname),
        (units "devmajor", .number (parseInt devmajor none)), (units "devminor", .number (parseInt devminor none)),
        (units "namePrefix", .text namePrefix)]
    let file := if namePrefix = [] then file else file.set (units "name") (.text (namePrefix ++ units "/" ++ name))
    pure ⟨file, type, size⟩
  else pure ⟨file, type, size⟩

/-- The place behind the bytes of a member and what fills them up. -/
def dataEnd : Number → Number → Number
  | some dataBegin, some size =>
    some (if size.tmod 512 ≠ 0 then dataBegin + size + (512 - size.tmod 512) else dataBegin + size)
  | _, _ => none

/-- The reader between two blocks. -/
structure Stream where
  globalPaxHeader : Option (List PaxField)
  position : Number

/-- What `_readNextFile` has read when it has come to the end of a block. -/
structure Block where
  file : TarFile
  isHeaderFile : Bool
  paxHeader : Option (List PaxField)
  stream : Stream

/-- `_readNextFile` up to the recursive call. -/
def readBlock (buf : List UInt8) (s : Stream) : Except Thrown Block := do
  let dataBegin := plus s.position (some 512)
  let (header, _) ← readHeader buf s.position
  let data := readBuffer buf dataBegin header.size
  let next := dataEnd dataBegin header.size
  let file := header.file.set (units "buffer") (.buffer [])
  if header.type = units "0" ∨ header.type = [] then
    .ok ⟨header.file.set (units "buffer") (.buffer data), false, none, ⟨s.globalPaxHeader, next⟩⟩
  else if header.type = units "g" then
    let fields ← parsePax data
    .ok ⟨file, true, none, ⟨some fields, next⟩⟩
  else if header.type = units "x" then
    let fields ← parsePax data
    .ok ⟨file, true, some fields, ⟨s.globalPaxHeader, next⟩⟩
  else .ok ⟨file, false, none, ⟨s.globalPaxHeader, next⟩⟩

/-- `_readNextFile`.  The member behind an extended header is read by a recursive call, and both headers are
applied to what it returns.  With too little fuel there is no result; the depth of the call stack is not
limited. -/
def readNextFile (buf : List UInt8) : ℕ → Stream → Option (Except Thrown (TarFile × Stream))
  | 0, _ => none
  | fuel + 1, s =>
    match readBlock buf s with
    | .error e => some (.error e)
    | .ok block =>
      let finish (file : TarFile) (s : Stream) : TarFile × Stream :=
        (applyOptional block.paxHeader (applyOptional s.globalPaxHeader file), s)
      if block.isHeaderFile then
        (readNextFile buf fuel block.stream).map fun result => result.map fun (file, s) => finish file s
      else some (.ok (finish block.file block.stream))

/-- The loop of `untar`. -/
def untarFrom (buf : List UInt8) : ℕ → Stream → Option (Except Thrown (List TarFile))
  | 0, _ => none
  | fuel + 1, s =>
    match hasNext buf s.position with
    | .error e => some (.error e)
    | .ok false => some (.ok [])
    | .ok true =>
      match readNextFile buf fuel s with
      | none => none
      | some (.error e) => some (.error e)
      | some (.ok (file, s)) => (untarFrom buf fuel s).map fun result => result.map fun files => file :: files

/-- `untar` -/
def untar (fuel : ℕ) (buf : List UInt8) : Option (Except Thrown (List TarFile)) := untarFrom buf fuel ⟨none, some 0⟩

/-! ### Loading -/

/-- `String(value)`, as far as `parseInt` looks at it. -/
def Value.toText : Value → Text
  | .text s => s
  | .number (some n) => units (toString n)
  | .number none => units "NaN"
  | .buffer _ => units "[object ArrayBuffer]"

/-- The mode of a member; without one, and for `NaN`, there is none. -/
def fileMode (file : TarFile) : Option ℤ := (file.get? (units "mode")).bind fun value => parseInt value.toText (some 8)

/-- The bytes of a member. -/
def fileBytes (file : TarFile) : List UInt8 :=
  match file.get? (units "buffer") with
  | some (.buffer bytes) => bytes
  | _ => []

/-- A round of the loop of `loadTar`.  A member whose name is not a string makes it throw, and so does a link whose
target is not one. -/
def loadFile (v : VirtualFs.Vfs) (file : TarFile) : Except Thrown VirtualFs.Vfs :=
  match file.get? (units "name") with
  | some (.text name) =>
    let path := VirtualFs.tarName (Utf16.toText name)
    if path = [] ∨ path = ['/'] then .ok v
    else
      match file.get? (units "type") with
      | some (.text type) =>
        let entry (linkname : Text) : VirtualFs.TarEntry :=
          ⟨Utf16.toText name, Utf16.toText type, Utf16.toText linkname, fileMode file, fileBytes file⟩
        if type = units "2" then
          match file.get? (units "linkname") with
          | some (.text linkname) => .ok (VirtualFs.loadEntry v (entry linkname))
          | _ => .error .typeError
        else .ok (VirtualFs.loadEntry v (entry []))
      | _ => .ok v
  | _ => .error .typeError

/-- The loop of `loadTar`: what has been loaded stays when a later member throws. -/
def loadFiles (v : VirtualFs.Vfs) : List TarFile → VirtualFs.Vfs × Option Thrown
  | [] => (v, none)
  | file :: files =>
    match loadFile v file with
    | .ok w => loadFiles w files
    | .error e => (v, some e)

/-- `loadTar` -/
def loadTar (fuel : ℕ) (v : VirtualFs.Vfs) (buf : List UInt8) : Option (VirtualFs.Vfs × Option Thrown) :=
  (untar fuel buf).map fun result =>
    match result with
    | .ok files => loadFiles v files
    | .error e => (v, some e)

end Untar
