/-
**An open file as bytes and a position.**

To a program, an open regular file is an array of bytes and a position in it.  Reads and writes move the
position, `pread` and `pwrite` do not, and `O_APPEND` sends every write to the end; a seek in front of the
first byte fails, a write of no bytes does nothing, and what lies between the end of the file and a write
behind it is zero.  The kernel's calls are compared with that, run by run, with what they return and what
they put into the guest's memory.

Main definitions:

* `ByteFile.Model`, `ByteFile.Model.perform` — bytes and a position, and the calls on them;
* `ByteFile.after` — the kernel and the model side by side;
* `ByteFile.Agree` — they have returned the same and show the same file;
* `ByteFile.Fits` — the condition on a call.

Main results:

* `ByteFile.agree_step_iff` — one call, with a lemma for each of the six;
* `ByteFile.agree_iff` — **when the kernel's file is the array of bytes, in a run**.
-/

import AtuaComputer.FileOutcomes
import AtuaComputer.Isolation

set_option relaxedAutoImplicit false
set_option autoImplicit false

namespace ByteFile

open VirtualFs Kernel FileIo FileContents Outcomes FileOutcomes

/-! ### Bytes and a position -/

/-- The file, and the memory of the guest. -/
structure Model where
  bytes : List UInt8
  position : ℕ
  append : Bool
  memory : List UInt8

/-- The bytes of the file at an offset. -/
def Model.get (m : Model) (offset count : ℕ) : List UInt8 := (m.bytes.drop offset).take count

/-- The bytes in a buffer of the guest. -/
def Model.data (m : Model) (addr count : ℕ) : List UInt8 := (m.memory.drop addr).take count

/-- Bytes go into a buffer of the guest. -/
def Model.give (m : Model) (addr : ℕ) (data : List UInt8) : Model :=
  { m with memory := writeAt m.memory addr data }

/-- `read` -/
def Model.read (m : Model) (addr count : ℕ) : Model × ℤ :=
  let data := m.get m.position count
  ({ m.give addr data with position := m.position + data.length }, data.length)

/-- `pread` -/
def Model.pread (m : Model) (addr count offset : ℕ) : Model × ℤ :=
  let data := m.get offset count
  (m.give addr data, data.length)

/-- Where a write begins. -/
def Model.start (m : Model) : ℕ := if m.append then m.bytes.length else m.position

/-- `write` -/
def Model.write (m : Model) (addr count : ℕ) : Model × ℤ :=
  let data := m.data addr count
  if data = [] then (m, 0)
  else
    ({ m with bytes := writeAt m.bytes m.start data, position := m.start + data.length }, data.length)

/-- `pwrite` -/
def Model.pwrite (m : Model) (addr count offset : ℕ) : Model × ℤ :=
  let data := m.data addr count
  if data = [] then (m, 0) else ({ m with bytes := writeAt m.bytes offset data }, data.length)

/-- What a seek counts from. -/
def Model.base (m : Model) (whence : ℤ) : Option ℤ :=
  if whence = 0 then some 0
  else if whence = 1 then some m.position
  else if whence = 2 then some m.bytes.length
  else none

/-- `lseek` -/
def Model.lseek (m : Model) (offset whence : ℤ) : Model × ℤ :=
  match m.base whence with
  | none => (m, -22)
  | some base =>
    if base + offset < 0 then (m, -22)
    else ({ m with position := (base + offset).toNat }, base + offset)

/-- `ftruncate` -/
def Model.ftruncate (m : Model) (length : ℤ) : Model × ℤ :=
  if length < 0 then (m, -22) else ({ m with bytes := resize m.bytes length.toNat }, 0)

/-! ### The calls -/

/-- The six calls, with their registers after the descriptor. -/
inductive Call where
  | read (b c : Int32)
  | pread (b c d e : Int32)
  | write (b c : Int32)
  | pwrite (b c d e : Int32)
  | lseek (b c : Int32)
  | ftruncate (b : Int32)

/-- The call of the kernel. -/
def Call.toFileCall : Call → FileCall
  | .read b c => .read b c
  | .pread b c d e => .pread64 b c d e
  | .write b c => .write b c
  | .pwrite b c d e => .pwrite64 b c d e
  | .lseek b c => .lseek b c
  | .ftruncate b => .ftruncate b

/-- The call of the model. -/
def Model.perform (m : Model) : Call → Model × ℤ
  | .read b c => m.read (unsigned b) (unsigned c)
  | .pread b c d e => m.pread (unsigned b) (unsigned c) (offset64 d e)
  | .write b c => m.write (unsigned b) (unsigned c)
  | .pwrite b c d e => m.pwrite (unsigned b) (unsigned c) (offset64 d e)
  | .lseek b c => m.lseek b.toInt c.toInt
  | .ftruncate b => m.ftruncate b.toInt

/-- The buffer of a call. -/
def Call.buffer : Call → ℕ × ℕ
  | .read b c | .pread b c _ _ | .write b c | .pwrite b c _ _ => (unsigned b, unsigned c)
  | .lseek _ _ | .ftruncate _ => (0, 0)

/-- The buffer lies in the guest's memory, and has 1 MiB at most. -/
def Call.InRange (call : Call) (memory : List UInt8) : Prop :=
  call.buffer.1 + call.buffer.2 ≤ memory.length ∧ call.buffer.2 ≤ 1048576

instance (call : Call) (memory : List UInt8) : Decidable (call.InRange memory) :=
  inferInstanceAs (Decidable (_ ∧ _))

/-- The kernel and the model, and what the two have returned last. -/
structure State where
  io : FileIo.State
  model : Model
  results : ℤ × ℤ

/-- What happens: a call on the descriptor, or the guest working on its memory. -/
inductive Event where
  | call (call : Call)
  | guest (memory : List UInt8)

/-- The state after an event.  The guest gets the result in a word. -/
def after (pid : ℤ) (a : Int32) (s : State) : Event → State
  | .call call =>
    let (io, result) := handleFileCall s.io pid a call.toFileCall
    let (model, result') := s.model.perform call
    ⟨io, model, ((Int32.ofInt result).toInt, result')⟩
  | .guest memory =>
    { s with
      io := { s.io with memory := Function.update s.io.memory pid memory }
      model := { s.model with memory } }

/-- The step relation: the buffers are in range. -/
def Step (pid : ℤ) (a : Int32) (s : State) (ev : Event) (s' : State) : Prop :=
  (∀ call, ev = .call call → call.InRange (s.io.memory pid)) ∧ s' = after pid a s ev

/-- A handle of a regular file. -/
structure Regular (v : Vfs) (vfsFd : ℤ) (file : OpenFile) (content : Buf) : Prop where
  opened : v.openFiles.get? vfsFd = some file
  special : file.special = none
  notDir : file.isDir = false
  holds : file.content = some content
  stored : content < v.buffers.length

/-- The descriptor is one of the handle, in a process with a memory. -/
structure Descriptor (k : Kernel.State) (pid : ℤ) (a : Int32) (vfsFd : ℤ) (p : Proc) (cell : ℕ) : Prop where
  process : k.processTable.get? pid = some p
  memory : p.wasmMemory = true
  entry : p.fdTable.get? a.toInt = some ⟨.file vfsFd, cell⟩

/-- What the kernel has for the handle is what the model has. -/
structure Shows (io : FileIo.State) (pid vfsFd : ℤ) (m : Model) (file : OpenFile) (content : Buf) : Prop where
  regular : Regular io.kernel.vfs vfsFd file content
  bytes : bytesOf io.kernel.vfs content = m.bytes
  position : file.position = m.position
  append : file.append = m.append
  memory : io.memory pid = m.memory

/-- **The kernel and the model agree.** -/
def Agree (pid : ℤ) (a : Int32) (vfsFd : ℤ) (s : State) : Prop :=
  s.results.1 = s.results.2 ∧ (∃ p cell, Descriptor s.io.kernel pid a vfsFd p cell) ∧
    ∃ file content, Shows s.io pid vfsFd s.model file content

/-- The bytes of a write fit into a buffer that is there or can be made. -/
def Room (limit : ℕ) (m : Model) (start count : ℕ) : Prop :=
  start + count ≤ m.bytes.length ∨ start + count ≤ limit

/-- The condition.  Every buffer can be made; a write of no bytes finds the position in the file, and at its
end with `O_APPEND`, and a `pwrite` goes to the end then; a seek leads to a position that the result can
say; no file gets a negative length. -/
def Fits (s : State) : Event → Prop
  | .guest _ => True
  | .call (.read _ c) | .call (.pread _ c _ _) => unsigned c ≤ s.io.limit
  | .call (.write _ c) =>
    unsigned c ≤ s.io.limit ∧ Room s.io.limit s.model s.model.start (unsigned c) ∧
      (unsigned c = 0 → s.model.start = s.model.position ∧ s.model.start ≤ s.model.bytes.length)
  | .call (.pwrite _ c d e) =>
    let start := if s.model.append then s.model.bytes.length else offset64 d e
    unsigned c ≤ s.io.limit ∧ Room s.io.limit s.model start (unsigned c) ∧
      if unsigned c = 0 then start ≤ s.model.bytes.length else start = offset64 d e
  | .call (.lseek b c) =>
    match s.model.base c.toInt with
    -- the answer is the position, which reads as the error only here
    | none => (Int32.ofInt s.model.position).toInt = -22
    | some base => 0 ≤ base + b.toInt ∧ base + b.toInt < 2 ^ 31
  | .call (.ftruncate b) => 0 ≤ b.toInt ∧ (b.toInt = s.model.bytes.length ∨ b.toInt ≤ s.io.limit)

/-! ### The filesystem's part -/

section Filesystem

variable (limit : ℕ) {v : Vfs} {h : ℤ} {file : OpenFile} {content : Buf}

/-- A filesystem in which the handle has other bytes, and the same position. -/
def Rewritten (v' : Vfs) (h : ℤ) (file : OpenFile) (bytes : List UInt8) : Prop :=
  ∃ content, Regular v' h { file with content := some content } content ∧ bytesOf v' content = bytes

theorem Regular.growFile (hr : Regular v h file content) (path : Path) (bytes : List UInt8) :
    Rewritten (growFile v h path bytes).1 h file bytes := by
  rw [growFile_eq hr.opened]
  refine ⟨v.buffers.length, ⟨JsMap.get?_set_self _ _ _, hr.special, hr.notDir, rfl, ?_⟩, ?_⟩
  · simp
  · simp [bytesOf]

/-- A write that stays in the buffer. -/
theorem writeContent_inPlace {v : Vfs} {content : Buf} (h : ℤ) (path : Path) {src : List UInt8} {off : ℕ}
    (hin : off + src.length ≤ (bytesOf v content).length) :
    writeContent limit v h path content src off =
      ({ v with buffers := v.buffers.set content (writeAt (bytesOf v content) off src) },
        some (src.length : ℤ)) := by
  have hset : setBytes (bytesOf v content) src off = some (writeAt (bytesOf v content) off src) := by
    have hfits : 0 ≤ (off : ℤ) ∧ (off : ℤ) + src.length ≤ (bytesOf v content).length := by omega
    rw [setBytes, if_pos hfits, writeAt, Int.toNat_natCast, padTo_self (by omega)]
  unfold writeContent
  dsimp only
  rw [if_neg (by omega), storeBytes, hset]

/-- A write for which a new buffer is made. -/
theorem writeContent_grown {v : Vfs} {content : Buf} (h : ℤ) (path : Path) {src : List UInt8} {off : ℕ}
    (hgrow : (bytesOf v content).length < off + src.length) (hroom : off + src.length ≤ limit) :
    writeContent limit v h path content src off =
      ((VirtualFs.growFile v h path (writeAt (bytesOf v content) off src)).1, some (src.length : ℤ)) := by
  unfold writeContent
  dsimp only
  rw [if_pos (by omega), if_neg (by omega), storeBytes_growFile,
    setBytes_grown (Int.natCast_nonneg off) (by omega), Int.toNat_natCast]

/-- A write that has room. -/
theorem Regular.writeContent_room (hr : Regular v h file content) (path : Path) (src : List UInt8) (off : ℕ)
    (hroom : off + src.length ≤ (bytesOf v content).length ∨ off + src.length ≤ limit) :
    ∃ v', writeContent limit v h path content src off = (v', some (src.length : ℤ)) ∧
      Rewritten v' h file (writeAt (bytesOf v content) off src) := by
  obtain hgrow | hin := Nat.lt_or_ge (bytesOf v content).length (off + src.length)
  · exact ⟨_, writeContent_grown limit h path hgrow (by omega), hr.growFile path _⟩
  · refine ⟨_, writeContent_inPlace limit h path hin, content, ⟨?_, hr.special, hr.notDir, rfl, ?_⟩, ?_⟩
    · rw [← hr.holds]
      exact hr.opened
    · rw [List.length_set]
      exact hr.stored
    · exact (congrFun (bytesOf_set hr.stored rfl) content).trans (Function.update_self ..)

theorem writeContent_full (v : Vfs) (h : ℤ) (content : Buf) (path : Path) (src : List UInt8) (off : ℕ)
    (hfull : ¬ (off + src.length ≤ (bytesOf v content).length ∨ off + src.length ≤ limit)) :
    writeContent limit v h path content src off = (v, none) := by
  unfold writeContent
  dsimp only
  rw [if_pos (by omega), if_pos (by omega)]

/-- Where a write of the file begins. -/
def startOf (v : Vfs) (file : OpenFile) (content : Buf) (offset : ℕ) : ℕ :=
  if file.append then (bytesOf v content).length else offset

theorem Regular.writeFile_eq (hr : Regular v h file content) (src : List UInt8) (offset : ℕ) :
    writeFile limit v h src offset =
      writeContent limit v h file.path content src (startOf v file content offset : ℕ) := by
  unfold writeFile startOf
  rw [hr.opened]
  dsimp only
  rw [hr.special, if_neg (by simp), hr.holds]
  dsimp only
  split_ifs <;> rfl

theorem Regular.seek (hr : Regular v h file content) (position : ℤ) :
    Regular (seek v h position) h { file with position } content := by
  refine ⟨get?_seek hr.opened position, hr.special, hr.notDir, hr.holds, ?_⟩
  rw [(seek_frame v h position).2]
  exact hr.stored

theorem bytesOf_seek (v : Vfs) (h position : ℤ) (content : Buf) :
    bytesOf (VirtualFs.seek v h position) content = bytesOf v content := by
  rw [bytesOf, (seek_frame v h position).2, bytesOf]

/-- A write at the position is one of the content, between two changes of the position. -/
theorem Regular.writeNext_eq (hr : Regular v h file content) {start : ℤ} (hstart : startPosition v file = some start)
    (buf : List UInt8) (length : ℕ) :
    writeNext limit v h buf length =
      match writeContent limit (VirtualFs.seek v h start) h file.path content buf start with
      | (v', none) => (v', none)
      | (v', some _) => (VirtualFs.seek v' h (start + length), some (length : ℤ)) := by
  have hopened := (hr.seek start).opened
  have hwrite : writeFile limit (VirtualFs.seek v h start) h buf start =
      writeContent limit (VirtualFs.seek v h start) h file.path content buf start := by
    unfold startPosition at hstart
    unfold writeFile
    rw [hopened]
    dsimp only
    rw [hr.special, if_neg (by simp), hr.holds]
    dsimp only
    rw [bytesOf_seek]
    rw [hr.holds] at hstart
    split_ifs at hstart ⊢ with happend
    · exact congrArg (writeContent limit _ h file.path content buf) (Option.some_inj.1 hstart)
    · rfl
  unfold writeNext
  rw [hr.opened]
  dsimp only
  rw [hstart]
  dsimp only
  generalize writeFile limit (VirtualFs.seek v h start) h buf start = written at hwrite ⊢
  subst hwrite
  rfl

/-- Where a write begins. -/
theorem Regular.startPosition_eq (hr : Regular v h file content) {position : ℕ} (hpos : file.position = position) :
    startPosition v file = some (startOf v file content position : ℤ) := by
  unfold startPosition startOf
  rw [hr.holds, hpos]
  split_ifs <;> rfl

/-- A write at the position that has room. -/
theorem Regular.writeNext_room (hr : Regular v h file content) {position : ℕ} (hpos : file.position = position)
    (buf : List UInt8) {start : ℕ} (hstart : start = startOf v file content position)
    (hroom : start + buf.length ≤ (bytesOf v content).length ∨ start + buf.length ≤ limit) :
    ∃ v' content', writeNext limit v h buf buf.length = (v', some (buf.length : ℤ)) ∧
      Regular v' h { file with content := some content', position := (start + buf.length : ℕ) } content' ∧
      bytesOf v' content' = writeAt (bytesOf v content) start buf := by
  obtain ⟨v₁, hwrite, content', hr', hbytes⟩ := (hr.seek start).writeContent_room limit file.path
    buf start (by rw [bytesOf_seek]; exact hroom)
  rw [bytesOf_seek] at hbytes
  refine ⟨VirtualFs.seek v₁ h (start + buf.length : ℕ), content', ?_, hr'.seek _, ?_⟩
  · rw [hr.writeNext_eq limit (hstart ▸ hr.startPosition_eq hpos) buf buf.length, hwrite]
    rfl
  · rw [bytesOf_seek, hbytes]

/-- A write at the position that has no room; the position has moved all the same. -/
theorem Regular.writeNext_full (hr : Regular v h file content) {position : ℕ} (hpos : file.position = position)
    (buf : List UInt8) {start : ℕ} (hstart : start = startOf v file content position)
    (hfull : ¬ (start + buf.length ≤ (bytesOf v content).length ∨ start + buf.length ≤ limit)) :
    writeNext limit v h buf buf.length = (VirtualFs.seek v h start, none) := by
  rw [hr.writeNext_eq limit (hstart ▸ hr.startPosition_eq hpos) buf buf.length,
    writeContent_full limit _ _ _ _ _ _ (by rw [bytesOf_seek]; exact hfull)]

/-- A change of the length that has room. -/
theorem Regular.truncate_room (hr : Regular v h file content) {len : ℕ}
    (hroom : len = (bytesOf v content).length ∨ len ≤ limit) :
    ∃ v', truncateFile limit v h len = (v', some 0) ∧ Rewritten v' h file (resize (bytesOf v content) len) := by
  unfold truncateFile
  rw [hr.opened]
  dsimp only
  rw [hr.notDir, hr.special, hr.holds]
  dsimp only [Option.isSome_none]
  rw [if_neg (by simp), if_neg (by simp)]
  unfold resizeFile
  dsimp only
  by_cases hsame : len = (bytesOf v content).length
  · rw [if_pos hsame, hsame, resize_self]
    refine ⟨_, rfl, content, ?_⟩
    have hopened : { file with content := some content } = file := by rw [← hr.holds]
    rw [hopened]
    split_ifs
    · exact ⟨hr, rfl⟩
    · exact ⟨⟨hr.opened, hr.special, hr.notDir, hr.holds, hr.stored⟩, rfl⟩
  · rw [if_neg hsame, if_neg (by omega)]
    refine ⟨_, rfl, v.buffers.length, ?_⟩
    simp only [newBuffer, setContent, updateFile, hr.opened]
    split_ifs
    · refine ⟨⟨JsMap.get?_set_self _ _ _, hr.special, hr.notDir, rfl, ?_⟩, ?_⟩
      · simp
      · simp [bytesOf, resize]
    · refine ⟨⟨JsMap.get?_set_self _ _ _, hr.special, hr.notDir, rfl, ?_⟩, ?_⟩
      · simp
      · simp [bytesOf, resize]

theorem Regular.truncate_full (hr : Regular v h file content) {len : ℕ}
    (hfull : ¬ (len = (bytesOf v content).length ∨ len ≤ limit)) : truncateFile limit v h len = (v, none) := by
  unfold truncateFile
  rw [hr.opened]
  dsimp only
  rw [hr.notDir, hr.special, hr.holds]
  dsimp only [Option.isSome_none]
  rw [if_neg (by simp), if_neg (by simp)]
  unfold resizeFile
  dsimp only
  rw [if_neg (by omega), if_pos (by omega)]

end Filesystem

/-! ### One call -/

section Calls

variable {s : State} {pid h : ℤ} {a : Int32} {p : Proc} {cell : ℕ} {file : OpenFile} {content : Buf}

/-- What the kernel shows is what it has for the handle. -/
theorem shows_of_regular {io : FileIo.State} {m : Model} (hr : Regular io.kernel.vfs h file content)
    (hs : ∃ file content, Shows io pid h m file content) : Shows io pid h m file content := by
  obtain ⟨file', content', hs⟩ := hs
  obtain rfl : file = file' := Option.some_inj.1 (hr.opened.symm.trans hs.regular.opened)
  obtain rfl : content = content' := Option.some_inj.1 (hr.holds.symm.trans hs.regular.holds)
  exact hs

/-- The state after a call that the handler returns from. -/
theorem after_of_returns (hd : Descriptor s.io.kernel pid a h p cell) (call : Call) {n : ℤ} {io : FileIo.State}
    (hret : Returns (fileHandler pid p a call.toFileCall) s.io n io) :
    after pid a s (.call call) =
      ⟨io, (s.model.perform call).1, ((Int32.ofInt n).toInt, (s.model.perform call).2)⟩ := by
  unfold after
  dsimp only
  rw [handleFileCall_of_returns hd.process hret]

/-- A call that throws returns an error, and the model none. -/
theorem not_agree_of_throws (hd : Descriptor s.io.kernel pid a h p cell) (call : Call) {io : FileIo.State}
    (hthrow : Throws (fileHandler pid p a call.toFileCall) s.io () io) (hne : (s.model.perform call).2 ≠ -1) :
    ¬ Agree pid a h (after pid a s (.call call)) := by
  unfold after
  dsimp only
  rw [handleFileCall_of_throws hd.process hthrow]
  intro hagree
  exact hne hagree.1.symm

theorem agree_of_shows (hd : Descriptor s.io.kernel pid a h p cell) {s' : State}
    (htable : s'.io.kernel.processTable = s.io.kernel.processTable) (hres : s'.results.1 = s'.results.2)
    (hs : Shows s'.io pid h s'.model file content) : Agree pid a h s' :=
  ⟨hres, ⟨p, cell, htable ▸ hd.process, hd.memory, hd.entry⟩, file, content, hs⟩

/-- The entry of the descriptor. -/
theorem Descriptor.withEntry_eq {k : Kernel.State} (hd : Descriptor k pid a h p cell) (missing : Io ℤ)
    (body : FdKind → Io ℤ) : withEntry p a missing body = body (.file h) := by
  unfold withEntry
  rw [hd.entry]

/-- What is read at an offset. -/
theorem Shows.returns_vfsRead {io : FileIo.State} {m : Model} (hs : Shows io pid h m file content) {count : ℕ}
    (hroom : count ≤ io.limit) (offset : ℕ) :
    Returns (vfsRead h count offset) io (((m.get offset count).length : ℤ), m.get offset count) io := by
  have hbuf : bufferOf file = some content := by rw [bufferOf, if_pos hs.regular.special, hs.regular.holds]
  have hrandom : ∀ f, io.kernel.vfs.openFiles.get? h = some f → f.special ≠ some .urandom := by
    intro f hf
    obtain rfl : file = f := Option.some_inj.1 (hs.regular.opened.symm.trans hf)
    rw [hs.regular.special]
    exact (Option.some_ne_none _).symm
  have hread : Returns (vfsRead h count offset) io _ io := FileOutcomes.returns_vfsRead hroom hrandom
  rw [serves_of_buffer hs.regular.opened hbuf, hs.bytes] at hread
  exact hread

theorem length_get_le (m : Model) (offset count : ℕ) : (m.get offset count).length ≤ count := by
  rw [Model.get, List.length_take]
  omega

/-- A read gives the bytes to the guest, if there are any. -/
theorem returns_give (hd : Descriptor s.io.kernel pid a h p cell) (io : FileIo.State) {m : Model}
    (hmem : io.memory pid = m.memory) {addr count : ℕ} (hin : addr + count ≤ m.memory.length) (data : List UInt8)
    (hlen : data.length ≤ count) :
    ∃ io', Returns (do
        if (0 : ℤ) < data.length then storeGuest pid p addr data
        return (data.length : ℤ)) io data.length io' ∧
      io'.kernel = io.kernel ∧ io'.memory pid = writeAt m.memory addr data := by
  by_cases hpos : (0 : ℤ) < data.length
  · have hset : setBytes (io.memory pid) data addr = some (writeAt m.memory addr data) := by
      have hfits : 0 ≤ (addr : ℤ) ∧ (addr : ℤ) + data.length ≤ m.memory.length := by omega
      rw [hmem, setBytes, if_pos hfits, writeAt, Int.toNat_natCast, padTo_self (by omega)]
    refine ⟨withMemory io pid (writeAt m.memory addr data), ?_, rfl, Function.update_self _ _ _⟩
    rw [if_pos hpos]
    exact (returns_storeGuest hd.memory hset).bind (returns_pure _ _)
  · obtain rfl : data = [] := List.length_eq_zero_iff.1 (by omega)
    refine ⟨io, ?_, rfl, ?_⟩
    · rw [if_neg hpos]
      exact returns_pure _ _
    · rw [hmem]
      exact ((writeAt_nil_iff _ _).2 (by omega)).symm

theorem ne_of_length (n : ℕ) : (n : ℤ) ≠ -1 := by omega

theorem agree_read_iff (hd : Descriptor s.io.kernel pid a h p cell) (hs : Shows s.io pid h s.model file content)
    {b c : Int32} (hin : (Call.read b c).InRange (s.io.memory pid)) :
    Agree pid a h (after pid a s (.call (.read b c))) ↔ unsigned c ≤ s.io.limit := by
  obtain ⟨hfit, hmax⟩ : unsigned b + unsigned c ≤ (s.io.memory pid).length ∧ unsigned c ≤ 1048576 := hin
  have hcount : min (unsigned c) 1048576 = unsigned c := Nat.min_eq_left hmax
  have hopened := hs.regular.opened
  constructor
  · intro hagree
    by_contra hroom
    have hthrow : Throws (sysRead pid p a b c) s.io () s.io := by
      unfold sysRead
      rw [hd.withEntry_eq]
      dsimp only
      rw [hcount]
      exact throws_withFile hopened (throws_vfsRead (by omega)).bind
    exact not_agree_of_throws hd (.read b c) hthrow (ne_of_length _) hagree
  · intro hroom
    obtain ⟨data, hdata⟩ : ∃ data, data = s.model.get s.model.position (unsigned c) := ⟨_, rfl⟩
    have hlen : data.length ≤ unsigned c := hdata ▸ length_get_le _ _ _
    have hread := hs.returns_vfsRead hroom s.model.position
    rw [← hdata] at hread
    obtain ⟨io', hgive, hkernel, hmemory⟩ := returns_give hd
      (withVfs s.io (seek s.io.kernel.vfs h (s.model.position + data.length))) hs.memory
      (by rw [← hs.memory]; exact hfit) data hlen
    have hret : Returns (sysRead pid p a b c) s.io data.length io' := by
      unfold sysRead
      rw [hd.withEntry_eq]
      dsimp only
      rw [hcount]
      refine returns_withFile hopened ?_
      rw [hs.position]
      exact hread.bind ((returns_setPosition _ _).bind hgive)
    rw [after_of_returns hd (.read b c) hret]
    have hmodel : s.model.perform (.read b c) =
        ({ s.model.give (unsigned b) data with position := s.model.position + data.length },
          (data.length : ℤ)) := by
      rw [hdata]
      rfl
    rw [hmodel]
    have hr : Regular io'.kernel.vfs h { file with position := (s.model.position + data.length : ℤ) } content := by
      rw [hkernel]
      exact hs.regular.seek _
    have hbytes : bytesOf io'.kernel.vfs content = s.model.bytes := by
      rw [hkernel]
      exact (bytesOf_seek _ _ _ _).trans hs.bytes
    refine agree_of_shows hd ?_ (Int32.toInt_ofInt_of_le (by omega) (by omega))
      ⟨hr, hbytes, (Nat.cast_add _ _).symm, hs.append,
      hmemory⟩
    rw [hkernel]
    rfl

theorem agree_pread_iff (hd : Descriptor s.io.kernel pid a h p cell) (hs : Shows s.io pid h s.model file content)
    {b c d e : Int32} (hin : (Call.pread b c d e).InRange (s.io.memory pid)) :
    Agree pid a h (after pid a s (.call (.pread b c d e))) ↔ unsigned c ≤ s.io.limit := by
  obtain ⟨hfit, hmax⟩ : unsigned b + unsigned c ≤ (s.io.memory pid).length ∧ unsigned c ≤ 1048576 := hin
  have hopened := hs.regular.opened
  constructor
  · intro hagree
    by_contra hroom
    have hthrow : Throws (sysPread64 pid p a b c d e) s.io () s.io := by
      unfold sysPread64
      rw [hd.withEntry_eq]
      exact throws_withFile hopened (throws_vfsRead (by omega)).bind
    exact not_agree_of_throws hd (.pread b c d e) hthrow (ne_of_length _) hagree
  · intro hroom
    obtain ⟨data, hdata⟩ : ∃ data, data = s.model.get (offset64 d e) (unsigned c) := ⟨_, rfl⟩
    have hlen : data.length ≤ unsigned c := hdata ▸ length_get_le _ _ _
    have hread := hs.returns_vfsRead hroom (offset64 d e)
    rw [← hdata] at hread
    obtain ⟨io', hgive, hkernel, hmemory⟩ := returns_give hd s.io hs.memory (by rw [← hs.memory]; exact hfit) data hlen
    have hret : Returns (sysPread64 pid p a b c d e) s.io data.length io' := by
      unfold sysPread64
      rw [hd.withEntry_eq]
      exact returns_withFile hopened (hread.bind hgive)
    rw [after_of_returns hd (.pread b c d e) hret]
    have hmodel : s.model.perform (.pread b c d e) = (s.model.give (unsigned b) data, (data.length : ℤ)) := by
      rw [hdata]
      rfl
    rw [hmodel]
    have hr : Regular io'.kernel.vfs h file content := by
      rw [hkernel]
      exact hs.regular
    have hbytes : bytesOf io'.kernel.vfs content = s.model.bytes := by
      rw [hkernel]
      exact hs.bytes
    refine agree_of_shows hd ?_ (Int32.toInt_ofInt_of_le (by omega) (by omega))
      ⟨hr, hbytes, hs.position, hs.append, hmemory⟩
    rw [hkernel]

theorem length_data {m : Model} {addr count : ℕ} (h : addr + count ≤ m.memory.length) :
    (m.data addr count).length = count := by
  rw [Model.data, List.length_take, List.length_drop]
  omega

/-- The start of a write is that of the model. -/
theorem Shows.startOf_eq {io : FileIo.State} {m : Model} (hs : Shows io pid h m file content) (offset : ℕ) :
    startOf io.kernel.vfs file content offset = if m.append then m.bytes.length else offset := by
  rw [startOf, hs.append, hs.bytes]

theorem agree_write_iff (hd : Descriptor s.io.kernel pid a h p cell) (hs : Shows s.io pid h s.model file content)
    {b c : Int32} (hin : (Call.write b c).InRange (s.io.memory pid)) :
    Agree pid a h (after pid a s (.call (.write b c))) ↔ Fits s (.call (.write b c)) := by
  obtain ⟨hfit, hmax⟩ : unsigned b + unsigned c ≤ (s.io.memory pid).length ∧ unsigned c ≤ 1048576 := hin
  obtain ⟨data, hdata⟩ : ∃ data, data = s.model.data (unsigned b) (unsigned c) := ⟨_, rfl⟩
  have hlen : data.length = unsigned c := by
    rw [hdata]
    exact length_data (by rw [← hs.memory]; exact hfit)
  have hstart : s.model.start = startOf s.io.kernel.vfs file content s.model.position :=
    (hs.startOf_eq s.model.position).symm
  have hmodel : s.model.perform (.write b c) =
      if data = [] then (s.model, 0)
      else
        ({ s.model with
            bytes := writeAt s.model.bytes s.model.start data
            position := s.model.start + data.length }, (data.length : ℤ)) := by
    rw [hdata]
    rfl
  have hresult : (s.model.perform (.write b c)).2 ≠ -1 := by
    rw [hmodel]
    split
    · simp
    · exact ne_of_length _
  have hslice (hroom : unsigned c ≤ s.io.limit) :
      Returns (sliceGuest pid p (unsigned b) (unsigned c)) s.io data s.io := by
    have hret := returns_sliceGuest (s := s.io) hd.memory hfit hroom
    rw [hs.memory] at hret
    rwa [hdata]
  by_cases hroom : unsigned c ≤ s.io.limit
  swap
  · -- no buffer for the bytes
    have hthrow : Throws (sysWrite pid p a b c) s.io () s.io := by
      unfold sysWrite
      rw [hd.withEntry_eq]
      exact (throws_sliceGuest hd.memory hfit (by omega)).bind
    exact iff_of_false (not_agree_of_throws hd (.write b c) hthrow hresult) fun hfits => hroom hfits.1
  by_cases hspace : Room s.io.limit s.model s.model.start (unsigned c)
  swap
  · -- no buffer for the file
    have hfull := hs.regular.writeNext_full s.io.limit hs.position data hstart
      (by rw [hs.bytes, hlen]; exact hspace)
    rw [hlen] at hfull
    have hthrow : Throws (sysWrite pid p a b c) s.io () (withVfs s.io (seek s.io.kernel.vfs h s.model.start)) := by
      unfold sysWrite
      rw [hd.withEntry_eq]
      exact (hslice hroom).throws (throws_onVfs hfull)
    exact iff_of_false (not_agree_of_throws hd (.write b c) hthrow hresult) fun hfits => hspace hfits.2.1
  obtain ⟨v', content', hnext, hregular, hbytes⟩ := hs.regular.writeNext_room s.io.limit hs.position
    data hstart (by rw [hs.bytes, hlen]; exact hspace)
  rw [hlen] at hnext
  rw [hs.bytes] at hbytes
  have hret : Returns (sysWrite pid p a b c) s.io (unsigned c) (withVfs s.io v') := by
    unfold sysWrite
    rw [hd.withEntry_eq]
    exact (hslice hroom).bind (returns_onVfs hnext)
  rw [after_of_returns hd (.write b c) hret, hmodel]
  by_cases hempty : data = []
  · -- the kernel moves the position and fills the file up to it all the same
    have hzero : unsigned c = 0 := by rw [← hlen, hempty, List.length_nil]
    rw [if_pos hempty]
    rw [hempty, List.length_nil, Nat.add_zero] at hregular
    rw [hempty] at hbytes
    constructor
    · rintro ⟨-, -, hshows⟩
      have hsame := shows_of_regular hregular hshows
      have hpos : s.model.start = s.model.position := Nat.cast_inj.1 hsame.position
      have hold : writeAt s.model.bytes s.model.start [] = s.model.bytes := hbytes.symm.trans hsame.bytes
      exact ⟨hroom, hspace, fun _ => ⟨hpos, (writeAt_nil_iff _ _).1 hold⟩⟩
    · rintro ⟨-, -, hquiet⟩
      obtain ⟨hpos, hin⟩ := hquiet hzero
      have hres : (Int32.ofInt (unsigned c : ℤ)).toInt = 0 := by
        rw [hzero]
        rfl
      refine agree_of_shows hd rfl hres ⟨hregular, ?_, congrArg Nat.cast hpos, hs.append, hs.memory⟩
      exact hbytes.trans ((writeAt_nil_iff _ _).2 hin)
  · rw [if_neg hempty]
    refine iff_of_true ?_ ⟨hroom, hspace, fun hzero => ?_⟩
    · have hres : (Int32.ofInt (unsigned c : ℤ)).toInt = data.length := by
        rw [hlen]
        exact Int32.toInt_ofInt_of_le (by omega) (by omega)
      exact agree_of_shows hd rfl hres ⟨hregular, hbytes, rfl, hs.append, hs.memory⟩
    · rw [← hlen] at hzero
      exact absurd (List.length_eq_zero_iff.1 hzero) hempty

theorem agree_pwrite_iff (hd : Descriptor s.io.kernel pid a h p cell) (hs : Shows s.io pid h s.model file content)
    {b c d e : Int32} (hin : (Call.pwrite b c d e).InRange (s.io.memory pid)) :
    Agree pid a h (after pid a s (.call (.pwrite b c d e))) ↔ Fits s (.call (.pwrite b c d e)) := by
  obtain ⟨hfit, hmax⟩ : unsigned b + unsigned c ≤ (s.io.memory pid).length ∧ unsigned c ≤ 1048576 := hin
  have hopened := hs.regular.opened
  obtain ⟨data, hdata⟩ : ∃ data, data = s.model.data (unsigned b) (unsigned c) := ⟨_, rfl⟩
  have hlen : data.length = unsigned c := by
    rw [hdata]
    exact length_data (by rw [← hs.memory]; exact hfit)
  obtain ⟨start, hstart⟩ : ∃ n, n = if s.model.append then s.model.bytes.length else offset64 d e := ⟨_, rfl⟩
  have hfits : Fits s (.call (.pwrite b c d e)) ↔
      unsigned c ≤ s.io.limit ∧ Room s.io.limit s.model start (unsigned c) ∧
        if unsigned c = 0 then start ≤ s.model.bytes.length else start = offset64 d e := by
    subst hstart
    exact Iff.rfl
  have hmodel : s.model.perform (.pwrite b c d e) =
      if data = [] then (s.model, 0)
      else ({ s.model with bytes := writeAt s.model.bytes (offset64 d e) data }, (data.length : ℤ)) := by
    rw [hdata]
    rfl
  have hresult : (s.model.perform (.pwrite b c d e)).2 ≠ -1 := by
    rw [hmodel]
    split
    · simp
    · exact ne_of_length _
  have hfile := hs.regular.writeFile_eq s.io.limit data (offset64 d e)
  rw [hs.startOf_eq, ← hstart] at hfile
  rw [hfits]
  by_cases hroom : unsigned c ≤ s.io.limit
  swap
  · -- no buffer for the bytes
    have hthrow : Throws (sysPwrite64 pid p a b c d e) s.io () s.io := by
      unfold sysPwrite64
      rw [hd.withEntry_eq]
      exact throws_withFile hopened (throws_sliceGuest hd.memory hfit (by omega)).bind
    exact iff_of_false (not_agree_of_throws hd (.pwrite b c d e) hthrow hresult) fun hfits => hroom hfits.1
  have hslice : Returns (sliceGuest pid p (unsigned b) (unsigned c)) s.io data s.io := by
    have hret := returns_sliceGuest (s := s.io) hd.memory hfit hroom
    rw [hs.memory] at hret
    rwa [hdata]
  by_cases hspace : Room s.io.limit s.model start (unsigned c)
  swap
  · -- no buffer for the file
    have hfull := writeContent_full s.io.limit s.io.kernel.vfs h content file.path data start
      (by rw [hs.bytes, hlen]; exact hspace)
    rw [← hfile] at hfull
    have hthrow : Throws (sysPwrite64 pid p a b c d e) s.io () (withVfs s.io s.io.kernel.vfs) := by
      unfold sysPwrite64
      rw [hd.withEntry_eq]
      exact throws_withFile hopened (hslice.throws (throws_onVfs hfull).bind)
    exact iff_of_false (not_agree_of_throws hd (.pwrite b c d e) hthrow hresult) fun hfits => hspace hfits.2.1
  obtain ⟨v', hwrite, content', hregular, hbytes⟩ := hs.regular.writeContent_room s.io.limit file.path
    data start (by rw [hs.bytes, hlen]; exact hspace)
  rw [← hfile] at hwrite
  rw [hs.bytes] at hbytes
  have hret : Returns (sysPwrite64 pid p a b c d e) s.io (unsigned c) (withVfs s.io v') := by
    unfold sysPwrite64
    rw [hd.withEntry_eq]
    exact returns_withFile hopened (hslice.bind ((returns_onVfs hwrite).bind (returns_pure _ _)))
  have hres : (Int32.ofInt (unsigned c : ℤ)).toInt = data.length := by
    rw [hlen]
    exact Int32.toInt_ofInt_of_le (by omega) (by omega)
  rw [after_of_returns hd (.pwrite b c d e) hret, hmodel]
  by_cases hempty : data = []
  · -- the kernel fills the file up to the offset all the same
    have hzero : unsigned c = 0 := by rw [← hlen, hempty, List.length_nil]
    rw [if_pos hempty, if_pos hzero]
    rw [hempty] at hbytes
    constructor
    · rintro ⟨-, -, hshows⟩
      have hsame := shows_of_regular hregular hshows
      have hold : writeAt s.model.bytes start [] = s.model.bytes := hbytes.symm.trans hsame.bytes
      exact ⟨hroom, hspace, (writeAt_nil_iff _ _).1 hold⟩
    · rintro ⟨-, -, hin⟩
      have hnone : (Int32.ofInt (unsigned c : ℤ)).toInt = 0 := by
        rw [hres, hempty]
        rfl
      refine agree_of_shows hd rfl hnone ⟨hregular, ?_, hs.position, hs.append, hs.memory⟩
      exact hbytes.trans ((writeAt_nil_iff _ _).2 hin)
  · have hne : unsigned c ≠ 0 := by
      rw [← hlen]
      exact fun hzero => hempty (List.length_eq_zero_iff.1 hzero)
    rw [if_neg hempty, if_neg hne]
    constructor
    · rintro ⟨-, -, hshows⟩
      have hsame := shows_of_regular hregular hshows
      have hold : writeAt s.model.bytes start data = writeAt s.model.bytes (offset64 d e) data :=
        hbytes.symm.trans hsame.bytes
      -- bytes at the end make the file longer than bytes at another offset
      have hlength := congrArg List.length hold
      rw [length_writeAt, length_writeAt] at hlength
      refine ⟨hroom, hspace, ?_⟩
      split_ifs at hstart <;> omega
    · rintro ⟨-, -, hsame⟩
      rw [hsame] at hbytes
      have hshows : Shows (withVfs s.io v') pid h { s.model with bytes := writeAt s.model.bytes (offset64 d e) data }
          { file with content := some content' } content' :=
        ⟨hregular, hbytes, hs.position, hs.append, hs.memory⟩
      exact agree_of_shows hd rfl hres hshows

theorem target_of_base {m : Model} {io : FileIo.State} (hs : Shows io pid h m file content) (b c : Int32) :
    (if c = 0 then b.toInt
      else if c = 1 then file.position + b.toInt
      else if c = 2 then (contentLength io.kernel.vfs file : ℤ) + b.toInt
      else file.position) = match m.base c.toInt with | none => (m.position : ℤ) | some base => base + b.toInt := by
  have hlen : contentLength io.kernel.vfs file = m.bytes.length := by
    rw [contentLength, hs.regular.holds, ← hs.bytes]
  have hword (x : Int32) : c.toInt = x.toInt ↔ c = x := Int32.toInt_inj
  have h0 : c.toInt = 0 ↔ c = 0 := hword 0
  have h1 : c.toInt = 1 ↔ c = 1 := hword 1
  have h2 : c.toInt = 2 ↔ c = 2 := hword 2
  rw [Model.base, hlen, hs.position]
  simp only [h0, h1, h2]
  split_ifs <;> simp

theorem agree_lseek_iff (hd : Descriptor s.io.kernel pid a h p cell) (hs : Shows s.io pid h s.model file content)
    (b c : Int32) :
    Agree pid a h (after pid a s (.call (.lseek b c))) ↔ Fits s (.call (.lseek b c)) := by
  obtain ⟨position, hposition⟩ : ∃ n : ℤ, n =
      match s.model.base c.toInt with | none => (s.model.position : ℤ) | some base => base + b.toInt := ⟨_, rfl⟩
  have hret : Returns (sysLseek p a b c) s.io position (withVfs s.io (seek s.io.kernel.vfs h position)) := by
    unfold sysLseek
    rw [hd.withEntry_eq]
    refine returns_withFile hs.regular.opened (returns_read ?_)
    dsimp only
    rw [target_of_base hs, ← hposition]
    exact (returns_setPosition _ _).bind (returns_pure _ _)
  have hregular := hs.regular.seek position
  have hbytes : bytesOf (seek s.io.kernel.vfs h position) content = s.model.bytes :=
    (bytesOf_seek _ _ _ _).trans hs.bytes
  rw [after_of_returns hd (.lseek b c) hret]
  unfold Fits Model.perform Model.lseek
  dsimp only
  cases hbase : s.model.base c.toInt with
  | none =>
    -- the position stays, and is the answer
    rw [hbase] at hposition
    dsimp only at hposition ⊢
    rw [hposition] at hregular hbytes ⊢
    constructor
    · intro hagree
      exact hagree.1
    · intro hres
      exact agree_of_shows hd rfl hres ⟨hregular, hbytes, rfl, hs.append, hs.memory⟩
  | some base =>
    rw [hbase] at hposition
    dsimp only at hposition ⊢
    rw [← hposition]
    by_cases hneg : position < 0
    · rw [if_pos hneg]
      refine iff_of_false ?_ (by omega)
      rintro ⟨-, -, hshows⟩
      have hpos : position = s.model.position := (shows_of_regular hregular hshows).position
      omega
    · rw [if_neg hneg]
      constructor
      · intro hagree
        have hres : (Int32.ofInt position).toInt = position := hagree.1
        have hlt := (Int32.ofInt position).toInt_lt
        exact ⟨by omega, by omega⟩
      · rintro ⟨hge, hlt⟩
        have hnat : position = (position.toNat : ℤ) := by omega
        exact agree_of_shows hd rfl (Int32.toInt_ofInt_of_le (by omega) hlt)
          ⟨hregular, hbytes, hnat, hs.append, hs.memory⟩

theorem unsigned_eq (x : Int32) : (unsigned x : ℤ) = x.toInt % 2 ^ 32 := by
  have hbits : (unsigned x : ℤ) = x.toBitVec.toNat := rfl
  have hsign : x.toInt = x.toBitVec.toInt := rfl
  have hlt := x.toBitVec.isLt
  rw [hbits, hsign, BitVec.toInt_eq_toNat_cond]
  split_ifs <;> omega

theorem agree_ftruncate_iff (hd : Descriptor s.io.kernel pid a h p cell)
    (hs : Shows s.io pid h s.model file content) (b : Int32) :
    Agree pid a h (after pid a s (.call (.ftruncate b))) ↔ Fits s (.call (.ftruncate b)) := by
  have hmodel : s.model.perform (.ftruncate b) =
      if b.toInt < 0 then (s.model, -22)
      else ({ s.model with bytes := resize s.model.bytes b.toInt.toNat }, 0) := rfl
  have hresult : (s.model.perform (.ftruncate b)).2 ≠ -1 := by
    rw [hmodel]
    split <;> simp
  have hfits : Fits s (.call (.ftruncate b)) ↔
      0 ≤ b.toInt ∧ (b.toInt = s.model.bytes.length ∨ b.toInt ≤ s.io.limit) := Iff.rfl
  have hword := unsigned_eq b
  rw [hfits]
  by_cases hroom : unsigned b = s.model.bytes.length ∨ unsigned b ≤ s.io.limit
  swap
  · have hfull := hs.regular.truncate_full s.io.limit (by rw [hs.bytes]; exact hroom)
    have hthrow : Throws (sysFtruncate p a b) s.io () (withVfs s.io s.io.kernel.vfs) := by
      unfold sysFtruncate
      rw [hd.withEntry_eq]
      exact throws_onVfs hfull
    refine iff_of_false (not_agree_of_throws hd (.ftruncate b) hthrow hresult) ?_
    rintro ⟨hge, hle⟩
    have hlt := b.toInt_lt
    omega
  obtain ⟨v', htruncate, content', hregular, hbytes⟩ :=
    hs.regular.truncate_room s.io.limit (by rw [hs.bytes]; exact hroom)
  rw [hs.bytes] at hbytes
  have hret : Returns (sysFtruncate p a b) s.io 0 (withVfs s.io v') := by
    unfold sysFtruncate
    rw [hd.withEntry_eq]
    exact returns_onVfs htruncate
  rw [after_of_returns hd (.ftruncate b) hret, hmodel]
  by_cases hneg : b.toInt < 0
  · rw [if_pos hneg]
    refine iff_of_false ?_ (by omega)
    rintro ⟨hres, -⟩
    have herror : (Int32.ofInt 0).toInt = -22 := hres
    exact absurd herror (by decide)
  · rw [if_neg hneg]
    have hlt := b.toInt_lt
    have hsame : unsigned b = b.toInt.toNat := by omega
    rw [hsame] at hbytes hroom
    exact iff_of_true (agree_of_shows hd rfl rfl ⟨hregular, hbytes, hs.position, hs.append, hs.memory⟩)
      ⟨by omega, by omega⟩

end Calls

/-! ### Runs -/

/-- **One call, or a change of the guest's memory.** -/
theorem agree_step_iff {pid h : ℤ} {a : Int32} {s s' : State} {ev : Event} (hagree : Agree pid a h s)
    (hstep : Step pid a s ev s') : Agree pid a h s' ↔ Fits s ev := by
  obtain ⟨hin, rfl⟩ := hstep
  obtain ⟨hres, ⟨p, cell, hd⟩, file, content, hs⟩ := hagree
  cases ev with
  | guest memory =>
    have hshows : Shows (after pid a s (.guest memory)).io pid h (after pid a s (.guest memory)).model file content :=
      ⟨hs.regular, hs.bytes, hs.position, hs.append, Function.update_self _ _ _⟩
    exact iff_of_true (agree_of_shows hd rfl hres hshows) trivial
  | call call =>
    have hrange := hin call rfl
    cases call with
    | read b c => exact agree_read_iff hd hs hrange
    | pread b c d e => exact agree_pread_iff hd hs hrange
    | write b c => exact agree_write_iff hd hs hrange
    | pwrite b c d e => exact agree_pwrite_iff hd hs hrange
    | lseek b c => exact agree_lseek_iff hd hs b c
    | ftruncate b => exact agree_ftruncate_iff hd hs b

/-- **An open file is an array of bytes and a position.**  From any state in which the kernel and the model
show the same file, in every run of calls on its descriptor with buffers in range, the results, the bytes,
the position and what the guest has read agree throughout exactly when each call meets the condition. -/
theorem agree_iff {pid h : ℤ} {a : Int32} {s : State} {tr : List (Event × State)} (hstart : Agree pid a h s)
    (hrun : Runs.IsRun (Step pid a) s tr) :
    Runs.Throughout (Agree pid a h) s tr ↔ Runs.Meets Fits s tr :=
  Runs.throughout_iff_meets (fun _ _ _ hagree hstep => agree_step_iff hagree hstep) hstart hrun

/-- Process 1 with an empty file, as descriptor and handle 4, and the model of it. -/
def started : State where
  io := Isolation.opened.io
  model := ⟨[], 0, false, Isolation.opened.io.memory 1⟩
  results := (0, 0)

theorem agree_started : Agree 1 4 4 started := by
  refine ⟨rfl, ?_, ?_⟩
  · have hproc : (started.io.kernel.processTable.get? 1).any (fun p =>
        p.wasmMemory ∧ (p.fdTable.get? 4).any fun entry => entry.kind = .file 4) = true := by decide +kernel
    obtain ⟨p, hp, hprop⟩ := (Option.any_eq_true _ _).1 hproc
    obtain ⟨hmem, hentry⟩ := of_decide_eq_true hprop
    obtain ⟨⟨kind, cell⟩, hget, hkind⟩ := (Option.any_eq_true _ _).1 hentry
    obtain rfl : kind = .file 4 := of_decide_eq_true hkind
    exact ⟨p, cell, hp, hmem, hget⟩
  · have hfile : (started.io.kernel.vfs.openFiles.get? 4).any (fun file =>
        file.special = none ∧ file.isDir = false ∧ file.position = 0 ∧ file.append = false ∧
          file.content.any fun content =>
            content < started.io.kernel.vfs.buffers.length ∧ bytesOf started.io.kernel.vfs content = []) = true := by
      decide +kernel
    obtain ⟨file, hget, hprop⟩ := (Option.any_eq_true _ _).1 hfile
    obtain ⟨hspecial, hdir, hpos, happend, hcontent⟩ := of_decide_eq_true hprop
    obtain ⟨content, hholds, hbuf⟩ := (Option.any_eq_true _ _).1 hcontent
    obtain ⟨hstored, hbytes⟩ := of_decide_eq_true hbuf
    exact ⟨file, content, ⟨hget, hspecial, hdir, hholds, hstored⟩, hbytes, hpos, happend, rfl⟩

/-- A seek to -1. -/
def seekBack : List Event := [.call (.lseek (-1) 0)]

theorem step_call {pid : ℤ} {a : Int32} {s : State} {call : Call} (h : call.InRange (s.io.memory pid)) :
    Step pid a s (.call call) (after pid a s (.call call)) := by
  refine ⟨?_, rfl⟩
  rintro call' hcall
  obtain rfl : call = call' := Event.call.inj hcall
  exact h

theorem isRun_seekBack : Runs.IsRun (Step 1 4) started (Runs.trace (after 1 4) started seekBack) :=
  ⟨step_call ⟨Nat.zero_le _, Nat.zero_le _⟩, trivial⟩

/-- **A seek in front of the first byte moves the position there.** -/
theorem not_agree_seekBack :
    ¬ ∀ (s : State) (tr : List (Event × State)), Agree 1 4 4 s → Runs.IsRun (Step 1 4) s tr →
      Runs.Throughout (Agree 1 4 4) s tr := by
  intro hall
  obtain ⟨-, hres, -⟩ := hall _ _ agree_started isRun_seekBack
  have hanswers : (after 1 4 started (.call (.lseek (-1) 0))).results = (-1, -22) := by decide +kernel
  rw [hanswers] at hres
  exact absurd hres (by decide)

/-- A write of two bytes, a seek behind them, and another write. -/
def gap : List Event := [.call (.write 0 2), .call (.lseek 5 0), .call (.write 0 1)]

theorem isRun_gap : Runs.IsRun (Step 1 4) started (Runs.trace (after 1 4) started gap) :=
  ⟨step_call (by decide +kernel), step_call (by decide +kernel), step_call (by decide +kernel), trivial⟩

theorem agree_iff_gap :
    Runs.Throughout (Agree 1 4 4) started (Runs.trace (after 1 4) started gap) ↔
      Runs.Meets Fits started (Runs.trace (after 1 4) started gap) :=
  agree_iff agree_started isRun_gap

end ByteFile
