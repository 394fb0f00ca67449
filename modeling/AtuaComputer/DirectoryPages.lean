/-
**Listing a directory page by page.**

`getdents64` gives the listing of a directory in records, as many as the buffer takes, and the next call goes
on where the last one stopped.  The listing is made at the first call and kept with the open file, so that
what happens to the directory in between makes no difference.  A record ends its name with a zero byte; a name
with a zero byte in it is cut off there by whoever reads the record.

Main definitions:

* `DirectoryPages.decode` — reading records, one after the other;
* `DirectoryPages.State`, `DirectoryPages.after` — the kernel, with the listing of the first call and all records;
* `DirectoryPages.Paged` — the records so far are a beginning of the listing, and a call that returns zero has
  found it exhausted;
* `DirectoryPages.Plain` — names without a zero byte.

Main results:

* `DirectoryPages.decode_records` — records are read as what they were made from;
* `DirectoryPages.fillDirents_eq` — one call writes the records that fit;
* `DirectoryPages.inv_after`, `DirectoryPages.paged_of_plain` — **the pages of a run put together**.
-/

import AtuaComputer.FileOutcomes
import AtuaComputer.Runs
import AtuaComputer.Utf8

set_option relaxedAutoImplicit false
set_option autoImplicit false

namespace DirectoryPages

open VirtualFs Kernel FileIo Outcomes FileOutcomes

/-! ### Records -/

/-- An entry of a listing. -/
abbrev Entry := Path × NodeType

/-- What `d_type` stands for. -/
def typeOf (b : UInt8) : Option NodeType :=
  if b = 4 then some .dir else if b = 10 then some .symlink else if b = 8 then some .file else none

/-- Reading a record: the name up to its zero byte and the type, and what comes after the record. -/
def nextDirent (bytes : List UInt8) : Option (Entry × List UInt8) :=
  let reclen := leNat ((bytes.drop 16).take 2)
  let name := (bytes.take reclen).drop 19
  if reclen % 8 = 0 ∧ 0 < reclen ∧ reclen ≤ bytes.length ∧ 0 ∈ name then
    (typeOf (bytes.getD 18 0)).map fun type =>
      ((Utf8.run Utf8.Decoder.start (name.takeWhile (· ≠ 0)), type), bytes.drop reclen)
  else none

/-- Reading up to so many records. -/
def decodeDirents : ℕ → List UInt8 → Option (List Entry)
  | _, [] => some []
  | 0, _ => none
  | fuel + 1, bytes => (nextDirent bytes).bind fun (entry, rest) => (decodeDirents fuel rest).map (entry :: ·)

/-- Reading records to the end.  A record is not empty, so there are no more of them than bytes. -/
def decode (bytes : List UInt8) : Option (List Entry) := decodeDirents bytes.length bytes

/-- The records of entries, the first of which has the given index. -/
def records : ℕ → List Entry → List UInt8
  | _, [] => []
  | index, entry :: entries => dirent index entry ++ records (index + 1) entries

theorem records_append (index : ℕ) (es fs : List Entry) :
    records index (es ++ fs) = records index es ++ records (index + es.length) fs := by
  induction es generalizing index with
  | nil => rfl
  | cons e es ih =>
      rw [List.cons_append, records, records, ih, List.append_assoc, List.length_cons, Nat.add_right_comm,
        Nat.add_assoc]

/-- The length of a record. -/
def reclen (entry : Entry) : ℕ := (19 + (Utf8.encode entry.1).length + 1 + 7) / 8 * 8

theorem length_dirent (index : ℕ) (entry : Entry) : (dirent index entry).length = reclen entry := by
  have hname : (entry.1.flatMap String.utf8EncodeChar).length = (Utf8.encode entry.1).length := rfl
  unfold dirent reclen padTo
  simp only [List.length_append, List.length_replicate, length_leBytes, List.length_singleton, hname]
  omega

theorem reclen_pos (entry : Entry) : 0 < reclen entry := by
  unfold reclen
  omega

/-- An entry whose record can be read: the length fits into its field, and the name has no zero byte. -/
structure Readable (entry : Entry) : Prop where
  short : (Utf8.encode entry.1).length ≤ 255
  plain : 0 ∉ Utf8.encode entry.1
  listed : entry.2 ≠ .chardev

theorem typeOf_direntType {type : NodeType} (h : type ≠ .chardev) : typeOf (direntType type) = some type := by
  cases type with
  | file => rfl
  | dir => rfl
  | symlink => rfl
  | chardev => exact absurd rfl h

/-- A record in its parts. -/
theorem dirent_eq (index : ℕ) (entry : Entry) : ∃ front zeros, front.length = 16 ∧
    dirent index entry =
      front ++ leBytes 2 (reclen entry) ++ [direntType entry.2] ++ Utf8.encode entry.1 ++ 0 :: zeros := by
  have hname : entry.1.flatMap String.utf8EncodeChar = Utf8.encode entry.1 := rfl
  have hreclen : (19 + (Utf8.encode entry.1).length + 1 + 7) / 8 * 8 = reclen entry := rfl
  obtain ⟨k, hk⟩ : ∃ k, reclen entry = 19 + (Utf8.encode entry.1).length + (k + 1) :=
    ⟨reclen entry - (20 + (Utf8.encode entry.1).length), by unfold reclen; omega⟩
  refine ⟨leBytes 8 (index + 1) ++ leBytes 8 (index + 2), List.replicate k 0, by simp, ?_⟩
  unfold dirent padTo
  dsimp only
  rw [hname, hreclen]
  have hpad : reclen entry - (leBytes 8 (index + 1) ++ leBytes 8 (index + 2) ++ leBytes 2 (reclen entry) ++
      [direntType entry.2] ++ Utf8.encode entry.1).length = k + 1 := by
    simp only [List.length_append, length_leBytes, List.length_singleton]
    omega
  rw [hpad, List.replicate_succ]

/-- **A record is read as what it was made from.** -/
theorem nextDirent_append (index : ℕ) {entry : Entry} (h : Readable entry) (rest : List UInt8) :
    nextDirent (dirent index entry ++ rest) = some (entry, rest) := by
  obtain ⟨front, zeros, hfront, heq⟩ := dirent_eq index entry
  have hlen := length_dirent index entry
  have hword : leNat (((dirent index entry ++ rest).drop 16).take 2) = reclen entry := by
    have hlt : reclen entry < 256 ^ 2 := by
      have hshort := h.short
      unfold reclen
      omega
    have hfield : ((dirent index entry ++ rest).drop 16).take 2 = leBytes 2 (reclen entry) := by
      simp only [heq, List.append_assoc]
      rw [← hfront, List.drop_left, List.take_left' (length_leBytes ..)]
    rw [hfield, leNat_leBytes hlt]
  have htype : (dirent index entry ++ rest).getD 18 0 = direntType entry.2 := by
    have hbefore : (front ++ leBytes 2 (reclen entry)).length = 18 := by
      rw [List.length_append, hfront, length_leBytes]
    simp only [heq, List.append_assoc]
    rw [← List.append_assoc, ← hbefore, List.getD_append_right _ _ _ _ (Nat.le_refl _), Nat.sub_self]
    rfl
  have hname : ((dirent index entry ++ rest).take (reclen entry)).drop 19 = Utf8.encode entry.1 ++ 0 :: zeros := by
    have hbefore : (front ++ leBytes 2 (reclen entry) ++ [direntType entry.2]).length = 19 := by
      rw [List.length_append, List.length_append, hfront, length_leBytes, List.length_singleton]
    rw [List.take_left' hlen, heq, List.append_assoc _ (Utf8.encode entry.1), ← hbefore, List.drop_left]
  have htake : (Utf8.encode entry.1 ++ 0 :: zeros).takeWhile (· ≠ 0) = Utf8.encode entry.1 := by
    rw [List.takeWhile_append_of_pos]
    · simp
    · intro b hb
      have hne : b ≠ 0 := by
        rintro rfl
        exact h.plain hb
      simpa using hne
  unfold nextDirent
  dsimp only
  rw [hword, hname, htype, htake, if_pos, typeOf_direntType h.listed, Option.map_some, Utf8.run_encode,
    List.drop_left' hlen]
  refine ⟨Nat.mul_mod_left _ 8, reclen_pos entry, ?_, by simp⟩
  rw [List.length_append, hlen]
  omega

/-- **Records are read as what they were made from.** -/
theorem decodeDirents_records {entries : List Entry} (h : ∀ entry ∈ entries, Readable entry) (index : ℕ) {fuel : ℕ}
    (hfuel : entries.length ≤ fuel) : decodeDirents fuel (records index entries) = some entries := by
  induction entries generalizing index fuel with
  | nil => cases fuel <;> rfl
  | cons entry entries ih =>
      obtain ⟨fuel, rfl⟩ : ∃ f, fuel = f + 1 := ⟨fuel - 1, by rw [List.length_cons] at hfuel; omega⟩
      have hne : records index (entry :: entries) ≠ [] := by
        intro hnil
        have hlen := congrArg List.length hnil
        rw [records, List.length_append, length_dirent, List.length_nil] at hlen
        have hpos := reclen_pos entry
        omega
      rw [decodeDirents.eq_3 _ _ hne, records, nextDirent_append index (h entry List.mem_cons_self)]
      show (decodeDirents fuel (records (index + 1) entries)).map _ = _
      rw [ih (fun e he => h e (List.mem_cons_of_mem _ he)) _ (Nat.le_of_succ_le_succ hfuel)]
      rfl

theorem length_le_records (index : ℕ) (entries : List Entry) : entries.length ≤ (records index entries).length := by
  induction entries generalizing index with
  | nil => exact Nat.le_refl 0
  | cons entry entries ih =>
      have hpos := reclen_pos entry
      have hrest := ih (index + 1)
      rw [records, List.length_append, length_dirent, List.length_cons]
      omega

theorem decode_records {entries : List Entry} (h : ∀ entry ∈ entries, Readable entry) (index : ℕ) :
    decode (records index entries) = some entries :=
  decodeDirents_records h index (length_le_records index entries)

/-- **One call writes the records that fit,** at least one if the next one does. -/
theorem fillDirents_eq (bufSize index : ℕ) (entries : List Entry) (tmpBuf : List UInt8)
    (hbuf : tmpBuf.length ≤ bufSize) : ∃ k ≤ entries.length,
      fillDirents bufSize index entries tmpBuf = (tmpBuf ++ records index (entries.take k), index + k) ∧
        (tmpBuf ++ records index (entries.take k)).length ≤ bufSize ∧
          (∀ entry, entries.head? = some entry → tmpBuf.length + reclen entry ≤ bufSize → 0 < k) := by
  induction entries generalizing index tmpBuf with
  | nil => exact ⟨0, Nat.le_refl 0, by simp [fillDirents, records], by simpa [records] using hbuf, nofun⟩
  | cons entry entries ih =>
      have hlen := length_dirent index entry
      rw [fillDirents, hlen]
      by_cases hfull : bufSize < tmpBuf.length + reclen entry
      · rw [if_pos hfull]
        refine ⟨0, Nat.zero_le _, by simp [records], by simpa [records] using hbuf, fun e he hfits => ?_⟩
        obtain rfl : entry = e := Option.some.inj he
        omega
      · rw [if_neg hfull]
        obtain ⟨k, hk, hfill, hsize, -⟩ :=
          ih (index + 1) (tmpBuf ++ dirent index entry) (by rw [List.length_append, hlen]; omega)
        refine ⟨k + 1, Nat.succ_le_succ hk, ?_, ?_, fun _ _ _ => Nat.succ_pos k⟩
        · rw [hfill, List.take_succ_cons, records, List.append_assoc, Nat.add_assoc, Nat.add_comm 1]
        · rwa [List.take_succ_cons, records, ← List.append_assoc]

/-! ### Calls -/

/-- The descriptor is one of the handle of an open directory, in a process with a memory. -/
structure Opened (io : FileIo.State) (pid : ℤ) (a : Int32) (h : ℤ) (path : Path) (p : Proc) (file : OpenFile) :
    Prop where
  process : io.kernel.processTable.get? pid = some p
  memory : p.wasmMemory = true
  entry : ∃ entry, p.fdTable.get? a.toInt = some entry ∧ (entry.kind = .file h ∨ entry.kind = .dir h)
  opened : io.kernel.vfs.openFiles.get? h = some file
  isDir : file.isDir = true
  dirPath : file.dirPath = some path

/-- The listing of a handle and how far it has been given, as a call finds or makes it. -/
def cursor (io : FileIo.State) (h : ℤ) (path : Path) : Cursor :=
  (io.cursors.get? h).getD ⟨readdir io.kernel.vfs path, 0⟩

/-- The entries that are left. -/
def left (cur : Cursor) : List Entry := cur.dirEntries.drop cur.dirOffset

/-- The state with a listing. -/
def withCursor (io : FileIo.State) (h : ℤ) (cur : Cursor) : FileIo.State :=
  { io with cursors := io.cursors.set h cur }

theorem returns_getCursor {io : FileIo.State} {h : ℤ} {path : Path} {file : OpenFile}
    (hpath : file.dirPath = some path) : Returns (getCursor h file) io (cursor io h path) io := by
  refine returns_read ?_
  unfold cursor
  rw [hpath]
  cases io.cursors.get? h with
  | some cur => exact returns_pure cur io
  | none => exact returns_pure _ io

section Calls

variable {io : FileIo.State} {pid : ℤ} {a : Int32} {h : ℤ} {path : Path} {p : Proc} {file : OpenFile}

/-- A descriptor of a directory leads to the body of the call. -/
theorem Opened.sysGetdents64_eq (ho : Opened io pid a h path p file) (b c : Int32) :
    sysGetdents64 pid p a b c = withFile h fun file => do
      if ¬ file.isDir then return -9
      let cur ← getCursor h file
      modify fun s => { s with cursors := s.cursors.set h cur }
      alloc (unsigned c)
      let (tmpBuf, index) := fillDirents (unsigned c) cur.dirOffset (cur.dirEntries.drop cur.dirOffset) []
      modify fun s => { s with cursors := s.cursors.set h { cur with dirOffset := index } }
      if tmpBuf ≠ [] then storeGuest pid p (unsigned b) tmpBuf
      return tmpBuf.length := by
  obtain ⟨entry, hget, hkind⟩ := ho.entry
  unfold sysGetdents64 withEntry
  rw [hget]
  dsimp only
  obtain hkind | hkind := hkind <;> rw [hkind]

/-- **A call on an open directory.**  It throws if there is no room for its buffer; else it stores records of
what is left, at least one if the next one fits. -/
theorem getdents_cases (ho : Opened io pid a h path p file) {b c : Int32}
    (hin : unsigned b + unsigned c ≤ (io.memory pid).length) :
    handleFileCall io pid a (.getdents64 b c) = (withCursor io h (cursor io h path), -1) ∨
      ∃ k ≤ (left (cursor io h path)).length, ∃ io' : FileIo.State,
        handleFileCall io pid a (.getdents64 b c) =
            (io', ((records (cursor io h path).dirOffset ((left (cursor io h path)).take k)).length : ℤ)) ∧
          io'.kernel = io.kernel ∧
          io'.cursors.get? h =
            some ⟨(cursor io h path).dirEntries, (cursor io h path).dirOffset + k⟩ ∧
          ((io'.memory pid).drop (unsigned b)).take
              (records (cursor io h path).dirOffset ((left (cursor io h path)).take k)).length =
            records (cursor io h path).dirOffset ((left (cursor io h path)).take k) ∧
          ∀ entry, (left (cursor io h path)).head? = some entry → reclen entry ≤ unsigned c → 0 < k := by
  generalize hcur : cursor io h path = cur
  have hget : Returns (getCursor h file) io cur io := hcur ▸ returns_getCursor ho.dirPath
  have hdir : ¬ ¬ file.isDir = true := not_not_intro ho.isDir
  -- the cursor is stored before the buffer is made, also when there is no room for it
  obtain hroom | hroom := Nat.lt_or_ge io.limit (unsigned c)
  · left
    refine handleFileCall_of_throws ho.process ?_
    show Throws (sysGetdents64 pid p a b c) io () _
    rw [ho.sysGetdents64_eq]
    refine throws_withFile ho.opened ?_
    rw [if_neg hdir]
    refine hget.throws ((returns_modify _ io).throws ?_)
    exact (throws_alloc (s := withCursor io h cur) hroom).bind
  · right
    obtain ⟨k, hk, hfill, hsize, hpos⟩ :=
      fillDirents_eq (unsigned c) cur.dirOffset (left cur) [] (Nat.zero_le _)
    rw [List.nil_append] at hfill hsize
    generalize hbytes : records cur.dirOffset ((left cur).take k) = bytes at hfill hsize
    have hstart : ∃ io', Returns (sysGetdents64 pid p a b c) io bytes.length io' ∧ io'.kernel = io.kernel ∧
        io'.cursors.get? h = some ⟨cur.dirEntries, cur.dirOffset + k⟩ ∧
        ((io'.memory pid).drop (unsigned b)).take bytes.length = bytes := by
      -- the cursor moves before the records are stored
      let next := withCursor (withCursor io h cur) h { cur with dirOffset := cur.dirOffset + k }
      have hnext : next.cursors.get? h = some ⟨cur.dirEntries, cur.dirOffset + k⟩ := JsMap.get?_set_self ..
      have hcall {io' : FileIo.State}
          (hstore : Returns (do
              if bytes ≠ [] then storeGuest pid p (unsigned b) bytes
              return (bytes.length : ℤ)) next bytes.length io') :
          Returns (sysGetdents64 pid p a b c) io bytes.length io' := by
        rw [ho.sysGetdents64_eq]
        refine returns_withFile ho.opened ?_
        rw [if_neg hdir]
        refine hget.bind ((returns_modify _ io).bind ((returns_alloc (s := withCursor io h cur) hroom).bind ?_))
        rw [show cur.dirEntries.drop cur.dirOffset = left cur from rfl, hfill]
        exact (returns_modify _ (withCursor io h cur)).bind hstore
      by_cases hnil : bytes = []
      · refine ⟨next, hcall ?_, rfl, hnext, by rw [hnil]; rfl⟩
        rw [if_neg (not_not_intro hnil)]
        exact returns_pure _ _
      · let memory := (io.memory pid).take (unsigned b) ++ bytes ++ (io.memory pid).drop (unsigned b + bytes.length)
        have hset : setBytes (next.memory pid) bytes (unsigned b) = some memory := by
          show setBytes (io.memory pid) bytes (unsigned b) = _
          rw [setBytes, if_pos (by omega), Int.toNat_natCast]
        refine ⟨withMemory next pid memory, hcall ?_, rfl, hnext, ?_⟩
        · rw [if_pos hnil]
          exact (returns_storeGuest ho.memory hset).bind (returns_pure _ _)
        · have htake : ((io.memory pid).take (unsigned b)).length = unsigned b := by
            rw [List.length_take]
            omega
          have hmemory : (withMemory next pid memory).memory pid = (io.memory pid).take (unsigned b) ++
              (bytes ++ (io.memory pid).drop (unsigned b + bytes.length)) := by
            rw [← List.append_assoc]
            exact Function.update_self ..
          rw [hmemory, List.drop_left' htake, List.take_left' rfl]
    obtain ⟨io', hreturns, hkernel, hcursor, hmemory⟩ := hstart
    refine ⟨k, hk, io', ?_, hkernel, hcursor, ?_, fun entry he hfits => hpos entry he (by simpa using hfits)⟩
    · rw [hbytes]
      exact handleFileCall_of_returns ho.process hreturns
    · rw [hbytes]
      exact hmemory

end Calls

/-! ### Runs -/

/-- The kernel, with the listing that the first call took, all bytes that the calls have written, and what the
last of them returned. -/
structure State where
  io : FileIo.State
  listing : Option (List Entry)
  bytes : List UInt8
  result : ℤ

/-- What happens: a call on the descriptor, or anything else. -/
inductive Event where
  | getdents64 (b c : Int32)
  | other (io : FileIo.State)

/-- The state after an event. -/
def after (pid : ℤ) (a : Int32) (path : Path) (s : State) : Event → State
  | .getdents64 b c =>
    let (io, result) := handleFileCall s.io pid a (.getdents64 b c)
    { io
      listing := s.listing.or (some (readdir s.io.kernel.vfs path))
      bytes := s.bytes ++ ((io.memory pid).drop (unsigned b)).take result.toNat
      result }
  | .other io => { s with io }

/-- What may happen.  A buffer is in range and takes the next record, and the names that the first call finds
are short; anything else leaves the descriptor and what is kept of the listing alone. -/
def Allowed (pid : ℤ) (a : Int32) (h : ℤ) (path : Path) (s : State) : Event → Prop
  | .getdents64 b c =>
    unsigned b + unsigned c ≤ (s.io.memory pid).length ∧
      (∀ entry, (left (cursor s.io h path)).head? = some entry → reclen entry ≤ unsigned c) ∧
      (s.listing = none → ∀ entry ∈ readdir s.io.kernel.vfs path, (Utf8.encode entry.1).length ≤ 255)
  | .other io => (∃ p file, Opened io pid a h path p file) ∧ io.cursors.get? h = s.io.cursors.get? h

/-- The step relation. -/
def Step (pid : ℤ) (a : Int32) (h : ℤ) (path : Path) (s : State) (ev : Event) (s' : State) : Prop :=
  Allowed pid a h path s ev ∧ s' = after pid a path s ev

/-- An open directory that has not been listed. -/
structure Starts (pid : ℤ) (a : Int32) (h : ℤ) (path : Path) (s : State) : Prop where
  opened : ∃ p file, Opened s.io pid a h path p file
  cursor : s.io.cursors.get? h = none
  listing : s.listing = none
  bytes : s.bytes = []

/-- After a call, all that was written is read as a beginning of the listing, and if the call has returned
zero, as the whole. -/
def Paged (_ : State) (ev : Event) (s' : State) : Prop :=
  match ev with
  | .other _ => True
  | .getdents64 _ _ => ∃ listing k, s'.listing = some listing ∧ k ≤ listing.length ∧
      decode s'.bytes = some (listing.take k) ∧ (s'.result = 0 → k = listing.length)

/-- The names that the first call finds have no zero byte. -/
def Plain (path : Path) (s : State) : Event → Prop
  | .getdents64 _ _ => s.listing = none → ∀ entry ∈ readdir s.io.kernel.vfs path, 0 ∉ Utf8.encode entry.1
  | .other _ => True

/-- The invariant: the listing is kept, and what was written is the records before the offset. -/
structure Inv (pid : ℤ) (a : Int32) (h : ℤ) (path : Path) (s : State) : Prop where
  opened : ∃ p file, Opened s.io pid a h path p file
  before : s.listing = none → s.io.cursors.get? h = none ∧ s.bytes = []
  during : ∀ listing, s.listing = some listing → (∀ entry ∈ listing, Readable entry) ∧
    ∃ k ≤ listing.length, s.io.cursors.get? h = some ⟨listing, k⟩ ∧ s.bytes = records 0 (listing.take k)

theorem ne_chardev_of_mem_readdir {v : Vfs} {path : Path} {entry : Entry} (h : entry ∈ readdir v path) :
    entry.2 ≠ .chardev := by
  unfold readdir at h
  simp only [List.mem_cons, List.mem_map] at h
  obtain rfl | rfl | ⟨name, -, rfl⟩ := h
  · simp
  · simp
  · unfold entryType
    dsimp only
    split_ifs <;> simp

section Pages

variable {pid : ℤ} {a : Int32} {h : ℤ} {path : Path} {s s' : State}

/-- The listing that a call works on, with the offset it starts from. -/
theorem Inv.cursor_eq (hi : Inv pid a h path s) : ∃ listing k,
    s.listing.or (some (readdir s.io.kernel.vfs path)) = some listing ∧ k ≤ listing.length ∧
      cursor s.io h path = ⟨listing, k⟩ ∧ s.bytes = records 0 (listing.take k) := by
  cases hlisting : s.listing with
  | none =>
      obtain ⟨hcursor, hbytes⟩ := hi.before hlisting
      refine ⟨readdir s.io.kernel.vfs path, 0, rfl, Nat.zero_le _, ?_, hbytes⟩
      rw [cursor, hcursor, Option.getD_none]
  | some listing =>
      obtain ⟨-, k, hk, hcursor, hbytes⟩ := hi.during listing hlisting
      refine ⟨listing, k, rfl, hk, ?_, hbytes⟩
      rw [cursor, hcursor, Option.getD_some]

/-- What holds of the kernel only stays when memory or listings change. -/
theorem Opened.of_kernel {io io' : FileIo.State} {a : Int32} {p : Proc} {file : OpenFile}
    (ho : Opened io pid a h path p file) (hkernel : io'.kernel = io.kernel) : Opened io' pid a h path p file where
  process := by rw [hkernel]; exact ho.process
  memory := ho.memory
  entry := ho.entry
  opened := by rw [hkernel]; exact ho.opened
  isDir := ho.isDir
  dirPath := ho.dirPath

theorem after_getdents {b c : Int32} {io' : FileIo.State} {n : ℤ}
    (hcall : handleFileCall s.io pid a (.getdents64 b c) = (io', n)) :
    after pid a path s (.getdents64 b c) =
      ⟨io', s.listing.or (some (readdir s.io.kernel.vfs path)),
        s.bytes ++ ((io'.memory pid).drop (unsigned b)).take n.toNat, n⟩ := by
  unfold after
  dsimp only
  rw [hcall]

/-- The state after a call that has given the entries up to the `k`-th. -/
theorem inv_of_given {listing : List Entry} {k : ℕ} {b c : Int32} (hopened : ∃ p file, Opened s'.io pid a h path p file)
    (hlisting : s'.listing = some listing) (hreadable : ∀ entry ∈ listing, Readable entry) (hk : k ≤ listing.length)
    (hcursor : s'.io.cursors.get? h = some ⟨listing, k⟩) (hbytes : s'.bytes = records 0 (listing.take k))
    (hzero : s'.result = 0 → k = listing.length) : Inv pid a h path s' ∧ Paged s (.getdents64 b c) s' := by
  refine ⟨⟨hopened, fun hnone => ?_, fun l hsome => ?_⟩, listing, k, hlisting, hk, ?_, hzero⟩
  · rw [hlisting] at hnone
    cases hnone
  · obtain rfl := Option.some.inj (hlisting.symm.trans hsome)
    exact ⟨hreadable, k, hk, hcursor, hbytes⟩
  · rw [hbytes]
    exact decode_records (fun entry hentry => hreadable entry (List.mem_of_mem_take hentry)) 0

/-- **One event.** -/
theorem inv_after {ev : Event} (hi : Inv pid a h path s) (hplain : Plain path s ev)
    (hstep : Step pid a h path s ev s') : Inv pid a h path s' ∧ Paged s ev s' := by
  obtain ⟨hallowed, rfl⟩ := hstep
  cases ev with
  | other io =>
      obtain ⟨hopened, hcursor⟩ := hallowed
      refine ⟨⟨hopened, fun hnone => ?_, fun listing hsome => ?_⟩, trivial⟩
      · obtain ⟨hget, hbytes⟩ := hi.before hnone
        exact ⟨hcursor.trans hget, hbytes⟩
      · obtain ⟨hreadable, k, hk, hget, hbytes⟩ := hi.during listing hsome
        exact ⟨hreadable, k, hk, hcursor.trans hget, hbytes⟩
  | getdents64 b c =>
      obtain ⟨hin, hfits, hshort⟩ := hallowed
      obtain ⟨p, file, ho⟩ := hi.opened
      obtain ⟨listing, k, hlisting, hk, hcur, hbytes⟩ := hi.cursor_eq
      have hreadable : ∀ entry ∈ listing, Readable entry := by
        cases hl : s.listing with
        | some l =>
            rw [hl, Option.some_or, Option.some_inj] at hlisting
            exact (hi.during listing (hlisting ▸ hl)).1
        | none =>
            rw [hl, Option.none_or, Option.some_inj] at hlisting
            intro entry hentry
            rw [← hlisting] at hentry
            exact ⟨hshort hl entry hentry, hplain hl entry hentry, ne_chardev_of_mem_readdir hentry⟩
      have hleft : left (cursor s.io h path) = listing.drop k := by rw [hcur]; rfl
      obtain hcall | ⟨k', hk', io', hcall, hkernel, hcursor, hmemory, hpos⟩ := getdents_cases ho hin
      · -- no room for the buffer: the listing may have been made, and nothing is written
        have hafter : after pid a path s (.getdents64 b c) =
            ⟨withCursor s.io h (cursor s.io h path), some listing, s.bytes, -1⟩ := by
          rw [after_getdents hcall, hlisting]
          exact congrArg (State.mk _ _ · _) (List.append_nil _)
        rw [hafter]
        refine inv_of_given ⟨p, file, ho.of_kernel rfl⟩ rfl hreadable hk ?_ hbytes fun hzero => ?_
        swap
        · exact absurd (show (-1 : ℤ) = 0 from hzero) (by decide)
        rw [hcur]
        exact JsMap.get?_set_self ..
      · rw [hleft] at hk' hcall hmemory hpos
        rw [hcur] at hcall hcursor hmemory
        have htake : (listing.take k).length = k := by rw [List.length_take, Nat.min_eq_left hk]
        have hafter : after pid a path s (.getdents64 b c) =
            ⟨io', some listing, s.bytes ++ records k ((listing.drop k).take k'),
              (records k ((listing.drop k).take k')).length⟩ := by
          rw [after_getdents hcall, hlisting, Int.toNat_natCast, hmemory]
        rw [List.length_drop] at hk'
        rw [hafter]
        refine inv_of_given (k := k + k') ⟨p, file, ho.of_kernel hkernel⟩ rfl hreadable (by omega) hcursor ?_
          fun hzero => ?_
        · show s.bytes ++ _ = _
          rw [hbytes, List.take_add, records_append, htake, Nat.zero_add]
        · -- a record is not empty, and the next one fits
          have hnone : (listing.drop k).take k' = [] := by
            have hle := length_le_records k ((listing.drop k).take k')
            have hlen : (records k ((listing.drop k).take k')).length = 0 := Int.natCast_eq_zero.1 hzero
            exact List.length_eq_zero_iff.1 (by omega)
          cases hrest : listing.drop k with
          | nil =>
              have hlen := List.drop_eq_nil_iff.1 hrest
              omega
          | cons entry rest =>
              have hfirst : (listing.drop k).head? = some entry := by rw [hrest]; rfl
              have hsome := hpos entry hfirst (hfits entry (by rw [hleft, hfirst]))
              rw [hrest, List.take_eq_nil_iff] at hnone
              obtain hnone | hnone := hnone
              · omega
              · cases hnone

/-- **The pages put together.**  From an open directory, in every run of calls with buffers in range that take
the next record, whatever happens in between, all that the calls have written is read as a beginning of the
listing that the first call found, and a call returns zero only when it is the whole; if no name in it has a
zero byte. -/
theorem paged_of_plain {tr : List (Event × State)} (hstart : Starts pid a h path s)
    (hrun : Runs.IsRun (Step pid a h path) s tr) (hplain : Runs.Meets (Plain path) s tr) :
    Runs.EachStep Paged s tr := by
  refine Runs.eachStep_of_meets (I := Inv pid a h path) (G := Plain path)
    (fun _ _ _ hi hp hs => inv_after hi hp hs) ?_ hrun hplain
  refine ⟨hstart.opened, fun _ => ⟨hstart.cursor, hstart.bytes⟩, fun listing hsome => ?_⟩
  rw [hstart.listing] at hsome
  cases hsome

end Pages

/-- Process 1 with a memory of 96 bytes and the root open as descriptor 4, where there is one file. -/
def rooted (path : Path) : State where
  io :=
    [FileIo.Event.kernel (.registerWorker 1), .kernel (.registerMemory 1), .guest 1 (List.replicate 96 0),
      .kernel (.call 1 (.open "/".toList 0 0) .answered)].foldl FileIo.after
      { kernel := { booted with vfs := addFile booted.vfs path [] }, memory := fun _ => [], cursors := JsMap.empty,
        stdout := [], entropy := fun _ => 0, limit := 2 ^ 32 }
  listing := none
  bytes := []
  result := 0

/-- What can be looked up in a state. -/
def shown (io : FileIo.State) : Bool :=
  (io.kernel.processTable.get? 1).any (fun p =>
      p.wasmMemory ∧ (p.fdTable.get? 4).any fun entry => entry.kind = .file 4 ∨ entry.kind = .dir 4) &&
    (io.kernel.vfs.openFiles.get? 4).any (fun file => file.isDir ∧ file.dirPath = some "/".toList) &&
      (io.cursors.get? 4).isNone

theorem starts_rooted {path : Path} (h : shown (rooted path).io = true) : Starts 1 4 4 "/".toList (rooted path) := by
  unfold shown at h
  simp only [Bool.and_eq_true, Option.any_eq_true, Option.isNone_iff_eq_none] at h
  obtain ⟨⟨⟨p, hp, hproc⟩, file, hfile, hdir⟩, hcursor⟩ := h
  obtain ⟨hmemory, hentry⟩ := of_decide_eq_true hproc
  obtain ⟨entry, hget, hkind⟩ := hentry
  obtain ⟨hisDir, hpath⟩ := of_decide_eq_true hdir
  exact ⟨⟨p, file, hp, hmemory, ⟨entry, hget, of_decide_eq_true hkind⟩, hfile, hisDir, hpath⟩, hcursor, rfl, rfl⟩

/-- A call that is allowed, as it is computed. -/
def checked (s : State) (b c : Int32) : Bool :=
  decide (unsigned b + unsigned c ≤ (s.io.memory 1).length) &&
    (left (cursor s.io 4 "/".toList)).head?.all (fun entry => reclen entry ≤ unsigned c) &&
      decide (∀ entry ∈ readdir s.io.kernel.vfs "/".toList, (Utf8.encode entry.1).length ≤ 255)

theorem step_of_checked {s : State} {b c : Int32} (h : checked s b c = true) :
    Step 1 4 4 "/".toList s (.getdents64 b c) (after 1 4 "/".toList s (.getdents64 b c)) := by
  unfold checked at h
  simp only [Bool.and_eq_true, decide_eq_true_eq, Option.all_eq_true] at h
  obtain ⟨⟨hin, hfits⟩, hshort⟩ := h
  exact ⟨⟨hin, hfits, fun _ => hshort⟩, rfl⟩

/-- Two records, one record, and the end. -/
def paging : List Event := [.getdents64 0 56, .getdents64 8 24, .getdents64 0 0]

theorem paged_of_plain_rooted :
    Runs.EachStep Paged (rooted "/f".toList) (Runs.trace (after 1 4 "/".toList) (rooted "/f".toList) paging) := by
  refine paged_of_plain (starts_rooted (by decide +kernel)) ?_ ?_
  · exact ⟨step_of_checked (by decide +kernel), step_of_checked (by decide +kernel),
      step_of_checked (by decide +kernel), trivial⟩
  · refine ⟨fun _ => by decide +kernel, fun hnone => ?_, fun hnone => ?_, trivial⟩
    · exact absurd hnone (by decide +kernel)
    · exact absurd hnone (by decide +kernel)

/-- **A zero byte in a name ends it.** -/
theorem not_paged_zero :
    ¬ ∀ (s : State) (tr : List (Event × State)), Starts 1 4 4 "/".toList s →
      Runs.IsRun (Step 1 4 4 "/".toList) s tr → Runs.EachStep Paged s tr := by
  intro hall
  have hpaged := hall (rooted "/a\x00b".toList)
    (Runs.trace (after 1 4 "/".toList) (rooted "/a\x00b".toList) [.getdents64 0 96])
    (starts_rooted (by decide +kernel)) ⟨step_of_checked (by decide +kernel), trivial⟩
  obtain ⟨⟨listing, k, hlisting, -, hdecode, -⟩, -⟩ := hpaged
  have hread : decode (after 1 4 "/".toList (rooted "/a\x00b".toList) (.getdents64 0 96)).bytes =
      some [(".".toList, .dir), ("..".toList, .dir), ("a".toList, .file)] := by decide +kernel
  have hfound : (after 1 4 "/".toList (rooted "/a\x00b".toList) (.getdents64 0 96)).listing =
      some [(".".toList, .dir), ("..".toList, .dir), ("a\x00b".toList, .file)] := by decide +kernel
  obtain rfl := Option.some.inj (hlisting.symm.trans hfound)
  have hsame := Option.some.inj (hread.symm.trans hdecode)
  have hmem : ("a".toList, NodeType.file) ∈ [(".".toList, .dir), ("..".toList, .dir), ("a\x00b".toList, .file)] := by
    refine List.mem_of_mem_take (i := k) ?_
    rw [← hsame]
    decide
  revert hmem
  decide

end DirectoryPages
