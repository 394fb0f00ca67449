/-
**Vectored file calls against scalar ones.**

`readv`, `preadv` and `writev` serve one entry of their vector after the other and load the position of the file
again for each; `read`, `pread` and `write` take one buffer.  On a file whose position is not negative the
reading calls do the same, and the writing calls do if there is room for all bytes.  But `lseek` leads to any
position: there a read takes bytes from the end of the file, differently for the pieces than for the whole, and
a write throws after the file may have grown, to the end of its first piece only.  Where a file cannot grow any
more, `writev` has written the pieces that fit before it throws.

Main definitions:

* `VectoredFiles.Setting`, `VectoredFiles.Vector` — an open regular file, and a vector in the memory;
* `VectoredFiles.Agree` — a vectored call and the scalar one do the same;
* `VectoredFiles.Whole` — the condition.

Main results:

* `VectoredFiles.returns_reads`, `VectoredFiles.ends_writes` — what the loops do is what `FilePieces` says;
* `VectoredFiles.agree_iff_whole` — **when vectored calls are scalar ones**.
-/

import AtuaComputer.ByteFile
import AtuaComputer.FilePieces
import Mathlib.Algebra.Order.BigOperators.Group.List

set_option relaxedAutoImplicit false
set_option autoImplicit false

namespace VectoredFiles

open VirtualFs Kernel FileIo FileContents Outcomes FileOutcomes ByteFile FilePieces

/-! ### Setting -/

/-- The kernel has this for the handle, and the process this memory. -/
def Has (io : FileIo.State) (pid h : ℤ) (f : FilePieces.File) (memory : List UInt8) : Prop :=
  ∃ file content, Regular io.kernel.vfs h file content ∧ bytesOf io.kernel.vfs content = f.bytes ∧
    file.position = f.position ∧ file.append = f.append ∧ io.memory pid = memory ∧ io.limit = f.limit

/-- A process with a descriptor of an open regular file, and room for buffers of 1 MiB. -/
structure Setting (io : FileIo.State) (pid : ℤ) (a : Int32) (h : ℤ) (p : Proc) (f : FilePieces.File)
    (memory : List UInt8) : Prop where
  descriptor : ∃ cell, Descriptor io.kernel pid a h p cell
  has : Has io pid h f memory
  room : 1048576 ≤ f.limit

/-- The entries of a vector stand in memory from the index `i` on. -/
def Entries (memory : List UInt8) (iov : ℕ) : ℕ → List (ℕ × ℕ) → Prop
  | _, [] => True
  | i, (base, len) :: segs =>
    iov + i * 8 + 8 ≤ memory.length ∧ leNat (slice memory (iov + i * 8) 4) = base ∧
      leNat (slice memory (iov + i * 8 + 4) 4) = len ∧ Entries memory iov (i + 1) segs

/-- The number of bytes of the buffers together. -/
def total (segs : List (ℕ × ℕ)) : ℕ := (segs.map Prod.snd).sum

/-- A vector of `c` entries at `b`.  Its buffers are in range, apart from each other and from the entries, and
have between one byte and 1 MiB. -/
structure Vector (memory : List UInt8) (b c : Int32) (segs : List (ℕ × ℕ)) : Prop where
  count : c.toInt = segs.length
  entries : Entries memory (unsigned b) 0 segs
  inRange : InRange memory segs
  apart : segs.Pairwise Apart
  own : ∀ e ∈ segs, Apart e (unsigned b, segs.length * 8)
  some : 0 < total segs
  bounded : total segs ≤ 1048576

/-- A buffer that is as long as the buffers of a vector together and holds what they hold. -/
structure Concatenated (memory : List UInt8) (b c : Int32) (memory' : List UInt8) (segs : List (ℕ × ℕ)) : Prop where
  length : unsigned c = total segs
  inRange : unsigned b + unsigned c ≤ memory.length
  bytes : slice memory (unsigned b) (unsigned c) = gather memory' segs

/-! ### Reading -/

section Reads

variable {io : FileIo.State} {pid h : ℤ} {f : FilePieces.File} {memory : List UInt8} {p : Proc}

/-- What `read` finds in an open file. -/
theorem readFile_eq {v : Vfs} {file : OpenFile} {content : Buf} (hr : Regular v h file content)
    (entropy : ℕ → UInt8) (count : ℕ) (offset : ℤ) :
    readFile v entropy h count offset =
      (((readAt (bytesOf v content) offset count).length : ℤ), readAt (bytesOf v content) offset count) := by
  rw [length_readAt]
  unfold readFile readAt
  simp only [hr.opened, hr.special, hr.holds, reduceCtorEq, if_false]
  split_ifs with havail
  · have hzero : (((min count ((bytesOf v content).length - offset).toNat : ℕ)) : ℤ) = 0 := by omega
    rw [hzero]
  · have hcount : (((min count ((bytesOf v content).length - offset).toNat : ℕ)) : ℤ) =
        min (count : ℤ) ((bytesOf v content).length - offset) := by omega
    rw [hcount]

theorem Has.returns_vfsRead (hh : Has io pid h f memory) {count : ℕ} (hroom : count ≤ f.limit) (offset : ℤ) :
    Returns (vfsRead h count offset) io (((readAt f.bytes offset count).length : ℤ), readAt f.bytes offset count)
      io := by
  obtain ⟨file, content, hr, hbytes, -, -, -, hlimit⟩ := hh
  have hrandom : ∀ g, io.kernel.vfs.openFiles.get? h = some g → g.special ≠ some .urandom := by
    intro g hg
    obtain rfl : file = g := Option.some_inj.1 (hr.opened.symm.trans hg)
    rw [hr.special]
    exact nofun
  have hread : Returns (vfsRead h count offset) io _ io :=
    FileOutcomes.returns_vfsRead (hlimit ▸ hroom : count ≤ io.limit) hrandom
  rwa [readFile_eq hr, hbytes] at hread

/-- The position after a read. -/
theorem Has.seek (hh : Has io pid h f memory) (position : ℤ) :
    Has (withVfs io (VirtualFs.seek io.kernel.vfs h position)) pid h { f with position } memory := by
  obtain ⟨file, content, hr, hbytes, -, happend, hmemory, hlimit⟩ := hh
  exact ⟨{ file with position }, content, hr.seek position, (bytesOf_seek _ _ _ _).trans hbytes, rfl, happend, hmemory,
    hlimit⟩

/-- A read gives its bytes to the guest, if there are any. -/
theorem Has.returns_give (hh : Has io pid h f memory) (hp : p.wasmMemory = true) (addr : ℕ) (data : List UInt8)
    (hin : addr + data.length ≤ memory.length) :
    ∃ io', Returns (do
        if (0 : ℤ) < data.length then storeGuest pid p addr data
        return (data.length : ℤ)) io data.length io' ∧ Has io' pid h f (writeAt memory addr data) := by
  obtain ⟨file, content, hr, hbytes, hposition, happend, hmemory, hlimit⟩ := hh
  by_cases hpos : (0 : ℤ) < data.length
  · have hset : setBytes (io.memory pid) data addr = some (writeAt memory addr data) := by
      have hfits : 0 ≤ (addr : ℤ) ∧ (addr : ℤ) + data.length ≤ memory.length := by omega
      rw [hmemory, setBytes, if_pos hfits, writeAt, Int.toNat_natCast, padTo_self (by omega)]
    refine ⟨withMemory io pid (writeAt memory addr data), ?_, file, content, hr, hbytes, hposition, happend,
      Function.update_self .., hlimit⟩
    rw [if_pos hpos]
    exact (returns_storeGuest hp hset).bind (returns_pure _ _)
  · obtain rfl : data = [] := List.length_eq_zero_iff.1 (by omega)
    rw [(writeAt_nil_iff _ _).2 (by simpa using hin)]
    refine ⟨io, ?_, file, content, hr, hbytes, hposition, happend, hmemory, hlimit⟩
    rw [if_neg hpos]
    exact returns_pure _ _

/-- A word in memory. -/
theorem Has.returns_loadWord (hh : Has io pid h f memory) (hp : p.wasmMemory = true) {addr : ℕ}
    (hin : addr + 4 ≤ memory.length) : Returns (loadWord pid p addr) io (leNat (slice memory addr 4)) io := by
  obtain ⟨-, -, -, -, -, -, hmemory, -⟩ := hh
  refine (returns_guestMemory hp).bind ?_
  rw [hmemory, if_neg (by omega)]
  exact returns_pure _ io

/-- An entry of the vector. -/
theorem Has.returns_loadIov (hh : Has io pid h f memory) (hp : p.wasmMemory = true) {iov i base len : ℕ}
    {segs : List (ℕ × ℕ)} (hentries : Entries memory iov i ((base, len) :: segs)) :
    Returns (loadIov pid p iov i) io (base, len) io := by
  obtain ⟨hin, rfl, rfl, -⟩ := hentries
  exact (hh.returns_loadWord hp (by omega)).bind
    ((hh.returns_loadWord hp (by omega)).bind (returns_pure _ io))

/-- A store elsewhere leaves the entries alone. -/
theorem Entries.writeAt {iov i off : ℕ} {segs : List (ℕ × ℕ)} {data : List UInt8} (he : Entries memory iov i segs)
    (hin : off + data.length ≤ memory.length) (hapart : Apart (off, data.length) (iov + i * 8, segs.length * 8)) :
    Entries (writeAt memory off data) iov i segs := by
  induction segs generalizing i with
  | nil => trivial
  | cons e segs ih =>
      obtain ⟨base, len⟩ := e
      obtain ⟨hrange, hbase, hlen, hrest⟩ := he
      unfold Apart at hapart ih
      rw [List.length_cons] at hapart
      dsimp only at hapart ih
      have hword (k : ℕ) (hk : k ≤ 4) :
          slice (FileContents.writeAt memory off data) (iov + i * 8 + k) 4 = slice memory (iov + i * 8 + k) 4 := by
        refine slice_writeAt (e := (iov + i * 8 + k, 4)) hin ?_
        unfold Apart
        dsimp only
        omega
      refine ⟨?_, ?_, ?_, ih hrest (by omega)⟩
      · rwa [length_writeAt_of_le hin]
      · rw [← hbase]
        exact congrArg leNat (hword 0 (by omega))
      · rw [← hlen]
        exact congrArg leNat (hword 4 (by omega))

/-- The rounds of a loop read.  What a round reads begins at `start` and what has been read, and the file is as
`next` says then. -/
def Reads (pid h : ℤ) (bytes : List UInt8) (start : ℤ) (next : ℤ → FilePieces.File) (round : ℤ → ℕ → ℕ → Io ℤ) :
    Prop :=
  ∀ (io : FileIo.State) (memory : List UInt8) (total : ℤ) (base len : ℕ), Has io pid h (next total) memory →
    base + len ≤ memory.length → len ≤ 1048576 →
      ∃ io', Returns (round total base len) io (readAt bytes (start + total) len).length io' ∧
        Has io' pid h (next (total + (readAt bytes (start + total) len).length))
          (FileContents.writeAt memory base (readAt bytes (start + total) len))

/-- **A loop that reads.** -/
theorem returns_reads (hp : p.wasmMemory = true) {bytes : List UInt8} {start : ℤ} {next : ℤ → FilePieces.File}
    {round : ℤ → ℕ → ℕ → Io ℤ} (hround : Reads pid h bytes start next round) {iov i : ℕ} {segs : List (ℕ × ℕ)}
    {total : ℤ} (hh : Has io pid h (next total) memory) (hentries : Entries memory iov i segs)
    (hin : InRange memory segs) (hown : ∀ e ∈ segs, Apart e (iov + i * 8, segs.length * 8))
    (hmax : ∀ e ∈ segs, e.2 ≤ 1048576) :
    ∃ io', Returns (iovLoop pid p iov round true segs.length i total) io
        (total + (readPieces bytes (start + total) (segs.map Prod.snd)).length) io' ∧
      Has io' pid h (next (total + (readPieces bytes (start + total) (segs.map Prod.snd)).length))
        (scatter memory segs (readPieces bytes (start + total) (segs.map Prod.snd))) := by
  induction segs generalizing io memory i total with
  | nil =>
      have hzero : total + (([] : List UInt8).length : ℤ) = total := Int.add_zero total
      rw [List.map_nil, readPieces, hzero]
      exact ⟨io, returns_pure total io, hh⟩
  | cons e segs ih =>
      obtain ⟨base, len⟩ := e
      have hbuffer : base + len ≤ memory.length := hin _ List.mem_cons_self
      obtain ⟨io₁, hfirst, hhas⟩ := hround io memory total base len hh hbuffer (hmax _ List.mem_cons_self)
      have hlen := length_readAt bytes (start + total) len
      generalize hpiece : readAt bytes (start + total) len = piece at hfirst hhas hlen
      have hstore : base + piece.length ≤ memory.length := by omega
      have hin' : InRange (FileContents.writeAt memory base piece) segs := by
        intro e he
        rw [length_writeAt_of_le hstore]
        exact hin e (List.mem_cons_of_mem _ he)
      rw [List.length_cons, iovLoop, List.map_cons, readPieces_cons, hpiece]
      dsimp only
      -- a short read ends the loop, and nothing is left for the pieces behind it
      by_cases hshort : piece.length < len
      · rw [if_pos hshort]
        refine ⟨io₁, (hh.returns_loadIov hp hentries).bind (hfirst.bind ?_), ?_⟩
        · rw [if_pos ⟨rfl, by omega⟩]
          exact returns_pure _ io₁
        · rwa [scatter, List.take_of_length_le (by omega), List.drop_eq_nil_of_le (by omega), scatter_nil hin']
      · have hwhole : piece.length = len := by omega
        -- the vector lies apart from its buffers, so the entries that follow are as before
        have hapart : Apart (base, piece.length) (iov + (i + 1) * 8, segs.length * 8) := by
          have happ := hown _ List.mem_cons_self
          unfold Apart at happ ⊢
          rw [List.length_cons] at happ
          dsimp only at happ ⊢
          omega
        have hown' : ∀ e ∈ segs, Apart e (iov + (i + 1) * 8, segs.length * 8) := by
          intro e he
          have happ := hown e (List.mem_cons_of_mem _ he)
          unfold Apart at happ ⊢
          rw [List.length_cons] at happ
          dsimp only at happ ⊢
          omega
        have hrest := hentries.2.2.2
        obtain ⟨io₂, hloop, hend⟩ := ih hhas (hrest.writeAt hstore hapart) hin' hown'
          fun e he => hmax e (List.mem_cons_of_mem _ he)
        have hstart : start + (total + piece.length) = start + total + len := by omega
        rw [hstart] at hloop hend
        have hcount (ys : List UInt8) :
            total + piece.length + (ys.length : ℤ) = total + ((piece ++ ys).length : ℕ) := by
          rw [List.length_append]
          omega
        rw [if_neg hshort]
        refine ⟨io₂, (hh.returns_loadIov hp hentries).bind (hfirst.bind ?_), ?_⟩
        · rw [if_neg (by omega), ← hcount]
          exact hloop
        · rw [scatter, List.take_left' hwhole, List.drop_left' hwhole, ← hcount]
          exact hend

variable {a : Int32} {b c : Int32} {segs : List (ℕ × ℕ)}

/-- The body of a reading call, or of a round: a read at the position. -/
theorem Has.returns_readNext (hh : Has io pid h f memory) (hp : p.wasmMemory = true) {addr count : ℕ}
    (hin : addr + count ≤ memory.length) (hroom : count ≤ f.limit) :
    ∃ io', Returns (withFile h fun file => do
          let (n, bytes) ← vfsRead h count file.position
          setPosition h (file.position + n)
          if 0 < n then storeGuest pid p addr bytes
          return n)
        io (readAt f.bytes f.position count).length io' ∧
      Has io' pid h { f with position := f.position + (readAt f.bytes f.position count).length }
        (writeAt memory addr (readAt f.bytes f.position count)) := by
  have hlen := length_readAt f.bytes f.position count
  have hread := hh.returns_vfsRead hroom f.position
  generalize readAt f.bytes f.position count = data at hlen hread
  obtain ⟨io', hgive, hhas⟩ := (hh.seek (f.position + data.length)).returns_give hp addr data (by omega)
  obtain ⟨file, content, hr, -, hposition, -⟩ := hh
  refine ⟨io', returns_withFile hr.opened ?_, hhas⟩
  rw [hposition]
  exact hread.bind ((returns_setPosition _ _).bind hgive)

/-- The body of a reading call at an offset. -/
theorem Has.returns_readFrom (hh : Has io pid h f memory) (hp : p.wasmMemory = true) {addr count : ℕ}
    (hin : addr + count ≤ memory.length) (hroom : count ≤ f.limit) (offset : ℤ) :
    ∃ io', Returns (do
          let (n, bytes) ← vfsRead h count offset
          if 0 < n then storeGuest pid p addr bytes
          return n)
        io (readAt f.bytes offset count).length io' ∧
      Has io' pid h f (writeAt memory addr (readAt f.bytes offset count)) := by
  have hlen := length_readAt f.bytes offset count
  have hread := hh.returns_vfsRead hroom offset
  generalize readAt f.bytes offset count = data at hlen hread
  obtain ⟨io', hgive, hhas⟩ := hh.returns_give hp addr data (by omega)
  exact ⟨io', hread.bind hgive, hhas⟩

/-- `read` -/
theorem returns_sysRead (hs : Setting io pid a h p f memory) (hin : unsigned b + unsigned c ≤ memory.length)
    (hmax : unsigned c ≤ 1048576) :
    ∃ io', Returns (sysRead pid p a b c) io (readAt f.bytes f.position (unsigned c)).length io' ∧
      Has io' pid h { f with position := f.position + (readAt f.bytes f.position (unsigned c)).length }
        (writeAt memory (unsigned b) (readAt f.bytes f.position (unsigned c))) := by
  obtain ⟨cell, hd⟩ := hs.descriptor
  have hroom := hs.room
  unfold sysRead
  rw [hd.withEntry_eq]
  dsimp only
  rw [Nat.min_eq_left hmax]
  exact hs.has.returns_readNext hd.memory hin (by omega)

/-- `pread` -/
theorem returns_sysPread64 {d e : Int32} (hs : Setting io pid a h p f memory)
    (hin : unsigned b + unsigned c ≤ memory.length) (hmax : unsigned c ≤ 1048576) :
    ∃ io', Returns (sysPread64 pid p a b c d e) io (readAt f.bytes (offset64 d e) (unsigned c)).length io' ∧
      Has io' pid h f (writeAt memory (unsigned b) (readAt f.bytes (offset64 d e) (unsigned c))) := by
  obtain ⟨cell, hd⟩ := hs.descriptor
  have hroom := hs.room
  obtain ⟨io', hread, hhas⟩ := hs.has.returns_readFrom hd.memory hin (by omega) (offset64 d e)
  obtain ⟨file, content, hr, -⟩ := hs.has
  refine ⟨io', ?_, hhas⟩
  unfold sysPread64
  rw [hd.withEntry_eq]
  exact returns_withFile hr.opened hread

theorem Vector.le (hv : Vector memory b c segs) {e : ℕ × ℕ} (he : e ∈ segs) : e.2 ≤ 1048576 :=
  (List.le_sum_of_mem (List.mem_map_of_mem he)).trans hv.bounded

theorem Vector.rounds (hv : Vector memory b c segs) : c.toInt.toNat = segs.length := by
  rw [hv.count, Int.toNat_natCast]

/-- `readv` -/
theorem returns_sysReadv (hs : Setting io pid a h p f memory) (hv : Vector memory b c segs) :
    ∃ io', Returns (sysReadv pid p a b c) io (readPieces f.bytes f.position (segs.map Prod.snd)).length io' ∧
      Has io' pid h
        { f with position := f.position + (readPieces f.bytes f.position (segs.map Prod.snd)).length }
        (scatter memory segs (readPieces f.bytes f.position (segs.map Prod.snd))) := by
  obtain ⟨cell, hd⟩ := hs.descriptor
  have hroom := hs.room
  have hround : Reads pid h f.bytes f.position (fun n => { f with position := f.position + n })
      (fun _ iovBase iovLen => withFile h fun file => do
        let (n, bytes) ← vfsRead h iovLen file.position
        setPosition h (file.position + n)
        if 0 < n then storeGuest pid p iovBase bytes
        return n) := by
    intro io memory total base len hh hin hmax
    obtain ⟨io', hread, hhas⟩ := hh.returns_readNext hd.memory hin (by dsimp only; omega)
    refine ⟨io', hread, ?_⟩
    rwa [Int.add_assoc] at hhas
  have hstart : Has io pid h { f with position := f.position + 0 } memory := by
    rw [Int.add_zero]
    exact hs.has
  obtain ⟨io', hloop, hhas⟩ := returns_reads hd.memory hround hstart hv.entries hv.inRange
    (by rw [Nat.zero_mul, Nat.add_zero]; exact hv.own) fun e he => hv.le he
  simp only [Int.zero_add, Int.add_zero] at hloop hhas
  obtain ⟨file, content, hr, -⟩ := hs.has
  refine ⟨io', ?_, hhas⟩
  unfold sysReadv
  rw [hd.withEntry_eq]
  dsimp only
  rw [hv.rounds]
  exact returns_withFile hr.opened hloop

/-- `preadv` -/
theorem returns_sysPreadv {d e : Int32} (hs : Setting io pid a h p f memory) (hv : Vector memory b c segs) :
    ∃ io', Returns (sysPreadv pid p a b c d e) io
        (readPieces f.bytes (offset64 d e) (segs.map Prod.snd)).length io' ∧
      Has io' pid h f (scatter memory segs (readPieces f.bytes (offset64 d e) (segs.map Prod.snd))) := by
  obtain ⟨cell, hd⟩ := hs.descriptor
  have hroom := hs.room
  have hround : Reads pid h f.bytes (offset64 d e) (fun _ => f)
      (fun total iovBase iovLen => do
        let (n, bytes) ← vfsRead h iovLen (offset64 d e + total)
        if 0 < n then storeGuest pid p iovBase bytes
        return n) :=
    fun io memory total base len hh hin hmax => hh.returns_readFrom hd.memory hin (Nat.le_trans hmax hroom) _
  obtain ⟨io', hloop, hhas⟩ := @returns_reads io pid h memory p hd.memory f.bytes (offset64 d e) (fun _ => f) _ hround
    (unsigned b) 0 segs 0 hs.has hv.entries hv.inRange (by rw [Nat.zero_mul, Nat.add_zero]; exact hv.own)
    fun e he => hv.le he
  rw [Int.add_zero, Int.zero_add] at hloop
  rw [Int.add_zero] at hhas
  obtain ⟨file, content, hr, -⟩ := hs.has
  refine ⟨io', ?_, hhas⟩
  unfold sysPreadv
  rw [hd.withEntry_eq]
  dsimp only
  rw [hv.rounds]
  exact returns_withFile hr.opened hloop

end Reads

/-! ### Writing -/

section Writes

variable {io : FileIo.State} {pid h : ℤ} {f : FilePieces.File} {memory : List UInt8} {p : Proc} {a b c : Int32}
  {segs : List (ℕ × ℕ)}

/-- A write leads to what the file is after it, and throws if nothing was written. -/
theorem Has.writeNext (hh : Has io pid h f memory) (data : List UInt8) :
    ∃ v, VirtualFs.writeNext io.limit io.kernel.vfs h data data.length =
        (v, if (f.write data).2 then some (data.length : ℤ) else none) ∧
      Has (withVfs io v) pid h (f.write data).1 memory := by
  obtain ⟨file, content, hr, hbytes, hposition, happend, hmemory, hlimit⟩ := hh
  have hstart : startPosition io.kernel.vfs file = some f.start := by
    unfold startPosition File.start
    rw [hr.holds, happend, hposition, ← hbytes]
    split_ifs <;> rfl
  have hseek : bytesOf (VirtualFs.seek io.kernel.vfs h f.start) content = f.bytes :=
    (bytesOf_seek _ _ _ _).trans hbytes
  rw [hr.writeNext_eq io.limit hstart]
  unfold File.write
  dsimp only
  by_cases hfull : (f.bytes.length : ℤ) < f.start + data.length ∧ (f.limit : ℤ) < f.start + data.length
  · -- no buffer for the bytes; the position has been set
    have hnone : writeContent io.limit (VirtualFs.seek io.kernel.vfs h f.start) h file.path content data f.start =
        (VirtualFs.seek io.kernel.vfs h f.start, none) := by
      unfold writeContent
      rw [hseek, hlimit]
      dsimp only
      rw [if_pos hfull.1, if_pos hfull.2]
    rw [if_pos hfull, hnone]
    exact ⟨_, rfl, _, content, hr.seek f.start, hseek, rfl, happend, hmemory, hlimit⟩
  rw [if_neg hfull]
  by_cases hneg : f.start < 0
  · -- the store throws after the buffer has grown
    have hthrow (target : List UInt8) : setBytes target data f.start = none := by
      unfold setBytes
      rw [if_neg (by omega)]
    rw [if_pos hneg]
    unfold writeContent
    rw [hseek, hlimit]
    dsimp only
    by_cases hgrows : (f.bytes.length : ℤ) < f.start + data.length
    · obtain ⟨content', hr', hbytes'⟩ := (hr.seek f.start).growFile file.path
        (padTo (f.start + data.length).toNat f.bytes)
      rw [if_pos hgrows, if_neg (by omega), storeBytes_growFile, hthrow]
      exact ⟨_, rfl, _, content', hr', hbytes', rfl, happend, hmemory, hlimit⟩
    · rw [if_neg hgrows]
      unfold storeBytes
      rw [hseek, hthrow, padTo_self (by omega)]
      exact ⟨_, rfl, _, content, hr.seek f.start, hseek, rfl, happend, hmemory, hlimit⟩
  · -- there is room, and the start is a place in a file
    obtain ⟨q, hq⟩ : ∃ q : ℕ, f.start = q := ⟨f.start.toNat, by omega⟩
    rw [if_neg hneg, hq, Int.toNat_natCast]
    rw [hq] at hseek hfull
    obtain ⟨v, hwrite, content', hr', hbytes'⟩ := (hr.seek q).writeContent_room io.limit file.path data q
      (by rw [hseek]; omega)
    rw [hseek] at hbytes'
    rw [hwrite]
    exact ⟨_, rfl, _, content', hr'.seek _, (bytesOf_seek _ _ _ _).trans hbytes', rfl, happend, hmemory, hlimit⟩

theorem subarray_eq_slice (bytes : List UInt8) (addr count : ℕ) :
    subarray bytes addr (addr + count : ℕ) = slice bytes addr count := by
  have hstart : clampIndex bytes.length addr = min addr bytes.length := if_neg (by omega)
  have hstop : clampIndex bytes.length (addr + count : ℕ) = min (addr + count) bytes.length := if_neg (by omega)
  unfold subarray slice
  rw [hstart, hstop, List.drop_take]
  rcases Nat.le_total addr bytes.length with hle | hle
  · rw [Nat.min_eq_left hle, List.take_eq_take_iff, List.length_drop]
    omega
  · rw [Nat.min_eq_right hle, List.drop_of_length_le (Nat.le_refl _), List.drop_of_length_le hle, List.take_nil,
      List.take_nil]

theorem Has.returns_view (hh : Has io pid h f memory) (hp : p.wasmMemory = true) (addr count : ℕ) :
    Returns (viewGuest pid p addr count) io (slice memory addr count) io := by
  obtain ⟨-, -, -, -, -, -, rfl, -⟩ := hh
  rw [← subarray_eq_slice]
  exact (returns_guestMemory hp).bind (returns_pure _ io)

/-- Copying a buffer of the guest, or as much of it as the kernel sees. -/
theorem Has.returns_slice (hh : Has io pid h f memory) (hp : p.wasmMemory = true) {addr count : ℕ}
    (hroom : (slice memory addr count).length ≤ f.limit) :
    Returns (sliceGuest pid p addr count) io (slice memory addr count) io := by
  have hview := hh.returns_view hp addr count
  obtain ⟨-, -, -, -, -, -, -, hlimit⟩ := hh
  exact hview.bind ((returns_alloc (hlimit ▸ hroom)).bind (returns_pure _ io))

/-- The bytes of a buffer, and a write of them: the body of `write`, or of a round of `writev`. -/
theorem Has.ends_write (hh : Has io pid h f memory) (hp : p.wasmMemory = true) {addr count : ℕ}
    (hlen : (slice memory addr count).length = count) (hroom : count ≤ f.limit) :
    ∃ io', Ends (do
          let buf ← sliceGuest pid p addr count
          onVfs fun limit v => VirtualFs.writeNext limit v h buf count)
        io count io' (f.write (slice memory addr count)).2 ∧
      Has io' pid h (f.write (slice memory addr count)).1 memory := by
  obtain ⟨v, hwrite, hhas⟩ := hh.writeNext (slice memory addr count)
  have hslice : Returns (sliceGuest pid p addr count) io (slice memory addr count) io :=
    hh.returns_slice hp (hlen.trans_le hroom)
  refine ⟨withVfs io v, .after hslice ?_, hhas⟩
  rw [hlen] at hwrite
  generalize (f.write (slice memory addr count)).2 = ok at hwrite
  cases ok with
  | true => exact returns_onVfs hwrite
  | false => exact throws_onVfs hwrite

/-- **A loop that writes.** -/
theorem ends_writes (hp : p.wasmMemory = true) (total : ℤ) {iov i : ℕ} (hh : Has io pid h f memory)
    (hentries : Entries memory iov i segs) (hfull : Full memory segs) (hmax : ∀ e ∈ segs, e.2 ≤ f.limit) :
    ∃ io', Ends (iovLoop pid p iov (fun _ iovBase iovLen => do
          let buf ← sliceGuest pid p iovBase iovLen
          onVfs fun limit v => VirtualFs.writeNext limit v h buf iovLen) false segs.length i total) io
        (total + VectoredFiles.total segs) io' (f.writev (segs.map fun e => slice memory e.1 e.2)).2 ∧
      Has io' pid h (f.writev (segs.map fun e => slice memory e.1 e.2)).1 memory := by
  induction segs generalizing io f i total with
  | nil =>
      have hzero : total + (VectoredFiles.total [] : ℕ) = total := Int.add_zero total
      rw [hzero]
      exact ⟨io, returns_pure total io, hh⟩
  | cons e segs ih =>
      obtain ⟨base, len⟩ := e
      obtain ⟨io₁, hfirst, hhas⟩ := hh.ends_write hp (hfull _ List.mem_cons_self) (hmax _ List.mem_cons_self)
      have hlimit := write_limit f (slice memory base len)
      have hiov := hh.returns_loadIov hp hentries
      rw [List.length_cons, iovLoop, List.map_cons, File.writev]
      dsimp only at hfirst hhas ⊢
      generalize f.write (slice memory base len) = written at hfirst hhas hlimit
      obtain ⟨f₁, ok⟩ := written
      cases ok with
      | true =>
          obtain ⟨io₂, hloop, hend⟩ := ih (total + len) hhas hentries.2.2.2
            (fun e he => hfull e (List.mem_cons_of_mem _ he))
            fun e he => hlimit ▸ hmax e (List.mem_cons_of_mem _ he)
          have hcount : total + len + VectoredFiles.total segs = total + VectoredFiles.total ((base, len) :: segs) := by
            unfold VectoredFiles.total
            rw [List.map_cons, List.sum_cons]
            omega
          rw [hcount] at hloop
          refine ⟨io₂, .after hiov (.after hfirst ?_), hend⟩
          rw [if_neg (by simp)]
          exact hloop
      | false => exact ⟨io₁, hiov.throws (Throws.bind hfirst), hhas⟩

/-- `write` -/
theorem ends_sysWrite (hs : Setting io pid a h p f memory) (hin : unsigned b + unsigned c ≤ memory.length)
    (hmax : unsigned c ≤ 1048576) :
    ∃ io', Ends (sysWrite pid p a b c) io (unsigned c) io'
        (f.write (slice memory (unsigned b) (unsigned c))).2 ∧
      Has io' pid h (f.write (slice memory (unsigned b) (unsigned c))).1 memory := by
  obtain ⟨cell, hd⟩ := hs.descriptor
  unfold sysWrite
  rw [hd.withEntry_eq]
  exact hs.has.ends_write hd.memory (length_slice hin) (Nat.le_trans hmax hs.room)

/-- `writev` -/
theorem ends_sysWritev (hs : Setting io pid a h p f memory) (hv : Vector memory b c segs) :
    ∃ io', Ends (sysWritev pid p a b c) io (total segs) io'
        (f.writev (segs.map fun e => slice memory e.1 e.2)).2 ∧
      Has io' pid h (f.writev (segs.map fun e => slice memory e.1 e.2)).1 memory := by
  obtain ⟨cell, hd⟩ := hs.descriptor
  obtain ⟨io', hloop, hhas⟩ := ends_writes hd.memory 0 hs.has hv.entries hv.inRange.full
    fun e he => Nat.le_trans (hv.le he) hs.room
  rw [Int.zero_add] at hloop
  obtain ⟨file, content, hr, -⟩ := hs.has
  refine ⟨io', ?_, hhas⟩
  unfold sysWritev
  rw [hd.withEntry_eq]
  dsimp only
  rw [hv.rounds]
  exact .after (returns_getFile hr.opened) hloop

end Writes

/-! ### Whole or in pieces -/

/-- The three vectored calls. -/
inductive Op where
  | readv
  | preadv (d e : Int32)
  | writev

/-- The call with a vector. -/
def Op.vectored : Op → Int32 → Int32 → FileCall
  | .readv, b, c => .readv b c
  | .preadv d e, b, c => .preadv b c d e
  | .writev, b, c => .writev b c

/-- The call with one buffer. -/
def Op.scalar : Op → Int32 → Int32 → FileCall
  | .readv, b, c => .read b c
  | .preadv d e, b, c => .pread64 b c d e
  | .writev, b, c => .write b c

/-- **The two calls do the same:** the same result, the same file and position, and the buffers of the vector hold
what the one buffer holds.  The first call takes the vector of `c` entries at `b`, the second one, in another
memory, the buffer of `c'` bytes at `b'`. -/
def Agree (io : FileIo.State) (pid h : ℤ) (a : Int32) (op : Op) (b c : Int32) (segs : List (ℕ × ℕ))
    (memory' : List UInt8) (b' c' : Int32) : Prop :=
  let vectored := handleFileCall io pid a (op.vectored b c)
  let scalar := handleFileCall (withMemory io pid memory') pid a (op.scalar b' c')
  vectored.2 = scalar.2 ∧
    ∃ f m m', Has vectored.1 pid h f m ∧ Has scalar.1 pid h f m' ∧
      FilePieces.gather m segs = slice m' (unsigned b') (unsigned c')

/-- The condition.  A read begins at a position that is not negative, or finds the same bytes in pieces; a write
has room for all bytes or for none of the pieces, and from a negative position the first piece makes the file as
long as the whole. -/
def Whole (f : FilePieces.File) (memory : List UInt8) (segs : List (ℕ × ℕ)) : Op → Prop
  | .readv =>
    0 ≤ f.position ∨
      Alike f.bytes f.position (min (total segs) (f.bytes.length - f.position).toNat) 0 (segs.map Prod.snd)
  | .preadv _ _ => True
  | .writev => Unbroken f (segs.map fun e => slice memory e.1 e.2)

section Calls

variable {io : FileIo.State} {pid h : ℤ} {f g : FilePieces.File} {memory memory' m : List UInt8} {p : Proc}
  {a b c b' c' : Int32} {segs : List (ℕ × ℕ)}

/-- What the kernel has is one file. -/
theorem Has.unique (hf : Has io pid h f memory) (hg : Has io pid h g m) : f = g := by
  obtain ⟨file, content, hr, hbytes, hposition, happend, -, hlimit⟩ := hf
  obtain ⟨file', content', hr', hbytes', hposition', happend', -, hlimit'⟩ := hg
  obtain rfl : file = file' := Option.some_inj.1 (hr.opened.symm.trans hr'.opened)
  obtain rfl : content = content' := Option.some_inj.1 (hr.holds.symm.trans hr'.holds)
  exact File.ext (hbytes.symm.trans hbytes') (hposition.symm.trans hposition') (happend.symm.trans happend')
    (hlimit.symm.trans hlimit')

theorem Has.memory_unique (hf : Has io pid h f memory) (hg : Has io pid h g m) : memory = m := by
  obtain ⟨-, -, -, -, -, -, hmemory, -⟩ := hf
  obtain ⟨-, -, -, -, -, -, hmemory', -⟩ := hg
  exact hmemory.symm.trans hmemory'

/-- Another memory for the process. -/
theorem Setting.withMemory (hs : Setting io pid a h p f memory) (memory' : List UInt8) :
    Setting (FileOutcomes.withMemory io pid memory') pid a h p f memory' := by
  obtain ⟨file, content, hr, hbytes, hposition, happend, -, hlimit⟩ := hs.has
  exact ⟨hs.descriptor, ⟨file, content, hr, hbytes, hposition, happend, Function.update_self .., hlimit⟩, hs.room⟩

/-- The result tells whether the computation has thrown. -/
theorem ok_unique {n : ℤ} (hn : n ≠ -1) {ok ok' : Bool} (h : (if ok then n else -1) = if ok' then n else -1) :
    ok = ok' := by
  cases ok with
  | true => cases ok' with
    | true => rfl
    | false => exact absurd h hn
  | false => cases ok' with
    | true => exact absurd h.symm hn
    | false => rfl

/-- Two reads that return what they have read. -/
theorem agree_of_reads (op : Op) (position : ℕ → ℤ) {data data' : List UInt8} {io₁ io₂ : FileIo.State}
    (hs : Setting io pid a h p f memory) (hv : Vector memory b c segs)
    (hc : Concatenated memory' b' c' memory segs) (hlen : data.length = data'.length)
    (hsize : data'.length ≤ total segs)
    (hvectored : Returns (fileHandler pid p a (op.vectored b c)) io data.length io₁)
    (hscalar : Returns (fileHandler pid p a (op.scalar b' c')) (withMemory io pid memory') data'.length io₂)
    (h₁ : Has io₁ pid h { f with position := position data.length } (scatter memory segs data))
    (h₂ : Has io₂ pid h { f with position := position data'.length } (writeAt memory' (unsigned b') data')) :
    Agree io pid h a op b c segs memory' b' c' ↔ data = data' := by
  obtain ⟨cell, hd⟩ := hs.descriptor
  have hbuffers := gather_scatter hv.inRange hv.apart (hlen ▸ hsize : data.length ≤ total segs)
  have hshort : data'.length ≤ unsigned c' := hc.length ▸ hsize
  have hbuffer := slice_writeAt_front hshort hc.inRange
  rw [hc.bytes, ← hlen] at hbuffer
  unfold Agree
  dsimp only
  rw [handleFileCall_of_returns hd.process hvectored,
    handleFileCall_of_returns (s := withMemory io pid memory') hd.process hscalar]
  constructor
  · rintro ⟨-, g, m, m', hg, hg', hsame⟩
    rw [← h₁.memory_unique hg, ← h₂.memory_unique hg', hbuffers, hbuffer] at hsame
    exact List.append_cancel_right hsame
  · rintro rfl
    exact ⟨rfl, _, _, _, h₁, h₂, hbuffers.trans hbuffer.symm⟩

theorem agree_readv_iff (hs : Setting io pid a h p f memory) (hv : Vector memory b c segs)
    (hc : Concatenated memory' b' c' memory segs) :
    Agree io pid h a .readv b c segs memory' b' c' ↔ Whole f memory segs .readv := by
  obtain ⟨io₁, hret₁, h₁⟩ := returns_sysReadv hs hv
  obtain ⟨io₂, hret₂, h₂⟩ := returns_sysRead (hs.withMemory memory') hc.inRange (hc.length ▸ hv.bounded)
  have hlen := length_readPieces f.bytes f.position (segs.map Prod.snd)
  have hsize : (readAt f.bytes f.position (total segs)).length ≤ total segs := by
    rw [length_readAt]
    omega
  rw [hc.length] at hret₂ h₂
  exact (agree_of_reads .readv (fun n => f.position + n) hs hv hc hlen hsize hret₁ hret₂ h₁ h₂).trans
    (readPieces_eq_iff f.bytes f.position (segs.map Prod.snd))

theorem agree_preadv (hs : Setting io pid a h p f memory) (hv : Vector memory b c segs)
    (hc : Concatenated memory' b' c' memory segs) (d e : Int32) :
    Agree io pid h a (.preadv d e) b c segs memory' b' c' := by
  obtain ⟨io₁, hret₁, h₁⟩ := returns_sysPreadv (d := d) (e := e) hs hv
  obtain ⟨io₂, hret₂, h₂⟩ := returns_sysPread64 (d := d) (e := e) (hs.withMemory memory') hc.inRange
    (hc.length ▸ hv.bounded)
  have hlen := length_readPieces f.bytes (offset64 d e) (segs.map Prod.snd)
  have hsize : (readAt f.bytes (offset64 d e) (total segs)).length ≤ total segs := by
    rw [length_readAt]
    omega
  rw [hc.length] at hret₂ h₂
  have hagree := agree_of_reads (.preadv d e) (fun _ => f.position) hs hv hc hlen hsize hret₁ hret₂ h₁ h₂
  exact hagree.2 (readPieces_eq f.bytes (offset64 d e) (segs.map Prod.snd))

theorem agree_writev_iff (hs : Setting io pid a h p f memory) (hv : Vector memory b c segs)
    (hc : Concatenated memory' b' c' memory segs) :
    Agree io pid h a .writev b c segs memory' b' c' ↔ Whole f memory segs .writev := by
  obtain ⟨cell, hd⟩ := hs.descriptor
  obtain ⟨io₁, hret₁, h₁⟩ := ends_sysWritev hs hv
  obtain ⟨io₂, hret₂, h₂⟩ := ends_sysWrite (hs.withMemory memory') hc.inRange (hc.length ▸ hv.bounded)
  have hlen : (FilePieces.gather memory segs).length = total segs := by
    rw [← hc.bytes, length_slice hc.inRange, hc.length]
  have hiff : f.writev (segs.map fun e => slice memory e.1 e.2) = f.write (FilePieces.gather memory segs) ↔
      Unbroken f (segs.map fun e => slice memory e.1 e.2) :=
    writev_eq_iff (hlen ▸ hv.some) (hlen ▸ Nat.le_trans hv.bounded hs.room)
  have hpos := hv.some
  rw [hc.bytes] at hret₂ h₂
  rw [hc.length] at hret₂
  show _ ↔ Unbroken f _
  rw [← hiff]
  generalize f.writev (segs.map fun e => slice memory e.1 e.2) = pieces at hret₁ h₁ ⊢
  generalize f.write (FilePieces.gather memory segs) = whole at hret₂ h₂ ⊢
  obtain ⟨f₁, ok₁⟩ := pieces
  obtain ⟨f₂, ok₂⟩ := whole
  have hvectored : handleFileCall io pid a (.writev b c) = _ := handleFileCall_of_ends hd.process hret₁
  have hscalar : handleFileCall (FileOutcomes.withMemory io pid memory') pid a (.write b' c') = _ :=
    handleFileCall_of_ends hd.process hret₂
  unfold Agree
  dsimp only [Op.vectored, Op.scalar]
  rw [hvectored, hscalar, Prod.mk.injEq]
  constructor
  · rintro ⟨hres, g, m, m', hg, hg', -⟩
    exact ⟨(h₁.unique hg).trans (h₂.unique hg').symm, ok_unique (by omega) hres⟩
  · rintro ⟨rfl, rfl⟩
    exact ⟨rfl, f₁, _, _, h₁, h₂, hc.bytes.symm⟩

/-- **When vectored calls are scalar ones.** -/
theorem agree_iff_whole (hs : Setting io pid a h p f memory) (hv : Vector memory b c segs)
    (hc : Concatenated memory' b' c' memory segs) (op : Op) :
    Agree io pid h a op b c segs memory' b' c' ↔ Whole f memory segs op := by
  cases op with
  | readv => exact agree_readv_iff hs hv hc
  | preadv d e => exact iff_of_true (agree_preadv hs hv hc d e) trivial
  | writev => exact agree_writev_iff hs hv hc

end Calls

/-! ### A position in front of the first byte -/

/-- A vector of two buffers of one byte, and the buffers behind it. -/
def twoBuffers : List UInt8 := [16, 0, 0, 0, 1, 0, 0, 0, 17, 0, 0, 0, 1, 0, 0, 0, 7, 8]

/-- A process with an open file. -/
def started : FileIo.State := { Isolation.opened.io with limit := 1048576, memory := fun _ => twoBuffers }

/-- Two bytes have been written, and a seek has led to -1. -/
def sought : FileIo.State :=
  (handleFileCall (handleFileCall started 1 4 (.write 16 2)).1 1 4 (.lseek (-1) 0)).1

theorem setting_sought : ∃ p, Setting sought 1 4 4 p ⟨[7, 8], -1, false, 1048576⟩ twoBuffers := by
  have hproc : (sought.kernel.processTable.get? 1).any (fun p =>
      p.wasmMemory ∧ (p.fdTable.get? 4).any fun entry => entry.kind = .file 4) = true := by decide +kernel
  obtain ⟨p, hp, hprop⟩ := (Option.any_eq_true _ _).1 hproc
  obtain ⟨hmem, hentry⟩ := of_decide_eq_true hprop
  obtain ⟨⟨kind, cell⟩, hget, hkind⟩ := (Option.any_eq_true _ _).1 hentry
  obtain rfl : kind = .file 4 := of_decide_eq_true hkind
  have hfile : (sought.kernel.vfs.openFiles.get? 4).any (fun file =>
      file.special = none ∧ file.isDir = false ∧ file.position = -1 ∧ file.append = false ∧
        file.content.any fun content =>
          content < sought.kernel.vfs.buffers.length ∧ bytesOf sought.kernel.vfs content = [7, 8]) = true := by
    decide +kernel
  obtain ⟨file, hopened, hprop⟩ := (Option.any_eq_true _ _).1 hfile
  obtain ⟨hspecial, hdir, hpos, happend, hcontent⟩ := of_decide_eq_true hprop
  obtain ⟨content, hholds, hbuf⟩ := (Option.any_eq_true _ _).1 hcontent
  obtain ⟨hstored, hbytes⟩ := of_decide_eq_true hbuf
  have hmemory : sought.memory 1 = twoBuffers := by decide +kernel
  have hlimit : sought.limit = 1048576 := by decide +kernel
  exact ⟨p, ⟨cell, hp, hmem, hget⟩,
    ⟨file, content, ⟨hopened, hspecial, hdir, hholds, hstored⟩, hbytes, hpos, happend, hmemory, hlimit⟩, Nat.le_refl _⟩

theorem vector_twoBuffers : Vector twoBuffers 0 2 [(16, 1), (17, 1)] where
  count := by decide
  entries := by unfold Entries Entries Entries; decide +kernel
  inRange := by unfold InRange; decide
  apart := by decide
  own := by decide
  some := by decide
  bounded := by decide

theorem concatenated_twoBuffers : Concatenated [7, 8] 0 2 twoBuffers [(16, 1), (17, 1)] where
  length := by decide
  inRange := by decide
  bytes := by decide +kernel

theorem agree_iff_whole_sought :
    Agree sought 1 4 4 .readv 0 2 [(16, 1), (17, 1)] [7, 8] 0 2 ↔
      Whole ⟨[7, 8], -1, false, 1048576⟩ twoBuffers [(16, 1), (17, 1)] .readv := by
  obtain ⟨p, hs⟩ := setting_sought
  exact agree_iff_whole hs vector_twoBuffers concatenated_twoBuffers .readv

/-- **After a seek to -1 a read in pieces finds other bytes.** -/
theorem not_agree_sought :
    ¬ ∀ (io : FileIo.State) (pid h : ℤ) (a : Int32) (p : Proc) (f : FilePieces.File) (memory : List UInt8)
      (b c : Int32) (segs : List (ℕ × ℕ)) (memory' : List UInt8) (b' c' : Int32), Setting io pid a h p f memory →
        Vector memory b c segs → Concatenated memory' b' c' memory segs →
          ∀ op, Agree io pid h a op b c segs memory' b' c' := by
  intro hall
  obtain ⟨p, hs⟩ := setting_sought
  obtain ⟨-, f, m, m', hm, hm', hsame⟩ :=
    hall _ _ _ _ _ _ _ _ _ _ _ _ _ hs vector_twoBuffers concatenated_twoBuffers .readv
  obtain ⟨-, -, -, -, -, -, hpieces, -⟩ := hm
  obtain ⟨-, -, -, -, -, -, hwhole, -⟩ := hm'
  have hfirst : (handleFileCall sought 1 4 (Op.readv.vectored 0 2)).1.memory 1 =
      [16, 0, 0, 0, 1, 0, 0, 0, 17, 0, 0, 0, 1, 0, 0, 0, 0, 7] := by decide +kernel
  have hsecond : (handleFileCall (withMemory sought 1 [7, 8]) 1 4 (Op.readv.scalar 0 2)).1.memory 1 = [0, 0] := by
    decide +kernel
  rw [← hpieces, ← hwhole, hfirst, hsecond] at hsame
  exact absurd hsame (by decide)

end VectoredFiles
