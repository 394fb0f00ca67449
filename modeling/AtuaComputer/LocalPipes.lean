/-
**Pipe calls of a worker, and their vectored forms.**

A worker reads and writes the rings of its pipes itself.  `PipeRing` takes the loops apart into their
accesses; here a call runs while nobody else uses the ring, as one function of the ring and the worker's
memory.  The loops over an I/O vector are written anew and stop in other places: only `localPipeRead` ends at
the capacity, and only `localPipeWritev` returns from inside of its loop.

Main definitions:

* `LocalPipes.localPipeRead`, `LocalPipes.localPipeWrite`, `LocalPipes.localPipeReadv`,
  `LocalPipes.localPipeWritev` — the calls;
* `LocalPipes.Ring.takeMany`, `LocalPipes.Ring.putMany` — what a loop does to the ring;
* `LocalPipes.Describes` — a vector in memory;
* `LocalPipes.SameRead`, `LocalPipes.SameWrite` — two calls that do the same to the ring and return the same,
  with their bytes in other places.

Main results:

* `LocalPipes.takeMany_add`, `LocalPipes.putMany_append` — a loop in two parts;
* `LocalPipes.takeMany_min` — the capacity is no limit;
* `LocalPipes.vectored_eq_scalar` — **vectored calls do what the scalar ones do**.
-/

import AtuaComputer.ByteCodec
import AtuaComputer.PipeRing

set_option relaxedAutoImplicit false
set_option autoImplicit false

namespace LocalPipes

open PipeRing

/-! ### State -/

/-- A ring: `control` and `data`.  A position is that of a cell. -/
structure Ring where
  writePos : ℕ
  readPos : ℕ
  writeClosed : Bool
  data : ℕ → UInt8
  writePos_lt : writePos < pipeBufSize
  readPos_lt : readPos < pipeBufSize

/-- Which end of a pipe a descriptor is. -/
inductive End where
  | read
  | write
deriving DecidableEq

/-- What `localPipeFds` holds for a descriptor. -/
structure Pipe where
  ring : Ring
  pipeEnd : End

/-- `maximum: 16384` pages -/
def maxMemory : ℕ := 16384 * 65536

/-- The memory of the engine. -/
structure Memory where
  bytes : List UInt8
  size_le : bytes.length ≤ maxMemory

/-- A worker as a call on a descriptor finds it: the pipe of the descriptor, if it has one, and the memory. -/
structure State where
  pipe : Option Pipe
  memory : Memory

/-- How a call does not return: it waits for a writer, or it has thrown. -/
inductive Stop where
  | waits
  | throws

/-! ### Accesses -/

/-- `new Uint8Array(memory.buffer)[addr] = byte`: outside of the memory nothing is stored. -/
def Memory.store (m : Memory) (addr : ℕ) (byte : UInt8) : Memory :=
  ⟨m.bytes.set addr byte, by rw [List.length_set]; exact m.size_le⟩

/-- `new Uint8Array(memory.buffer)[addr]`: what is outside counts as zero. -/
def Memory.load (m : Memory) (addr : ℕ) : UInt8 := m.bytes.getD addr 0

/-- `dv.getUint32(addr, true)` -/
def Memory.getUint32 (m : Memory) (addr : ℤ) : Except Stop ℕ :=
  if 0 ≤ addr ∧ addr + 4 ≤ m.bytes.length then .ok (leNat ((m.bytes.drop addr.toNat).take 4))
  else .error .throws

/-- `Atomics.store(control, 1, (rp + 1) % cap)` -/
def Ring.take (r : Ring) : Ring :=
  { r with
    readPos := (r.readPos + 1) % pipeBufSize
    readPos_lt := Nat.mod_lt _ pipeBufSize_pos }

/-- `data[wp] = byte` and `Atomics.store(control, 0, next)` -/
def Ring.put (r : Ring) (byte : UInt8) : Ring :=
  { r with
    data := Function.update r.data r.writePos byte
    writePos := (r.writePos + 1) % pipeBufSize
    writePos_lt := Nat.mod_lt _ pipeBufSize_pos }

/-- `x >>> 0` -/
def unsigned (x : Int32) : ℕ := x.toUInt32.toNat

/-! ### Calls -/

/-- The loop of a call that reads, with the number of bytes that are left; `before` were read into other
buffers. -/
def readLoop (before base : ℕ) : ℕ → ℕ → Ring → Memory → Except Stop (ℕ × Ring × Memory)
  | 0, bytesRead, r, m => .ok (bytesRead, r, m)
  | left + 1, bytesRead, r, m =>
    if r.readPos = r.writePos then
      if r.writeClosed then .ok (bytesRead, r, m)
      else if 0 < before + bytesRead then .ok (bytesRead, r, m)
      else .error .waits
    else readLoop before base left (bytesRead + 1) r.take (m.store (base + bytesRead) (r.data r.readPos))

/-- The loop of a call that writes. -/
def writeLoop (m : Memory) (base : ℕ) : ℕ → ℕ → Ring → ℕ × Ring
  | 0, written, r => (written, r)
  | left + 1, written, r =>
    if (r.writePos + 1) % pipeBufSize = r.readPos then (written, r)
    else writeLoop m base left (written + 1) (r.put (m.load (base + written)))

/-- The loop over an I/O vector to read into, with the number of rounds that are left. -/
def readvLoop (iovPtr : ℤ) : ℕ → ℕ → ℕ → Ring → Memory → Except Stop (ℕ × Ring × Memory)
  | 0, _, totalRead, r, m => .ok (totalRead, r, m)
  | rounds + 1, i, totalRead, r, m => do
    let base ← m.getUint32 (iovPtr + i * 8)
    let len ← m.getUint32 (iovPtr + i * 8 + 4)
    let (bytesRead, r, m) ← readLoop totalRead base len 0 r m
    if bytesRead < len then .ok (totalRead + bytesRead, r, m)
    else readvLoop iovPtr rounds (i + 1) (totalRead + bytesRead) r m

/-- The loop over an I/O vector to write from.  A buffer that was not written to its end has found the ring
full, and the call returns. -/
def writevLoop (m : Memory) (iovPtr : ℤ) : ℕ → ℕ → ℕ → Ring → Except Stop (ℕ × Ring)
  | 0, _, totalWritten, r => .ok (totalWritten, r)
  | rounds + 1, i, totalWritten, r => do
    let base ← m.getUint32 (iovPtr + i * 8)
    let len ← m.getUint32 (iovPtr + i * 8 + 4)
    let (written, r) := writeLoop m base len 0 r
    if written < len then .ok (totalWritten + written, r)
    else writevLoop m iovPtr rounds (i + 1) (totalWritten + written) r

/-- `const pipe = localPipeFds.get(fd); if (!pipe || pipe.end !== end) return -9;` -/
def withPipe (s : State) (pipeEnd : End) (body : Ring → Except Stop (ℕ × Ring × Memory)) :
    Except Stop (ℤ × State) :=
  match s.pipe with
  | none => .ok (-9, s)
  | some pipe =>
    if pipe.pipeEnd ≠ pipeEnd then .ok (-9, s)
    else (body pipe.ring).map fun (n, ring, memory) => (n, ⟨some { pipe with ring }, memory⟩)

/-- `localPipeRead` -/
def localPipeRead (s : State) (bufPtr count : Int32) : Except Stop (ℤ × State) :=
  withPipe s .read fun ring =>
    readLoop 0 (unsigned bufPtr) (min (unsigned count) pipeBufSize) 0 ring s.memory

/-- `localPipeWrite` -/
def localPipeWrite (s : State) (bufPtr count : Int32) : Except Stop (ℤ × State) :=
  withPipe s .write fun ring =>
    let (written, ring) := writeLoop s.memory (unsigned bufPtr) (unsigned count) 0 ring
    .ok (written, ring, s.memory)

/-- `localPipeReadv` -/
def localPipeReadv (s : State) (iovPtr iovcnt : Int32) : Except Stop (ℤ × State) :=
  withPipe s .read fun ring => readvLoop iovPtr.toInt iovcnt.toInt.toNat 0 0 ring s.memory

/-- `localPipeWritev` -/
def localPipeWritev (s : State) (iovPtr iovcnt : Int32) : Except Stop (ℤ × State) :=
  withPipe s .write fun ring =>
    (writevLoop s.memory iovPtr.toInt iovcnt.toInt.toNat 0 0 ring).map fun (n, ring) => (n, ring, s.memory)

/-! ### What a loop does to the ring -/

/-- Taking up to `n` bytes out of the ring, `before` having been taken. -/
def Ring.takeMany (before : ℕ) : ℕ → Ring → Except Stop (List UInt8 × Ring)
  | 0, r => .ok ([], r)
  | n + 1, r =>
    if r.readPos = r.writePos then
      if r.writeClosed ∨ 0 < before then .ok ([], r) else .error .waits
    else (takeMany (before + 1) n r.take).map fun (bytes, r') => (r.data r.readPos :: bytes, r')

/-- Putting bytes into the ring as long as there is room. -/
def Ring.putMany (r : Ring) : List UInt8 → ℕ × Ring
  | [] => (0, r)
  | byte :: bytes =>
    if (r.writePos + 1) % pipeBufSize = r.readPos then (0, r)
    else
      let (n, r') := (r.put byte).putMany bytes
      (n + 1, r')

/-- Storing bytes at addresses. -/
def Memory.storeAll (m : Memory) (addrs : List ℕ) (bytes : List UInt8) : Memory :=
  (addrs.zip bytes).foldl (fun m e => m.store e.1 e.2) m

theorem Memory.storeAll_nil (m : Memory) (addrs : List ℕ) : m.storeAll addrs [] = m := by
  rw [storeAll, List.zip_nil_right]
  rfl

theorem Memory.storeAll_cons (m : Memory) (addr : ℕ) (addrs : List ℕ) (byte : UInt8) (bytes : List UInt8) :
    m.storeAll (addr :: addrs) (byte :: bytes) = (m.store addr byte).storeAll addrs bytes := rfl

theorem Memory.storeAll_append (m : Memory) {addrs addrs' : List ℕ} {bytes bytes' : List UInt8}
    (h : bytes.length = addrs.length) :
    m.storeAll (addrs ++ addrs') (bytes ++ bytes') = (m.storeAll addrs bytes).storeAll addrs' bytes' := by
  rw [storeAll, List.zip_append h.symm, List.foldl_append]
  rfl

/-- Bytes that end early are stored at the first addresses. -/
theorem Memory.storeAll_append_left (m : Memory) {addrs addrs' : List ℕ} {bytes : List UInt8}
    (h : bytes.length ≤ addrs.length) : m.storeAll (addrs ++ addrs') bytes = m.storeAll addrs bytes := by
  induction bytes generalizing m addrs with
  | nil => rw [storeAll_nil, storeAll_nil]
  | cons byte bytes ih =>
      cases addrs with
      | nil => cases h
      | cons addr addrs =>
          rw [List.cons_append, storeAll_cons, storeAll_cons]
          exact ih _ (Nat.le_of_succ_le_succ h)

variable {r r' : Ring} {m : Memory}

/-- Bytes that end early are stored at the beginning of a buffer. -/
theorem storeAll_range' {base k n : ℕ} {bytes : List UInt8} (hbytes : bytes.length ≤ k) (hk : k ≤ n) :
    m.storeAll (List.range' base k) bytes = m.storeAll (List.range' base n) bytes := by
  have hrange : List.range' base n = List.range' base k ++ List.range' (base + k) (n - k) := by
    rw [List.range'_append_1, Nat.add_sub_cancel' hk]
  rw [hrange, m.storeAll_append_left (by rwa [List.length_range'])]

theorem length_le_of_takeMany {before n : ℕ} {bytes : List UInt8} (h : r.takeMany before n = .ok (bytes, r')) :
    bytes.length ≤ n := by
  induction n generalizing before r bytes with
  | zero =>
      cases h
      exact Nat.le_refl 0
  | succ n ih =>
      rw [Ring.takeMany] at h
      split_ifs at h
      · cases h
        exact Nat.zero_le _
      · cases htake : r.take.takeMany (before + 1) n with
        | error => rw [htake] at h; cases h
        | ok p =>
            rw [htake] at h
            cases h
            exact Nat.succ_le_succ (ih htake)

/-- **Taking bytes in two parts.**  If the first part is cut short, there is no second. -/
theorem takeMany_add (before m n : ℕ) (r : Ring) :
    r.takeMany before (m + n) =
      (r.takeMany before m).bind fun (xs, r') =>
        if xs.length < m then .ok (xs, r')
        else (r'.takeMany (before + m) n).map fun (ys, r'') => (xs ++ ys, r'') := by
  induction m generalizing before r with
  | zero =>
      rw [Nat.zero_add, Nat.add_zero, Ring.takeMany]
      show _ = (r.takeMany before n).map fun p => ([] ++ p.1, p.2)
      cases r.takeMany before n <;> rfl
  | succ m ih =>
      rw [Nat.succ_add, Ring.takeMany, Ring.takeMany]
      by_cases hempty : r.readPos = r.writePos
      · rw [if_pos hempty, if_pos hempty]
        by_cases hstop : r.writeClosed = true ∨ 0 < before
        · rw [if_pos hstop]
          simp only [Except.bind, List.length_nil, Nat.succ_pos, if_true]
        · rw [if_neg hstop]
          rfl
      · rw [if_neg hempty, if_neg hempty, ih]
        cases r.take.takeMany (before + 1) m with
        | error => rfl
        | ok p =>
            have hbefore : before + 1 + m = before + (m + 1) := by omega
            show Except.map _ (if p.1.length < m then _ else _) = if p.1.length + 1 < m + 1 then _ else _
            by_cases hlt : p.1.length < m
            · rw [if_pos hlt, if_pos (Nat.succ_lt_succ hlt)]
              rfl
            · rw [if_neg hlt, if_neg fun h => hlt (Nat.lt_of_succ_lt_succ h), hbefore]
              cases p.2.takeMany (before + (m + 1)) n <;> rfl

/-- The number of bytes in the ring. -/
def Ring.fill (r : Ring) : ℕ := (r.writePos + pipeBufSize - r.readPos) % pipeBufSize

theorem fill_lt (r : Ring) : r.fill < pipeBufSize := Nat.mod_lt _ pipeBufSize_pos

theorem fill_take (h : r.readPos ≠ r.writePos) : r.take.fill + 1 = r.fill := by
  have hw := r.writePos_lt
  have hr := r.readPos_lt
  unfold Ring.fill Ring.take
  unfold pipeBufSize at *
  dsimp only
  omega

theorem fill_eq_zero (h : r.readPos = r.writePos) : r.fill = 0 := by
  have hlt := r.writePos_lt
  unfold Ring.fill
  rw [h, Nat.add_sub_cancel_left, Nat.mod_self]

/-- The bytes in the ring, the next one to be read first. -/
def Ring.contents (r : Ring) : List UInt8 := (List.range r.fill).map fun j => r.data ((r.readPos + j) % pipeBufSize)

theorem contents_eq_nil (h : r.readPos = r.writePos) : r.contents = [] := by
  rw [Ring.contents, fill_eq_zero h, List.range_zero, List.map_nil]

theorem contents_eq_cons (h : r.readPos ≠ r.writePos) : r.contents = r.data r.readPos :: r.take.contents := by
  rw [Ring.contents, ← fill_take h, List.range_succ_eq_map, List.map_cons, List.map_map, Nat.add_zero,
    Nat.mod_eq_of_lt r.readPos_lt, Ring.contents]
  congr 1
  refine List.map_congr_left fun j _ => congrArg r.data ?_
  show (r.readPos + (j + 1)) % pipeBufSize = ((r.readPos + 1) % pipeBufSize + j) % pipeBufSize
  rw [Nat.mod_add_mod]
  congr 1
  omega

/-- **A call takes the first bytes out of the ring.** -/
theorem contents_takeMany {before n : ℕ} {bytes : List UInt8} (h : r.takeMany before n = .ok (bytes, r')) :
    bytes = r.contents.take n ∧ r'.contents = r.contents.drop n := by
  induction n generalizing before r bytes with
  | zero =>
      cases h
      exact ⟨rfl, rfl⟩
  | succ n ih =>
      rw [Ring.takeMany] at h
      by_cases hempty : r.readPos = r.writePos
      · rw [if_pos hempty] at h
        split_ifs at h
        cases h
        rw [contents_eq_nil hempty, List.take_nil, List.drop_nil]
        exact ⟨rfl, rfl⟩
      · rw [if_neg hempty] at h
        cases htake : r.take.takeMany (before + 1) n with
        | error => rw [htake] at h; cases h
        | ok p =>
            rw [htake] at h
            cases h
            obtain ⟨hbytes, hrest⟩ := ih htake
            rw [contents_eq_cons hempty, List.take_succ_cons, List.drop_succ_cons, ← hbytes]
            exact ⟨rfl, hrest⟩

/-- To ask for more than there is makes no difference. -/
theorem takeMany_of_fill_lt {before n n' : ℕ} (hn : r.fill < n) (hn' : r.fill < n') :
    r.takeMany before n = r.takeMany before n' := by
  induction n generalizing before r n' with
  | zero => cases hn
  | succ n ih =>
      obtain ⟨n', rfl⟩ : ∃ k, n' = k + 1 := ⟨n' - 1, by omega⟩
      rw [Ring.takeMany, Ring.takeMany]
      by_cases hempty : r.readPos = r.writePos
      · rw [if_pos hempty, if_pos hempty]
      · have hfill := fill_take hempty
        have hless : r.take.fill < n' := by omega
        rw [if_neg hempty, if_neg hempty, ih (by omega) hless]

/-- **The capacity is no limit.** -/
theorem takeMany_min (before n : ℕ) (r : Ring) : r.takeMany before (min n pipeBufSize) = r.takeMany before n := by
  obtain hle | hlt := le_or_gt n pipeBufSize
  · rw [Nat.min_eq_left hle]
  · rw [Nat.min_eq_right hlt.le]
    exact takeMany_of_fill_lt (fill_lt r) ((fill_lt r).trans hlt)

/-- **Putting bytes in two parts.** -/
theorem putMany_append (r : Ring) (xs ys : List UInt8) :
    r.putMany (xs ++ ys) =
      let (n, r') := r.putMany xs
      if n < xs.length then (n, r')
      else
        let (k, r'') := r'.putMany ys
        (n + k, r'') := by
  induction xs generalizing r with
  | nil =>
      show r.putMany ys = (0 + (r.putMany ys).1, (r.putMany ys).2)
      rw [Nat.zero_add]
  | cons byte xs ih =>
      rw [List.cons_append, Ring.putMany, Ring.putMany]
      by_cases hfull : (r.writePos + 1) % pipeBufSize = r.readPos
      · rw [if_pos hfull, if_pos hfull]
        exact (if_pos (Nat.succ_pos xs.length)).symm
      · rw [if_neg hfull, if_neg hfull, ih]
        dsimp only
        rw [List.length_cons]
        by_cases hlt : ((r.put byte).putMany xs).1 < xs.length
        · rw [if_pos hlt, if_pos (Nat.succ_lt_succ hlt)]
        · rw [if_neg hlt, if_neg fun h => hlt (Nat.lt_of_succ_lt_succ h), Nat.add_right_comm]

/-! ### The loops -/

/-- **The loop of a call that reads.** -/
theorem readLoop_eq (before base left got : ℕ) (r : Ring) (m : Memory) :
    readLoop before base left got r m =
      (r.takeMany (before + got) left).map fun (bytes, r') =>
        (got + bytes.length, r', m.storeAll (List.range' (base + got) left) bytes) := by
  induction left generalizing got r m with
  | zero => rfl
  | succ left ih =>
      rw [readLoop, Ring.takeMany]
      by_cases hempty : r.readPos = r.writePos
      · rw [if_pos hempty, if_pos hempty]
        by_cases hclosed : r.writeClosed = true
        · rw [if_pos hclosed, if_pos (.inl hclosed)]
          show _ = Except.ok (got + 0, r, m.storeAll _ [])
          rw [Memory.storeAll_nil]
          rfl
        · rw [if_neg hclosed]
          by_cases hgot : 0 < before + got
          · rw [if_pos hgot, if_pos (.inr hgot)]
            show _ = Except.ok (got + 0, r, m.storeAll _ [])
            rw [Memory.storeAll_nil]
            rfl
          · rw [if_neg hgot, if_neg (by tauto)]
            rfl
      · rw [if_neg hempty, if_neg hempty, ih]
        show (r.take.takeMany (before + got + 1) left).map _ = _
        cases r.take.takeMany (before + got + 1) left with
        | error => rfl
        | ok p =>
            have hcount : got + 1 + p.1.length = got + (p.1.length + 1) := by omega
            show Except.ok (got + 1 + p.1.length, _) = Except.ok (got + (p.1.length + 1), _)
            rw [hcount]
            rfl

/-- **The loop of a call that writes.** -/
theorem writeLoop_eq (m : Memory) (base left written : ℕ) (r : Ring) :
    writeLoop m base left written r =
      let (n, r') := r.putMany ((List.range' (base + written) left).map m.load)
      (written + n, r') := by
  induction left generalizing written r with
  | zero => rfl
  | succ left ih =>
      rw [writeLoop, List.range'_succ, List.map_cons, Ring.putMany]
      by_cases hfull : (r.writePos + 1) % pipeBufSize = r.readPos
      · rw [if_pos hfull, if_pos hfull]
        rfl
      · rw [if_neg hfull, if_neg hfull, ih]
        dsimp only
        rw [Nat.add_assoc base, Nat.add_assoc written, Nat.add_comm 1]

/-! ### Vectors -/

/-- The entries of a vector stand in memory from the index `i` on. -/
def Entries (m : Memory) (iovPtr : ℤ) : ℕ → List (ℕ × ℕ) → Prop
  | _, [] => True
  | i, (base, len) :: iov =>
    m.getUint32 (iovPtr + i * 8) = .ok base ∧ m.getUint32 (iovPtr + i * 8 + 4) = .ok len ∧
      Entries m iovPtr (i + 1) iov

/-- The addresses of the bytes of a vector, in their order. -/
def places (iov : List (ℕ × ℕ)) : List ℕ := iov.flatMap fun e => List.range' e.1 e.2

theorem places_cons (base len : ℕ) (iov : List (ℕ × ℕ)) :
    places ((base, len) :: iov) = List.range' base len ++ places iov := List.flatMap_cons

/-- A word is not changed by a store elsewhere. -/
theorem getUint32_store {addr : ℤ} {a : ℕ} (h : (a : ℤ) < addr ∨ addr + 4 ≤ a) (byte : UInt8) :
    (m.store a byte).getUint32 addr = m.getUint32 addr := by
  unfold Memory.getUint32 Memory.store
  dsimp only
  rw [List.length_set]
  split_ifs with hin
  · have hsame : ((m.bytes.set a byte).drop addr.toNat).take 4 = (m.bytes.drop addr.toNat).take 4 := by
      refine List.ext_getElem? fun j => ?_
      rw [List.getElem?_take, List.getElem?_take, List.getElem?_drop, List.getElem?_drop]
      by_cases hj : j < 4
      · rw [if_pos hj, if_pos hj, List.getElem?_set_ne (by omega)]
      · rw [if_neg hj, if_neg hj]
    rw [hsame]
  · rfl

/-- An address before the entries from `i` on, or behind them. -/
def Outside (iovPtr : ℤ) (i n a : ℕ) : Prop := (a : ℤ) < iovPtr + i * 8 ∨ iovPtr + (i + n) * 8 ≤ a

theorem Entries.store {iovPtr : ℤ} {i a : ℕ} {iov : List (ℕ × ℕ)} (h : Entries m iovPtr i iov)
    (ha : Outside iovPtr i iov.length a) (byte : UInt8) : Entries (m.store a byte) iovPtr i iov := by
  induction iov generalizing i with
  | nil => trivial
  | cons e iov ih =>
      obtain ⟨hbase, hlen, hrest⟩ := h
      unfold Outside at ha ih
      rw [List.length_cons] at ha
      refine ⟨?_, ?_, ih hrest ?_⟩
      · rwa [getUint32_store (by omega)]
      · rwa [getUint32_store (by omega)]
      · omega

theorem Entries.storeAll {iovPtr : ℤ} {i : ℕ} {iov : List (ℕ × ℕ)} (h : Entries m iovPtr i iov) {addrs : List ℕ}
    (haddrs : ∀ a ∈ addrs, Outside iovPtr i iov.length a) (bytes : List UInt8) :
    Entries (m.storeAll addrs bytes) iovPtr i iov := by
  induction addrs generalizing m bytes with
  | nil => exact h
  | cons a addrs ih =>
      cases bytes with
      | nil => rwa [Memory.storeAll_nil]
      | cons byte bytes =>
          rw [Memory.storeAll_cons]
          exact ih (h.store (haddrs a List.mem_cons_self) byte) (fun b hb => haddrs b (List.mem_cons_of_mem a hb)) bytes

/-- **The loop over a vector to read into.** -/
theorem readvLoop_eq {iovPtr : ℤ} {i : ℕ} {iov : List (ℕ × ℕ)} (h : Entries m iovPtr i iov)
    (hplaces : ∀ a ∈ places iov, Outside iovPtr i iov.length a) (total : ℕ) (r : Ring) :
    readvLoop iovPtr iov.length i total r m =
      (r.takeMany total (places iov).length).map fun (bytes, r') =>
        (total + bytes.length, r', m.storeAll (places iov) bytes) := by
  induction iov generalizing i total r m with
  | nil => rfl
  | cons e iov ih =>
      obtain ⟨base, len⟩ := e
      obtain ⟨hbase, hlen, hrest⟩ := h
      have houtside : ∀ a ∈ List.range' base len ++ places iov, Outside iovPtr (i + 1) iov.length a := by
        intro a ha
        have hout := hplaces a (by rwa [places_cons])
        unfold Outside at hout ⊢
        rw [List.length_cons] at hout
        omega
      rw [List.length_cons, readvLoop, hbase, hlen, places_cons, List.length_append, List.length_range',
        takeMany_add]
      show (readLoop total base len 0 r m).bind _ = _
      rw [readLoop_eq, Nat.add_zero, Nat.add_zero]
      cases htake : r.takeMany total len with
      | error => rfl
      | ok p =>
          obtain ⟨xs, r'⟩ := p
          have hle := length_le_of_takeMany htake
          simp only [Except.map, Except.bind, Nat.zero_add]
          -- a short round has emptied the ring, so nothing comes behind it
          by_cases hlt : xs.length < len
          · rw [if_pos hlt, if_pos hlt]
            dsimp only
            rw [Memory.storeAll_append_left m (by rwa [List.length_range'])]
          · have hlength : xs.length = len := by omega
            rw [if_neg hlt, if_neg hlt]
            have hkeep := hrest.storeAll (fun a ha => houtside a (List.mem_append_left _ ha)) xs
            rw [ih hkeep (fun a ha => houtside a (List.mem_append_right _ ha)), hlength]
            cases r'.takeMany (total + len) (places iov).length with
            | error => rfl
            | ok q =>
                have happend : m.storeAll (List.range' base len ++ places iov) (xs ++ q.1) =
                    (m.storeAll (List.range' base len) xs).storeAll (places iov) q.1 :=
                  m.storeAll_append (by rw [List.length_range', hlength])
                simp only [Except.map]
                rw [happend, List.length_append, hlength, Nat.add_assoc]

/-- **The loop over a vector to write from.** -/
theorem writevLoop_eq {iovPtr : ℤ} {i : ℕ} {iov : List (ℕ × ℕ)} (h : Entries m iovPtr i iov) (total : ℕ) (r : Ring) :
    writevLoop m iovPtr iov.length i total r =
      let (n, r') := r.putMany ((places iov).map m.load)
      .ok (total + n, r') := by
  induction iov generalizing i total r with
  | nil => rfl
  | cons e iov ih =>
      obtain ⟨base, len⟩ := e
      obtain ⟨hbase, hlen, hrest⟩ := h
      rw [List.length_cons, writevLoop, hbase, hlen, places_cons, List.map_append, putMany_append]
      have hloop : writeLoop m base len 0 r = r.putMany ((List.range' base len).map m.load) := by
        rw [writeLoop_eq, Nat.add_zero]
        show (0 + _, _) = _
        rw [Nat.zero_add]
      show (if (writeLoop m base len 0 r).1 < len then Except.ok (_, _) else _) = _
      rw [hloop, List.length_map, List.length_range']
      dsimp only
      by_cases hlt : (r.putMany ((List.range' base len).map m.load)).1 < len
      · rw [if_pos hlt, if_pos hlt]
      · rw [if_neg hlt, if_neg hlt, ih hrest]
        dsimp only
        rw [Nat.add_assoc]

/-! ### Vectored and scalar calls -/

/-- A vector of `iovcnt` entries in memory.  Its buffers are in range and do not overlap the entries. -/
structure Describes (m : Memory) (iovPtr iovcnt : Int32) (iov : List (ℕ × ℕ)) : Prop where
  count : iovcnt.toInt = iov.length
  entries : Entries m iovPtr.toInt 0 iov
  inRange : ∀ a ∈ places iov, a < m.bytes.length
  apart : ∀ a ∈ places iov, Outside iovPtr.toInt 0 iov.length a

/-- A buffer in range, as long as the buffers of the vector together. -/
structure Concatenated (m : Memory) (bufPtr count : Int32) (iov : List (ℕ × ℕ)) : Prop where
  length : unsigned count = (places iov).length
  inRange : unsigned bufPtr + unsigned count ≤ m.bytes.length

/-- The addresses of a buffer. -/
def buffer (bufPtr count : Int32) : List ℕ := List.range' (unsigned bufPtr) (unsigned count)

/-- Two calls that read: the descriptor is refused, or both wait, or both store the same bytes, one after the
other, in its buffers and leave the same ring. -/
inductive SameRead (s s' : State) (addrs addrs' : List ℕ) :
    Except Stop (ℤ × State) → Except Stop (ℤ × State) → Prop
  | refused : SameRead s s' addrs addrs' (.ok (-9, s)) (.ok (-9, s'))
  | waits : SameRead s s' addrs addrs' (.error .waits) (.error .waits)
  | stored (bytes : List UInt8) (pipe : Pipe) :
      bytes.length ≤ addrs.length → bytes.length ≤ addrs'.length →
        SameRead s s' addrs addrs' (.ok (bytes.length, ⟨some pipe, s.memory.storeAll addrs bytes⟩))
          (.ok (bytes.length, ⟨some pipe, s'.memory.storeAll addrs' bytes⟩))

/-- Two calls that write: the descriptor is refused, or both return the same and leave the same ring. -/
inductive SameWrite (s s' : State) : Except Stop (ℤ × State) → Except Stop (ℤ × State) → Prop
  | refused : SameWrite s s' (.ok (-9, s)) (.ok (-9, s'))
  | written (n : ℕ) (pipe : Pipe) :
      SameWrite s s' (.ok (n, ⟨some pipe, s.memory⟩)) (.ok (n, ⟨some pipe, s'.memory⟩))

/-- A call that takes bytes does not throw. -/
theorem takeMany_cases (before n : ℕ) (r : Ring) :
    r.takeMany before n = .error .waits ∨ ∃ bytes r', r.takeMany before n = .ok (bytes, r') := by
  induction n generalizing before r with
  | zero => exact .inr ⟨[], r, rfl⟩
  | succ n ih =>
      rw [Ring.takeMany]
      split_ifs
      · exact .inr ⟨[], r, rfl⟩
      · exact .inl rfl
      · obtain h | ⟨bytes, r', h⟩ := ih (before + 1) r.take
        · rw [h]
          exact .inl rfl
        · rw [h]
          exact .inr ⟨_, r', rfl⟩

/-- **A vectored call does what the scalar one does on the concatenated buffer.**  For every ring that nobody
else uses, every vector and every buffer of its length: the reading calls both wait, or store the same bytes
and leave the same ring and the same result; and if the buffer holds what the vector's buffers hold, so do
the writing calls. -/
theorem vectored_eq_scalar {s s' : State} (hpipe : s'.pipe = s.pipe) {iovPtr iovcnt bufPtr count : Int32}
    {iov : List (ℕ × ℕ)} (h : Describes s.memory iovPtr iovcnt iov)
    (hbuf : Concatenated s'.memory bufPtr count iov) :
    SameRead s s' (places iov) (buffer bufPtr count) (localPipeReadv s iovPtr iovcnt)
        (localPipeRead s' bufPtr count) ∧
      ((buffer bufPtr count).map s'.memory.load = (places iov).map s.memory.load →
        SameWrite s s' (localPipeWritev s iovPtr iovcnt) (localPipeWrite s' bufPtr count)) := by
  have hrounds : iovcnt.toInt.toNat = iov.length := by rw [h.count, Int.toNat_natCast]
  unfold localPipeReadv localPipeRead localPipeWritev localPipeWrite withPipe
  rw [hpipe, hrounds]
  cases s.pipe with
  | none => exact ⟨.refused, fun _ => .refused⟩
  | some pipe =>
      dsimp only
      refine ⟨?_, fun hbytes => ?_⟩
      · by_cases hend : pipe.pipeEnd = .read
        · rw [if_neg (not_not_intro hend), if_neg (not_not_intro hend), readvLoop_eq h.entries h.apart,
            readLoop_eq, ← hbuf.length, Nat.add_zero, Nat.add_zero, takeMany_min]
          obtain htake | ⟨bytes, r', htake⟩ := takeMany_cases 0 (unsigned count) pipe.ring
          · rw [htake]
            exact .waits
          · have hle : bytes.length ≤ unsigned count := length_le_of_takeMany htake
            have hmin : bytes.length ≤ min (unsigned count) pipeBufSize :=
              length_le_of_takeMany (by rw [takeMany_min, htake])
            rw [htake]
            simp only [Except.map, Nat.zero_add]
            rw [storeAll_range' hmin (Nat.min_le_left ..)]
            exact .stored bytes _ (hbuf.length ▸ hle) (hle.trans_eq List.length_range'.symm)
        · rw [if_pos hend, if_pos hend]
          exact .refused
      · by_cases hend : pipe.pipeEnd = .write
        · rw [if_neg (not_not_intro hend), if_neg (not_not_intro hend), writevLoop_eq h.entries, writeLoop_eq,
            Nat.add_zero]
          show SameWrite s s' (.ok (((0 + _ : ℕ) : ℤ), _)) (.ok (((0 + _ : ℕ) : ℤ), _))
          unfold buffer at hbytes
          rw [hbytes]
          exact .written _ _
        · rw [if_pos hend, if_pos hend]
          exact .refused

/-- A vector of three buffers, one of them empty, and a closed ring with four bytes around its end. -/
def wrapped : State where
  pipe := some
    { ring :=
        { writePos := 2, readPos := 65534, writeClosed := true, data := fun i => UInt8.ofNat i
          writePos_lt := by decide, readPos_lt := by decide }
      pipeEnd := .read }
  memory :=
    { bytes := [32, 2, 40, 0, 36, 3].flatMap (leBytes 4) ++ List.replicate 40 0
      size_le := by decide }

theorem vectored_eq_scalar_wrapped :
    SameRead wrapped wrapped (places [(32, 2), (40, 0), (36, 3)]) (buffer 48 5) (localPipeReadv wrapped 0 3)
        (localPipeRead wrapped 48 5) ∧
      SameWrite wrapped wrapped (localPipeWritev wrapped 0 3) (localPipeWrite wrapped 48 5) := by
  have hdescribes : Describes wrapped.memory 0 3 [(32, 2), (40, 0), (36, 3)] :=
    { count := by decide
      entries := ⟨rfl, rfl, rfl, rfl, rfl, rfl, trivial⟩
      inRange := by decide
      apart := by unfold Outside; decide }
  have hbuf : Concatenated wrapped.memory 48 5 [(32, 2), (40, 0), (36, 3)] := ⟨by decide, by decide⟩
  have hboth := @vectored_eq_scalar wrapped wrapped rfl _ _ _ _ _ hdescribes hbuf
  exact ⟨hboth.1, hboth.2 (by decide)⟩

end LocalPipes
