/-
**Guest reads from pipes.**

Blink's `read` of a pipe takes at most 4096 bytes into a buffer on its stack and copies them to the guest page
by page, without a look at the result of the copy.  Its `readv` takes the bytes into the memory that `SchlepW`
gives for the first member of the vector.  That is the guest's page if the member lies in one page; otherwise
it is a copy of the range, which nobody copies back.

Main definitions:

* `GuestReads.schlep` — memory for a range of the guest, which may be a copy;
* `GuestReads.sysRead`, `GuestReads.sysPreadv2` — the two calls;
* `GuestReads.Delivers` — every byte that leaves the ring lies at its address in the guest;
* `GuestReads.Lands` — the condition.

Main results:

* `GuestReads.schlep_bytes` — what a range is read as;
* `GuestReads.delivers_iff_lands` — a call delivers what it takes **if and only if** the condition holds.
-/

import AtuaComputer.FileOutcomes
import AtuaComputer.LocalPipes
import AtuaComputer.PagedMemory

set_option relaxedAutoImplicit false
set_option autoImplicit false

namespace GuestReads

open PagedMemory
open LocalPipes (Ring Stop)
open FileOutcomes (signed64)

/-! ### State -/

/-- The bits of a page table entry: `PAGE_U` and `PAGE_RW`. -/
structure Flags where
  user : Bool
  writable : Bool

def pageSize : ℕ := 4096

/-- The guest's pages, and whether `malloc` finds room for a block. -/
structure Machine where
  pages : Space Flags
  malloc : ℕ → Bool

/-- The machine and the ring of the descriptor, if the worker has one for it. -/
structure State where
  machine : Machine
  pipe : Option Ring

/-- The bytes in the ring. -/
def contents (pipe : Option Ring) : List UInt8 := (pipe.map Ring.contents).getD []

/-- The bytes of a range. -/
def loadBytes (m : Machine) (addr : ℤ) (n : ℕ) : List UInt8 :=
  (List.range n).map fun j : ℕ => (peek pageSize m.pages (addr + j)).getD 0

/-! ### Ranges of the guest -/

/-- Host memory that stands for a range of the guest. -/
inductive Buffer where
  /-- The guest's own page, from an address on. -/
  | page (addr : ℤ)
  /-- A block on the machine's free list. -/
  | copy (bytes : List UInt8)

/-- The loop of `Schlep`, with the part of the range that was copied. -/
def copyOut (m : Machine) (ok : Flags → Bool) (addr : ℤ) (size : ℕ) : ℕ → ℕ → List UInt8 → Option (List UInt8)
  | 0, _, copy => some copy
  | rounds + 1, got, copy =>
    if got < size then
      if allowed pageSize ok m.pages (addr + got) then
        copyOut m ok addr size rounds (got + pageSize)
          (copy ++ loadBytes m (addr + got) (min pageSize (size - got)))
      else none
    else some copy

/-- `Schlep` -/
def schlep (m : Machine) (ok : Flags → Bool) (addr : ℤ) (size : ℕ) : Option Buffer :=
  if size = 0 then none
  else if allowed pageSize ok m.pages addr then
    let room := pageSize - offset pageSize addr
    if size ≤ room then some (.page addr)
    else if m.malloc size then (copyOut m ok addr size size room (loadBytes m addr room)).map .copy
    else none
  else none

/-- `SchlepR` and `SchlepW`: each looks at one bit of the entries. -/
def schlepR (m : Machine) (addr : ℤ) (size : ℕ) : Option Buffer := schlep m Flags.user addr size
def schlepW (m : Machine) (addr : ℤ) (size : ℕ) : Option Buffer := schlep m Flags.writable addr size

/-- What a buffer holds. -/
def Buffer.bytes (m : Machine) (n : ℕ) : Buffer → List UInt8
  | .page addr => loadBytes m addr n
  | .copy bytes => bytes.take n

/-- Storing bytes in a buffer. -/
def Buffer.fill (m : Machine) (bytes : List UInt8) : Buffer → Machine
  | .page addr => { m with pages := storeAll pageSize m.pages addr bytes }
  | .copy _ => m

/-- `CopyToUserWrite`: the pages have to be the user's, but not writable. -/
def copyToUserWrite (m : Machine) (addr : ℤ) (bytes : List UInt8) : Machine :=
  { m with pages := (copyIn pageSize Flags.user bytes.length m.pages addr bytes).1 }

/-! ### Calls -/

/-- `pipe_read`, with the bytes that it has stored from the beginning of its buffer.  A view with a negative
length cannot be made; the callers ask for none. -/
def pipeRead (pipe : Option Ring) (len : ℤ) : Except Stop (ℤ × List UInt8 × Option Ring) :=
  if len < 0 then .error .throws
  else
    match pipe with
    | none => .ok (-1, [], none)
    | some ring => (ring.takeMany 0 len.toNat).map fun (bytes, ring) => (bytes.length, bytes, some ring)

/-- `SysRead` of a pipe. -/
def sysRead (s : State) (addr : ℤ) (size : ℕ) : Except Stop (ℤ × State) :=
  if 2 ^ 32 ≤ size then .ok (-1, s)
  else
    (pipeRead s.pipe (min size 4096 : ℕ)).map fun (n, tmp, pipe) =>
      (if 0 ≤ n then n else -1, ⟨if 0 < n then copyToUserWrite s.machine addr tmp else s.machine, pipe⟩)

/-- The base address and the length in an entry of a vector. -/
def iovec (bytes : List UInt8) : ℤ × ℕ := (signed64 (bytes.take 8), leNat (bytes.drop 8))

/-- `SysPreadv2` of a pipe, which is `readv`.  A vector without entries is left to the code for files, which
reads nothing. -/
def sysPreadv2 (s : State) (iovaddr : ℤ) (iovlen : ℕ) : Except Stop (ℤ × State) :=
  if iovlen = 0 then .ok (0, s)
  else
    match schlepR s.machine iovaddr 16 with
    | none => .ok (-1, s)
    | some giov =>
      let (base, len) := iovec (giov.bytes s.machine 16)
      -- `size_t` has 32 bits, and so has `int`
      match schlepW s.machine base (len % 2 ^ 32) with
      | none => .ok (-1, s)
      | some buf =>
        (pipeRead s.pipe (Int.bmod len (2 ^ 32))).map fun (n, bytes, pipe) =>
          (n, ⟨buf.fill s.machine bytes, pipe⟩)

inductive Call where
  | read (addr : ℤ) (size : ℕ)
  | readv (iovaddr : ℤ) (iovlen : ℕ)

def perform (s : State) : Call → Except Stop (ℤ × State)
  | .read addr size => sysRead s addr size
  | .readv iovaddr iovlen => sysPreadv2 s iovaddr iovlen

/-! ### The property -/

/-- The entry of a vector in the guest's memory. -/
def entry (m : Machine) (iovaddr : ℤ) (i : ℕ) : ℤ × ℕ := iovec (loadBytes m (iovaddr + 16 * i) 16)

/-- The ranges that a call reads into. -/
def Call.ranges (m : Machine) : Call → List (ℤ × ℕ)
  | .read addr size => [(addr, size)]
  | .readv iovaddr iovlen => (List.range iovlen).map (entry m iovaddr)

/-- The address of a byte of the ranges. -/
def addrOf : List (ℤ × ℕ) → ℕ → Option ℤ
  | [], _ => none
  | (base, len) :: rest, j => if j < len then some (base + j) else addrOf rest (j - len)

/-- A call that returned `n`: a failed one has taken nothing out of the ring; otherwise `n` bytes have been
taken, and lie in order at the addresses of the ranges. -/
structure Delivers (ranges : List (ℤ × ℕ)) (s : State) (n : ℤ) (s' : State) : Prop where
  failed : n < 0 → contents s'.pipe = contents s.pipe
  removed : 0 ≤ n → n.toNat ≤ (contents s.pipe).length ∧ contents s'.pipe = (contents s.pipe).drop n.toNat
  stored : ∀ (j : ℕ) byte, (j : ℤ) < n → (contents s.pipe)[j]? = some byte →
    ∃ addr, addrOf ranges j = some addr ∧ peek pageSize s'.machine.pages addr = some byte

/-! ### The condition -/

/-- The buffer for a range is a copy. -/
def Copied (m : Machine) (addr : ℤ) (size : ℕ) : Prop := ∃ bytes, schlepW m addr size = some (.copy bytes)

/-- For `read`, every page up to the last byte that the ring has for it is the user's.  For `readv`, the first
member lies in one page, if it can be used at all.  Otherwise the byte was there before. -/
def Lands (s : State) : Call → Prop
  | .read addr size =>
    size < 2 ^ 32 → ∀ (j : ℕ) byte, j < min size 4096 → (contents s.pipe)[j]? = some byte →
      Reaches pageSize Flags.user s.machine.pages addr j ∨
        peek pageSize s.machine.pages (addr + j) = some byte
  | .readv iovaddr iovlen =>
    let (base, len) := entry s.machine iovaddr 0
    iovlen ≠ 0 → schlepR s.machine iovaddr 16 ≠ none → Copied s.machine base (len % 2 ^ 32) →
      ∀ (j : ℕ) byte, j < len % 2 ^ 32 → (contents s.pipe)[j]? = some byte →
        peek pageSize s.machine.pages (base + j) = some byte

/-! ### Ranges -/

theorem loadBytes_add (m : Machine) (addr : ℤ) (a b : ℕ) :
    loadBytes m addr (a + b) = loadBytes m addr a ++ loadBytes m (addr + a) b := by
  unfold loadBytes
  rw [List.range_add, List.map_append, List.map_map]
  congr 1
  refine List.map_congr_left fun j _ => ?_
  simp only [Function.comp, Int.natCast_add, Int.add_assoc]

/-- The loop copies the whole range. -/
theorem copyOut_eq {m : Machine} {ok : Flags → Bool} {addr : ℤ} {size rounds got : ℕ} {copy result : List UInt8}
    (h : copyOut m ok addr size rounds got copy = some result) (hcopy : copy = loadBytes m addr (min got size))
    (hrounds : size ≤ got + rounds * pageSize) : result = loadBytes m addr size := by
  induction rounds generalizing got copy with
  | zero =>
      rw [copyOut] at h
      cases h
      rw [hcopy, Nat.min_eq_right (by omega)]
  | succ rounds ih =>
      rw [copyOut] at h
      by_cases hlt : got < size
      · rw [if_pos hlt] at h
        split_ifs at h
        refine ih h ?_ (by rw [Nat.succ_mul] at hrounds; omega)
        rw [hcopy, Nat.min_eq_left (by omega), ← loadBytes_add]
        congr 1
        omega
      · rw [if_neg hlt] at h
        cases h
        rw [hcopy, Nat.min_eq_right (by omega)]

/-- **What a range is read as.** -/
theorem schlep_bytes {m : Machine} {ok : Flags → Bool} {addr : ℤ} {size : ℕ} {buf : Buffer}
    (h : schlep m ok addr size = some buf) : buf.bytes m size = loadBytes m addr size := by
  unfold schlep at h
  dsimp only at h
  split_ifs at h with hzero hok hroom hmalloc
  · cases h
    rfl
  · obtain ⟨result, hresult, rfl⟩ := Option.map_eq_some_iff.1 h
    have hpos : 0 < pageSize := by decide
    rw [Buffer.bytes, copyOut_eq hresult (by rw [Nat.min_eq_left (by omega)]) ?_]
    · exact List.take_of_length_le (by simp [loadBytes])
    · have hmul := Nat.le_mul_of_pos_right size hpos
      omega

/-- A buffer that is no copy is the page itself. -/
theorem schlep_page {m : Machine} {ok : Flags → Bool} {addr base : ℤ} {size : ℕ}
    (h : schlep m ok addr size = some (.page base)) :
    base = addr ∧ allowed pageSize ok m.pages addr = true ∧ offset pageSize addr + size ≤ pageSize := by
  unfold schlep at h
  dsimp only at h
  split_ifs at h with hzero hok hroom hmalloc
  · cases h
    exact ⟨rfl, hok, by omega⟩
  · obtain ⟨result, -, hcopy⟩ := Option.map_eq_some_iff.1 h
    cases hcopy

/-! ### The ring -/

/-- What `pipe_read` takes out of the ring. -/
theorem pipeRead_ok {pipe pipe' : Option Ring} {len n : ℤ} {bytes : List UInt8}
    (h : pipeRead pipe len = .ok (n, bytes, pipe')) :
    0 ≤ len ∧ bytes = (contents pipe).take len.toNat ∧ contents pipe' = (contents pipe).drop len.toNat ∧
      (n = bytes.length ∨ n = -1 ∧ contents pipe = []) := by
  unfold pipeRead at h
  split_ifs at h with hneg
  refine ⟨by omega, ?_⟩
  cases pipe with
  | none =>
      cases h
      exact ⟨List.take_nil.symm, List.drop_nil.symm, Or.inr ⟨rfl, rfl⟩⟩
  | some ring =>
      dsimp only at h
      cases htake : ring.takeMany 0 len.toNat with
      | error => rw [htake] at h; cases h
      | ok p =>
          obtain ⟨taken, rest⟩ := p
          obtain ⟨hbytes, hrest⟩ := LocalPipes.contents_takeMany htake
          rw [htake] at h
          cases h
          exact ⟨hbytes, hrest, Or.inl rfl⟩

/-- A call that took up to `len` bytes delivers exactly if those of the ring are stored. -/
theorem delivers_iff {s : State} {pipe' : Option Ring} {len n : ℤ} {bytes : List UInt8}
    (h : pipeRead s.pipe len = .ok (n, bytes, pipe')) (ranges : List (ℤ × ℕ)) (m : Machine) :
    Delivers ranges s n ⟨m, pipe'⟩ ↔
      ∀ (j : ℕ) byte, j < len.toNat → (contents s.pipe)[j]? = some byte →
        ∃ addr, addrOf ranges j = some addr ∧ peek pageSize m.pages addr = some byte := by
  obtain ⟨-, hbytes, hrest, hn⟩ := pipeRead_ok h
  have hlen : bytes.length = min len.toNat (contents s.pipe).length := by rw [hbytes, List.length_take]
  have hlt : ∀ (j : ℕ) byte, (contents s.pipe)[j]? = some byte → j < (contents s.pipe).length := by
    intro j byte hj
    obtain ⟨hlt, -⟩ := List.getElem?_eq_some_iff.1 hj
    exact hlt
  constructor
  · intro hd j byte hj hbyte
    have hless := hlt j byte hbyte
    refine hd.stored j byte ?_ hbyte
    rcases hn with hn | ⟨-, hnil⟩
    · omega
    · rw [hnil] at hless
      cases hless
  · intro hstored
    refine ⟨fun hneg => ?_, fun hpos => ?_, fun j byte hj hbyte => hstored j byte ?_ hbyte⟩
    · rcases hn with hn | ⟨-, hnil⟩
      · omega
      · rw [hrest, hnil, List.drop_nil]
    · rcases hn with hn | ⟨hn, -⟩
      · refine ⟨by omega, ?_⟩
        rw [hrest, hn, Int.toNat_natCast, hlen]
        obtain hle | hle := Nat.le_total len.toNat (contents s.pipe).length
        · rw [Nat.min_eq_left hle]
        · rw [Nat.min_eq_right hle, List.drop_length, List.drop_eq_nil_of_le hle]
      · omega
    · rcases hn with hn | ⟨hn, -⟩
      · omega
      · omega

/-! ### The condition is exact -/

/-- A call that changes nothing and reads nothing. -/
theorem delivers_idle (ranges : List (ℤ × ℕ)) (s : State) {n : ℤ} (hn : n ≤ 0) : Delivers ranges s n s where
  failed := fun _ => rfl
  removed := by
    intro hpos
    obtain rfl : n = 0 := by omega
    exact ⟨Nat.zero_le _, rfl⟩
  stored := by
    intro j byte hj
    omega

theorem delivers_read_iff {s s' : State} {n : ℤ} {addr : ℤ} {size : ℕ} (h : sysRead s addr size = .ok (n, s')) :
    Delivers [(addr, size)] s n s' ↔ Lands s (.read addr size) := by
  unfold sysRead at h
  by_cases hlarge : 2 ^ 32 ≤ size
  · rw [if_pos hlarge] at h
    cases h
    exact iff_of_true (delivers_idle _ s (by omega)) fun hsize => absurd hsize (by omega)
  rw [if_neg hlarge] at h
  cases hread : pipeRead s.pipe (min size 4096 : ℕ) with
  | error => rw [hread] at h; cases h
  | ok p =>
      obtain ⟨r, tmp, pipe'⟩ := p
      rw [hread] at h
      obtain ⟨-, htmp, -, hn⟩ := pipeRead_ok hread
      have hret : (if 0 ≤ r then r else -1) = r := by
        split_ifs
        · rfl
        · omega
      have hs := Except.ok.inj h
      dsimp only at hs
      rw [hret] at hs
      cases hs
      rw [delivers_iff hread]
      simp only [Lands, Int.toNat_natCast]
      rw [forall_prop_of_true (by omega : size < 2 ^ 32)]
      refine forall_congr' fun j => forall_congr' fun byte => forall_congr' fun hj => forall_congr' fun hbyte => ?_
      have hbyte' : tmp[j]? = some byte := by
        rw [htmp, Int.toNat_natCast, List.getElem?_take, if_pos hj, hbyte]
      obtain ⟨hlt, -⟩ := List.getElem?_eq_some_iff.1 hbyte'
      have hpos : 0 < n := by
        rcases hn with hn | ⟨-, hnil⟩
        · omega
        · rw [hnil] at hbyte
          cases hbyte
      have haddr : addrOf [(addr, size)] j = some (addr + j) := by
        rw [addrOf, if_pos (by omega)]
      rw [haddr, if_pos hpos]
      refine Iff.trans ⟨?_, fun h => ⟨_, rfl, h⟩⟩ (peek_copyIn (by decide : 0 < pageSize) (Nat.le_refl _) hbyte')
      rintro ⟨_, ⟨⟩, hpeek⟩
      exact hpeek

/-- A length that `int` can hold is the length itself, less what `size_t` leaves out. -/
theorem bmod_toNat {len : ℕ} (h : 0 ≤ Int.bmod len (2 ^ 32)) : (Int.bmod len (2 ^ 32)).toNat = len % 2 ^ 32 := by
  have hpow : (((2 ^ 32 : ℕ) : ℕ) : ℤ) = 4294967296 := by norm_num
  have hmod : ((len % 2 ^ 32 : ℕ) : ℤ) = (len : ℤ) % 4294967296 := by omega
  unfold Int.bmod at h ⊢
  dsimp only at h ⊢
  rw [hpow] at h ⊢
  split_ifs at h ⊢ <;> omega

/-- The first byte addresses of a vector are those of its first member. -/
theorem addrOf_ranges (m : Machine) (iovaddr : ℤ) {iovlen j : ℕ} (hlen : iovlen ≠ 0)
    (hj : j < (entry m iovaddr 0).2) :
    addrOf ((Call.readv iovaddr iovlen).ranges m) j = some ((entry m iovaddr 0).1 + j) := by
  obtain ⟨k, rfl⟩ := Nat.exists_eq_succ_of_ne_zero hlen
  rw [Call.ranges, List.range_succ_eq_map, List.map_cons, addrOf, if_pos hj]

theorem delivers_readv_iff {s s' : State} {n : ℤ} {iovaddr : ℤ} {iovlen : ℕ}
    (h : sysPreadv2 s iovaddr iovlen = .ok (n, s')) :
    Delivers ((Call.readv iovaddr iovlen).ranges s.machine) s n s' ↔ Lands s (.readv iovaddr iovlen) := by
  unfold sysPreadv2 at h
  unfold Lands
  dsimp only
  by_cases hlen : iovlen = 0
  · rw [if_pos hlen] at h
    cases h
    exact iff_of_true (delivers_idle _ s (Int.le_refl 0)) fun hne => absurd hlen hne
  rw [if_neg hlen] at h
  cases hgiov : schlepR s.machine iovaddr 16 with
  | none =>
      rw [hgiov] at h
      cases h
      refine iff_of_true (delivers_idle _ s (by omega)) ?_
      rintro - hne -
      exact absurd rfl hne
  | some giov =>
      have hentry : iovec (giov.bytes s.machine 16) = entry s.machine iovaddr 0 := by
        rw [schlep_bytes hgiov, entry, Nat.cast_zero, Int.mul_zero, Int.add_zero]
      rw [hgiov] at h
      dsimp only at h
      rw [hentry] at h
      have haddr := fun j => @addrOf_ranges s.machine iovaddr iovlen j hlen
      generalize entry s.machine iovaddr 0 = member at h haddr ⊢
      obtain ⟨base, len⟩ := member
      dsimp only at h haddr ⊢
      cases hbuf : schlepW s.machine base (len % 2 ^ 32) with
      | none =>
          rw [hbuf] at h
          cases h
          refine iff_of_true (delivers_idle _ s (by omega)) ?_
          rintro - - ⟨bytes, hcopy⟩
          rw [hbuf] at hcopy
          cases hcopy
      | some buf =>
          rw [hbuf] at h
          dsimp only at h
          cases hread : pipeRead s.pipe (Int.bmod len (2 ^ 32)) with
          | error => rw [hread] at h; cases h
          | ok p =>
              obtain ⟨r, bytes, pipe'⟩ := p
              rw [hread] at h
              cases h
              obtain ⟨hnonneg, hbytes, -, -⟩ := pipeRead_ok hread
              rw [delivers_iff hread, bmod_toNat hnonneg]
              rw [bmod_toNat hnonneg] at hbytes
              have hless : len % 2 ^ 32 ≤ len := Nat.mod_le _ _
              cases buf with
              | page a =>
                  -- the guest's page itself
                  obtain ⟨rfl, hok, hroom⟩ := schlep_page hbuf
                  refine iff_of_true (fun j byte hj hbyte => ⟨a + j, haddr j (by omega), ?_⟩) ?_
                  · obtain ⟨flags, hflags⟩ := isSome_of_allowed hok
                    have hbyte' : bytes[j]? = some byte := by
                      rw [hbytes, List.getElem?_take, if_pos hj, hbyte]
                    rw [Buffer.fill, peek_storeAll (by decide : 0 < pageSize), hbyte',
                      flagsAt_add (by decide : 0 < pageSize) (by omega), hflags]
                    rfl
                  · rintro - - ⟨bytes, hcopy⟩
                    rw [hbuf] at hcopy
                    cases hcopy
              | copy block =>
                  rw [forall_prop_of_true hlen, forall_prop_of_true (Option.some_ne_none giov),
                    forall_prop_of_true ⟨block, hbuf⟩]
                  refine forall_congr' fun j => forall_congr' fun byte => forall_congr' fun hj =>
                    forall_congr' fun _ => ?_
                  rw [haddr j (by omega), Buffer.fill]
                  refine ⟨?_, fun hpeek => ⟨_, rfl, hpeek⟩⟩
                  rintro ⟨_, ⟨⟩, hpeek⟩
                  exact hpeek

/-- **A call delivers what it takes if and only if the condition holds.** -/
theorem delivers_iff_lands {s s' : State} {call : Call} {n : ℤ} (h : perform s call = .ok (n, s')) :
    Delivers (call.ranges s.machine) s n s' ↔ Lands s call := by
  cases call with
  | read addr size => exact delivers_read_iff h
  | readv iovaddr iovlen => exact delivers_readv_iff h

/-- Two pages with a vector at their beginning, whose one member lies in both, and a pipe with four bytes. -/
def spanning : State where
  machine := ⟨fun page =>
    if page = 0 then some ⟨⟨true, true⟩, fun i => [0xfe, 0x0f, 0, 0, 0, 0, 0, 0, 4].getD i 0⟩
    else if page = 1 then some ⟨⟨true, true⟩, fun _ => 0⟩
    else none, fun _ => true⟩
  pipe := some
    { writePos := 4, readPos := 0, writeClosed := false, data := fun i => UInt8.ofNat (i + 1),
      writePos_lt := by decide, readPos_lt := by decide }

/-- `read` stores all of them. -/
theorem delivers_iff_lands_spanning : ∃ s', perform spanning (.read 4094 4) = .ok (4, s') ∧
    Delivers [(4094, 4)] spanning 4 s' := by
  have hread : ∃ s', perform spanning (.read 4094 4) = .ok (4, s') := ⟨_, rfl⟩
  obtain ⟨s', hs⟩ := hread
  refine ⟨s', hs, (delivers_iff_lands hs).2 ?_⟩
  intro _ j byte hj _
  refine Or.inl fun i hi => ?_
  have hlt : i < 4 := by omega
  match i, hlt with
  | 0, _ | 1, _ | 2, _ | 3, _ => rfl

/-- **`readv` takes them and stores none.** -/
theorem not_delivers : ¬ ∀ (s s' : State) (call : Call) (n : ℤ), perform s call = .ok (n, s') →
    Delivers (call.ranges s.machine) s n s' := by
  intro h
  have hrun : (perform spanning (.readv 0 1)).toOption.map (fun p => (p.1, peek pageSize p.2.machine.pages 4094)) =
      some (4, some 0) := by decide +kernel
  cases hs : perform spanning (.readv 0 1) with
  | error => rw [hs] at hrun; cases hrun
  | ok p =>
      rw [hs] at hrun
      obtain ⟨hn, hzero⟩ := Prod.mk.inj (Option.some.inj hrun)
      obtain ⟨addr, haddr, hpeek⟩ := (h _ _ _ _ hs).stored 0 1 (by rw [hn]; decide) rfl
      have hbase : addrOf ((Call.readv 0 1).ranges spanning.machine) 0 = some 4094 := rfl
      rw [hbase] at haddr
      cases haddr
      rw [hzero] at hpeek
      cases hpeek

end GuestReads
