/-
**The receive rings of sockets.**

What comes for a socket of the guest is written by the main thread into a ring of 131072 cells, and the
engine's worker takes it out.  The positions of both only grow, so the ring may be full to the last cell.
The main thread has three writers.  `onData` and `_writeToSocketSab` store every byte where the position
says and never look at the position of the reader; the response of an intercepted request is written in
chunks for which there is room, by a count that takes a full ring for an empty one.

The writers run on one thread, so that only a response that waits for room can be interleaved with others;
the worker takes its steps at any time.

Main definitions:

* `SocketRing.State`, `SocketRing.after` — the ring, the main thread and the worker, one event for each
  access;
* `SocketRing.Faithful` — what came out is the beginning of what went in, and what has not come out lies in
  the ring;
* `SocketRing.Guarded` — a byte finds a free cell, and a response does not find the ring full.

Main results:

* `SocketRing.chunk_le` — a response alone never writes more than there is room for;
* `SocketRing.faithful_of_guarded` — **when the ring loses nothing**.
-/

import AtuaComputer.StdinRing

set_option relaxedAutoImplicit false
set_option autoImplicit false

namespace SocketRing

open Runs RingBuffer StdinRing

/-! ### State -/

/-- `SOCK_BUF_SIZE` -/
def sockBufSize : ℕ := 131072

/-- Where the main thread is: in the loop of `onData` or `_writeToSocketSab`, where it has loaded `wp` and
stored the byte; or in the loop of `_handleHttpFetch`, where it has loaded `wp`, and then copies a chunk of
`count` bytes. -/
inductive WriterPc where
  | idle
  | loop (bytes : List UInt8)
  | loaded (byte : UInt8) (rest : List UInt8) (wp : ℤ)
  | stored (byte : UInt8) (rest : List UInt8) (wp : ℤ)
  | http (rest : List UInt8)
  | httpLoaded (rest : List UInt8) (wp : ℤ)
  | httpCopying (rest : List UInt8) (wp : ℤ) (count i : ℕ)

/-- Where `socketRecvToArray` is in its loop. -/
inductive ReaderPc where
  | idle
  | loop (len got : ℕ)
  | loaded (len got : ℕ) (wp : ℤ)
  | copying (len got : ℕ) (rp : ℤ)
  | storing (len got : ℕ) (rp : ℤ)
  | checking (len got : ℕ)
  | waiting (len got : ℕ)

/-- The words and the cells, the main thread with the responses that wait for room, the worker, and the
bytes that have gone in and out. -/
structure State where
  writePos : ℤ
  readPos : ℤ
  closed : Bool
  isUdp : Bool
  data : ℕ → UInt8
  writer : WriterPc
  suspended : List (List UInt8)
  reader : ReaderPc
  written : List UInt8
  delivered : List UInt8

/-! ### The main thread -/

/-- The start of a writer; the main thread does one thing at a time. -/
def start (s : State) (pc : WriterPc) : State :=
  match s.writer with
  | .idle => { s with writer := pc }
  | _ => s

/-- `onData` of `_handleSocketConnect` -/
def onData (s : State) (payload : List UInt8) : State := start s (.loop payload)

/-- `_writeToSocketSab` -/
def writeToSocketSab (s : State) (data : List UInt8) : State := start s (.loop data)

/-- `_handleHttpFetch`, when the response has come. -/
def handleHttpFetch (s : State) (fullResponse : List UInt8) : State := start s (.http fullResponse)

/-- A response that has waited for room goes on. -/
def resume (s : State) (i : ℕ) : State :=
  match s.writer, s.suspended[i]? with
  | .idle, some rest => { s with writer := .http rest, suspended := s.suspended.eraseIdx i }
  | _, _ => s

/-- `available` -/
def available (wp rp : ℤ) : ℤ := sockBufSize - (wp - rp + sockBufSize).tmod sockBufSize - 1

/-- `chunk` -/
def chunk (wp rp : ℤ) (rest : List UInt8) : ℕ := (min (available wp rp) rest.length).toNat

/-- The next access of the main thread. -/
def stepWrite (s : State) : State :=
  match s.writer with
  | .idle => s
  | .loop [] => { s with writer := .idle }
  | .loop (byte :: rest) => { s with writer := .loaded byte rest s.writePos }
  | .loaded byte rest wp =>
    { s with data := storeRem sockBufSize s.data wp byte, writer := .stored byte rest wp }
  | .stored byte rest wp =>
    { s with writePos := toInt32 (wp + 1), written := s.written ++ [byte], writer := .loop rest }
  | .http [] => { s with writer := .idle }
  | .http (byte :: rest) => { s with writer := .httpLoaded (byte :: rest) s.writePos }
  | .httpLoaded rest wp =>
    if available wp s.readPos ≤ 0 then { s with writer := .idle, suspended := s.suspended ++ [rest] }
    else { s with writer := .httpCopying rest wp (chunk wp s.readPos rest) 0 }
  | .httpCopying rest wp count i =>
    if i < count then
      { s with
        data := storeRem sockBufSize s.data (wp + i) (rest.getD i 0)
        writer := .httpCopying rest wp count (i + 1) }
    else
      { s with
        writePos := toInt32 (wp + count)
        written := s.written ++ rest.take count
        writer := .http (rest.drop count) }

/-! ### The worker -/

/-- The start of `socketRecvToArray`. -/
def socketRecvToArray (s : State) (len : ℕ) : State :=
  match s.reader with
  | .idle => { s with reader := .loop len 0 }
  | _ => s

/-- The next access of `socketRecvToArray`.  A wait may end at any time: it has a time limit. -/
def stepRead (s : State) : State :=
  match s.reader with
  | .idle => s
  | .loop len got => { s with reader := if got < len then .loaded len got s.writePos else .idle }
  | .loaded len got wp =>
    { s with reader := if s.readPos = wp then .checking len got else .copying len got s.readPos }
  | .copying len got rp =>
    { s with
      delivered := s.delivered ++ [loadRem sockBufSize s.data 0 rp]
      reader := .storing len got rp }
  | .storing len got rp => { s with readPos := toInt32 (rp + 1), reader := .loop len (got + 1) }
  | .checking len got =>
    { s with reader := if s.closed ∨ 0 < got ∨ s.isUdp then .idle else .waiting len got }
  | .waiting len got => { s with reader := .loop len got }

/-! ### Runs -/

/-- What happens: the writers start, and both sides take their steps. -/
inductive Event where
  | onData (payload : List UInt8)
  | writeToSocketSab (data : List UInt8)
  | handleHttpFetch (fullResponse : List UInt8)
  | resume (i : ℕ)
  | stepWrite
  | socketRecvToArray (len : ℕ)
  | stepRead
  | close

/-- The ring after an event. -/
def after (s : State) : Event → State
  | .onData payload => onData s payload
  | .writeToSocketSab data => writeToSocketSab s data
  | .handleHttpFetch fullResponse => handleHttpFetch s fullResponse
  | .resume i => resume s i
  | .stepWrite => stepWrite s
  | .socketRecvToArray len => socketRecvToArray s len
  | .stepRead => stepRead s
  | .close => { s with closed := true }

/-- The step relation. -/
def Step (s : State) (ev : Event) (s' : State) : Prop := s' = after s ev

/-- The ring of a new socket. -/
def fresh (isUdp : Bool) : State where
  writePos := 0
  readPos := 0
  closed := false
  isUdp := isUdp
  data _ := 0
  writer := .idle
  suspended := []
  reader := .idle
  written := []
  delivered := []

/-- Nothing is lost: what came out is the beginning of what went in, and what has not come out lies in the
ring. -/
structure Faithful (s : State) : Prop where
  isPrefix : s.delivered <+: s.written
  unread : Window sockBufSize s.data s.written s.delivered.length

/-- The number of bytes before the position of the reader. -/
def front (s : State) : ℕ :=
  match s.reader with
  | .storing _ _ _ => s.delivered.length - 1
  | _ => s.delivered.length

/-- A byte finds a free cell, a response does not find the ring full, and the positions do not
overflow. -/
def Guarded (s : State) (ev : Event) : Prop :=
  ev = .stepWrite →
    match s.writer with
    | .loaded _ _ _ => s.written.length < s.delivered.length + sockBufSize ∧ s.written.length < 2 ^ 31
    | .httpLoaded rest wp =>
      s.written.length < front s + sockBufSize ∧ s.written.length + chunk wp s.readPos rest ≤ 2 ^ 31
    | _ => True

/-! ### The invariant -/

/-- What the main thread knows. -/
def WriterInv (s : State) : Prop :=
  match s.writer with
  | .loaded _ _ wp => wp = s.writePos
  | .stored byte _ wp =>
    wp = s.writePos ∧ s.written.length < 2 ^ 31 ∧ s.written.length < s.delivered.length + sockBufSize ∧
      s.data (s.written.length % sockBufSize) = byte
  | .httpLoaded rest wp => wp = s.writePos ∧ rest ≠ []
  | .httpCopying rest wp count i =>
    wp = s.writePos ∧ s.written.length < 2 ^ 31 ∧ i ≤ count ∧ count ≤ rest.length ∧
      s.written.length + count ≤ 2 ^ 31 ∧ s.written.length + count < s.delivered.length + sockBufSize ∧
      ∀ j, j < i → s.data ((s.written.length + j) % sockBufSize) = rest.getD j 0
  | _ => True

/-- What the worker knows. -/
def ReaderInv (s : State) : Prop :=
  match s.reader with
  | .loaded _ _ wp => ∃ a : ℕ, s.delivered.length ≤ a ∧ a ≤ s.written.length ∧ wp = toInt32 a
  | .copying _ _ rp => rp = s.readPos ∧ s.delivered.length < s.written.length
  | .storing _ _ rp => rp = s.readPos ∧ 0 < s.delivered.length
  | _ => True

/-- The invariant of the ring. -/
structure Inv (s : State) : Prop where
  writePos : s.writePos = toInt32 s.written.length
  bound : s.written.length ≤ 2 ^ 31
  readPos : s.readPos = toInt32 (front s)
  isPrefix : s.delivered <+: s.written
  room : s.written.length ≤ s.delivered.length + sockBufSize
  window : Window sockBufSize s.data s.written s.delivered.length
  writer : WriterInv s
  reader : ReaderInv s

theorem front_le (s : State) : front s ≤ s.delivered.length := by
  unfold front
  split <;> omega

theorem inv_fresh (isUdp : Bool) : Inv (fresh isUdp) where
  writePos := (toInt32_of_lt (by decide)).symm
  bound := Nat.zero_le _
  readPos := (toInt32_of_lt (by decide)).symm
  isPrefix := List.nil_prefix
  room := Nat.zero_le _
  window := window_nil _ _ _
  writer := trivial
  reader := trivial

/-- The main thread moves on without touching the ring. -/
theorem Inv.setWriter {s : State} (h : Inv s) {pc : WriterPc} {suspended : List (List UInt8)}
    (hpc : WriterInv { s with writer := pc, suspended := suspended }) :
    Inv { s with writer := pc, suspended := suspended } :=
  ⟨h.writePos, h.bound, h.readPos, h.isPrefix, h.room, h.window, hpc, h.reader⟩

/-- The worker moves on without touching the ring. -/
theorem Inv.setReader {s : State} (h : Inv s) {pc : ReaderPc} (hfront : front { s with reader := pc } = front s)
    (hpc : ReaderInv { s with reader := pc }) : Inv { s with reader := pc } where
  writePos := h.writePos
  bound := h.bound
  readPos := by rw [hfront]; exact h.readPos
  isPrefix := h.isPrefix
  room := h.room
  window := h.window
  writer := h.writer
  reader := hpc

/-! ### The writers -/

/-- **A response writes no more than there is room for**, if it does not find the ring full. -/
theorem chunk_le {written read : ℕ} (hle : read ≤ written) (hroom : written < read + sockBufSize)
    (rest : List UInt8) : written + chunk written read rest < read + sockBufSize := by
  have hsize : sockBufSize = 131072 := rfl
  have hrem : ((written : ℤ) - read + sockBufSize).tmod sockBufSize = written - read := by
    rw [Int.tmod_eq_emod_of_nonneg (by omega), Int.add_emod_right]
    exact Int.emod_eq_of_lt (by omega) (by omega)
  unfold chunk available
  rw [hrem]
  omega

theorem chunk_le_length (wp rp : ℤ) (rest : List UInt8) : chunk wp rp rest ≤ rest.length := by
  unfold chunk
  omega

theorem chunk_pos {wp rp : ℤ} {rest : List UInt8} (h : ¬ available wp rp ≤ 0) (hrest : rest ≠ []) :
    0 < chunk wp rp rest := by
  have hlen : 0 < rest.length := List.length_pos_of_ne_nil hrest
  unfold chunk
  omega

theorem inv_start {s : State} (h : Inv s) {pc : WriterPc}
    (hpc : WriterInv { s with writer := pc }) : Inv (start s pc) := by
  unfold start
  split
  · exact h.setWriter hpc
  · exact h

theorem inv_resume {s : State} (h : Inv s) (i : ℕ) : Inv (resume s i) := by
  unfold resume
  split
  · exact h.setWriter trivial
  · exact h

/-- What the reader knows stays true when more has been written. -/
theorem ReaderInv.written {s s' : State} (h : ReaderInv s) (hreader : s'.reader = s.reader)
    (hdelivered : s'.delivered = s.delivered) (hreadPos : s'.readPos = s.readPos)
    (hlen : s.written.length ≤ s'.written.length) : ReaderInv s' := by
  unfold ReaderInv at h ⊢
  rw [hreader, hdelivered, hreadPos]
  split
  · rename_i hpc
    rw [hpc] at h
    obtain ⟨a, hlo, hhi, hwp⟩ := h
    exact ⟨a, hlo, by omega, hwp⟩
  · rename_i hpc
    rw [hpc] at h
    exact ⟨h.1, by omega⟩
  · rename_i hpc
    rw [hpc] at h
    exact h
  · trivial

theorem inv_stepWrite {s : State} (h : Inv s) (hguard : Guarded s .stepWrite) : Inv (stepWrite s) := by
  have hw := h.writer
  have hguard := hguard rfl
  unfold stepWrite
  unfold WriterInv at hw
  cases hpc : s.writer with
  | idle => exact h
  | loop bytes =>
    cases bytes with
    | nil => exact h.setWriter trivial
    | cons byte rest => exact h.setWriter rfl
  | loaded byte rest wp =>
    rw [hpc] at hw hguard
    obtain ⟨hroom, hbound⟩ := hguard
    have hwp : wp = (s.written.length : ℤ) := by rw [hw, h.writePos, toInt32_of_lt hbound]
    have hstore : storeRem sockBufSize s.data wp byte =
        Function.update s.data (s.written.length % sockBufSize) byte := by rw [hwp, storeRem_natCast]
    refine ⟨h.writePos, h.bound, h.readPos, h.isPrefix, h.room, ?_, ⟨hw, hbound, hroom, ?_⟩, h.reader⟩
    · show Window _ (storeRem sockBufSize s.data wp byte) _ _
      rw [hstore]
      exact h.window.update hroom byte
    · show storeRem sockBufSize s.data wp byte _ = byte
      rw [hstore, Function.update_self]
  | stored byte rest wp =>
    rw [hpc] at hw
    obtain ⟨hwp, hbound, hroom, hbyte⟩ := hw
    have hlen : (s.written ++ [byte]).length = s.written.length + 1 := by simp
    refine ⟨?_, ?_, h.readPos, ?_, ?_, h.window.push hbyte, trivial, ?_⟩
    · show toInt32 (wp + 1) = toInt32 (s.written ++ [byte]).length
      rw [hwp, h.writePos, toInt32_of_lt hbound, hlen]
      rfl
    · show (s.written ++ [byte]).length ≤ 2 ^ 31
      omega
    · exact h.isPrefix.trans (List.prefix_append _ _)
    · show (s.written ++ [byte]).length ≤ s.delivered.length + sockBufSize
      omega
    · refine h.reader.written rfl rfl rfl ?_
      show s.written.length ≤ (s.written ++ [byte]).length
      omega
  | http rest =>
    cases rest with
    | nil => exact h.setWriter trivial
    | cons byte rest => exact h.setWriter ⟨rfl, List.cons_ne_nil _ _⟩
  | httpLoaded rest wp =>
    rw [hpc] at hw hguard
    obtain ⟨hwp, hrest⟩ := hw
    obtain ⟨hroom, hbound⟩ := hguard
    dsimp only
    split
    · exact h.setWriter trivial
    · rename_i havail
      have hpos := chunk_pos havail hrest
      have hfront := front_le s
      have hle := h.isPrefix.length_le
      have hwp' : wp = (s.written.length : ℤ) := by rw [hwp, h.writePos, toInt32_of_lt (by omega)]
      have hrp : s.readPos = (front s : ℤ) := by rw [h.readPos, toInt32_of_lt (by omega)]
      have hfits : s.written.length + chunk wp s.readPos rest < front s + sockBufSize := by
        rw [hwp', hrp]
        exact chunk_le (by omega) hroom rest
      refine h.setWriter ⟨hwp, ?_, Nat.zero_le _, chunk_le_length _ _ _, hbound, ?_, ?_⟩
      · show s.written.length < 2 ^ 31
        omega
      · show s.written.length + chunk wp s.readPos rest < s.delivered.length + sockBufSize
        omega
      · intro j hj
        exact absurd hj (Nat.not_lt_zero j)
  | httpCopying rest wp count i =>
    rw [hpc] at hw
    obtain ⟨hwp, hbound, hi, hcount, hbound', hroom, hcopied⟩ := hw
    have hwp' : wp = (s.written.length : ℤ) := by rw [hwp, h.writePos, toInt32_of_lt hbound]
    dsimp only
    split
    · rename_i hlt
      have hstore : storeRem sockBufSize s.data (wp + i) (rest.getD i 0) =
          Function.update s.data ((s.written.length + i) % sockBufSize) (rest.getD i 0) := by
        rw [hwp', ← Int.natCast_add, storeRem_natCast]
      refine ⟨h.writePos, h.bound, h.readPos, h.isPrefix, h.room, ?_, ?_, h.reader⟩
      · show Window _ (storeRem sockBufSize s.data (wp + i) (rest.getD i 0)) _ _
        rw [hstore]
        exact h.window.store (Nat.le_add_right _ _) (by omega) _
      · refine ⟨hwp, hbound, hlt, hcount, hbound', hroom, fun j hj => ?_⟩
        show storeRem sockBufSize s.data (wp + i) (rest.getD i 0) _ = _
        rw [hstore]
        -- the cells of a chunk are different ones
        rcases Nat.lt_or_ge j i with hji | hji
        · have hne : (s.written.length + j) % sockBufSize ≠ (s.written.length + i) % sockBufSize :=
            mod_ne_mod (by omega) (by
              have hle := h.isPrefix.length_le
              omega)
          rw [Function.update_of_ne hne]
          exact hcopied j hji
        · obtain rfl : j = i := by omega
          rw [Function.update_self]
    · rename_i hdone
      obtain rfl : i = count := by omega
      have htake : (rest.take i).length = i := by rw [List.length_take, Nat.min_eq_left hcount]
      have hlen : (s.written ++ rest.take i).length = s.written.length + i := by
        rw [List.length_append, htake]
      refine ⟨?_, ?_, h.readPos, ?_, ?_, ?_, trivial, ?_⟩
      · show toInt32 (wp + i) = toInt32 (s.written ++ rest.take i).length
        rw [hwp', hlen]
        rfl
      · show (s.written ++ rest.take i).length ≤ 2 ^ 31
        omega
      · exact h.isPrefix.trans (List.prefix_append _ _)
      · show (s.written ++ rest.take i).length ≤ s.delivered.length + sockBufSize
        omega
      · refine h.window.append fun j a hj => ?_
        have hji : j < i := by
          have hlt := (List.getElem?_eq_some_iff.1 hj).1
          omega
        rw [List.getElem?_take_of_lt hji] at hj
        have hcell := hcopied j hji
        rwa [List.getD_eq_getElem?_getD, hj, Option.getD_some] at hcell
      · refine h.reader.written rfl rfl rfl ?_
        show s.written.length ≤ (s.written ++ rest.take i).length
        omega

/-! ### The worker's accesses -/

theorem inv_socketRecvToArray {s : State} (h : Inv s) (len : ℕ) : Inv (socketRecvToArray s len) := by
  unfold socketRecvToArray
  split
  · rename_i hpc
    exact h.setReader (by simp only [front, hpc]) trivial
  · exact h

/-- What the main thread knows stays true when more has been delivered. -/
theorem WriterInv.delivered {s s' : State} (h : WriterInv s) (hwriter : s'.writer = s.writer)
    (hwritePos : s'.writePos = s.writePos) (hwritten : s'.written = s.written) (hdata : s'.data = s.data)
    (hlen : s.delivered.length ≤ s'.delivered.length) : WriterInv s' := by
  unfold WriterInv at h ⊢
  rw [hwriter, hwritePos, hwritten, hdata]
  split
  · rename_i hpc
    rwa [hpc] at h
  · rename_i hpc
    rw [hpc] at h
    obtain ⟨hwp, hbound, hroom, hbyte⟩ := h
    exact ⟨hwp, hbound, by omega, hbyte⟩
  · rename_i hpc
    rwa [hpc] at h
  · rename_i hpc
    rw [hpc] at h
    obtain ⟨hwp, hbound, hi, hcount, hbound', hroom, hcopied⟩ := h
    exact ⟨hwp, hbound, hi, hcount, hbound', by omega, hcopied⟩
  · trivial

theorem inv_stepRead {s : State} (h : Inv s) : Inv (stepRead s) := by
  have hr := h.reader
  have hbound := h.bound
  unfold ReaderInv at hr
  unfold stepRead
  cases hpc : s.reader with
  | idle => exact h
  | loop len got =>
    have hle := h.isPrefix.length_le
    dsimp only
    split
    · exact h.setReader (by simp only [front, hpc]) ⟨_, hle, Nat.le_refl _, h.writePos⟩
    · exact h.setReader (by simp only [front, hpc]) trivial
  | loaded len got wp =>
    rw [hpc] at hr
    obtain ⟨a, hlo, hhi, hwp⟩ := hr
    dsimp only
    split
    · exact h.setReader (by simp only [front, hpc]) trivial
    · rename_i hne
      refine h.setReader (by simp only [front, hpc]) ⟨rfl, ?_⟩
      -- the loaded position differs from the reader's, so there is a byte to take
      have hne' : a ≠ s.delivered.length := by
        rintro rfl
        apply hne
        rw [hwp, h.readPos]
        simp only [front, hpc]
      show s.delivered.length < s.written.length
      omega
  | copying len got rp =>
    rw [hpc] at hr
    obtain ⟨hrp, hlt⟩ := hr
    have hfront : front s = s.delivered.length := by simp only [front, hpc]
    have hrp' : rp = (s.delivered.length : ℤ) := by
      rw [hrp, h.readPos, hfront, toInt32_of_lt (by omega)]
    -- the byte has not been overwritten, by the window
    have hbyte : loadRem sockBufSize s.data 0 rp = s.written[s.delivered.length] := by
      rw [hrp', loadRem_natCast]
      exact h.window _ _ (Nat.le_refl _) (List.getElem?_eq_getElem hlt)
    have hlen : (s.delivered ++ [loadRem sockBufSize s.data 0 rp]).length = s.delivered.length + 1 := by simp
    refine ⟨h.writePos, h.bound, ?_, ?_, ?_, ?_, ?_, ⟨hrp, ?_⟩⟩
    · show s.readPos = toInt32 ((s.delivered ++ [loadRem sockBufSize s.data 0 rp]).length - 1 : ℕ)
      rw [hlen, Nat.add_sub_cancel, h.readPos, hfront]
    · show s.delivered ++ [loadRem sockBufSize s.data 0 rp] <+: s.written
      rw [hbyte]
      exact List.concat_get_prefix h.isPrefix hlt
    · have hroom := h.room
      show s.written.length ≤ (s.delivered ++ [loadRem sockBufSize s.data 0 rp]).length + sockBufSize
      omega
    · refine h.window.mono ?_
      show s.delivered.length ≤ (s.delivered ++ [loadRem sockBufSize s.data 0 rp]).length
      omega
    · refine h.writer.delivered rfl rfl rfl rfl ?_
      show s.delivered.length ≤ (s.delivered ++ [loadRem sockBufSize s.data 0 rp]).length
      omega
    · show 0 < (s.delivered ++ [loadRem sockBufSize s.data 0 rp]).length
      omega
  | storing len got rp =>
    rw [hpc] at hr
    obtain ⟨hrp, hpos⟩ := hr
    have hfront : front s = s.delivered.length - 1 := by simp only [front, hpc]
    have hle := h.isPrefix.length_le
    have hrp' : rp = ((s.delivered.length - 1 : ℕ) : ℤ) := by
      rw [hrp, h.readPos, hfront, toInt32_of_lt (by omega)]
    refine ⟨h.writePos, h.bound, ?_, h.isPrefix, h.room, h.window, h.writer, trivial⟩
    show toInt32 (rp + 1) = toInt32 s.delivered.length
    rw [hrp']
    congr 1
    omega
  | checking len got =>
    dsimp only
    split
    · exact h.setReader (by simp only [front, hpc]) trivial
    · exact h.setReader (by simp only [front, hpc]) trivial
  | waiting len got => exact h.setReader (by simp only [front, hpc]) trivial

/-! ### Runs of both sides -/

theorem inv_after {s : State} {ev : Event} (h : Inv s) (hguard : Guarded s ev) : Inv (after s ev) := by
  cases ev with
  | onData payload => exact inv_start h trivial
  | writeToSocketSab data => exact inv_start h trivial
  | handleHttpFetch fullResponse => exact inv_start h trivial
  | resume i => exact inv_resume h i
  | stepWrite => exact inv_stepWrite h hguard
  | socketRecvToArray len => exact inv_socketRecvToArray h len
  | stepRead => exact inv_stepRead h
  | close => exact ⟨h.writePos, h.bound, h.readPos, h.isPrefix, h.room, h.window, h.writer, h.reader⟩

/-- **Nothing is lost**, in every run in which each byte of the relay or of a name server finds a free cell
and no response finds the ring full, before the positions overflow. -/
theorem faithful_of_guarded {isUdp : Bool} {tr : List (Event × State)} (hrun : IsRun Step (fresh isUdp) tr)
    (hmeets : Meets Guarded (fresh isUdp) tr) : Throughout Faithful (fresh isUdp) tr := by
  have hstep : ∀ s ev s', Inv s → Guarded s ev → Step s ev s' → Inv s' := by
    rintro s ev s' h hguard rfl
    exact inv_after h hguard
  exact (throughout_of_meets hstep (inv_fresh isUdp) hrun hmeets).mono fun s h => ⟨h.isPrefix, h.window⟩

/-- A response of two bytes, and a call that takes one of them. -/
def response : List Event :=
  [.handleHttpFetch [1, 2], .stepWrite, .stepWrite, .stepWrite, .stepWrite, .stepWrite, .socketRecvToArray 1,
    .stepRead, .stepRead, .stepRead]

theorem faithful_of_guarded_response :
    Throughout Faithful (fresh false) (trace after (fresh false) response) := by
  refine faithful_of_guarded (isRun_trace _ _ _) ?_
  exact ⟨nofun, fun _ => trivial, fun _ => ⟨by decide, by decide⟩, fun _ => trivial, fun _ => trivial,
    fun _ => trivial, nofun,
    nofun, nofun, nofun, trivial⟩

/-! ### A peer that is faster than the guest -/

/-- Three accesses store a byte of `onData`, whatever the worker has read. -/
theorem foldl_stepWrite (l rest : List UInt8) {s : State} (hpc : s.writer = .loop (l ++ rest))
    (hwp : s.writePos = toInt32 s.written.length) :
    let s' := (List.replicate (3 * l.length) Event.stepWrite).foldl after s
    s'.writer = .loop rest ∧ s'.written = s.written ++ l ∧ s'.delivered = s.delivered ∧
      s'.writePos = toInt32 s'.written.length := by
  induction l generalizing s with
  | nil => exact ⟨hpc, (List.append_nil _).symm, rfl, hwp⟩
  | cons byte l ih =>
      have hsplit : 3 * (byte :: l).length = 3 + 3 * l.length := by rw [List.length_cons]; omega
      have hfirst : stepWrite s = { s with writer := .loaded byte (l ++ rest) s.writePos } := by
        unfold stepWrite
        rw [hpc]
        rfl
      have hthree : (List.replicate 3 Event.stepWrite).foldl after s =
          { s with
            data := storeRem sockBufSize s.data s.writePos byte
            writePos := toInt32 (s.writePos + 1)
            written := s.written ++ [byte]
            writer := .loop (l ++ rest) } := by
        show stepWrite (stepWrite (stepWrite s)) = _
        rw [hfirst]
        rfl
      rw [hsplit, List.replicate_add, List.foldl_append, hthree]
      have hnext : toInt32 (s.writePos + 1) = toInt32 (s.written ++ [byte]).length := by
        rw [hwp, List.length_append, List.length_singleton]
        exact Int.bmod_add_bmod
      obtain ⟨hwriter, hwritten, hdelivered, hpos⟩ := @ih
        { s with
          data := storeRem sockBufSize s.data s.writePos byte
          writePos := toInt32 (s.writePos + 1)
          written := s.written ++ [byte]
          writer := .loop (l ++ rest) } rfl hnext
      refine ⟨hwriter, ?_, hdelivered, hpos⟩
      rw [hwritten]
      simp

/-- A byte more than the ring has cells. -/
def burst : List UInt8 := List.replicate sockBufSize 0 ++ [1]

/-- The peer sends them while the guest does not read. -/
def outpaced : List Event :=
  .onData burst :: List.replicate (3 * sockBufSize) .stepWrite ++ [.stepWrite, .stepWrite]

theorem after_stepWrite (s : State) : after s .stepWrite = stepWrite s := rfl

/-- All but the last byte have gone in. -/
theorem foldl_outpaced : ∃ s : State, outpaced.foldl after (fresh false) = stepWrite (stepWrite s) ∧
    s.writer = .loop [1] ∧ s.written = List.replicate sockBufSize 0 ∧ s.delivered = [] ∧
      s.writePos = toInt32 s.written.length := by
  have hlen : (List.replicate sockBufSize (0 : UInt8)).length = sockBufSize := List.length_replicate
  have hstart : (onData (fresh false) burst).writer = .loop (List.replicate sockBufSize 0 ++ [1]) := rfl
  have hpos : (onData (fresh false) burst).writePos = toInt32 (onData (fresh false) burst).written.length :=
    (toInt32_of_lt (by decide)).symm
  obtain ⟨hwriter, hwritten, hdelivered, hpos'⟩ := foldl_stepWrite _ _ hstart hpos
  rw [hlen] at hwriter hwritten hdelivered hpos'
  refine ⟨_, ?_, hwriter, ?_, hdelivered, hpos'⟩
  · have hdata : after (fresh false) (.onData burst) = onData (fresh false) burst := rfl
    rw [outpaced, List.cons_append, List.foldl_cons, hdata, List.foldl_append, List.foldl_cons, List.foldl_cons,
      List.foldl_nil, after_stepWrite, after_stepWrite]
  · have hnone : (onData (fresh false) burst).written = [] := rfl
    rw [hwritten, hnone, List.nil_append]

/-- The last byte is stored over the first one, which nobody has read. -/
theorem first_byte_overwritten :
    IsRun Step (fresh false) (trace after (fresh false) outpaced) ∧
      ¬ Throughout Faithful (fresh false) (trace after (fresh false) outpaced) := by
  refine ⟨isRun_trace _ _ _, fun hall => ?_⟩
  have hlast := hall.final.unread
  obtain ⟨s, hfold, hwriter, hwritten, hdelivered, hpos⟩ := foldl_outpaced
  have hwp : s.writePos = (sockBufSize : ℤ) := by
    rw [hpos, hwritten, List.length_replicate]
    exact toInt32_of_lt (by decide)
  have hfirst : stepWrite s = { s with writer := .loaded 1 [] s.writePos } := by
    unfold stepWrite
    rw [hwriter]
  have hsecond : stepWrite (stepWrite s) =
      { s with data := Function.update s.data 0 1, writer := .stored 1 [] s.writePos } := by
    rw [hfirst]
    show { s with data := storeRem sockBufSize s.data s.writePos 1, writer := .stored 1 [] s.writePos } = _
    rw [hwp, storeRem_natCast, Nat.mod_self]
  rw [final_trace, hfold, hsecond] at hlast
  have hzero : s.written[0]? = some 0 := by
    rw [hwritten, List.getElem?_replicate, if_pos (by decide)]
  have hnone : s.delivered.length ≤ 0 := by
    rw [hdelivered]
    exact Nat.le_refl 0
  have hcell : Function.update s.data 0 1 0 = 0 := hlast 0 0 hnone hzero
  rw [Function.update_self] at hcell
  exact absurd hcell (by decide)

end SocketRing
