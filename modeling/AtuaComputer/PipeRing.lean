/-
**The rings of pipes.**

The data of a pipe does not pass through the kernel: every worker with a descriptor of the pipe reads and
writes its ring in the bridge's memory.  A byte is written in four steps (the position of the writers and
then that of the readers are loaded, the byte is stored, the position is stored) and read in four, and the
steps of all workers may be taken in any order.

This module has the ring with any number of writers and one reader, one event for each access to the
shared memory.  With one writer the ring is a queue in every run, but the reader may find the end closed
after it has found the ring empty and miss the bytes that came in between.  Several writers are the
subject of `PipeWriters`.

Main definitions:

* `PipeRing.State`, `PipeRing.after` — the ring, its writers and its reader;
* `PipeRing.Fifo` — the reader gets the accepted bytes in order, and none is overwritten in the ring;
* `PipeRing.Counted` — a call has put as many of its bytes into the stream as it counts;
* `PipeRing.NoRace` — no other store between a load and the store that belongs to it.

Main results:

* `PipeRing.inv_after` — what an event without a race keeps;
* `PipeRing.fifo_of_isRun` — **one reader and one writer: the ring is a queue in every run**;
* `PipeRing.eofDrained_iff` — **when a read that returns nothing has seen the whole stream**.
-/

import AtuaComputer.RingBuffer
import AtuaComputer.Runs

set_option relaxedAutoImplicit false
set_option autoImplicit false

namespace PipeRing

open Runs RingBuffer

/-! ### Calls -/

/-- `PIPE_BUF_SIZE`, the length of `data` -/
def pipeBufSize : ℕ := 65536

/-- A call that writes, with the bytes of its buffers. -/
inductive WriteCall where
  | write (buf : List UInt8)
  | writev (iov : List (List UInt8))

/-- The bytes in the order in which the loops visit them. -/
def WriteCall.bytes : WriteCall → List UInt8
  | .write buf => buf
  | .writev iov => iov.flatten

/-- A call that reads, with the lengths of its buffers. -/
inductive ReadCall where
  | read (count : UInt32)
  | readv (lens : List UInt32)

/-- The length that was asked for. -/
def ReadCall.requested : ReadCall → ℕ
  | .read count => count.toNat
  | .readv lens => (lens.map UInt32.toNat).sum

/-- The length at which the loops end.  A loop over a buffer that ends early ends the outer loop, too, so
the buffers of `readv` count as one; only `read` stops at the capacity. -/
def ReadCall.want : ReadCall → ℕ
  | .read count => min count.toNat pipeBufSize
  | .readv lens => (lens.map UInt32.toNat).sum

/-! ### State -/

/-- Where a writer is in its loop: it has written `written` of the bytes, and then it has loaded `wp`, seen
that `wp` is not the last free cell, and stored the byte.  `seen` is the number of bytes in the ring's
stream when `wp` was loaded. -/
inductive WriterPc where
  | idle
  | loop (bytes : List UInt8) (written : ℕ)
  | loaded (bytes : List UInt8) (written wp seen : ℕ)
  | checked (bytes : List UInt8) (written wp seen : ℕ)
  | stored (bytes : List UInt8) (written wp seen : ℕ)

/-- A writer, with the number of its calls. -/
structure Writer where
  pc : WriterPc
  call : ℕ

/-- Where the reader is in its loop. -/
inductive ReaderPc where
  | idle
  | loop (call : ReadCall) (got : ℕ)
  | loaded (call : ReadCall) (got wp : ℕ)
  | copying (call : ReadCall) (got rp : ℕ)
  | storing (call : ReadCall) (got rp : ℕ)
  | checking (call : ReadCall) (got wp : ℕ)
  | waiting (call : ReadCall) (got wp : ℕ)

/-- A byte in the stream, with the call that wrote it and whether that call has at most 4096 bytes. -/
structure Tagged (W : Type) where
  writer : W
  call : ℕ
  small : Bool
  byte : UInt8
deriving DecidableEq

/-- The ring with its writers and its reader, and the bytes that have gone in and out. -/
structure State (W : Type) where
  writePos : ℕ
  readPos : ℕ
  writeClosed : Bool
  data : ℕ → UInt8
  writers : W → Writer
  reader : ReaderPc
  accepted : List (Tagged W)
  delivered : List UInt8

section Model

variable {W : Type} [DecidableEq W]

/-- The bytes that the writers' calls have accepted. -/
def stream (s : State W) : List UInt8 := s.accepted.map Tagged.byte

/-- A writer moves on. -/
def setPc (s : State W) (w : W) (pc : WriterPc) : State W :=
  { s with writers := Function.update s.writers w { s.writers w with pc } }

/-! ### Steps -/

/-- The start of `localPipeWrite` or `localPipeWritev`. -/
def callWrite (s : State W) (w : W) (call : WriteCall) : State W :=
  match (s.writers w).pc with
  | .idle =>
    { s with
      writers := Function.update s.writers w ⟨.loop call.bytes 0, (s.writers w).call + 1⟩ }
  | _ => s

/-- The next access of a writer.  A full ring and the end of the bytes end the call. -/
def stepWrite (s : State W) (w : W) : State W :=
  match (s.writers w).pc with
  | .idle => s
  | .loop bytes written =>
    if written < bytes.length then
      setPc s w (.loaded bytes written s.writePos s.accepted.length)
    else setPc s w .idle
  | .loaded bytes written wp seen =>
    if (wp + 1) % pipeBufSize = s.readPos then setPc s w .idle
    else setPc s w (.checked bytes written wp seen)
  | .checked bytes written wp seen =>
    setPc { s with data := Function.update s.data wp (bytes.getD written 0) } w
      (.stored bytes written wp seen)
  | .stored bytes written wp _ =>
    setPc
      { s with
        writePos := (wp + 1) % pipeBufSize
        accepted :=
          s.accepted ++
            [⟨w, (s.writers w).call, decide (bytes.length ≤ 4096), bytes.getD written 0⟩] }
      w (.loop bytes (written + 1))

/-- The start of `localPipeRead` or `localPipeReadv`. -/
def callRead (s : State W) (call : ReadCall) : State W :=
  match s.reader with
  | .idle => { s with reader := .loop call 0 }
  | _ => s

/-- The next access of the reader.  A wait may end at any time: it has a time limit. -/
def stepRead (s : State W) : State W :=
  match s.reader with
  | .idle => s
  | .loop call got =>
    { s with reader := if got < call.want then .loaded call got s.writePos else .idle }
  | .loaded call got wp =>
    { s with reader := if s.readPos = wp then .checking call got wp else .copying call got s.readPos }
  | .copying call got rp =>
    { s with delivered := s.delivered ++ [s.data rp], reader := .storing call got rp }
  | .storing call got rp =>
    { s with readPos := (rp + 1) % pipeBufSize, reader := .loop call (got + 1) }
  | .checking call got wp =>
    { s with reader := if s.writeClosed ∨ 0 < got then .idle else .waiting call got wp }
  | .waiting call got _ => { s with reader := .loop call got }

/-- The call that reads, and what it returns, if it returns in its next access. -/
def returned (s : State W) : Option (ReadCall × ℕ) :=
  match s.reader with
  | .loop call got => if got < call.want then none else some (call, got)
  | .checking call got _ => if s.writeClosed ∨ 0 < got then some (call, got) else none
  | _ => none

/-- What happens: calls start and take their steps, and the bridge sets `write_closed`. -/
inductive Event (W : Type) where
  | callWrite (w : W) (call : WriteCall)
  | stepWrite (w : W)
  | callRead (call : ReadCall)
  | stepRead
  | close

/-- The ring after an event. -/
def after (s : State W) : Event W → State W
  | .callWrite w call => callWrite s w call
  | .stepWrite w => stepWrite s w
  | .callRead call => callRead s call
  | .stepRead => stepRead s
  | .close => { s with writeClosed := true }

/-- The step relation. -/
def Step (s : State W) (ev : Event W) (s' : State W) : Prop := s' = after s ev

/-- A new ring: the bridge has cleared the header, and nobody has used it. -/
structure Starts (s : State W) : Prop where
  writePos : s.writePos = 0
  readPos : s.readPos = 0
  writers : ∀ w, (s.writers w).pc = .idle
  reader : s.reader = .idle
  accepted : s.accepted = []
  delivered : s.delivered = []

/-- The ring of `create`. -/
def fresh : State W where
  writePos := 0
  readPos := 0
  writeClosed := false
  data _ := 0
  writers _ := ⟨.idle, 0⟩
  reader := .idle
  accepted := []
  delivered := []

/-! ### The queue -/

/-- The ring is a queue: what the reader got is the beginning of what the writers' calls accepted, the
bytes it has not read lie in the ring, and the positions are positions of cells. -/
structure Fifo (s : State W) : Prop where
  isPrefix : s.delivered <+: stream s
  unread : Window pipeBufSize s.data (stream s) s.delivered.length
  writePos_lt : s.writePos < pipeBufSize
  readPos_lt : s.readPos < pipeBufSize

/-- No byte is stored into the cell of a byte that has not been read. -/
def KeepsUnread (s : State W) : Event W → State W → Prop
  | .stepWrite w, _ =>
    ∀ bytes written wp seen, (s.writers w).pc = .checked bytes written wp seen →
      ∀ k, s.delivered.length ≤ k → k < (stream s).length → k % pipeBufSize ≠ wp
  | _, _ => True

/-- Since a writer loaded the position, no other one has stored it; and when it stores the position itself,
the cell holds its byte. -/
def NoRace (s : State W) : Event W → Prop
  | .stepWrite w =>
    match (s.writers w).pc with
    | .checked _ _ _ seen => s.accepted.length = seen
    | .stored bytes written wp seen => s.accepted.length = seen ∧ s.data wp = bytes.getD written 0
    | _ => True
  | _ => True

/-- The call in progress: its bytes, and how many of them it has written. -/
def WriterPc.progress : WriterPc → Option (List UInt8 × ℕ)
  | .idle => none
  | .loop bytes written | .loaded bytes written _ _ | .checked bytes written _ _
  | .stored bytes written _ _ => some (bytes, written)

/-- The bytes that a call has put into the stream. -/
def callBytes (accepted : List (Tagged W)) (w : W) (call : ℕ) : List UInt8 :=
  (accepted.filter fun t => t.writer = w ∧ t.call = call).map Tagged.byte

/-- A call that has counted `written` bytes has put the first `written` of its bytes into the stream. -/
def Counted (s : State W) : Prop :=
  ∀ w bytes written, (s.writers w).pc.progress = some (bytes, written) →
    callBytes s.accepted w (s.writers w).call = bytes.take written

/-- No byte of the stream belongs to a call that has not started, and the bytes of the call in progress are
marked with its length. -/
def Numbered (s : State W) : Prop :=
  ∀ t ∈ s.accepted, t.call ≤ (s.writers t.writer).call ∧
    ∀ bytes written, (s.writers t.writer).pc.progress = some (bytes, written) →
      t.call = (s.writers t.writer).call → t.small = decide (bytes.length ≤ 4096)

/-! ### The invariant -/

/-- The number of bytes before the position of the reader. -/
def consumed (s : State W) : ℕ :=
  match s.reader with
  | .storing _ _ _ => s.delivered.length - 1
  | _ => s.delivered.length

/-- What a writer knows. -/
def WriterInv (s : State W) (pc : WriterPc) : Prop :=
  match pc with
  | .idle | .loop _ _ => True
  | .loaded bytes written wp seen =>
    written < bytes.length ∧ seen ≤ s.accepted.length ∧ (s.accepted.length = seen → wp = s.writePos)
  | .checked bytes written wp seen | .stored bytes written wp seen =>
    written < bytes.length ∧ seen ≤ s.accepted.length ∧
      (s.accepted.length = seen →
        wp = s.writePos ∧ s.accepted.length + 1 < consumed s + pipeBufSize)

/-- What the reader knows. -/
def ReaderInv (s : State W) : Prop :=
  match s.reader with
  | .loaded call got wp =>
    got < call.want ∧ ∃ a, consumed s ≤ a ∧ a ≤ s.accepted.length ∧ wp = a % pipeBufSize
  | .copying _ _ rp => rp = s.readPos ∧ s.delivered.length < s.accepted.length
  | .storing _ _ rp => rp = s.readPos ∧ 0 < s.delivered.length
  | .checking call got wp => got < call.want ∧ wp = s.readPos
  | _ => True

/-- The invariant of the ring. -/
structure Inv (s : State W) : Prop where
  writePos : s.writePos = s.accepted.length % pipeBufSize
  readPos : s.readPos = consumed s % pipeBufSize
  isPrefix : s.delivered <+: stream s
  room : s.accepted.length < consumed s + pipeBufSize
  window : Window pipeBufSize s.data (stream s) (consumed s)
  writers : ∀ w, WriterInv s (s.writers w).pc
  reader : ReaderInv s

theorem pipeBufSize_pos : 0 < pipeBufSize := by decide

end Model

/-! ### Facts about the invariant -/

section Facts

variable {W : Type} {s s' : State W}

@[simp] theorem length_stream (s : State W) : (stream s).length = s.accepted.length := by
  simp [stream]

theorem consumed_le (s : State W) : consumed s ≤ s.delivered.length := by
  unfold consumed
  split <;> omega

theorem Inv.delivered_le (h : Inv s) : s.delivered.length ≤ s.accepted.length := by
  have hle := h.isPrefix.length_le
  rwa [length_stream] at hle

theorem Inv.fifo (h : Inv s) : Fifo s where
  isPrefix := h.isPrefix
  unread := h.window.mono (consumed_le s)
  writePos_lt := by
    rw [h.writePos]
    exact Nat.mod_lt _ pipeBufSize_pos
  readPos_lt := by
    rw [h.readPos]
    exact Nat.mod_lt _ pipeBufSize_pos

/-- What a writer knows stays true when the stream grows or the reader moves on. -/
theorem WriterInv.mono {pc : WriterPc} (h : WriterInv s pc)
    (hlen : s.accepted.length ≤ s'.accepted.length)
    (hpos : s'.accepted.length = s.accepted.length → s'.writePos = s.writePos)
    (hcons : consumed s ≤ consumed s') : WriterInv s' pc := by
  cases pc with
  | idle => trivial
  | loop => trivial
  | loaded bytes written wp seen =>
    obtain ⟨hlt, hseen, hwp⟩ := h
    refine ⟨hlt, by omega, fun heq => ?_⟩
    rw [hpos (by omega)]
    exact hwp (by omega)
  | checked bytes written wp seen =>
    obtain ⟨hlt, hseen, hwp⟩ := h
    refine ⟨hlt, by omega, fun heq => ?_⟩
    obtain ⟨hw, hroom⟩ := hwp (by omega)
    exact ⟨by rw [hpos (by omega), hw], by omega⟩
  | stored bytes written wp seen =>
    obtain ⟨hlt, hseen, hwp⟩ := h
    refine ⟨hlt, by omega, fun heq => ?_⟩
    obtain ⟨hw, hroom⟩ := hwp (by omega)
    exact ⟨by rw [hpos (by omega), hw], by omega⟩

/-- What the reader knows stays true when the stream grows. -/
theorem ReaderInv.mono (h : ReaderInv s) (hreader : s'.reader = s.reader)
    (hpos : s'.readPos = s.readPos) (hdel : s'.delivered = s.delivered)
    (hlen : s.accepted.length ≤ s'.accepted.length) : ReaderInv s' := by
  have hcons : consumed s' = consumed s := by
    unfold consumed
    rw [hreader, hdel]
  unfold ReaderInv at h ⊢
  rw [hreader, hpos, hdel, hcons]
  cases hr : s.reader with
  | loaded call got wp =>
    rw [hr] at h
    obtain ⟨hlt, a, ha, hle, hwp⟩ := h
    exact ⟨hlt, a, ha, by omega, hwp⟩
  | copying call got rp =>
    rw [hr] at h
    exact ⟨h.1, by omega⟩
  | idle => trivial
  | loop => trivial
  | storing call got rp =>
    rw [hr] at h
    exact h
  | checking call got wp =>
    rw [hr] at h
    exact h
  | waiting => trivial

theorem starts_fresh : Starts (fresh : State W) :=
  ⟨rfl, rfl, fun _ => rfl, rfl, rfl, rfl⟩

theorem inv_of_starts (h : Starts s) : Inv s := by
  have hcons : consumed s = 0 := by
    unfold consumed
    rw [h.reader, h.delivered]
    rfl
  have hstream : stream s = [] := by rw [stream, h.accepted, List.map_nil]
  exact
    { writePos := by rw [h.writePos, h.accepted]; rfl
      readPos := by rw [h.readPos, hcons]; rfl
      isPrefix := by rw [h.delivered]; exact List.nil_prefix
      room := by rw [h.accepted, hcons]; exact pipeBufSize_pos
      window := by rw [hstream]; exact window_nil _ _ _
      writers := fun w => by rw [h.writers w]; trivial
      reader := by unfold ReaderInv; rw [h.reader]; trivial }

/-! ### One access -/

/-- A store into the cell behind the window keeps the window. -/
theorem Inv.store (h : Inv s) (hroom : s.accepted.length + 1 < consumed s + pipeBufSize) (a : UInt8) :
    Inv { s with data := Function.update s.data s.writePos a } where
  writePos := h.writePos
  readPos := h.readPos
  isPrefix := h.isPrefix
  room := h.room
  window := by
    have hlt : (stream s).length < consumed s + pipeBufSize := by rw [length_stream]; omega
    have hwin := h.window.update hlt a
    rwa [length_stream, ← h.writePos] at hwin
  writers := h.writers
  reader := h.reader

/-- The store of the position makes the byte behind the window the next one of the stream. -/
theorem Inv.publish (h : Inv s) (hroom : s.accepted.length + 1 < consumed s + pipeBufSize) (t : Tagged W)
    (hdata : s.data s.writePos = t.byte) :
    Inv { s with writePos := (s.writePos + 1) % pipeBufSize, accepted := s.accepted ++ [t] } := by
  have hlen : (s.accepted ++ [t]).length = s.accepted.length + 1 := by simp
  have hstream : (s.accepted ++ [t]).map Tagged.byte = stream s ++ [t.byte] := by simp [stream]
  refine ⟨?_, h.readPos, ?_, ?_, ?_, ?_, ?_⟩
  · show (s.writePos + 1) % pipeBufSize = _
    rw [h.writePos, hlen, Nat.mod_add_mod]
  · show s.delivered <+: (s.accepted ++ [t]).map Tagged.byte
    rw [hstream]
    exact h.isPrefix.trans (List.prefix_append _ _)
  · show (s.accepted ++ [t]).length < _
    rw [hlen]
    exact hroom
  · show Window pipeBufSize s.data ((s.accepted ++ [t]).map Tagged.byte) (consumed s)
    rw [hstream]
    refine h.window.push ?_
    rw [length_stream, ← h.writePos]
    exact hdata
  · intro w
    refine (h.writers w).mono ?_ ?_ (Nat.le_refl _)
    · show s.accepted.length ≤ (s.accepted ++ [t]).length
      omega
    · intro heq
      have heq : (s.accepted ++ [t]).length = s.accepted.length := heq
      omega
  · refine h.reader.mono rfl rfl rfl ?_
    show s.accepted.length ≤ (s.accepted ++ [t]).length
    omega

/-- The reader moves on without touching the ring. -/
theorem Inv.setReader (h : Inv s) {pc : ReaderPc} (hcons : consumed { s with reader := pc } = consumed s)
    (hr : ReaderInv { s with reader := pc }) : Inv { s with reader := pc } where
  writePos := h.writePos
  readPos := by rw [hcons]; exact h.readPos
  isPrefix := h.isPrefix
  room := by rw [hcons]; exact h.room
  window := by rw [hcons]; exact h.window
  writers w := (h.writers w).mono (Nat.le_refl _) (fun _ => rfl) (Nat.le_of_eq hcons.symm)
  reader := hr

theorem inv_callRead (h : Inv s) (call : ReadCall) : Inv (callRead s call) := by
  unfold callRead
  split
  · rename_i hpc
    refine h.setReader ?_ trivial
    simp [consumed, hpc]
  · exact h

/-- The byte at the position of the reader is the next one of the stream. -/
theorem Inv.next (h : Inv s) (hcons : consumed s = s.delivered.length)
    (hlt : s.delivered.length < s.accepted.length) :
    s.delivered ++ [s.data s.readPos] <+: stream s := by
  have hlt' : s.delivered.length < (stream s).length := by rwa [length_stream]
  have hdata : s.data s.readPos = (stream s)[s.delivered.length] := by
    rw [h.readPos, hcons]
    exact h.window _ _ (Nat.le_of_eq hcons) (List.getElem?_eq_getElem hlt')
  obtain ⟨rest, hrest⟩ := h.isPrefix
  rw [hdata]
  cases rest with
  | nil =>
    rw [← hrest] at hlt'
    simp at hlt'
  | cons b rest =>
    refine ⟨rest, ?_⟩
    have hb : (stream s)[s.delivered.length] = b := by simp [← hrest]
    rw [hb, ← hrest, List.append_assoc, List.singleton_append]

/-- The reader's next access. -/
theorem inv_stepRead (h : Inv s) : Inv (stepRead s) := by
  have hr := h.reader
  unfold ReaderInv at hr
  unfold stepRead
  split
  · exact h
  · rename_i call got hpc
    have hcons : consumed s = s.delivered.length := by simp [consumed, hpc]
    split
    · rename_i hlt
      refine h.setReader (by simp [consumed, hpc]) ⟨hlt, s.accepted.length, ?_, Nat.le_refl _, h.writePos⟩
      exact h.delivered_le
    · exact h.setReader (by simp [consumed, hpc]) trivial
  · rename_i call got wp hpc
    have hcons : consumed s = s.delivered.length := by simp [consumed, hpc]
    rw [hpc] at hr
    obtain ⟨hlt, a, ha, hle, hwp⟩ := hr
    split
    · rename_i hempty
      exact h.setReader (by simp [consumed, hpc]) ⟨hlt, hempty.symm⟩
    · rename_i hne
      refine h.setReader (by simp [consumed, hpc]) ⟨rfl, ?_⟩
      have hne' : a ≠ s.delivered.length := by
        rintro rfl
        exact hne (by rw [hwp, h.readPos, hcons])
      show s.delivered.length < s.accepted.length
      omega
  · rename_i call got rp hpc
    have hcons : consumed s = s.delivered.length := by simp [consumed, hpc]
    rw [hpc] at hr
    obtain ⟨hrp, hlt⟩ := hr
    -- the byte is delivered, its cell is not free yet
    have hcons' : consumed
        { s with delivered := s.delivered ++ [s.data rp], reader := .storing call got rp } = consumed s := by
      simp [consumed, hpc]
    refine ⟨h.writePos, ?_, ?_, ?_, ?_, ?_, ⟨hrp, ?_⟩⟩
    · rw [hcons']
      exact h.readPos
    · rw [hrp]
      exact h.next hcons hlt
    · rw [hcons']
      exact h.room
    · rw [hcons']
      exact h.window
    · intro w
      exact (h.writers w).mono (Nat.le_refl _) (fun _ => rfl) (Nat.le_of_eq hcons'.symm)
    · simp
  · rename_i call got rp hpc
    have hcons : consumed s = s.delivered.length - 1 := by simp [consumed, hpc]
    rw [hpc] at hr
    obtain ⟨hrp, hpos⟩ := hr
    have hcons' : consumed { s with readPos := (rp + 1) % pipeBufSize, reader := .loop call (got + 1) } =
        consumed s + 1 := by
      rw [hcons]
      show s.delivered.length = s.delivered.length - 1 + 1
      omega
    have hroom := h.room
    refine ⟨h.writePos, ?_, h.isPrefix, ?_, ?_, ?_, trivial⟩
    · rw [hcons', hrp, h.readPos]
      exact Nat.mod_add_mod _ _ _
    · rw [hcons']
      show s.accepted.length < _
      omega
    · rw [hcons']
      exact h.window.mono (Nat.le_succ _)
    · intro w
      exact (h.writers w).mono (Nat.le_refl _) (fun _ => rfl) (by omega)
  · rename_i call got wp hpc
    split
    · exact h.setReader (by simp [consumed, hpc]) trivial
    · exact h.setReader (by simp [consumed, hpc]) trivial
  · rename_i call got wp hpc
    exact h.setReader (by simp [consumed, hpc]) trivial

/-- A store without a race is not into the cell of an unread byte. -/
theorem keepsUnread {ev : Event W} (h : Inv s) (hrace : NoRace s ev) (s' : State W) :
    KeepsUnread s ev s' := by
  cases ev with
  | callWrite w call => trivial
  | stepWrite w =>
    intro bytes written wp seen hpc k hk hlt
    have hw := h.writers w
    rw [hpc] at hw
    simp only [NoRace, hpc] at hrace
    obtain ⟨hpos, hroom⟩ := hw.2.2 hrace
    rw [length_stream] at hlt
    have hcons := consumed_le s
    rw [hpos, h.writePos]
    exact mod_ne_mod hlt (by omega)
  | callRead call => trivial
  | stepRead => trivial
  | close => trivial

end Facts

section Events

variable {W : Type} [DecidableEq W] {s : State W}

/-- A writer that moves on without touching the ring needs to know only what its next place asks for. -/
theorem Inv.setWriter (h : Inv s) {w : W} {wr : Writer} (hw : WriterInv s wr.pc) :
    Inv { s with writers := Function.update s.writers w wr } where
  writePos := h.writePos
  readPos := h.readPos
  isPrefix := h.isPrefix
  room := h.room
  window := h.window
  writers := by
    intro w'
    rcases eq_or_ne w' w with rfl | hne
    · show WriterInv _ (Function.update s.writers w' wr w').pc
      rw [Function.update_self]
      exact hw.mono (Nat.le_refl _) (fun _ => rfl) (Nat.le_refl _)
    · show WriterInv _ (Function.update s.writers w wr w').pc
      rw [Function.update_of_ne hne]
      exact (h.writers w').mono (Nat.le_refl _) (fun _ => rfl) (Nat.le_refl _)
  reader := h.reader

theorem inv_callWrite (h : Inv s) (w : W) (call : WriteCall) : Inv (callWrite s w call) := by
  unfold callWrite
  split
  · exact h.setWriter trivial
  · exact h

/-- A writer's access without a race. -/
theorem inv_stepWrite (h : Inv s) (w : W) (hrace : NoRace s (.stepWrite w)) : Inv (stepWrite s w) := by
  have hw := h.writers w
  unfold stepWrite
  split
  · exact h
  · rename_i bytes written hpc
    split
    · rename_i hlt
      exact h.setWriter ⟨hlt, Nat.le_refl _, fun _ => rfl⟩
    · exact h.setWriter trivial
  · rename_i bytes written wp seen hpc
    rw [hpc] at hw
    obtain ⟨hlt, hseen, hwp⟩ := hw
    split
    · exact h.setWriter trivial
    · rename_i hfull
      refine h.setWriter ⟨hlt, hseen, fun heq => ?_⟩
      have hpos : wp = s.writePos := hwp heq
      have hroom := h.room
      refine ⟨hpos, ?_⟩
      -- with one cell less the ring would be full
      by_contra hno
      have heq' : s.accepted.length + 1 = consumed s + pipeBufSize := by omega
      apply hfull
      rw [hpos, h.writePos, Nat.mod_add_mod, heq', Nat.add_mod_right, h.readPos]
  · rename_i bytes written wp seen hpc
    rw [hpc] at hw
    simp only [NoRace, hpc] at hrace
    obtain ⟨hlt, hseen, hwp⟩ := hw
    obtain ⟨hpos, hroom⟩ := hwp hrace
    rw [hpos]
    exact (h.store hroom _).setWriter ⟨hlt, hseen, fun _ => ⟨rfl, hroom⟩⟩
  · rename_i bytes written wp seen hpc
    rw [hpc] at hw
    simp only [NoRace, hpc] at hrace
    obtain ⟨hlt, hseen, hwp⟩ := hw
    obtain ⟨hpos, hroom⟩ := hwp hrace.1
    rw [hpos] at hrace ⊢
    exact (h.publish hroom _ hrace.2).setWriter trivial

/-- **Every event without a race keeps the invariant.** -/
theorem inv_after {ev : Event W} (h : Inv s) (hrace : NoRace s ev) : Inv (after s ev) := by
  cases ev with
  | callWrite w call => exact inv_callWrite h w call
  | stepWrite w => exact inv_stepWrite h w hrace
  | callRead call => exact inv_callRead h call
  | stepRead => exact inv_stepRead h
  | close => exact ⟨h.writePos, h.readPos, h.isPrefix, h.room, h.window, h.writers, h.reader⟩

/-! ### What the calls have written -/

/-- A writer that moves on within a call, or out of it. -/
theorem Counted.setPc (h : Counted s) {w : W} {pc : WriterPc}
    (hpc : ∀ p, pc.progress = some p → (s.writers w).pc.progress = some p) : Counted (setPc s w pc) := by
  intro w' bytes written hw'
  rcases eq_or_ne w' w with rfl | hne
  · simp only [PipeRing.setPc, Function.update_self] at hw' ⊢
    exact h w' bytes written (hpc _ hw')
  · simp only [PipeRing.setPc, Function.update_of_ne hne] at hw' ⊢
    exact h w' bytes written hw'

theorem Numbered.setPc (h : Numbered s) {w : W} {pc : WriterPc}
    (hpc : ∀ bytes written, pc.progress = some (bytes, written) →
      ∃ written', (s.writers w).pc.progress = some (bytes, written')) : Numbered (setPc s w pc) := by
  intro t ht
  obtain ⟨hle, hsize⟩ := h t ht
  rcases eq_or_ne t.writer w with rfl | hne
  · simp only [PipeRing.setPc, Function.update_self]
    refine ⟨hle, fun bytes written hp hcall => ?_⟩
    obtain ⟨written', hp'⟩ := hpc bytes written hp
    exact hsize bytes written' hp' hcall
  · simp only [PipeRing.setPc, Function.update_of_ne hne]
    exact ⟨hle, hsize⟩

theorem callBytes_append_self (accepted : List (Tagged W)) (t : Tagged W) :
    callBytes (accepted ++ [t]) t.writer t.call = callBytes accepted t.writer t.call ++ [t.byte] := by
  simp [callBytes, List.filter_append]

theorem callBytes_append_of_ne (accepted : List (Tagged W)) {t : Tagged W} {w : W} (h : t.writer ≠ w)
    (call : ℕ) : callBytes (accepted ++ [t]) w call = callBytes accepted w call := by
  simp [callBytes, List.filter_append, h]

/-- A call that has not started has no byte in the stream. -/
theorem Numbered.callBytes_eq_nil (h : Numbered s) (w : W) {call : ℕ} (hcall : (s.writers w).call < call) :
    callBytes s.accepted w call = [] := by
  rw [callBytes, List.map_eq_nil_iff, List.filter_eq_nil_iff]
  intro t ht htag
  obtain ⟨rfl, rfl⟩ := of_decide_eq_true htag
  obtain ⟨hle, -⟩ := h t ht
  omega

theorem counted_callWrite (h : Counted s) (hn : Numbered s) (w : W) (call : WriteCall) :
    Counted (callWrite s w call) ∧ Numbered (callWrite s w call) := by
  unfold callWrite
  split
  · constructor
    · intro w' bytes written hw'
      rcases eq_or_ne w' w with rfl | hne
      · simp only [Function.update_self, WriterPc.progress, Option.some.injEq, Prod.mk.injEq] at hw' ⊢
        obtain ⟨rfl, rfl⟩ := hw'
        rw [List.take_zero]
        exact hn.callBytes_eq_nil w' (Nat.lt_succ_self _)
      · simp only [Function.update_of_ne hne] at hw' ⊢
        exact h w' bytes written hw'
    · intro t ht
      obtain ⟨hle, hsize⟩ := hn t ht
      rcases eq_or_ne t.writer w with rfl | hne
      · simp only [Function.update_self]
        refine ⟨by omega, fun _ _ _ hcall => ?_⟩
        omega
      · simp only [Function.update_of_ne hne]
        exact ⟨hle, hsize⟩
  · exact ⟨h, hn⟩

theorem counted_stepWrite (h : Counted s) (hn : Numbered s) (hinv : Inv s) (w : W) :
    Counted (stepWrite s w) ∧ Numbered (stepWrite s w) := by
  have hw := hinv.writers w
  unfold stepWrite
  split
  · exact ⟨h, hn⟩
  · rename_i bytes written hpc
    split
    · exact ⟨h.setPc (by rw [hpc]; exact fun p hp => hp), hn.setPc (by rw [hpc]; exact fun b k hp => ⟨k, hp⟩)⟩
    · exact ⟨h.setPc (fun p hp => by cases hp), hn.setPc (fun b k hp => by cases hp)⟩
  · rename_i bytes written wp seen hpc
    split
    · exact ⟨h.setPc (fun p hp => by cases hp), hn.setPc (fun b k hp => by cases hp)⟩
    · exact ⟨h.setPc (by rw [hpc]; exact fun p hp => hp), hn.setPc (by rw [hpc]; exact fun b k hp => ⟨k, hp⟩)⟩
  · rename_i bytes written wp seen hpc
    have hdata : Counted { s with data := Function.update s.data wp (bytes.getD written 0) } := h
    have hndata : Numbered { s with data := Function.update s.data wp (bytes.getD written 0) } := hn
    exact ⟨hdata.setPc (by rw [hpc]; exact fun p hp => hp),
      hndata.setPc (by rw [hpc]; exact fun b k hp => ⟨k, hp⟩)⟩
  · rename_i bytes written wp seen hpc
    rw [hpc] at hw
    have hlt : written < bytes.length := hw.1
    have hprog : (s.writers w).pc.progress = some (bytes, written) := by rw [hpc]; rfl
    constructor
    · -- the byte is counted for the call of its writer and for no other
      intro w' bytes' written' hw'
      rcases eq_or_ne w' w with rfl | hne
      · simp only [setPc, Function.update_self, WriterPc.progress, Option.some.injEq, Prod.mk.injEq] at hw' ⊢
        obtain ⟨rfl, rfl⟩ := hw'
        have hold : callBytes s.accepted w' (s.writers w').call = bytes.take written :=
          h w' bytes written hprog
        have hself := callBytes_append_self s.accepted
          ⟨w', (s.writers w').call, decide (bytes.length ≤ 4096), bytes.getD written 0⟩
        rw [hself, hold, List.getD_eq_getElem?_getD, List.getElem?_eq_getElem hlt, Option.getD_some]
        exact List.take_append_getElem hlt
      · simp only [setPc, Function.update_of_ne hne] at hw' ⊢
        rw [callBytes_append_of_ne _ hne.symm]
        exact h w' bytes' written' hw'
    · refine Numbered.setPc (fun t ht => ?_) ?_
      · rcases List.mem_append.1 ht with ht | ht
        · exact hn t ht
        · rw [List.mem_singleton.1 ht]
          refine ⟨Nat.le_refl _, fun bytes' written' hp _ => ?_⟩
          obtain ⟨rfl, rfl⟩ : bytes = bytes' ∧ written = written' := by simpa [hprog] using hp
          rfl
      · rintro b k hp
        obtain ⟨rfl, rfl⟩ : bytes = b ∧ written + 1 = k := by simpa [WriterPc.progress] using hp
        exact ⟨written, hprog⟩

omit [DecidableEq W] in
/-- The reader touches neither the writers nor the stream nor the bytes in the ring. -/
theorem callRead_frame (s : State W) (call : ReadCall) :
    (callRead s call).accepted = s.accepted ∧ (callRead s call).writers = s.writers ∧
      (callRead s call).data = s.data := by
  unfold callRead
  split <;> exact ⟨rfl, rfl, rfl⟩

omit [DecidableEq W] in
theorem stepRead_frame (s : State W) :
    (stepRead s).accepted = s.accepted ∧ (stepRead s).writers = s.writers ∧ (stepRead s).data = s.data := by
  unfold stepRead
  split <;> exact ⟨rfl, rfl, rfl⟩

theorem Counted.congr {s' : State W} (h : Counted s) (hn : Numbered s) (hacc : s'.accepted = s.accepted)
    (hwr : s'.writers = s.writers) : Counted s' ∧ Numbered s' := by
  unfold Counted Numbered
  rw [hacc, hwr]
  exact ⟨h, hn⟩

theorem counted_after {ev : Event W} (h : Counted s) (hn : Numbered s) (hinv : Inv s) :
    Counted (after s ev) ∧ Numbered (after s ev) := by
  cases ev with
  | callWrite w call => exact counted_callWrite h hn w call
  | stepWrite w => exact counted_stepWrite h hn hinv w
  | callRead call =>
    obtain ⟨hacc, hwr, -⟩ := callRead_frame s call
    exact h.congr hn hacc hwr
  | stepRead =>
    obtain ⟨hacc, hwr, -⟩ := stepRead_frame s
    exact h.congr hn hacc hwr
  | close => exact ⟨h, hn⟩

theorem counted_of_starts (h : Starts s) : Counted s ∧ Numbered s := by
  constructor
  · intro w bytes written hw
    rw [h.writers w] at hw
    cases hw
  · intro t ht
    rw [h.accepted] at ht
    cases ht

end Events

/-! ### One writer -/

section OneWriter

variable {s : State Unit}

/-- What the only writer loaded is still true, and what it stored is still in its cell. -/
def Solo (s : State Unit) : Prop :=
  match (s.writers ()).pc with
  | .idle | .loop _ _ => True
  | .loaded _ _ _ seen | .checked _ _ _ seen => s.accepted.length = seen
  | .stored bytes written wp seen => s.accepted.length = seen ∧ s.data wp = bytes.getD written 0

theorem Solo.noRace (h : Solo s) (ev : Event Unit) : NoRace s ev := by
  cases ev with
  | callWrite w call => trivial
  | stepWrite w =>
    unfold Solo at h
    unfold NoRace
    cases hpc : (s.writers ()).pc with
    | idle => simp only [hpc]
    | loop bytes written => simp only [hpc]
    | loaded bytes written wp seen => simp only [hpc]
    | checked bytes written wp seen =>
      rw [hpc] at h
      simpa only [hpc] using h
    | stored bytes written wp seen =>
      rw [hpc] at h
      simpa only [hpc] using h
  | callRead call => trivial
  | stepRead => trivial
  | close => trivial

theorem Solo.congr {s' : State Unit} (h : Solo s) (hacc : s'.accepted = s.accepted)
    (hwr : s'.writers = s.writers) (hdata : s'.data = s.data) : Solo s' := by
  unfold Solo
  rw [hacc, hwr, hdata]
  exact h

theorem solo_stepWrite (h : Solo s) : Solo (stepWrite s ()) := by
  unfold Solo at h
  unfold stepWrite
  split
  · rename_i hpc
    unfold Solo
    rw [hpc]
    trivial
  · split
    · simp [Solo, setPc]
    · simp [Solo, setPc]
  · rename_i bytes written wp seen hpc
    rw [hpc] at h
    split
    · simp [Solo, setPc]
    · simpa [Solo, setPc] using h
  · rename_i bytes written wp seen hpc
    rw [hpc] at h
    simpa [Solo, setPc] using h
  · simp [Solo, setPc]

theorem solo_callWrite (h : Solo s) (call : WriteCall) : Solo (callWrite s () call) := by
  unfold callWrite
  split
  · simp [Solo]
  · exact h

theorem solo_after {ev : Event Unit} (h : Solo s) : Solo (after s ev) := by
  cases ev with
  | callWrite w call => exact solo_callWrite h call
  | stepWrite w => exact solo_stepWrite h
  | callRead call =>
    obtain ⟨hacc, hwr, hdata⟩ := callRead_frame s call
    exact h.congr hacc hwr hdata
  | stepRead =>
    obtain ⟨hacc, hwr, hdata⟩ := stepRead_frame s
    exact h.congr hacc hwr hdata
  | close => exact h.congr rfl rfl rfl

/-- The invariant of a ring with one writer. -/
structure Alone (s : State Unit) : Prop where
  inv : Inv s
  solo : Solo s
  counted : Counted s
  numbered : Numbered s

theorem alone_of_starts (hs : Starts s) : Alone s := by
  obtain ⟨hc, hn⟩ := counted_of_starts hs
  refine ⟨inv_of_starts hs, ?_, hc, hn⟩
  unfold Solo
  rw [hs.writers]
  trivial

theorem alone_after {ev : Event Unit} (h : Alone s) : Alone (after s ev) := by
  have hafter : Counted (after s ev) ∧ Numbered (after s ev) := counted_after h.counted h.numbered h.inv
  obtain ⟨hc, hn⟩ := hafter
  exact ⟨inv_after h.inv (h.solo.noRace ev), solo_after h.solo, hc, hn⟩

/-- **One reader and one writer.**  In every run the reader gets the beginning of what the writer's calls
have accepted, the unread bytes lie in the ring, no store is into the cell of one of them, and the
positions stay below the capacity. -/
theorem fifo_of_isRun {tr : List (Event Unit × State Unit)} (hs : Starts s) (hrun : IsRun Step s tr) :
    Throughout (fun s => Fifo s ∧ Counted s) s tr ∧ EachStep KeepsUnread s tr := by
  have hstep : ∀ s ev s', Alone s → Step s ev s' → Alone s' := by
    rintro s ev s' h rfl
    exact alone_after h
  constructor
  · exact (throughout_of_isRun hstep (alone_of_starts hs) hrun).mono fun s h => ⟨h.inv.fifo, h.counted⟩
  · refine eachStep_of_isRun (fun s ev s' h hs' => ⟨hstep s ev s' h hs', ?_⟩) (alone_of_starts hs) hrun
    exact keepsUnread h.inv (h.solo.noRace ev) s'

/-- A call that writes, and one that reads what it has written. -/
def roundTrip (bytes : List UInt8) : List (Event Unit) :=
  .callWrite () (.write bytes) :: List.replicate (4 * bytes.length + 1) (.stepWrite ()) ++
    .callRead (.read (UInt32.ofNat bytes.length)) :: List.replicate (4 * bytes.length + 1) .stepRead

/-- All cells but two are used once, and then three bytes go around the end of the ring, with the reader between
the accesses of the writer. -/
def aroundTheEnd : List (Event Unit) :=
  roundTrip (List.replicate 65534 1) ++
    [.callWrite () (.writev [[7], [8, 9]]), .callRead (.readv [2, 1]), .stepRead] ++
      (List.replicate 14 [.stepWrite (), .stepRead]).flatten

theorem fifo_of_isRun_aroundTheEnd :
    Throughout (fun s => Fifo s ∧ Counted s) (fresh : State Unit) (trace after fresh aroundTheEnd) ∧
      EachStep KeepsUnread (fresh : State Unit) (trace after fresh aroundTheEnd) :=
  fifo_of_isRun starts_fresh (isRun_trace _ _ _)

/-! ### The end of the stream -/

/-- The writes come before the close: no call starts after it, and none is under way at it. -/
def WritesFirst (s : State Unit) : Event Unit → Prop
  | .callWrite _ _ => s.writeClosed = false
  | .close => (s.writers ()).pc = .idle
  | _ => True

/-- The steps of a writer that closes its end when it is done. -/
def CloseStep (s : State Unit) (ev : Event Unit) (s' : State Unit) : Prop :=
  WritesFirst s ev ∧ Step s ev s'

/-- A call that was asked for bytes and returns none tells the truth: the end is closed and every byte has
been delivered. -/
def EofDrained (s : State Unit) (ev : Event Unit) (_ : State Unit) : Prop :=
  ev = .stepRead → ∀ call, returned s = some (call, 0) → 0 < call.requested →
    s.writeClosed = true ∧ s.delivered = stream s

/-- No byte comes between the reader's load of the position of the writer and its load of `write_closed`,
if it finds the end closed and has nothing yet. -/
def NoLateByte (s : State Unit) (ev : Event Unit) : Prop :=
  ev = .stepRead → ∀ call wp, s.reader = .checking call 0 wp → s.writeClosed = true → s.writePos = wp

/-- The loops run for a call exactly when it was asked for bytes. -/
theorem ReadCall.want_pos_iff (call : ReadCall) : 0 < call.want ↔ 0 < call.requested := by
  cases call with
  | read count =>
    have hpos := pipeBufSize_pos
    show 0 < min count.toNat pipeBufSize ↔ 0 < count.toNat
    omega
  | readv lens => exact Iff.rfl

/-- The positions of the reader and the writer agree only when every byte has been delivered. -/
theorem Inv.drained_iff (h : Inv s) (hcons : consumed s = s.delivered.length) :
    s.writePos = s.readPos ↔ s.delivered = stream s := by
  have hle := h.delivered_le
  have hroom := h.room
  constructor
  · intro hpos
    rw [h.writePos, h.readPos, hcons] at hpos
    have hlen : s.accepted.length = s.delivered.length := mod_inj (by omega) (by omega) hpos
    exact h.isPrefix.eq_of_length (by rw [length_stream, hlen])
  · intro hall
    rw [h.writePos, h.readPos, hcons, ← length_stream, ← hall]

/-- A call returns in the access that finds the end closed, or when it has all it wants. -/
theorem returned_zero {call : ReadCall} (h : returned s = some (call, 0)) (hreq : 0 < call.requested) :
    ∃ wp, s.reader = .checking call 0 wp ∧ s.writeClosed = true := by
  rw [← call.want_pos_iff] at hreq
  unfold returned at h
  split at h
  · split at h
    · cases h
    · obtain ⟨rfl, rfl⟩ : _ = call ∧ _ = 0 := by simpa using h
      omega
  · rename_i call' got wp hpc
    split at h
    · rename_i hor
      obtain ⟨rfl, rfl⟩ : call' = call ∧ got = 0 := by simpa using h
      exact ⟨wp, hpc, hor.resolve_right (Nat.lt_irrefl 0)⟩
    · cases h
  · cases h

theorem eofDrained_step_iff {ev : Event Unit} {s' : State Unit} (h : Inv s) :
    EofDrained s ev s' ↔ NoLateByte s ev := by
  refine forall_congr' fun _ => ?_
  have hr := h.reader
  have hchecking : ∀ call wp, s.reader = .checking call 0 wp →
      consumed s = s.delivered.length ∧ 0 < call.want ∧ wp = s.readPos := by
    intro call wp hpc
    unfold ReaderInv at hr
    rw [hpc] at hr
    exact ⟨by simp [consumed, hpc], hr⟩
  constructor
  · intro hall call wp hpc hclosed
    obtain ⟨hcons, hwant, hwp⟩ := hchecking call wp hpc
    have hret : returned s = some (call, 0) := by simp [returned, hpc, hclosed]
    rw [hwp]
    exact (h.drained_iff hcons).2 (hall call hret (call.want_pos_iff.1 hwant)).2
  · intro hguard call hret hreq
    obtain ⟨wp, hpc, hclosed⟩ := returned_zero hret hreq
    obtain ⟨hcons, -, hwp⟩ := hchecking call wp hpc
    refine ⟨hclosed, (h.drained_iff hcons).1 ?_⟩
    rw [← hwp]
    exact hguard call wp hpc hclosed

/-- **The end of the stream.**  In a run in which the writes come before the close, every read that was
asked for bytes and returns none has seen the whole stream exactly when no byte came between its load of
the position and its load of `write_closed`. -/
theorem eofDrained_iff {tr : List (Event Unit × State Unit)} (hs : Starts s)
    (hrun : IsRun CloseStep s tr) : EachStep EofDrained s tr ↔ Meets NoLateByte s tr := by
  refine eachStep_iff_meets (I := Alone) ?_ ?_ (alone_of_starts hs) hrun
  · rintro s ev s' h ⟨-, rfl⟩
    exact alone_after h
  · intro s ev s' h _
    exact eofDrained_step_iff h.inv

/-- The reader finds the ring empty, then a byte comes and the end is closed, and then the reader finds the
end closed. -/
def lateByte : List (Event Unit) :=
  [.callRead (.read 1), .stepRead, .stepRead, .callWrite () (.write [7]), .stepWrite (), .stepWrite (),
    .stepWrite (), .stepWrite (), .stepWrite (), .close, .stepRead]

theorem isRun_lateByte : IsRun CloseStep fresh (trace after fresh lateByte) :=
  ⟨⟨trivial, rfl⟩, ⟨trivial, rfl⟩, ⟨trivial, rfl⟩, ⟨rfl, rfl⟩, ⟨trivial, rfl⟩, ⟨trivial, rfl⟩, ⟨trivial, rfl⟩,
    ⟨trivial, rfl⟩, ⟨trivial, rfl⟩, ⟨rfl, rfl⟩, ⟨trivial, rfl⟩, trivial⟩

/-- The byte is never delivered: the reader takes the end for the end of the stream. -/
theorem eof_before_lateByte :
    Starts (fresh : State Unit) ∧ IsRun CloseStep fresh (trace after fresh lateByte) ∧
      ¬ EachStep EofDrained fresh (trace after fresh lateByte) := by
  refine ⟨starts_fresh, isRun_lateByte, ?_⟩
  rintro ⟨-, -, -, -, -, -, -, -, -, -, hlast, -⟩
  obtain ⟨-, hall⟩ := hlast rfl (.read 1) rfl (by decide)
  have hlen := congrArg List.length hall
  exact absurd hlen (by decide)

theorem eofDrained_iff_lateByte :
    EachStep EofDrained fresh (trace after fresh lateByte) ↔ Meets NoLateByte fresh (trace after fresh lateByte) :=
  eofDrained_iff starts_fresh isRun_lateByte

end OneWriter

end PipeRing
