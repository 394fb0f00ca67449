/-
**The ring of the standard input.**

The page puts the bytes of `writeStdin` into a ring of 4096 cells, and `term_read` in the worker of the
first process takes them out.  The two positions run on without bound and are reduced when a cell is
accessed; a third word counts the bytes that are available.  The page adds to the count in one atomic step,
but the worker loads it and stores it back in two, and the page does not look whether the cell it writes
is free.

Main definitions:

* `StdinRing.State`, `StdinRing.after` — the ring, the page and the worker, one event for each access;
* `StdinRing.Faithful` — the bytes come out in order, and none is lost or overwritten;
* `StdinRing.Guarded` — the condition.

Main results:

* `StdinRing.inv_stepWrite`, `StdinRing.inv_stepRead` — what an access that meets the condition keeps;
* `StdinRing.faithful_of_meets` — so the ring is faithful in a run.
-/

import AtuaComputer.RingBuffer
import AtuaComputer.Runs
import Mathlib.Data.List.Infix

set_option relaxedAutoImplicit false
set_option autoImplicit false

namespace StdinRing

open Runs RingBuffer

/-! ### The cells -/

/-- The number of cells. -/
def cells : ℕ := 4096

/-- The value a word keeps of what is stored into it. -/
def toInt32 (n : ℤ) : ℤ := n.bmod (2 ^ 32)

/-- `this._stdinData[wp % 4096] = b`.  An assignment to a negative index is ignored. -/
def storeCell (data : ℕ → UInt8) (wp : ℤ) (b : UInt8) : ℕ → UInt8 :=
  if 0 ≤ wp.tmod cells then Function.update data (wp.tmod cells).toNat b else data

/-- `data[rp % 4096]`, as it arrives in the array of bytes of the memory. -/
def loadCell (data : ℕ → UInt8) (rp : ℤ) : UInt8 :=
  if 0 ≤ rp.tmod cells then data (rp.tmod cells).toNat else 0

theorem toInt32_of_nonneg {n : ℤ} (h : 0 ≤ n) (hlt : n < 2 ^ 31) : toInt32 n = n :=
  Int.bmod_eq_of_le (by omega) (by omega)

theorem toInt32_of_lt {n : ℕ} (h : n < 2 ^ 31) : toInt32 n = n := toInt32_of_nonneg (by omega) (by omega)

theorem storeCell_natCast (data : ℕ → UInt8) (n : ℕ) (b : UInt8) :
    storeCell data n b = Function.update data (n % cells) b := storeRem_natCast cells data n b

theorem loadCell_natCast (data : ℕ → UInt8) (n : ℕ) : loadCell data n = data (n % cells) :=
  loadRem_natCast cells data 0 n

/-! ### State -/

/-- Where `writeStdin` is in its loop: it has loaded `wp`, stored the byte, stored the position. -/
inductive WriterPc where
  | idle
  | loop (bytes : List UInt8)
  | loaded (byte : UInt8) (rest : List UInt8) (wp : ℤ)
  | stored (byte : UInt8) (rest : List UInt8) (wp : ℤ)
  | posted (rest : List UInt8)
deriving DecidableEq

/-- Where `term_read` is: before its first look at the count, in the loop that waits, and in the loop that
reads.  There it has seen that the count is not 0, loaded `rp`, copied the byte, stored the position and
loaded the count. -/
inductive ReaderPc where
  | idle
  | starting (len : ℤ)
  | waiting (len : ℤ) (waited : ℕ)
  | blocked (len : ℤ) (waited : ℕ)
  | woken (len : ℤ)
  | loop (len : ℤ) (got : ℕ)
  | available (len : ℤ) (got : ℕ)
  | copying (len : ℤ) (got : ℕ) (rp : ℤ)
  | copied (len : ℤ) (got : ℕ) (rp : ℤ)
  | moved (len : ℤ) (got : ℕ)
  | counting (len : ℤ) (got : ℕ) (count : ℤ)
deriving DecidableEq

/-- The three words and the cells, where the page and the worker are, and the bytes that have gone in and
out. -/
structure State where
  writePos : ℤ
  readPos : ℤ
  count : ℤ
  data : ℕ → UInt8
  writer : WriterPc
  reader : ReaderPc
  written : List UInt8
  delivered : List UInt8

/-! ### Steps -/

/-- The start of `writeStdin`. -/
def callWrite (s : State) (bytes : List UInt8) : State :=
  match s.writer with
  | .idle => { s with writer := .loop bytes }
  | _ => s

/-- The next access of `writeStdin`. -/
def stepWrite (s : State) : State :=
  match s.writer with
  | .idle => s
  | .loop [] => { s with writer := .idle }
  | .loop (byte :: rest) => { s with writer := .loaded byte rest s.writePos }
  | .loaded byte rest wp => { s with data := storeCell s.data wp byte, writer := .stored byte rest wp }
  | .stored byte rest wp =>
    { s with
      writePos := toInt32 (wp + 1)
      written := s.written ++ [byte]
      writer := .posted rest }
  | .posted rest => { s with count := toInt32 (s.count + 1), writer := .loop rest }

/-- The start of `term_read`. -/
def callRead (s : State) (len : ℤ) : State :=
  match s.reader with
  | .idle => { s with reader := .starting len }
  | _ => s

/-- The next access of `term_read`.  A wait may end at any time: it has a time limit. -/
def stepRead (s : State) : State :=
  match s.reader with
  | .idle => s
  | .starting len => { s with reader := if s.count = 0 then .waiting len 0 else .loop len 0 }
  | .waiting len waited =>
    { s with reader := if s.count = 0 then .blocked len waited else .woken len }
  | .blocked len waited =>
    { s with reader := if 30 ≤ waited + 1 then .woken len else .waiting len (waited + 1) }
  | .woken len => { s with reader := if s.count = 0 then .idle else .loop len 0 }
  | .loop len got =>
    { s with reader := if got < len ∧ s.count ≠ 0 then .available len got else .idle }
  | .available len got => { s with reader := .copying len got s.readPos }
  | .copying len got rp =>
    { s with delivered := s.delivered ++ [loadCell s.data rp], reader := .copied len got rp }
  | .copied len got rp => { s with readPos := toInt32 (rp + 1), reader := .moved len got }
  | .moved len got => { s with reader := .counting len got s.count }
  | .counting len got count => { s with count := toInt32 (count - 1), reader := .loop len (got + 1) }

/-- What happens: calls start and take their steps. -/
inductive Event where
  | callWrite (bytes : List UInt8)
  | stepWrite
  | callRead (len : ℤ)
  | stepRead

/-- The ring after an event. -/
def after (s : State) : Event → State
  | .callWrite bytes => callWrite s bytes
  | .stepWrite => stepWrite s
  | .callRead len => callRead s len
  | .stepRead => stepRead s

/-- The step relation. -/
def Step (s : State) (ev : Event) (s' : State) : Prop := s' = after s ev

/-- The ring before anything is written. -/
def fresh : State where
  writePos := 0
  readPos := 0
  count := 0
  data _ := 0
  writer := .idle
  reader := .idle
  written := []
  delivered := []

/-! ### The queue -/

/-- The number of bytes that `term_read` is done with.  It is not done with a byte before it has counted
it. -/
def consumed (s : State) : ℕ :=
  match s.reader with
  | .copied _ _ _ | .moved _ _ | .counting _ _ _ => s.delivered.length - 1
  | _ => s.delivered.length

/-- The ring is faithful: what came out is the beginning of what went in, and what has not come out lies in
the ring; the count is between 0 and the number of bytes in the queue; and while no call is in progress, it
is the number of all the bytes that have not come out. -/
structure Faithful (s : State) : Prop where
  isPrefix : s.delivered <+: s.written
  unread : Window cells s.data s.written s.delivered.length
  nonneg : 0 ≤ s.count
  le_queued : s.count + consumed s ≤ s.written.length
  allAvailable : s.writer = .idle → s.reader = .idle → s.count + s.delivered.length = s.written.length

/-- A byte is stored only into a free cell, and while the positions do not overflow. -/
def StoresSafely (s : State) : WriterPc → Prop
  | .loaded _ _ _ => s.written.length < s.delivered.length + cells ∧ s.written.length < 2 ^ 31
  | _ => True

/-- Nothing is added to the count between the load and the store of `term_read`. -/
def CountsAlone (s : State) : ReaderPc → Prop
  | .counting _ _ count => s.count = count
  | _ => True

/-- The condition on an event. -/
def Guarded (s : State) : Event → Prop
  | .stepWrite => StoresSafely s s.writer
  | .stepRead => CountsAlone s s.reader
  | .callWrite _ | .callRead _ => True

instance (s : State) : (pc : WriterPc) → Decidable (StoresSafely s pc)
  | .loaded _ _ _ => inferInstanceAs (Decidable (_ ∧ _))
  | .idle | .loop _ | .stored _ _ _ | .posted _ => isTrue trivial

instance (s : State) : (pc : ReaderPc) → Decidable (CountsAlone s pc)
  | .counting _ _ _ => inferInstanceAs (Decidable (_ = _))
  | .idle | .starting _ | .waiting _ _ | .blocked _ _ | .woken _ | .loop _ _ | .available _ _
  | .copying _ _ _ | .copied _ _ _ | .moved _ _ => isTrue trivial

instance (s : State) : (ev : Event) → Decidable (Guarded s ev)
  | .stepWrite => inferInstanceAs (Decidable (StoresSafely s s.writer))
  | .stepRead => inferInstanceAs (Decidable (CountsAlone s s.reader))
  | .callWrite _ | .callRead _ => isTrue trivial

/-! ### The invariant -/

/-- The number of bytes before the position of the reader. -/
def front (s : State) : ℕ :=
  match s.reader with
  | .copied _ _ _ => s.delivered.length - 1
  | _ => s.delivered.length

/-- The number of bytes in the ring that are not yet counted. -/
def uncounted (s : State) : ℕ :=
  match s.writer with
  | .posted _ => 1
  | _ => 0

/-- What `writeStdin` knows. -/
def WriterInv (s : State) : Prop :=
  match s.writer with
  | .loaded _ _ wp => wp = s.writePos
  | .stored byte _ wp =>
    wp = s.writePos ∧ s.written.length < 2 ^ 31 ∧ s.written.length < s.delivered.length + cells ∧
      s.data (s.written.length % cells) = byte
  | _ => True

/-- What `term_read` knows. -/
def ReaderInv (s : State) : Prop :=
  match s.reader with
  | .available _ _ => s.delivered.length + uncounted s < s.written.length
  | .copying _ _ rp => rp = s.readPos ∧ s.delivered.length + uncounted s < s.written.length
  | .copied _ _ rp => rp = s.readPos ∧ 0 < s.delivered.length
  | .moved _ _ | .counting _ _ _ => 0 < s.delivered.length
  | _ => True

/-- The invariant of the ring. -/
structure Inv (s : State) : Prop where
  writePos : s.writePos = toInt32 s.written.length
  bound : s.written.length ≤ 2 ^ 31
  readPos : s.readPos = toInt32 (front s)
  isPrefix : s.delivered <+: s.written
  room : s.written.length ≤ s.delivered.length + cells
  window : Window cells s.data s.written s.delivered.length
  counted : s.count + uncounted s + consumed s = s.written.length
  available : s.delivered.length + uncounted s ≤ s.written.length
  writer : WriterInv s
  reader : ReaderInv s

theorem consumed_le (s : State) : consumed s ≤ s.delivered.length := by
  unfold consumed
  split <;> omega

theorem le_consumed (s : State) : s.delivered.length ≤ consumed s + 1 := by
  unfold consumed
  split <;> omega

theorem Inv.faithful {s : State} (h : Inv s) : Faithful s := by
  have hcounted := h.counted
  have havailable := h.available
  have hconsumed := consumed_le s
  refine ⟨h.isPrefix, h.window, by omega, by omega, fun hw hr => ?_⟩
  simp only [uncounted, consumed, hw, hr] at hcounted
  omega

theorem inv_fresh : Inv fresh where
  writePos := (toInt32_of_lt (by decide)).symm
  bound := Nat.zero_le _
  readPos := (toInt32_of_lt (by decide)).symm
  isPrefix := List.nil_prefix
  room := Nat.zero_le _
  window := window_nil _ _ _
  counted := rfl
  available := Nat.le_refl _
  writer := trivial
  reader := trivial

/-! ### The page -/

/-- A change of the place of `writeStdin` that leaves the rest alone. -/
theorem Inv.setWriter {s : State} (h : Inv s) {pc : WriterPc}
    (huncounted : uncounted { s with writer := pc } = uncounted s) (hpc : WriterInv { s with writer := pc }) :
    Inv { s with writer := pc } where
  writePos := h.writePos
  bound := h.bound
  readPos := h.readPos
  isPrefix := h.isPrefix
  room := h.room
  window := h.window
  counted := by rw [huncounted]; exact h.counted
  available := by rw [huncounted]; exact h.available
  writer := hpc
  reader := by
    have hreader := h.reader
    unfold ReaderInv at hreader ⊢
    rw [huncounted]
    exact hreader

theorem inv_callWrite {s : State} (h : Inv s) (bytes : List UInt8) : Inv (callWrite s bytes) := by
  unfold callWrite
  cases hw : s.writer with
  | idle => exact h.setWriter (by simp only [uncounted, hw]) trivial
  | loop bytes => exact h
  | loaded byte rest wp => exact h
  | stored byte rest wp => exact h
  | posted rest => exact h

theorem inv_stepWrite {s : State} (h : Inv s) (hguard : Guarded s .stepWrite) : Inv (stepWrite s) := by
  have hwriter := h.writer
  unfold stepWrite
  rw [Guarded] at hguard
  rw [WriterInv] at hwriter
  cases hw : s.writer with
  | idle => exact h
  | loop bytes =>
      cases bytes with
      | nil => exact h.setWriter (by simp only [uncounted, hw]) trivial
      | cons byte rest => exact h.setWriter (by simp only [uncounted, hw]) rfl
  | loaded byte rest wp =>
      rw [hw] at hguard hwriter
      obtain ⟨hroom, hbound⟩ : _ ∧ _ := hguard
      have hwp : wp = s.written.length := by rw [hwriter, h.writePos, toInt32_of_lt hbound]
      -- the guard: the cell is free
      have hstored : Inv { s with data := storeCell s.data wp byte } :=
        { h with
          window := by rw [hwp, storeCell_natCast]; exact h.window.update hroom byte
          writer := by rw [WriterInv, hw]; exact hwriter }
      refine hstored.setWriter (by simp only [uncounted, hw]) ⟨hwriter, hbound, hroom, ?_⟩
      show storeCell s.data wp byte (s.written.length % cells) = byte
      rw [hwp, storeCell_natCast, Function.update_self]
  | stored byte rest wp =>
      rw [hw] at hwriter
      obtain ⟨hwp, hbound, hroom, hbyte⟩ : _ ∧ _ ∧ _ ∧ _ := hwriter
      have hcounted := h.counted
      have havailable := h.available
      have hreader := h.reader
      simp only [uncounted, hw] at hcounted havailable
      simp only [ReaderInv, uncounted, hw] at hreader
      refine
        { writePos := ?_, bound := ?_, readPos := h.readPos, isPrefix := ?_, room := ?_, window := ?_,
          counted := ?_, available := ?_, writer := trivial, reader := ?_ }
      · show toInt32 (wp + 1) = _
        rw [hwp, h.writePos, toInt32_of_lt hbound, List.length_append]
        rfl
      · rw [List.length_append]
        exact hbound
      · exact h.isPrefix.trans (List.prefix_append _ _)
      · rw [List.length_append]
        exact hroom
      · exact h.window.push hbyte
      · show s.count + (1 : ℕ) + consumed s = _
        rw [List.length_append, List.length_singleton]
        omega
      · show s.delivered.length + 1 ≤ _
        rw [List.length_append, List.length_singleton]
        omega
      · -- what the reader has seen stays available: the new byte is not counted yet
        unfold ReaderInv
        cases hr : s.reader <;> simp only [hr, uncounted, List.length_append, List.length_singleton] at hreader ⊢ <;>
          omega
  | posted rest =>
      have hcounted := h.counted
      have havailable := h.available
      have hreader := h.reader
      simp only [uncounted, hw] at hcounted havailable
      simp only [ReaderInv, uncounted, hw] at hreader
      refine { h with counted := ?_, available := ?_, writer := trivial, reader := ?_ }
      · have hroom := h.room
        have hle := consumed_le s
        have hge := le_consumed s
        have hcells : cells = 4096 := rfl
        show toInt32 (s.count + 1) + (0 : ℕ) + consumed s = s.written.length
        rw [toInt32_of_nonneg (by omega) (by omega)]
        omega
      · show s.delivered.length + 0 ≤ s.written.length
        omega
      · unfold ReaderInv
        cases hr : s.reader <;> simp only [hr, uncounted] at hreader ⊢ <;> omega

/-! ### The worker -/

/-- A change of the place of `term_read` that leaves the rest alone. -/
theorem Inv.setReader {s : State} (h : Inv s) {pc : ReaderPc}
    (hfront : front { s with reader := pc } = front s)
    (hconsumed : consumed { s with reader := pc } = consumed s) (hpc : ReaderInv { s with reader := pc }) :
    Inv { s with reader := pc } where
  writePos := h.writePos
  bound := h.bound
  readPos := by rw [hfront]; exact h.readPos
  isPrefix := h.isPrefix
  room := h.room
  window := h.window
  counted := by rw [hconsumed]; exact h.counted
  available := h.available
  writer := h.writer
  reader := hpc

theorem inv_callRead {s : State} (h : Inv s) (len : ℤ) : Inv (callRead s len) := by
  unfold callRead
  cases hr : s.reader with
  | idle => exact h.setReader (by simp only [front, hr]) (by simp only [consumed, hr]) trivial
  | _ => exact h

/-- Before `term_read` has found a byte, it may go anywhere where it has not found one. -/
theorem Inv.look {s : State} (h : Inv s) {pc : ReaderPc} (hfront : front s = s.delivered.length)
    (hconsumed : consumed s = s.delivered.length)
    (hpc : pc = .idle ∨ (∃ len waited, pc = .waiting len waited ∨ pc = .blocked len waited) ∨
      (∃ len, pc = .woken len) ∨ ∃ len got, pc = .loop len got) : Inv { s with reader := pc } := by
  rcases hpc with rfl | ⟨len, waited, rfl | rfl⟩ | ⟨len, rfl⟩ | ⟨len, got, rfl⟩ <;>
    exact h.setReader hfront.symm hconsumed.symm trivial

theorem inv_stepRead {s : State} (h : Inv s) (hguard : Guarded s .stepRead) : Inv (stepRead s) := by
  have hreader := h.reader
  have hcounted := h.counted
  have havailable := h.available
  unfold stepRead
  rw [Guarded] at hguard
  rw [ReaderInv] at hreader
  cases hr : s.reader with
  | idle => exact h
  | starting len =>
      exact h.look (by simp only [front, hr]) (by simp only [consumed, hr]) (by split <;> simp)
  | waiting len waited =>
      exact h.look (by simp only [front, hr]) (by simp only [consumed, hr]) (by split <;> simp)
  | blocked len waited =>
      exact h.look (by simp only [front, hr]) (by simp only [consumed, hr]) (by split <;> simp)
  | woken len =>
      exact h.look (by simp only [front, hr]) (by simp only [consumed, hr]) (by split <;> simp)
  | loop len got =>
      simp only [consumed, hr] at hcounted
      by_cases hfound : got < len ∧ s.count ≠ 0
      · simp only [if_pos hfound]
        refine h.setReader (by simp only [front, hr]) (by simp only [consumed, hr]) ?_
        show s.delivered.length + uncounted s < s.written.length
        omega
      · simp only [if_neg hfound]
        exact h.look (by simp only [front, hr]) (by simp only [consumed, hr]) (.inl rfl)
  | available len got =>
      rw [hr] at hreader
      exact h.setReader (by simp only [front, hr]) (by simp only [consumed, hr]) ⟨rfl, hreader⟩
  | copying len got rp =>
      rw [hr] at hreader
      obtain ⟨hrp, hlt⟩ : _ ∧ _ := hreader
      have hbound := h.bound
      have hpos : rp = s.delivered.length := by
        rw [hrp, h.readPos]
        simp only [front, hr]
        exact toInt32_of_lt (by omega)
      have hnum : s.delivered.length < s.written.length := by omega
      -- the window says what is in the cells between the reader and the writer
      have hcell : loadCell s.data rp = s.written[s.delivered.length] := by
        rw [hpos, loadCell_natCast]
        exact h.window _ _ (Nat.le_refl _) (List.getElem?_eq_getElem hnum)
      refine
        { writePos := h.writePos, bound := h.bound, readPos := ?_, isPrefix := ?_, room := ?_,
          window := ?_, counted := ?_, available := ?_, writer := ?_, reader := ?_ }
      · show s.readPos = toInt32 ((s.delivered ++ [loadCell s.data rp]).length - 1 : ℕ)
        rw [h.readPos, List.length_append, List.length_singleton, Nat.add_sub_cancel]
        simp only [front, hr]
      · show s.delivered ++ [loadCell s.data rp] <+: s.written
        rw [hcell]
        exact List.concat_get_prefix h.isPrefix hnum
      · have hroom := h.room
        rw [List.length_append]
        exact Nat.le_trans hroom (by omega)
      · refine h.window.mono ?_
        rw [List.length_append]
        exact Nat.le_add_right _ _
      · show s.count + uncounted s + ((s.delivered ++ [loadCell s.data rp]).length - 1 : ℕ) = _
        rw [List.length_append, List.length_singleton, Nat.add_sub_cancel]
        simp only [consumed, hr] at hcounted
        exact hcounted
      · rw [List.length_append, List.length_singleton]
        show s.delivered.length + 1 + uncounted s ≤ s.written.length
        omega
      · have hwriter := h.writer
        unfold WriterInv at hwriter ⊢
        cases hw : s.writer with
        | stored byte rest wp =>
            rw [hw] at hwriter
            obtain ⟨hwp, hlt31, hroom, hbyte⟩ : _ ∧ _ ∧ _ ∧ _ := hwriter
            refine ⟨hwp, hlt31, ?_, hbyte⟩
            rw [List.length_append]
            exact Nat.lt_of_lt_of_le hroom (by omega)
        | loaded byte rest wp =>
            rw [hw] at hwriter
            exact hwriter
        | _ => trivial
      · exact ⟨hrp, by simp⟩
  | copied len got rp =>
      rw [hr] at hreader
      obtain ⟨hrp, hpos⟩ : _ ∧ _ := hreader
      have hbound := h.bound
      have hrpos : rp = ((s.delivered.length - 1 : ℕ) : ℤ) := by
        rw [hrp, h.readPos]
        simp only [front, hr]
        exact toInt32_of_lt (by omega)
      refine { h with readPos := ?_, counted := ?_, reader := hpos }
      · show toInt32 (rp + 1) = toInt32 s.delivered.length
        rw [hrpos]
        congr 1
        omega
      · simp only [consumed, hr] at hcounted
        exact hcounted
  | moved len got =>
      rw [hr] at hreader
      exact h.setReader (by simp only [front, hr]) (by simp only [consumed, hr]) hreader
  | counting len got count =>
      rw [hr] at hguard hreader
      have hroom := h.room
      have hcells : cells = 4096 := rfl
      -- the guard: nothing was counted since the load
      have hcount : s.count = count := hguard
      have hpos : 0 < s.delivered.length := hreader
      simp only [consumed, hr] at hcounted
      refine { h with readPos := ?_, counted := ?_, reader := trivial }
      · show s.readPos = toInt32 s.delivered.length
        rw [h.readPos]
        simp only [front, hr]
      · show toInt32 (count - 1) + uncounted s + s.delivered.length = s.written.length
        rw [toInt32_of_nonneg (by omega) (by omega)]
        omega

/-! ### Runs -/

/-- **The ring is faithful as long as the page finds free cells and `term_read` is not interrupted while it
counts.** -/
theorem faithful_of_meets {tr : List (Event × State)} (hrun : IsRun Step fresh tr)
    (hmeets : Meets Guarded fresh tr) : Throughout Faithful fresh tr := by
  have hstep : ∀ s ev s', Inv s → Guarded s ev → Step s ev s' → Inv s' := by
    rintro s ev _ h hguard rfl
    cases ev with
    | callWrite bytes => exact inv_callWrite h bytes
    | stepWrite => exact inv_stepWrite h hguard
    | callRead len => exact inv_callRead h len
    | stepRead => exact inv_stepRead h hguard
  exact (throughout_of_meets hstep inv_fresh hrun hmeets).mono fun _ => Inv.faithful

/-- One byte is written, and while the next one is on its way `term_read` takes the first. -/
theorem faithful_of_meets_secondByteOnItsWay :
    Throughout Faithful fresh
      (trace after fresh
        (Event.callWrite [104, 105] :: List.replicate 6 Event.stepWrite ++
          Event.callRead 8 :: List.replicate 7 Event.stepRead)) :=
  faithful_of_meets (isRun_trace _ _ _) (by decide +kernel)

/-- The second byte is counted between the load and the store of `term_read`: the count is 0 afterwards,
and the byte is in the ring. -/
theorem not_faithful_countedMeanwhile :
    ¬ Throughout Faithful fresh
      (trace after fresh
        (Event.callWrite [104, 105] :: List.replicate 4 Event.stepWrite ++
          Event.callRead 8 :: List.replicate 6 Event.stepRead ++ List.replicate 5 Event.stepWrite ++
            List.replicate 2 Event.stepRead)) := by
  intro h
  have hall := h.final.allAvailable
  rw [final_trace] at hall
  have hfalse := hall (by decide +kernel) (by decide +kernel)
  exact absurd hfalse (by decide +kernel)

end StdinRing
