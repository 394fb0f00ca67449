/-
**A file that is read and written in pieces.**

An open file is its bytes and a position, which may lie behind the bytes or, after a seek, in front of them.
A vectored call takes a buffer in pieces.  A piece that is read begins where the last one ended; a piece that is
written, too, and in a file that is appended to, at the end.  This module says when the pieces make no
difference.

Main definitions:

* `FilePieces.readAt`, `FilePieces.readPieces` — reading at a position, as a whole and in pieces;
* `FilePieces.File.write`, `FilePieces.File.writev` — writing, as a whole and in pieces;
* `FilePieces.Alike`, `FilePieces.Unbroken` — when the pieces of a read and of a write make no difference;
* `FilePieces.gather`, `FilePieces.scatter` — the buffers of a vector in a memory.

Main results:

* `FilePieces.length_readPieces`, `FilePieces.readPieces_eq` — pieces read as much, and from a position that is not
  negative the same;
* `FilePieces.readPieces_eq_iff` — **when reading pieces is reading the whole**;
* `FilePieces.writev_eq_iff` — **when writing pieces is writing the whole**;
* `FilePieces.gather_scatter` — what was put into the buffers is found there.
-/

import AtuaComputer.FileContents

set_option relaxedAutoImplicit false
set_option autoImplicit false

namespace FilePieces

open VirtualFs FileContents

/-! ### Reading -/

/-- What is read at a position into a buffer of `count` bytes.  A negative position selects fewer bytes than
it counts, and the rest is zero. -/
def readAt (bytes : List UInt8) (position : ℤ) (count : ℕ) : List UInt8 :=
  let available := bytes.length - position
  if available ≤ 0 then []
  else
    let n := min (count : ℤ) available
    padTo n.toNat (subarray bytes position (position + n))

/-- Reading into one buffer after the other, until one is not filled. -/
def readPieces (bytes : List UInt8) (position : ℤ) : List ℕ → List UInt8
  | [] => []
  | count :: counts =>
    let piece := readAt bytes position count
    if piece.length < count then piece else piece ++ readPieces bytes (position + count) counts

theorem readPieces_cons (bytes : List UInt8) (position : ℤ) (count : ℕ) (counts : List ℕ) :
    readPieces bytes position (count :: counts) =
      if (readAt bytes position count).length < count then readAt bytes position count
      else readAt bytes position count ++ readPieces bytes (position + count) counts := rfl

theorem length_subarray_le (bytes : List UInt8) {start : ℤ} {n : ℕ} (hn : (n : ℤ) ≤ bytes.length - start) :
    (subarray bytes start (start + n)).length ≤ n := by
  rw [subarray, List.length_drop, List.length_take]
  unfold clampIndex
  split_ifs <;> omega

theorem length_readAt (bytes : List UInt8) (position : ℤ) (count : ℕ) :
    (readAt bytes position count).length = min count (bytes.length - position).toNat := by
  unfold readAt
  dsimp only
  split_ifs with h
  · rw [List.length_nil]
    omega
  · obtain ⟨n, hn⟩ : ∃ n : ℕ, min (count : ℤ) (bytes.length - position) = n :=
      ⟨(min (count : ℤ) (bytes.length - position)).toNat, by omega⟩
    rw [hn, Int.toNat_natCast, length_padTo (length_subarray_le bytes (by omega))]
    omega

/-- **Pieces read as much as the whole.** -/
theorem length_readPieces (bytes : List UInt8) (position : ℤ) (counts : List ℕ) :
    (readPieces bytes position counts).length = (readAt bytes position counts.sum).length := by
  induction counts generalizing position with
  | nil => rw [length_readAt, readPieces, List.sum_nil, Nat.zero_min, List.length_nil]
  | cons count counts ih =>
      have hpiece := length_readAt bytes position count
      rw [length_readAt, List.sum_cons, readPieces_cons]
      split_ifs with hshort
      · omega
      · rw [List.length_append, ih, length_readAt, length_readAt]
        omega

/-- The bytes that are selected, and zeros for those that are not. -/
theorem readAt_eq_padTo (bytes : List UInt8) (position : ℤ) {count n : ℕ}
    (hn : n = min count (bytes.length - position).toNat) :
    readAt bytes position count = padTo n (subarray bytes position (position + n)) := by
  unfold readAt
  dsimp only
  split_ifs with h
  · have hzero : n = 0 := by omega
    rw [hzero, Int.natCast_zero, Int.add_zero, subarray, List.drop_eq_nil_of_le (by rw [List.length_take]; omega)]
    rfl
  · have hmin : min (count : ℤ) (bytes.length - position) = n := by omega
    rw [hmin, Int.toNat_natCast]

/-- At a position that is not negative the bytes from there are read. -/
theorem readAt_nat (bytes : List UInt8) (position count : ℕ) :
    readAt bytes position count = (bytes.drop position).take count := by
  unfold readAt
  dsimp only
  split_ifs with h
  · rw [List.drop_eq_nil_of_le (by omega), List.take_nil]
  · obtain ⟨n, hn⟩ : ∃ n : ℕ, min (count : ℤ) (bytes.length - position) = n :=
      ⟨(min (count : ℤ) (bytes.length - position)).toNat, by omega⟩
    have htake : (bytes.drop position).take n = (bytes.drop position).take count := by
      rw [List.take_eq_take_iff, List.length_drop]
      omega
    have hstop : position + n ≤ bytes.length := by omega
    have hsub := @subarray_nat bytes position (position + n) hstop
    rw [Int.natCast_add, Nat.add_sub_cancel_left] at hsub
    rw [hn, Int.toNat_natCast, hsub, htake, padTo_self]
    rw [List.length_take, List.length_drop]
    omega

/-- **At a position that is not negative the pieces make no difference.** -/
theorem readPieces_eq (bytes : List UInt8) (position : ℕ) (counts : List ℕ) :
    readPieces bytes position counts = readAt bytes position counts.sum := by
  induction counts generalizing position with
  | nil => rw [readAt_nat, List.sum_nil, List.take_zero, readPieces]
  | cons count counts ih =>
      have hrest := ih (position + count)
      rw [Int.natCast_add] at hrest
      rw [readAt_nat, List.sum_cons, readPieces_cons, readAt_nat, hrest, ← Int.natCast_add, readAt_nat]
      split_ifs with hshort
      · rw [List.length_take, List.length_drop] at hshort
        rw [List.take_eq_take_iff, List.length_drop]
        omega
      · rw [List.take_add, List.drop_drop]

/-! #### Reading at a negative position -/

/-- The byte that a read of `count` bytes from `start` shows at `j`.  A negative index counts from the end. -/
def shown (bytes : List UInt8) (start : ℤ) (count j : ℕ) : UInt8 :=
  let i := clampIndex bytes.length start + j
  if i < clampIndex bytes.length (start + count) then bytes.getD i 0 else 0

/-- Of `n` bytes from `position`, the pieces from the offset `o` on show those that the whole shows. -/
def Alike (bytes : List UInt8) (position : ℤ) (n : ℕ) : ℕ → List ℕ → Prop
  | _, [] => True
  | o, count :: counts =>
    (∀ j < min count (n - o), shown bytes (position + o) (min count (n - o)) j = shown bytes position n (o + j)) ∧
      Alike bytes position n (o + count) counts

theorem alike_of_le {bytes : List UInt8} {position : ℤ} {n o : ℕ} (h : n ≤ o) (counts : List ℕ) :
    Alike bytes position n o counts := by
  induction counts generalizing o with
  | nil => trivial
  | cons count counts ih =>
      refine ⟨fun j hj => ?_, ih (by omega)⟩
      omega

theorem clampIndex_le (length : ℕ) (i : ℤ) : clampIndex length i ≤ length := by
  unfold clampIndex
  split_ifs <;> omega

theorem getElem?_readAt (bytes : List UInt8) (position : ℤ) (count j : ℕ) :
    (readAt bytes position count)[j]? =
      if j < min count (bytes.length - position).toNat then
        some (shown bytes position (min count (bytes.length - position).toNat) j)
      else none := by
  have hlen := length_readAt bytes position count
  split_ifs with hj
  · unfold readAt shown
    dsimp only
    generalize hn : min count (bytes.length - position).toNat = n at *
    have hmin : min (count : ℤ) (bytes.length - position) = n := by omega
    have hstop := clampIndex_le bytes.length (position + n)
    rw [if_neg (by omega), hmin, Int.toNat_natCast, padTo, subarray]
    split_ifs with hin
    · rw [List.getElem?_append_left (by rw [List.length_drop, List.length_take]; omega), List.getElem?_drop,
        List.getElem?_take_of_lt hin, List.getD_eq_getElem?_getD, List.getElem?_eq_getElem (by omega),
        Option.getD_some]
    · rw [List.getElem?_append_right (by rw [List.length_drop, List.length_take]; omega),
        List.getElem?_replicate_of_lt]
      rw [List.length_drop, List.length_take]
      omega
  · exact List.getElem?_eq_none (by omega)

/-- The pieces from an offset on, against the whole. -/
theorem readPieces_eq_drop_iff (bytes : List UInt8) (position : ℤ) {whole n o : ℕ} {counts : List ℕ}
    (hsum : o + counts.sum = whole) (hn : min whole (bytes.length - position).toNat = n) :
    readPieces bytes (position + o) counts = (readAt bytes position whole).drop o ↔
      Alike bytes position n o counts := by
  have hwhole := length_readAt bytes position whole
  induction counts generalizing o with
  | nil =>
      rw [List.sum_nil] at hsum
      rw [readPieces, List.drop_eq_nil_of_le (by omega)]
      exact iff_of_true rfl trivial
  | cons count counts ih =>
      rw [List.sum_cons] at hsum
      have hrest : readPieces bytes (position + (o + count : ℕ)) counts =
            (readAt bytes position whole).drop (o + count) ↔
          Alike bytes position n (o + count) counts := ih (by omega)
      rw [Int.natCast_add, ← Int.add_assoc] at hrest
      have hsize : min count (bytes.length - (position + o)).toNat = min count (n - o) := by omega
      have hpiece := length_readAt bytes (position + o) count
      rw [hsize] at hpiece
      have hfirst : readAt bytes (position + o) count =
            ((readAt bytes position whole).drop o).take (min count (n - o)) ↔
          ∀ j < min count (n - o),
            shown bytes (position + o) (min count (n - o)) j = shown bytes position n (o + j) := by
        rw [List.ext_getElem?_iff]
        refine forall_congr' fun j => ?_
        rw [getElem?_readAt, hsize, List.getElem?_take, List.getElem?_drop, getElem?_readAt, hn]
        by_cases hj : j < min count (n - o)
        · rw [if_pos hj, if_pos hj, if_pos (by omega), Option.some_inj, forall_prop_of_true hj]
        · rw [if_neg hj, if_neg hj]
          exact iff_of_true rfl fun h => absurd h hj
      have hsplit := List.take_append_drop (min count (n - o)) ((readAt bytes position whole).drop o)
      rw [Alike, ← hfirst, readPieces_cons]
      split_ifs with hshort
      · have hall : ((readAt bytes position whole).drop o).take (min count (n - o)) =
            (readAt bytes position whole).drop o := List.take_of_length_le (by rw [List.length_drop]; omega)
        rw [hall]
        exact (and_iff_left (alike_of_le (by omega) counts)).symm
      · have hcount : min count (n - o) = count := by omega
        rw [hcount] at hsplit hpiece ⊢
        rw [← hrest]
        nth_rewrite 1 [← hsplit]
        rw [List.drop_drop]
        constructor
        · exact fun h => List.append_inj h (by rw [List.length_take, List.length_drop]; omega)
        · rintro ⟨hleft, hright⟩
          rw [← hleft, hright]

/-- **When the pieces make no difference.** -/
theorem readPieces_eq_iff (bytes : List UInt8) (position : ℤ) (counts : List ℕ) :
    readPieces bytes position counts = readAt bytes position counts.sum ↔
      0 ≤ position ∨ Alike bytes position (min counts.sum (bytes.length - position).toNat) 0 counts := by
  have hdrop := readPieces_eq_drop_iff bytes position (Nat.zero_add counts.sum) rfl
  rw [Int.natCast_zero, Int.add_zero, List.drop_zero] at hdrop
  rw [← hdrop]
  refine ⟨.inr, fun h => ?_⟩
  obtain hnat | hsame := h
  · obtain ⟨n, rfl⟩ := Int.eq_ofNat_of_zero_le hnat
    exact readPieces_eq bytes n counts
  · exact hsame

/-! ### Writing -/

/-- An open file, and the length up to which its bytes can be made to grow. -/
@[ext] structure File where
  bytes : List UInt8
  position : ℤ
  append : Bool
  limit : ℕ

/-- Where a write begins. -/
def File.start (f : File) : ℤ := if f.append then f.bytes.length else f.position

/-- Writing.  Where there is no room nothing is written; at a negative position the bytes may have grown all
the same. -/
def File.write (f : File) (data : List UInt8) : File × Bool :=
  let stop := f.start + data.length
  if f.bytes.length < stop ∧ f.limit < stop then ({ f with position := f.start }, false)
  else if f.start < 0 then ({ f with bytes := padTo stop.toNat f.bytes, position := f.start }, false)
  else ({ f with bytes := writeAt f.bytes f.start.toNat data, position := stop }, true)

theorem write_append (f : File) (data : List UInt8) : (f.write data).1.append = f.append := by
  unfold File.write
  dsimp only
  split_ifs <;> rfl

theorem write_limit (f : File) (data : List UInt8) : (f.write data).1.limit = f.limit := by
  unfold File.write
  dsimp only
  split_ifs <;> rfl

/-- Writing one piece after the other, until one is not written. -/
def File.writev (f : File) : List (List UInt8) → File × Bool
  | [] => (f, true)
  | piece :: pieces =>
    match f.write piece with
    | (f, true) => f.writev pieces
    | (f, false) => (f, false)

/-- There is room for bytes up to here. -/
def File.Room (f : File) (stop : ℤ) : Prop := stop ≤ f.bytes.length ∨ stop ≤ f.limit

instance (f : File) (stop : ℤ) : Decidable (f.Room stop) := inferInstanceAs (Decidable (_ ∨ _))

/-- What a write that has room leaves. -/
theorem write_eq_of_room {f : File} {data : List UInt8} (hstart : 0 ≤ f.start)
    (hroom : f.Room (f.start + data.length)) :
    f.write data =
      ({ f with bytes := writeAt f.bytes f.start.toNat data, position := f.start + data.length }, true) := by
  unfold File.Room at hroom
  unfold File.write
  dsimp only
  rw [if_neg (by omega), if_neg (by omega)]

/-- Another write throws, and leaves the position at its start. -/
theorem write_of_not_room {f : File} {data : List UInt8} (hfull : ¬ (0 ≤ f.start ∧ f.Room (f.start + data.length))) :
    (f.write data).2 = false ∧ (f.write data).1.position = f.start := by
  unfold File.Room at hfull
  unfold File.write
  dsimp only
  by_cases h : (f.bytes.length : ℤ) < f.start + data.length ∧ (f.limit : ℤ) < f.start + data.length
  · rw [if_pos h]
    exact ⟨rfl, rfl⟩
  · rw [if_neg h, if_pos (by omega)]
    exact ⟨rfl, rfl⟩

/-- A write begins at the position, and at the end with `append`. -/
theorem start_eq_position_iff (f : File) :
    f.start = f.position ↔ (f.append = true → f.position = f.bytes.length) := by
  unfold File.start
  cases f.append with
  | true => exact ⟨fun h _ => h.symm, fun h => (h rfl).symm⟩
  | false => exact iff_of_true rfl nofun

/-- A write of nothing that changes nothing. -/
theorem write_nil_iff (f : File) :
    f.write [] = (f, true) ↔
      0 ≤ f.position ∧ (f.append = true → f.position = f.bytes.length) ∧ f.position ≤ f.bytes.length := by
  rw [← start_eq_position_iff]
  constructor
  · intro h
    by_cases hroom : 0 ≤ f.start ∧ f.Room (f.start + ([] : List UInt8).length)
    · rw [write_eq_of_room hroom.1 hroom.2] at h
      have hfile : _ = f := congrArg Prod.fst h
      have hposition : f.start + (0 : ℕ) = f.position := congrArg File.position hfile
      have hbytes := (writeAt_nil_iff _ _).1 (congrArg File.bytes hfile)
      omega
    · have hfalse := (write_of_not_room hroom).1
      rw [h] at hfalse
      cases hfalse
  · rintro ⟨hpos, hstart, hin⟩
    have hroom : f.Room (f.start + ([] : List UInt8).length) := .inl (by rw [List.length_nil]; omega)
    have hbytes : writeAt f.bytes f.start.toNat [] = f.bytes := (writeAt_nil_iff _ _).2 (by omega)
    have hposition : f.start + ([] : List UInt8).length = f.position := by rw [List.length_nil]; omega
    rw [write_eq_of_room (by omega) hroom, hbytes, hposition]

/-- The file with bytes written at `q`. -/
def File.after (f : File) (q : ℕ) (data : List UInt8) : File :=
  { f with bytes := writeAt f.bytes q data, position := (q + data.length : ℕ) }

/-- **Writing at one place and then behind it.** -/
theorem writeAt_append (bytes : List UInt8) (off : ℕ) (xs ys : List UInt8) :
    writeAt (writeAt bytes off xs) (off + xs.length) ys = writeAt bytes off (xs ++ ys) := by
  have hfront : ((padTo off bytes).take off ++ xs).length = off + xs.length := by
    rw [List.length_append, List.length_take, padTo, List.length_append, List.length_replicate]
    omega
  have hlen := length_writeAt bytes off xs
  have hself : padTo (off + xs.length) (writeAt bytes off xs) = writeAt bytes off xs := padTo_self (by omega)
  have hdrop : (writeAt bytes off xs).drop (off + xs.length + ys.length) =
      bytes.drop (off + xs.length + ys.length) := by
    rw [← List.drop_drop, writeAt, List.drop_left' hfront, List.drop_drop]
  rw [writeAt, hself, hdrop, writeAt, List.take_left' hfront, writeAt, List.length_append]
  simp only [List.append_assoc, Nat.add_assoc]

section Pieces

variable {f : File} {q : ℕ}

theorem write_of_start (hq : f.start = q) (data : List UInt8) :
    f.write data =
      if f.Room (q + data.length : ℕ) then (f.after q data, true) else ({ f with position := q }, false) := by
  have hroom : f.Room (q + data.length : ℕ) ↔
      ¬ ((f.bytes.length : ℤ) < q + data.length ∧ (f.limit : ℤ) < q + data.length) := by
    unfold File.Room
    omega
  unfold File.write
  rw [hq]
  dsimp only
  by_cases hfull : (f.bytes.length : ℤ) < q + data.length ∧ (f.limit : ℤ) < q + data.length
  · rw [if_pos hfull, if_neg fun h => hroom.1 h hfull]
  · rw [if_neg hfull, if_neg (by omega), if_pos (hroom.2 hfull)]
    rfl

/-- The next piece begins behind the last one. -/
theorem start_after (hq : f.start = q) (data : List UInt8) : (f.after q data).start = (q + data.length : ℕ) := by
  unfold File.start File.after at *
  dsimp only
  split_ifs at hq ⊢
  · rw [length_writeAt]
    omega
  · rfl

theorem after_after (xs ys : List UInt8) : (f.after q xs).after (q + xs.length) ys = f.after q (xs ++ ys) := by
  unfold File.after
  rw [writeAt_append, List.length_append, Nat.add_assoc]

/-- Room for a piece and what comes after it. -/
theorem room_cons {piece : List UInt8} {n : ℕ} (h : f.Room (q + (piece.length + n) : ℕ)) :
    f.Room (q + piece.length : ℕ) ∧ (f.after q piece).Room (q + piece.length + n : ℕ) ∧
      q + piece.length ≤ (f.after q piece).bytes.length := by
  have hlen : (f.after q piece).bytes.length = max f.bytes.length (q + piece.length) := length_writeAt _ _ _
  have hlimit : (f.after q piece).limit = f.limit := rfl
  unfold File.Room at h ⊢
  omega

/-- Pieces that all have room, from a position in the file. -/
theorem writev_of_room (hq : f.start = q) (hposition : f.position = q) (hin : q ≤ f.bytes.length)
    {pieces : List (List UInt8)} (hroom : f.Room (q + pieces.flatten.length : ℕ)) :
    f.writev pieces = (f.after q pieces.flatten, true) := by
  induction pieces generalizing f q with
  | nil =>
      have hsame : f.after q [] = f := by
        unfold File.after
        rw [(writeAt_nil_iff _ _).2 hin, List.length_nil, Nat.add_zero, ← hposition]
      rw [List.flatten_nil, hsame, File.writev]
  | cons piece pieces ih =>
      rw [List.flatten_cons, List.length_append] at hroom
      obtain ⟨hfirst, hrest, hend⟩ := room_cons hroom
      rw [File.writev, write_of_start hq, if_pos hfirst]
      show (f.after q piece).writev pieces = _
      rw [ih (start_after hq piece) rfl hend hrest, after_after, List.flatten_cons]

/-- **Pieces that all have room,** at least one of them, from anywhere that is not negative. -/
theorem writev_cons_of_room (hq : f.start = q) {piece : List UInt8} {pieces : List (List UInt8)}
    (hroom : f.Room (q + (piece :: pieces).flatten.length : ℕ)) :
    f.writev (piece :: pieces) = f.write (piece :: pieces).flatten := by
  rw [write_of_start hq, if_pos hroom]
  rw [List.flatten_cons, List.length_append] at hroom
  obtain ⟨hfirst, hrest, hend⟩ := room_cons hroom
  rw [File.writev, write_of_start hq, if_pos hfirst]
  show (f.after q piece).writev pieces = _
  rw [writev_of_room (start_after hq piece) rfl hend hrest, after_after, List.flatten_cons]

/-- No write makes the file shorter. -/
theorem length_le_writev (f : File) (pieces : List (List UInt8)) :
    f.bytes.length ≤ (f.writev pieces).1.bytes.length := by
  induction pieces generalizing f with
  | nil => exact Nat.le_refl _
  | cons piece pieces ih =>
      have hwrite : f.bytes.length ≤ (f.write piece).1.bytes.length := by
        unfold File.write
        dsimp only
        split_ifs
        · exact Nat.le_refl _
        · dsimp only
          rw [padTo, List.length_append]
          omega
        · dsimp only
          rw [length_writeAt]
          omega
      rw [File.writev]
      cases hpiece : f.write piece with
      | mk f' ok =>
          rw [hpiece] at hwrite
          cases ok with
          | true => exact Nat.le_trans hwrite (ih f')
          | false => exact hwrite

/-- No write moves the position back from where it begins. -/
theorem position_le_writev (hq : f.start = q) (hposition : f.position = q) (pieces : List (List UInt8)) :
    q ≤ (f.writev pieces).1.position := by
  induction pieces generalizing f q with
  | nil => exact Int.le_of_eq hposition.symm
  | cons piece pieces ih =>
      rw [File.writev, write_of_start hq]
      split_ifs
      · show (q : ℤ) ≤ ((f.after q piece).writev pieces).1.position
        have hle := ih (start_after hq piece) rfl
        omega
      · exact Int.le_refl _

/-- The length of the first piece that is not empty. -/
def firstLength : List (List UInt8) → ℕ
  | [] => 0
  | piece :: pieces => if piece = [] then firstLength pieces else piece.length

/-- Where there is no room for all, there is none for the first piece with bytes, and no empty piece before it
makes the file longer. -/
def Blocked (f : File) (q : ℕ) (pieces : List (List UInt8)) : Prop :=
  ¬ f.Room (q + firstLength pieces : ℕ) ∧ (pieces.head? = some [] → q ≤ f.bytes.length ∨ f.limit < q)

/-- **Pieces that do not all have room** are as the whole if none is written. -/
theorem writev_full_iff (hq : f.start = q) {pieces : List (List UInt8)} (hsome : 0 < pieces.flatten.length)
    (hfull : ¬ f.Room (q + pieces.flatten.length : ℕ)) :
    f.writev pieces = f.write pieces.flatten ↔ Blocked f q pieces := by
  rw [write_of_start hq, if_neg hfull]
  induction pieces generalizing f with
  | nil => cases hsome
  | cons piece pieces ih =>
      rw [File.writev, write_of_start hq]
      by_cases hempty : piece = []
      · subst hempty
        rw [List.flatten_cons, List.nil_append] at hsome hfull
        rw [List.length_nil, Nat.add_zero]
        obtain hin | hout := Nat.lt_or_ge f.bytes.length q |>.symm
        · -- an empty piece in the file leaves the bytes as they are
          have hroom : f.Room (q : ℕ) := .inl (by omega)
          have hsame : f.after q [] = { f with position := q } := by
            unfold File.after
            rw [(writeAt_nil_iff _ _).2 hin, List.length_nil, Nat.add_zero]
          have hnext : File.start { f with position := (q : ℤ) } = q := by
            unfold File.start at hq ⊢
            dsimp only
            split_ifs at hq ⊢ with happend
            · exact hq
            · rfl
          have hblocked : Blocked { f with position := (q : ℤ) } q pieces ↔ Blocked f q ([] :: pieces) :=
            ⟨fun h => ⟨h.1, fun _ => .inl hin⟩, fun h => ⟨h.1, fun _ => .inl hin⟩⟩
          rw [if_pos hroom, hsame, ← hblocked]
          exact ih hnext hsome hfull
        · by_cases hlimit : q ≤ f.limit
          · have hroom : f.Room (q : ℕ) := .inr (by omega)
            rw [if_pos hroom]
            refine iff_of_false (fun hsame => ?_) fun h => ?_
            · -- the empty piece has made the file longer, and no later one makes it shorter
              have hlen := length_le_writev (f.after q []) pieces
              have hgrown : (f.after q []).bytes.length = max f.bytes.length (q + 0) := length_writeAt _ _ _
              have hbytes : ((f.after q []).writev pieces).1.bytes = f.bytes :=
                congrArg (fun r : File × Bool => r.1.bytes) hsame
              rw [hbytes] at hlen
              omega
            · obtain hle | hlt := h.2 rfl <;> omega
          · have hroom : ¬ f.Room (q : ℕ) := by
              unfold File.Room
              omega
            rw [if_neg hroom]
            refine iff_of_true rfl ⟨?_, fun _ => .inr (by omega)⟩
            unfold File.Room
            omega
      · have hfirst : firstLength (piece :: pieces) = piece.length := if_neg hempty
        have hhead : (piece :: pieces).head? ≠ some [] := fun h => hempty (Option.some.inj h)
        have hpos := List.length_pos_of_ne_nil hempty
        unfold Blocked
        rw [hfirst]
        by_cases hroom : f.Room (q + piece.length : ℕ)
        · rw [if_pos hroom]
          refine iff_of_false (fun hsame => ?_) fun h => h.1 hroom
          -- the first piece is written and moves the position, which the whole does not
          have hle := position_le_writev (start_after hq piece) rfl pieces
          have hposition : ((f.after q piece).writev pieces).1.position = q :=
            congrArg (fun r : File × Bool => r.1.position) hsame
          omega
        · rw [if_neg hroom]
          exact iff_of_true rfl ⟨hroom, fun h => absurd h hhead⟩

end Pieces

/-! #### Writing at a negative position -/

theorem padTo_inj_iff {n m : ℕ} (bytes : List UInt8) :
    padTo n bytes = padTo m bytes ↔ max bytes.length n = max bytes.length m := by
  unfold padTo
  rw [List.append_cancel_left_eq, List.replicate_inj, and_iff_left (Or.inr rfl)]
  omega

theorem write_of_negative {f : File} (hq : f.start < 0) {data : List UInt8} (hlimit : data.length ≤ f.limit) :
    f.write data =
      ({ f with bytes := padTo (f.start + data.length).toNat f.bytes, position := f.start }, false) := by
  unfold File.write
  dsimp only
  rw [if_neg (by omega), if_pos hq]

/-- The condition: from a negative position, the first piece makes the file as long as the whole would; else
there is room for all, or none of the pieces is written. -/
def Unbroken (f : File) (pieces : List (List UInt8)) : Prop :=
  if f.start < 0 then
    max (f.bytes.length : ℤ) (f.start + pieces.flatten.length) =
      max (f.bytes.length : ℤ) (f.start + (pieces.head?.getD []).length)
  else f.Room (f.start + pieces.flatten.length) ∨ Blocked f f.start.toNat pieces

/-- **When writing pieces is writing the whole.** -/
theorem writev_eq_iff {f : File} {pieces : List (List UInt8)} (hsome : 0 < pieces.flatten.length)
    (hlimit : pieces.flatten.length ≤ f.limit) :
    f.writev pieces = f.write pieces.flatten ↔ Unbroken f pieces := by
  obtain ⟨piece, pieces, rfl⟩ : ∃ p ps, pieces = p :: ps := by
    cases pieces with
    | nil => cases hsome
    | cons p ps => exact ⟨p, ps, rfl⟩
  unfold Unbroken
  by_cases hneg : f.start < 0
  · have hfirst : piece.length ≤ f.limit := by
      rw [List.flatten_cons, List.length_append] at hlimit
      omega
    rw [if_pos hneg, File.writev, write_of_negative hneg hfirst, write_of_negative hneg hlimit, Prod.mk.injEq,
      File.mk.injEq, padTo_inj_iff]
    show _ ↔ max _ _ = max _ (f.start + piece.length)
    simp only [and_true]
    omega
  · obtain ⟨q, hq⟩ : ∃ q : ℕ, f.start = q := ⟨f.start.toNat, by omega⟩
    rw [if_neg hneg, hq, Int.toNat_natCast, ← Int.natCast_add]
    by_cases hroom : f.Room (q + (piece :: pieces).flatten.length : ℕ)
    · exact iff_of_true (writev_cons_of_room hq hroom) (.inl hroom)
    · rw [or_iff_right hroom]
      exact writev_full_iff hq hsome hroom

/-! ### Buffers -/

/-- The bytes of a buffer. -/
def slice (memory : List UInt8) (base len : ℕ) : List UInt8 := (memory.drop base).take len

/-- The bytes of the buffers of a vector. -/
def gather (memory : List UInt8) (segs : List (ℕ × ℕ)) : List UInt8 := segs.flatMap fun e => slice memory e.1 e.2

/-- Bytes put into one buffer after the other. -/
def scatter (memory : List UInt8) : List (ℕ × ℕ) → List UInt8 → List UInt8
  | [], _ => memory
  | (base, len) :: segs, data => scatter (writeAt memory base (data.take len)) segs (data.drop len)

/-- Two buffers have no byte in common. -/
def Apart (e e' : ℕ × ℕ) : Prop := e.2 = 0 ∨ e'.2 = 0 ∨ e.1 + e.2 ≤ e'.1 ∨ e'.1 + e'.2 ≤ e.1

instance (e e' : ℕ × ℕ) : Decidable (Apart e e') := inferInstanceAs (Decidable (_ ∨ _ ∨ _ ∨ _))

theorem Apart.symm {e e' : ℕ × ℕ} (h : Apart e e') : Apart e' e := by
  unfold Apart at h ⊢
  omega

theorem getElem?_writeAt {bytes src : List UInt8} {off : ℕ} (hin : off + src.length ≤ bytes.length) (j : ℕ) :
    (writeAt bytes off src)[j]? = if off ≤ j ∧ j < off + src.length then src[j - off]? else bytes[j]? := by
  have hfront : (bytes.take off).length = off := by
    rw [List.length_take]
    omega
  rw [writeAt, padTo_self (by omega), List.append_assoc]
  obtain hj | hj := Nat.lt_or_ge j off
  · rw [if_neg (by omega), List.getElem?_append_left (by omega), List.getElem?_take_of_lt hj]
  · rw [List.getElem?_append_right (by omega), hfront]
    obtain hj' | hj' := Nat.lt_or_ge (j - off) src.length
    · rw [if_pos (by omega), List.getElem?_append_left hj']
    · rw [if_neg (by omega), List.getElem?_append_right hj', List.getElem?_drop]
      congr 1
      omega

/-- A store elsewhere leaves a buffer alone. -/
theorem slice_writeAt {memory src : List UInt8} {off : ℕ} (hin : off + src.length ≤ memory.length) {e : ℕ × ℕ}
    (hapart : Apart (off, src.length) e) : slice (writeAt memory off src) e.1 e.2 = slice memory e.1 e.2 := by
  refine List.ext_getElem? fun j => ?_
  unfold slice
  rw [List.getElem?_take, List.getElem?_take, List.getElem?_drop, List.getElem?_drop, getElem?_writeAt hin]
  unfold Apart at hapart
  split_ifs
  · omega
  · rfl
  · rfl

theorem length_slice {memory : List UInt8} {base len : ℕ} (hin : base + len ≤ memory.length) :
    (slice memory base len).length = len := by
  rw [slice, List.length_take, List.length_drop]
  omega

/-- A store at the beginning of a buffer. -/
theorem slice_writeAt_front {memory src : List UInt8} {base len : ℕ} (hsrc : src.length ≤ len)
    (hin : base + len ≤ memory.length) :
    slice (writeAt memory base src) base len = src ++ (slice memory base len).drop src.length := by
  refine List.ext_getElem? fun j => ?_
  unfold slice
  rw [List.getElem?_take, List.getElem?_drop, getElem?_writeAt (by omega), Nat.add_sub_cancel_left]
  obtain hj | hj := Nat.lt_or_ge j src.length
  · rw [if_pos (by omega), if_pos (by omega), List.getElem?_append_left hj]
  · rw [if_neg (by omega : ¬ (base ≤ base + j ∧ base + j < base + src.length)), List.getElem?_append_right hj,
      List.getElem?_drop, List.getElem?_take, List.getElem?_drop]
    have hindex : src.length + (j - src.length) = j := by omega
    rw [hindex]

/-- What lies behind a write stays. -/
theorem drop_writeAt (bytes : List UInt8) (off : ℕ) (xs : List UInt8) :
    (writeAt bytes off xs).drop (off + xs.length) = bytes.drop (off + xs.length) := by
  have hfront : ((padTo off bytes).take off ++ xs).length = off + xs.length := by
    rw [List.length_append, List.length_take, padTo, List.length_append, List.length_replicate]
    omega
  rw [writeAt, List.drop_left' hfront]

/-- Writing what is there already. -/
theorem writeAt_eq_self_iff {bytes data : List UInt8} {off : ℕ} (hdata : data ≠ []) :
    writeAt bytes off data = bytes ↔ slice bytes off data.length = data := by
  have hpos := List.length_pos_of_ne_nil hdata
  constructor
  · intro h
    have hin : off + data.length ≤ bytes.length := by
      have hlen := congrArg List.length h
      rw [length_writeAt] at hlen
      omega
    have hfront := slice_writeAt_front (Nat.le_refl data.length) hin
    rwa [h, List.drop_eq_nil_of_le (Nat.le_of_eq (length_slice hin)), List.append_nil] at hfront
  · intro h
    have hin : off + data.length ≤ bytes.length := by
      have hlen := congrArg List.length h
      rw [slice, List.length_take, List.length_drop] at hlen
      omega
    have hrest : data ++ (bytes.drop off).drop data.length = bytes.drop off :=
      (congrArg (· ++ (bytes.drop off).drop data.length) h).symm.trans (List.take_append_drop _ _)
    rw [writeAt, padTo_self (by omega), List.append_assoc, ← List.drop_drop, hrest, List.take_append_drop]

/-- Writing more, of what is there already. -/
theorem writeAt_append_eq_iff (bytes : List UInt8) (off : ℕ) (xs ys : List UInt8) :
    writeAt bytes off (xs ++ ys) = writeAt bytes off xs ↔ slice bytes (off + xs.length) ys.length = ys := by
  have hlen := length_writeAt bytes off xs
  rw [← writeAt_append]
  by_cases hys : ys = []
  · subst hys
    exact iff_of_true ((writeAt_nil_iff _ _).2 (by omega)) (List.take_zero ..)
  · rw [writeAt_eq_self_iff hys, slice, drop_writeAt, slice]

/-- The buffers of a vector in a memory. -/
def InRange (memory : List UInt8) (segs : List (ℕ × ℕ)) : Prop := ∀ e ∈ segs, e.1 + e.2 ≤ memory.length

/-- The memory has all bytes of the buffers.  An empty one may lie anywhere. -/
def Full (memory : List UInt8) (segs : List (ℕ × ℕ)) : Prop := ∀ e ∈ segs, (slice memory e.1 e.2).length = e.2

theorem InRange.full {memory : List UInt8} {segs : List (ℕ × ℕ)} (h : InRange memory segs) : Full memory segs :=
  fun e he => length_slice (h e he)

theorem length_writeAt_of_le {memory src : List UInt8} {off : ℕ} (hin : off + src.length ≤ memory.length) :
    (writeAt memory off src).length = memory.length := by
  rw [length_writeAt, Nat.max_eq_left hin]

section Buffers

variable {memory : List UInt8} {base len : ℕ} {segs : List (ℕ × ℕ)}

/-- The first of the buffers. -/
theorem InRange.head (h : InRange memory ((base, len) :: segs)) (data : List UInt8) :
    base + (data.take len).length ≤ memory.length := by
  have hle := h _ List.mem_cons_self
  rw [List.length_take]
  dsimp only at hle
  omega

theorem InRange.tail (h : InRange memory ((base, len) :: segs)) (data : List UInt8) :
    InRange (writeAt memory base (data.take len)) segs := by
  intro e he
  rw [length_writeAt_of_le (h.head data)]
  exact h e (List.mem_cons_of_mem _ he)

theorem scatter_nil (hin : InRange memory segs) : scatter memory segs [] = memory := by
  induction segs generalizing memory with
  | nil => rfl
  | cons e segs ih =>
      obtain ⟨base, len⟩ := e
      have hsame : writeAt memory base [] = memory := by
        have hle := hin (base, len) List.mem_cons_self
        dsimp only at hle
        exact (writeAt_nil_iff _ _).2 (by omega)
      rw [scatter, List.take_nil, List.drop_nil, hsame]
      exact ih fun e he => hin e (List.mem_cons_of_mem _ he)

/-- What lies outside of the buffers stays. -/
theorem slice_scatter (h : InRange memory segs) {e : ℕ × ℕ} (hapart : ∀ e' ∈ segs, Apart e' e) (data : List UInt8) :
    slice (scatter memory segs data) e.1 e.2 = slice memory e.1 e.2 := by
  induction segs generalizing memory data with
  | nil => rfl
  | cons e' segs ih =>
      obtain ⟨base, len⟩ := e'
      have hfirst : Apart (base, (data.take len).length) e := by
        have happ := hapart _ List.mem_cons_self
        unfold Apart at happ ⊢
        rw [List.length_take]
        dsimp only at happ ⊢
        omega
      rw [scatter, ih (h.tail data) fun e' he => hapart e' (List.mem_cons_of_mem _ he),
        slice_writeAt (h.head data) hfirst]

theorem gather_writeAt {src : List UInt8} (hin : base + src.length ≤ memory.length)
    (hapart : ∀ e ∈ segs, Apart (base, src.length) e) :
    gather (writeAt memory base src) segs = gather memory segs :=
  List.flatMap_congr fun e he => slice_writeAt hin (hapart e he)

/-- **What was put into the buffers is found there,** before what was there already. -/
theorem gather_scatter (h : InRange memory segs) (hapart : segs.Pairwise Apart) {data : List UInt8}
    (hlen : data.length ≤ (segs.map Prod.snd).sum) :
    gather (scatter memory segs data) segs = data ++ (gather memory segs).drop data.length := by
  induction segs generalizing memory data with
  | nil =>
      obtain rfl : data = [] := List.length_eq_zero_iff.1 (by simpa using hlen)
      rfl
  | cons e segs ih =>
      obtain ⟨base, len⟩ := e
      obtain ⟨hfirst, hrest⟩ := List.pairwise_cons.1 hapart
      have hin := h.head data
      have hwhole : base + len ≤ memory.length := h _ List.mem_cons_self
      have hshort : (data.take len).length ≤ len := by
        rw [List.length_take]
        omega
      have hleft : (data.drop len).length ≤ (segs.map Prod.snd).sum := by
        rw [List.map_cons, List.sum_cons] at hlen
        rw [List.length_drop]
        dsimp only at hlen
        omega
      have hothers : ∀ e ∈ segs, Apart (base, (data.take len).length) e := by
        intro e he
        have happ := hfirst e he
        unfold Apart at happ ⊢
        dsimp only at happ ⊢
        omega
      have hbuffer : slice (scatter memory ((base, len) :: segs) data) base len =
          data.take len ++ (slice memory base len).drop (data.take len).length :=
        (slice_scatter (e := (base, len)) (h.tail data) (fun e' he => (hfirst e' he).symm) _).trans
          (slice_writeAt_front hshort hwhole)
      rw [gather, List.flatMap_cons, hbuffer]
      show _ ++ gather (scatter (writeAt memory base (data.take len)) segs (data.drop len)) segs =
        data ++ (slice memory base len ++ gather memory segs).drop data.length
      rw [ih (h.tail data) hrest hleft, gather_writeAt hin hothers]
      have hsize := length_slice hwhole
      obtain hle | hlt := Nat.le_total data.length len
      · rw [List.take_of_length_le hle, List.drop_eq_nil_of_le hle, List.drop_append_of_le_length (by omega),
          List.append_assoc]
        rfl
      · have htake : (data.take len).length = len := by
          rw [List.length_take]
          omega
        have hfull : (slice memory base len).drop len = [] := List.drop_eq_nil_of_le (by omega)
        have hover : (slice memory base len).drop data.length = [] := List.drop_eq_nil_of_le (by omega)
        rw [htake, hfull, List.append_nil, ← List.append_assoc, List.take_append_drop, List.drop_append, hover,
          List.nil_append, List.length_drop, hsize]

end Buffers

end FilePieces
