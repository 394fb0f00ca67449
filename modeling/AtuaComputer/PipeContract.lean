/-
**What a write on a pipe returns.**

A program takes what `write` returns for the number of bytes that are on their way.  Nothing else tells it
whether the pipe was full, and it learns that nobody will read the pipe any more only from `EPIPE`.  The
loops of `localPipeWrite` and `localPipeWritev` end at a full ring wherever they are, and they never load
`read_closed`, which the bridge sets when the last read descriptor is closed.

Main definitions:

* `PipeContract.after` — the ring of `PipeRing`, with `read_closed`;
* `PipeContract.writeReturned` — what a call returns, if it returns in its next access;
* `PipeContract.Kept` — a call returns the number of its bytes in the stream and that is not zero, or it
  fails with `EPIPE` without a byte, and none goes to a pipe that nobody reads.

Main results:

* `PipeContract.kept_iff` — **when the calls of a run keep the contract**.
-/

import AtuaComputer.PipeRing

set_option relaxedAutoImplicit false
set_option autoImplicit false

namespace PipeContract

open Runs PipeRing

/-! ### Steps -/

/-- A pipe with one writer and one reader, and its `read_closed`. -/
structure State where
  ring : PipeRing.State Unit
  readClosed : Bool

/-- What happens: an access to the ring, and the close of the last read descriptor. -/
inductive Event where
  | ring (ev : PipeRing.Event Unit)
  | closeRead

/-- The pipe after an event. -/
def after (s : State) : Event → State
  | .ring ev => { s with ring := PipeRing.after s.ring ev }
  | .closeRead => { s with readClosed := true }

/-- The step relation. -/
def Step (s : State) (ev : Event) (s' : State) : Prop := s' = after s ev

/-- A new ring, with any `read_closed`. -/
def Starts (s : State) : Prop := PipeRing.Starts s.ring

/-! ### The contract -/

/-- The bytes of the writer's call, and what the call returns to the engine, if it returns in its next
access. -/
def writeReturned (r : PipeRing.State Unit) : Option (List UInt8 × Int32) :=
  match (r.writers ()).pc with
  | .loop bytes written =>
    if written < bytes.length then none else some (bytes, Int32.ofNat written)
  | .loaded bytes written wp _ =>
    if (wp + 1) % pipeBufSize = r.readPos then some (bytes, Int32.ofNat written) else none
  | _ => none

/-- The bytes of the call in progress that are in the stream. -/
def appended (r : PipeRing.State Unit) : List UInt8 := callBytes r.accepted () (r.writers ()).call

/-- What the engine hands on as `EPIPE` -/
def ePipe : Int32 := -32

/-- The contract.  A call with bytes fails with `EPIPE` on a pipe that nobody reads and has put no byte
into the stream, or it returns their number, which is not zero; and no byte goes into the stream of a pipe
that nobody reads. -/
def Kept (s : State) (ev : Event) (s' : State) : Prop :=
  ev = .ring (.stepWrite ()) →
    (∀ bytes result, writeReturned s.ring = some (bytes, result) → 0 < bytes.length →
      (result = ePipe ∧ s.readClosed = true ∧ appended s.ring = []) ∨
        (1 ≤ result.toInt ∧ ((appended s.ring).length : ℤ) = result.toInt)) ∧
    (s.readClosed = true → s'.ring.accepted = s.ring.accepted)

/-- The ring has room when a call stores its first byte, the length of the call fits the result, and
somebody may still read what is stored. -/
def Welcome (s : State) (ev : Event) : Prop :=
  ev = .ring (.stepWrite ()) →
    match (s.ring.writers ()).pc with
    | .loop bytes written => bytes.length ≤ written → bytes.length < 2 ^ 31
    | .loaded _ written wp _ =>
      (wp + 1) % pipeBufSize = s.ring.readPos → 0 < written ∧ written < 2 ^ 31
    | .stored _ _ _ _ => s.readClosed = false
    | _ => True

/-! ### One access -/

/-- A call has not written more than its bytes. -/
def Bounded (pc : WriterPc) : Prop :=
  ∀ bytes written, pc.progress = some (bytes, written) → written ≤ bytes.length

/-- The invariant of the pipe. -/
structure Inv (s : State) : Prop where
  alone : Alone s.ring
  bounded : Bounded (s.ring.writers ()).pc

theorem bounded_stepWrite {s : PipeRing.State Unit} (hinv : PipeRing.Inv s)
    (h : Bounded (s.writers ()).pc) : Bounded ((stepWrite s ()).writers ()).pc := by
  have hw := hinv.writers ()
  unfold stepWrite
  split
  · exact h
  · rename_i bytes written hpc
    rw [hpc] at h
    have hle : written ≤ bytes.length := h bytes written rfl
    split
    · intro b k hk
      simp only [setPc, Function.update_self, WriterPc.progress, Option.some.injEq, Prod.mk.injEq] at hk
      obtain ⟨rfl, rfl⟩ := hk
      exact hle
    · intro b k hk
      simp [setPc, WriterPc.progress] at hk
  · rename_i bytes written wp seen hpc
    rw [hpc] at h
    have hle : written ≤ bytes.length := h bytes written rfl
    split
    · intro b k hk
      simp [setPc, WriterPc.progress] at hk
    · intro b k hk
      simp only [setPc, Function.update_self, WriterPc.progress, Option.some.injEq, Prod.mk.injEq] at hk
      obtain ⟨rfl, rfl⟩ := hk
      exact hle
  · rename_i bytes written wp seen hpc
    rw [hpc] at h
    have hle : written ≤ bytes.length := h bytes written rfl
    intro b k hk
    simp only [setPc, Function.update_self, WriterPc.progress, Option.some.injEq, Prod.mk.injEq] at hk
    obtain ⟨rfl, rfl⟩ := hk
    exact hle
  · rename_i bytes written wp seen hpc
    rw [hpc] at hw
    have hlt : written < bytes.length := hw.1
    intro b k hk
    simp only [setPc, Function.update_self, WriterPc.progress, Option.some.injEq, Prod.mk.injEq] at hk
    obtain ⟨rfl, rfl⟩ := hk
    exact hlt

theorem bounded_callWrite {s : PipeRing.State Unit} (h : Bounded (s.writers ()).pc) (call : WriteCall) :
    Bounded ((callWrite s () call).writers ()).pc := by
  unfold callWrite
  split
  · intro b k hk
    simp only [Function.update_self, WriterPc.progress, Option.some.injEq, Prod.mk.injEq] at hk
    obtain ⟨rfl, rfl⟩ := hk
    exact Nat.zero_le _
  · exact h

theorem inv_after {s : State} (h : Inv s) (ev : Event) : Inv (after s ev) := by
  cases ev with
  | closeRead => exact ⟨h.alone, h.bounded⟩
  | ring ev =>
    refine ⟨alone_after h.alone, ?_⟩
    cases ev with
    | callWrite w call => exact bounded_callWrite h.bounded call
    | stepWrite w => exact bounded_stepWrite h.alone.inv h.bounded
    | callRead call =>
      show Bounded ((callRead s.ring call).writers ()).pc
      rw [(callRead_frame s.ring call).2.1]
      exact h.bounded
    | stepRead =>
      show Bounded ((stepRead s.ring).writers ()).pc
      rw [(stepRead_frame s.ring).2.1]
      exact h.bounded
    | close => exact h.bounded

theorem inv_of_starts {s : State} (h : Starts s) : Inv s := by
  refine ⟨alone_of_starts h, ?_⟩
  intro bytes written hp
  rw [h.writers] at hp
  cases hp

/-- The engine gets the count back from 32 bits exactly when it is small. -/
theorem toInt_ofNat_iff (n : ℕ) : (Int32.ofNat n).toInt = (n : ℤ) ↔ n < 2 ^ 31 := by
  have hsize : Int32.size = 4294967296 := rfl
  rw [Int32.toInt_ofNat', Int.bmod_def, hsize]
  omega

/-- A call that returns a count has put so many of its bytes into the stream. -/
theorem Inv.length_appended {s : State} (h : Inv s) {bytes : List UInt8} {written : ℕ}
    (hp : (s.ring.writers ()).pc.progress = some (bytes, written)) : (appended s.ring).length = written := by
  have hle : written ≤ bytes.length := h.bounded bytes written hp
  rw [appended, h.alone.counted () bytes written hp, List.length_take, Nat.min_eq_left hle]

/-- What the contract asks for when a call returns its count. -/
theorem Inv.answer_iff {s : State} (h : Inv s) {bytes : List UInt8} {written : ℕ}
    (hp : (s.ring.writers ()).pc.progress = some (bytes, written)) :
    ((Int32.ofNat written = ePipe ∧ s.readClosed = true ∧ appended s.ring = []) ∨
        (1 ≤ (Int32.ofNat written).toInt ∧ ((appended s.ring).length : ℤ) = (Int32.ofNat written).toInt)) ↔
      0 < written ∧ written < 2 ^ 31 := by
  have hlen : (appended s.ring).length = written := h.length_appended hp
  rw [hlen]
  constructor
  · rintro (⟨hres, -, hnil⟩ | ⟨hpos, hres⟩)
    · -- a count without bytes is zero, and zero is not an error
      obtain rfl : written = 0 := by rw [← hlen, hnil, List.length_nil]
      exact absurd hres (by decide)
    · have hlt : written < 2 ^ 31 := (toInt_ofNat_iff written).1 hres.symm
      omega
  · rintro ⟨hpos, hlt⟩
    right
    rw [(toInt_ofNat_iff written).2 hlt]
    omega

theorem length_append_ne {α : Type} (l : List α) (a : α) : l ++ [a] ≠ l := by
  intro h
  have hlen := congrArg List.length h
  simp at hlen

/-- **One access keeps the contract exactly when it is welcome.** -/
theorem kept_step_iff {s s' : State} {ev : Event} (h : Inv s) (hs' : Step s ev s') :
    Kept s ev s' ↔ Welcome s ev := by
  refine forall_congr' fun hev => ?_
  subst hev
  obtain rfl : s' = { s with ring := stepWrite s.ring () } := hs'
  have hw := h.alone.inv.writers ()
  cases hpc : (s.ring.writers ()).pc with
  | idle => simp [writeReturned, hpc, stepWrite]
  | checked bytes written wp seen => simp [writeReturned, hpc, stepWrite, setPc]
  | stored bytes written wp seen =>
    have hne := length_append_ne s.ring.accepted
      ⟨(), (s.ring.writers ()).call, decide (bytes.length ≤ 4096), bytes.getD written 0⟩
    simp [writeReturned, hpc, stepWrite, setPc]
  | loop bytes written =>
    have hp : (s.ring.writers ()).pc.progress = some (bytes, written) := by rw [hpc]; rfl
    have hle : written ≤ bytes.length := h.bounded bytes written hp
    have hacc : (stepWrite s.ring ()).accepted = s.ring.accepted := by
      unfold stepWrite
      rw [hpc]
      dsimp only
      split <;> rfl
    -- the loop ends the call only when all bytes are published
    by_cases hlt : written < bytes.length
    · have hret : writeReturned s.ring = none := by simp [writeReturned, hpc, hlt]
      constructor
      · intro _ hge
        omega
      · intro _
        exact ⟨fun b r hb => absurd (hret.symm.trans hb) (by simp), fun _ => hacc⟩
    · have hret : writeReturned s.ring = some (bytes, Int32.ofNat written) := by simp [writeReturned, hpc, hlt]
      constructor
      · rintro ⟨hall, -⟩ hge
        rcases Nat.eq_zero_or_pos bytes.length with hzero | hpos
        · omega
        · have hlong : written < 2 ^ 31 := ((h.answer_iff hp).1 (hall bytes _ hret hpos)).2
          omega
      · intro hlong
        refine ⟨fun b r hb hpos => ?_, fun _ => hacc⟩
        obtain ⟨rfl, rfl⟩ : bytes = b ∧ Int32.ofNat written = r := by simpa [hret] using hb
        have hlt' : bytes.length < 2 ^ 31 := hlong (by omega)
        exact (h.answer_iff hp).2 ⟨by omega, by omega⟩
  | loaded bytes written wp seen =>
    have hp : (s.ring.writers ()).pc.progress = some (bytes, written) := by rw [hpc]; rfl
    rw [hpc] at hw
    have hlt : written < bytes.length := hw.1
    have hacc : (stepWrite s.ring ()).accepted = s.ring.accepted := by
      unfold stepWrite
      rw [hpc]
      dsimp only
      split <;> rfl
    -- here the call ends if the ring is full
    by_cases hfull : (wp + 1) % pipeBufSize = s.ring.readPos
    · have hret : writeReturned s.ring = some (bytes, Int32.ofNat written) := by simp [writeReturned, hpc, hfull]
      constructor
      · rintro ⟨hall, -⟩ _
        exact (h.answer_iff hp).1 (hall bytes _ hret (by omega))
      · intro hroom
        refine ⟨fun b r hb hpos => ?_, fun _ => hacc⟩
        obtain ⟨rfl, rfl⟩ : bytes = b ∧ Int32.ofNat written = r := by simpa [hret] using hb
        exact (h.answer_iff hp).2 (hroom hfull)
    · have hret : writeReturned s.ring = none := by simp [writeReturned, hpc, hfull]
      constructor
      · intro _ heq
        exact absurd heq hfull
      · intro _
        exact ⟨fun b r hb => absurd (hret.symm.trans hb) (by simp), fun _ => hacc⟩

/-! ### Runs -/

/-- **The contract of `write`.**  In every run of a writer, a reader and closes of the read end, the calls
keep the contract exactly when no call finds the ring full before its first byte, none is longer than its
result can say, and no byte is published after the last read descriptor was closed. -/
theorem kept_iff {s : State} {tr : List (Event × State)} (hs : Starts s) (hrun : IsRun Step s tr) :
    EachStep Kept s tr ↔ Meets Welcome s tr := by
  refine eachStep_iff_meets (I := Inv) ?_ ?_ (inv_of_starts hs) hrun
  · rintro s ev s' h rfl
    exact inv_after h ev
  · intro s ev s' h hs'
    exact kept_step_iff h hs'

/-- A pipe that nobody has used, its read end open. -/
def fresh : State := ⟨PipeRing.fresh, false⟩

/-- The last read descriptor is closed, and a call writes one byte. -/
def nobodyReads : List Event :=
  [.closeRead, .ring (.callWrite () (.write [7])), .ring (.stepWrite ()), .ring (.stepWrite ()),
    .ring (.stepWrite ()), .ring (.stepWrite ()), .ring (.stepWrite ())]

/-- The byte goes into the ring, and the call returns that it has written one. -/
theorem written_to_nobodyReads :
    Starts fresh ∧ IsRun Step fresh (trace after fresh nobodyReads) ∧
      ¬ EachStep Kept fresh (trace after fresh nobodyReads) := by
  refine ⟨starts_fresh, isRun_trace _ _ _, ?_⟩
  rintro ⟨-, -, -, -, -, hstore, -⟩
  have hlen := congrArg List.length ((hstore rfl).2 rfl)
  exact absurd hlen (by decide)

/-- A call writes two bytes and the reader takes them; then the last read descriptor is closed. -/
def somebodyReads : List Event :=
  .ring (.callWrite () (.write [7, 8])) :: List.replicate 9 (.ring (.stepWrite ())) ++
    .ring (.callRead (.read 2)) :: List.replicate 9 (.ring .stepRead) ++ [.closeRead]

/-- The contract is kept where somebody reads, and not where nobody does. -/
theorem kept_iff_reads : EachStep Kept fresh (trace after fresh somebodyReads) ∧
    ¬ EachStep Kept fresh (trace after fresh nobodyReads) := by
  constructor
  · have hother : ∀ s ev, ev ≠ .ring (.stepWrite ()) → Welcome s ev := fun _ _ hne h => absurd h hne
    have hread : ∀ s, Welcome s (.ring .stepRead) := fun s => hother s _ (by simp)
    refine (@kept_iff fresh _ starts_fresh (isRun_trace _ _ _)).2 ⟨hother _ _ (by simp), ?_, ?_, ?_, ?_, ?_, ?_, ?_, ?_, ?_,
      hother _ _ (by simp), hread _, hread _, hread _, hread _, hread _, hread _, hread _, hread _, hread _,
      hother _ _ (by simp), trivial⟩
    -- the writer's accesses: the loop, the two positions, the byte, the position, for each byte
    · exact fun _ h => absurd h (by decide)
    · exact fun _ h => absurd h (by decide)
    · exact fun _ => trivial
    · exact fun _ => rfl
    · exact fun _ h => absurd h (by decide)
    · exact fun _ h => absurd h (by decide)
    · exact fun _ => trivial
    · exact fun _ => rfl
    · exact fun _ _ => (by decide : 2 < 2 ^ 31)
  · intro h
    obtain ⟨-, -, -, -, -, hstored, -⟩ := (@kept_iff fresh _ starts_fresh (isRun_trace _ _ _)).1 h
    have hopen : true = false := hstored rfl
    cases hopen

end PipeContract
